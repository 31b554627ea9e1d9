import Suban.Stableswap.Invariant
import Suban.Stableswap.Transitions

namespace Suban.Stableswap.Growth

open Suban.Basis.Calls Suban.Basis.Tables Suban.Soroban.Host
open Suban.Stableswap.Contract Suban.Stableswap.Invariant Suban.Stableswap.Transitions

variable {Address W : Type} [DecidableEq Address] {contract : Address}
variable {T : Sep41 Address W} {env : Env Address contract} {s : Storage Address W} {amp : Nat}

theorem sharesFor_ne_error {x y : Int} (hamp : 0 < amp) (hA : 0 < s.reserveA)
    (hA' : s.reserveA ≤ maxI128) (hB : 0 < s.reserveB) (hB' : s.reserveB ≤ maxI128) (hx : 0 < x)
    (hx' : x ≤ maxI128) (hy : 0 < y) (hy' : y ≤ maxI128) (f : Fault) :
    sharesFor s amp x y ≠ .error (.error f) := by
  have hAU := asU128_pos hA hA'
  have hBU := asU128_pos hB hB'
  unfold sharesFor
  split
  next =>
    have hD := computeD_ne_error (asU128_pos hx hx') (asU128_pos hy hy') hamp f
    exact bind_ne_error hD fun _ _ => pure_ne_error _ _
  next =>
    refine bind_ne_error (computeD_ne_error hAU hBU hamp f) fun d₀ hd₀ => ?_
    refine bind_ne_error (checked_ne_error _ f) fun reserveA hreserveA => ?_
    refine bind_ne_error (checked_ne_error _ f) fun reserveB hreserveB => ?_
    obtain ⟨⟨-, hAmax⟩, rfl⟩ := checked_eq_ok.mp hreserveA
    obtain ⟨⟨-, hBmax⟩, rfl⟩ := checked_eq_ok.mp hreserveB
    have hAsum := asU128_eq (by omega) hAmax
    have hBsum := asU128_eq (by omega) hBmax
    have hAold := asU128_eq hA.le hA'
    have hBold := asU128_eq hB.le hB'
    refine bind_ne_error (computeD_ne_error (by omega) (by omega) hamp f) fun d₁ hd₁ => ?_
    have hle := computeD_le hAU hBU hamp (by omega) (by omega) hd₀ hd₁
    have hd2 := two_le_computeD hAU hBU hamp hd₀
    refine bind_ne_error (subU_ne_error hle f) fun _ _ => ?_
    refine bind_ne_error (mulU_ne_error _ _ f) fun _ _ => ?_
    exact bind_ne_error (divU_ne_error (by omega) f) fun _ _ => pure_ne_error _ _

theorem addLiquidity_ne_error {provider : Address} {x y minSharesOut : Int} {f : Fault}
    (hf : f = .underflow ∨ f = .divisionByZero) (hamp : 0 < amp)
    (hamplified : s.amplification = some amp) (hA : 0 < s.reserveA) (hA' : s.reserveA ≤ maxI128)
    (hB : 0 < s.reserveB) (hB' : s.reserveB ≤ maxI128) (hx : x ≤ maxI128) (hy : y ≤ maxI128) :
    addLiquidity T env s provider x y minSharesOut ≠ .error (.error f) := by
  refine bind_ne_error (panicIf_ne_error _ f) fun _ _ => ?_
  refine bind_ne_error (rejectIf_ne_error (pool_ne hf _)) fun _ hpos => ?_
  obtain ⟨hx0, hy0⟩ := not_or.mp (rejectIf_eq_ok.mp hpos)
  refine bind_ne_error (unwrap_ne_error _ f) fun amp' hamp' => ?_
  rw [hamplified, unwrap_eq_ok] at hamp'
  cases hamp'
  have hshares := sharesFor_ne_error hamp hA hA' hB hB' (not_le.mp hx0) hx (not_le.mp hy0) hy f
  refine bind_ne_error hshares fun _ _ => ?_
  refine bind_ne_error (rejectIf_ne_error (pool_ne hf _)) fun _ _ => ?_
  refine bind_ne_error (unwrap_ne_error _ f) fun _ _ => ?_
  refine bind_ne_error (unwrap_ne_error _ f) fun _ _ => ?_
  refine bind_ne_error (unwrap_ne_error _ f) fun _ _ => ?_
  refine bind_ne_error (unwrap_ne_error _ f) fun _ _ => ?_
  refine bind_ne_error (checked_ne_error _ f) fun _ _ => ?_
  refine bind_ne_error (checked_ne_error _ f) fun _ _ => ?_
  refine bind_ne_error (checked_ne_error _ f) fun _ _ => ?_
  exact bind_ne_error (checked_ne_error _ f) fun _ _ => pure_ne_error _ _

/-- More of both tokens makes the invariant no smaller, so that no deposit is
refused for an invariant that got smaller or is zero. -/
theorem deposit_grows {x y : Nat} {ra rb : Nat} (hamp : 1 ≤ amp) (hra : 1 ≤ ra) (hrb : 1 ≤ rb)
    (hx : 1 ≤ x) (hy : 1 ≤ y) :
    (∀ d₀ d₁, computeD ra rb amp = .ok d₀ → computeD (ra + x) (rb + y) amp = .ok d₁ → d₀ ≤ d₁) ∧
    ∀ (s : Storage Address W) provider minSharesOut f, s.amplification = some amp →
      s.reserveA = ra → s.reserveB = rb → (ra : Int) ≤ maxI128 → (rb : Int) ≤ maxI128 →
      (x : Int) ≤ maxI128 → (y : Int) ≤ maxI128 → f = .underflow ∨ f = .divisionByZero →
      addLiquidity T env s provider x y minSharesOut ≠ .error (.error f) := by
  refine ⟨fun d₀ d₁ h₀ h₁ => computeD_le hra hrb hamp (by omega) (by omega) h₀ h₁, ?_⟩
  intro s provider minSharesOut f hamplified hA hB hra' hrb' hx' hy' hf
  exact addLiquidity_ne_error hf hamp hamplified (by omega) (by omega) (by omega) (by omega) hx' hy'

theorem deposit_grows_sample :
    computeD 1000 3 100 = .ok 868 ∧ computeD (1000 + 1) (3 + 2) 100 = .ok 913 ∧ 868 ≤ 913 := by
  have hra : 1 ≤ 1000 := by decide
  have hrb : 1 ≤ 3 := by decide
  have hx : 1 ≤ 1 := by decide
  have hy : 1 ≤ 2 := by decide
  have hamp : 1 ≤ 100 := by decide
  have hall := @deposit_grows Nat _ _ 0 (bookToken Nat) (Env.signed 0 0) 100 1 2 1000 3 hamp hra
    hrb hx hy
  have h₀ : computeD 1000 3 100 = .ok 868 := rfl
  have h₁ : computeD (1000 + 1) (3 + 2) 100 = .ok 913 := rfl
  exact ⟨h₀, h₁, hall.1 868 913 h₀ h₁⟩

end Suban.Stableswap.Growth
