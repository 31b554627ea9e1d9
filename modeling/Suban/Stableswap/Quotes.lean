import Suban.Stableswap.Outputs
import Suban.Stableswap.Transitions

namespace Suban.Stableswap.Quotes

open Suban.Basis.Calls Suban.Basis.Tables Suban.Soroban.Host
open Suban.Stableswap.Contract Suban.Stableswap.Invariant Suban.Stableswap.Outputs
open Suban.Stableswap.Transitions

variable {Address W : Type} [DecidableEq Address] {contract : Address}
variable {T : Sep41 Address W} {env : Env Address contract} {s t : Storage Address W}
variable {d : Side Address} {tokenIn trader : Address} {amountIn minOut amountOut : Int}
variable {amp : Nat} {f : Fault}

section Filled

variable (hf : f = .underflow ∨ f = .divisionByZero) (hamp : 0 < amp)
variable (hamplified : s.amplification = some amp)
variable (hfilled : ∀ d, side s tokenIn = .ok d → Filled d) (hpos' : amountIn ≤ maxI128)

include hamp hpos'

theorem outputFor_ne_error (hd : Filled d) (hpos : 0 < amountIn) (f : Fault) :
    outputFor s amp d.reserveIn d.reserveOut amountIn ≠ .error (.error f) := by
  have hinU := asU128_pos hd.in_pos hd.in_le
  have houtU := asU128_pos hd.out_pos hd.out_le
  have hposU := asU128_pos hpos hpos'
  refine bind_ne_error (computeY_ne_error hinU houtU hposU hamp f) fun y hy => ?_
  obtain ⟨d, -, hleft⟩ := computeY_ok hinU houtU hposU hamp hy
  refine bind_ne_error (subU_ne_error hleft.le f) fun _ _ => ?_
  exact bind_ne_error (checked_ne_error _ f) fun _ _ => pure_ne_error _ _

include hf hamplified hfilled

/-- The view of a pool with reserves computes the output without a fault. -/
theorem getQuote_ne_error (hpos : 0 < amountIn) :
    getQuote s tokenIn amountIn ≠ .error (.error f) := by
  refine bind_ne_error (side_ne_error hf) fun d hd => ?_
  refine bind_ne_error (rejectIf_ne_error (pool_ne hf _)) fun _ _ => ?_
  refine bind_ne_error (unwrap_ne_error _ f) fun amp' hamp' => ?_
  cases hamplified.symm.trans (unwrap_eq_ok.mp hamp')
  exact outputFor_ne_error hamp hpos' (hfilled d hd) hpos f

theorem swap_ne_error : swap T env s trader tokenIn amountIn minOut ≠ .error (.error f) := by
  refine bind_ne_error (panicIf_ne_error _ f) fun _ _ => ?_
  refine bind_ne_error (rejectIf_ne_error (pool_ne hf _)) fun _ hpos => ?_
  have hpos := not_le.mp (rejectIf_eq_ok.mp hpos)
  refine bind_ne_error (side_ne_error hf) fun d hd => ?_
  refine bind_ne_error (rejectIf_ne_error (pool_ne hf _)) fun _ _ => ?_
  refine bind_ne_error (unwrap_ne_error _ f) fun amp' hamp' => ?_
  cases hamplified.symm.trans (unwrap_eq_ok.mp hamp')
  refine bind_ne_error (outputFor_ne_error hamp hpos' (hfilled d hd) hpos f) fun _ _ => ?_
  refine bind_ne_error (rejectIf_ne_error (pool_ne hf _)) fun _ _ => ?_
  refine bind_ne_error (unwrap_ne_error _ f) fun _ _ => ?_
  refine bind_ne_error (checked_ne_error _ f) fun _ _ => ?_
  refine bind_ne_error (checked_ne_error _ f) fun _ _ => ?_
  refine bind_ne_error (unwrap_ne_error _ f) fun _ _ => ?_
  refine bind_ne_error (unwrap_ne_error _ f) fun _ _ => ?_
  exact bind_ne_error (unwrap_ne_error _ f) fun _ _ => pure_ne_error _ _

end Filled

theorem quote_eq (h : Swapped s tokenIn amountIn d amp amountOut t) :
    getQuote s tokenIn amountIn = .ok amountOut := by
  simp only [getQuote, bind_eq_ok, rejectIf_eq_ok, unwrap_eq_ok]
  exact ⟨d, h.side_eq, (), not_or.mpr h.reserves, amp, h.amplified, h.output⟩

/-- With reserves in the pool the iteration for the other reserve runs into no
fault, and ends at most at the old one. Neither does a swap or the view, and they
agree about the output. -/
theorem trade_safe {reserveIn amountIn reserveOut : Nat} (hamp : 1 ≤ amp) (hin : 1 ≤ reserveIn)
    (hout : 1 ≤ reserveOut) (hamount : 1 ≤ amountIn) :
    (∀ f, computeY reserveIn amountIn reserveOut amp ≠ .error (.error f)) ∧
    (∀ y, computeY reserveIn amountIn reserveOut amp = .ok y → y ≤ reserveOut) ∧
    ∀ (s : Storage Address W) tokenIn d, s.amplification = some amp →
      side s tokenIn = .ok d → d.reserveIn = reserveIn → d.reserveOut = reserveOut →
      (reserveIn : Int) ≤ maxI128 → (reserveOut : Int) ≤ maxI128 → (amountIn : Int) ≤ maxI128 →
      ∀ (env : Env Address contract) trader minOut,
        (∀ f, f = .underflow ∨ f = .divisionByZero →
          getQuote s tokenIn amountIn ≠ .error (.error f) ∧
          swap T env s trader tokenIn amountIn minOut ≠ .error (.error f)) ∧
        ∀ amountOut t, swap T env s trader tokenIn amountIn minOut = .ok (amountOut, t) →
          getQuote s tokenIn amountIn = .ok amountOut := by
  refine ⟨computeY_ne_error hin hout hamount hamp, fun y hy => ?_, ?_⟩
  · obtain ⟨d, -, hleft⟩ := computeY_ok hin hout hamount hamp hy
    exact hleft.le
  · intro s tokenIn d hamplified hd hreserveIn hreserveOut hin' hout' hamount' env trader minOut
    have hfilled (d' : Side Address) (hd' : side s tokenIn = .ok d') : Filled d' := by
      cases hd.symm.trans hd'
      exact ⟨by omega, by omega, by omega, by omega⟩
    refine ⟨fun f hf => ⟨?_, ?_⟩, fun amountOut t h => ?_⟩
    · exact getQuote_ne_error hf hamp hamplified hfilled hamount' (by omega)
    · exact swap_ne_error hf hamp hamplified hfilled hamount'
    · obtain ⟨d', amp', hswapped⟩ := swap_ok h
      exact quote_eq hswapped

theorem trade_safe_sample :
    (∀ f, computeY 1000 100 1000 50 ≠ .error (.error f)) ∧
      computeY 1000 100 1000 50 = .ok 900 ∧ 900 ≤ 1000 := by
  have hamp : 1 ≤ 50 := by decide
  have hin : 1 ≤ 1000 := by decide
  have hamount : 1 ≤ 100 := by decide
  have hall := @trade_safe Nat _ _ 0 (bookToken Nat) 50 1000 100 1000 hamp hin hin hamount
  have hy : computeY 1000 100 1000 50 = .ok 900 := rfl
  exact ⟨hall.1, hy, hall.2.1 900 hy⟩

end Suban.Stableswap.Quotes
