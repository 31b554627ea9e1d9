import Suban.Stableswap.Books
import Suban.Stableswap.Growth
import Suban.Stableswap.Quotes

namespace Suban.Stableswap.Reserves

open Suban.Basis.Calls Suban.Basis.Tables Suban.Basis.Division Suban.Basis.Runs
open Suban.Soroban.Host Suban.Stableswap.Contract Suban.Stableswap.Invariant
open Suban.Stableswap.Outputs Suban.Stableswap.Transitions Suban.Stableswap.Growth
open Suban.Stableswap.Quotes Suban.Stableswap.Value Suban.Stableswap.Books

variable {Address W : Type} [DecidableEq Address] {contract : Address}
variable {T : Sep41 Address W} {env : Env Address contract} {s t : Storage Address W} {amp : Nat}

def Stocked (s : Storage Address W) : Prop :=
  0 < s.totalShares → 0 < s.reserveA ∧ 0 < s.reserveB

/-- A swap takes a fee, or is of an amount for which the curve leaves a whole unit
of the token paid out. -/
def Leaves (s : Storage Address W) : Input Address W contract (Call Address) → Prop
  | .call _ (.swap _ tokenIn amountIn _) => 0 < s.feeBps ∨
      ∀ d amp invariant, side s tokenIn = .ok d → s.amplification = some amp →
        computeD (asU128 d.reserveIn) (asU128 d.reserveOut) amp = .ok invariant →
        swapSlope d amountIn amp invariant < swapConstant d amountIn amp invariant
  | _ => True

/-- A pool with shares has both reserves, and neither the invariant of these nor
a deposit or a swap runs into a fault of the arithmetic. -/
def Usable (T : Sep41 Address W) (contract : Address) (s : Storage Address W) : Prop :=
  0 < s.totalShares → (0 < s.reserveA ∧ 0 < s.reserveB) ∧
    ∀ f, f = .underflow ∨ f = .divisionByZero →
      (∀ amp, s.amplification = some amp →
        computeD (asU128 s.reserveA) (asU128 s.reserveB) amp ≠ .error (.error f)) ∧
      (∀ (env : Env Address contract) provider x y minShares, x ≤ maxI128 → y ≤ maxI128 →
        addLiquidity T env s provider x y minShares ≠ .error (.error f)) ∧
      ∀ (env : Env Address contract) trader tokenIn x minOut, x ≤ maxI128 →
        swap T env s trader tokenIn x minOut ≠ .error (.error f)

theorem total_initialise {w : W} {admin tokenA tokenB : Address}
    (h : initialise env (.fresh w) admin tokenA tokenB amp = .ok s) : s.totalShares = 0 := by
  simp only [initialise, bind_eq_ok, pure_eq_ok] at h
  obtain ⟨_, -, _, -, _, -, _, -, _, -, rfl⟩ := h
  rfl

section Steps

variable {provider tokenIn : Address} {amountA amountB amountIn amountOut shares sharesIn : Int}
variable {amp' : Nat} {d : Side Address}

theorem stocked_add (hs : Booked amp s) (h : Added s provider amountA amountB amp' shares t) :
    Stocked t := by
  intro
  obtain ⟨hA, hB⟩ := h.positive
  obtain ⟨hreserveA, hreserveB⟩ := h.reserves
  have hA0 := hs.reserveA.1
  have hB0 := hs.reserveB.1
  omega

theorem stocked_remove (hs : Booked amp s) (hstocked : Stocked s)
    (h : Removed s provider sharesIn amountA amountB t) : Stocked t := by
  intro hshares
  rw [h.total] at hshares
  have hpos := h.positive
  have htotal : 0 < s.totalShares := by omega
  obtain ⟨hA, hB⟩ := hstocked htotal
  obtain ⟨-, hlowA, -⟩ := hs.redeem_bounds hpos.le (by omega) hA.le hs.reserveA.2 h.worth.1
  obtain ⟨-, hlowB, -⟩ := hs.redeem_bounds hpos.le (by omega) hB.le hs.reserveB.2 h.worth.2
  rw [h.reserves.1, h.reserves.2]
  exact ⟨sub_pos.mpr (amount_lt htotal (by omega) hA hlowA),
    sub_pos.mpr (amount_lt htotal (by omega) hB hlowB)⟩

theorem output_lt {out y feeBps : Int} (hout : 0 < out) (hy : 0 ≤ y) (hyout : y ≤ out)
    (hfee : 0 ≤ feeBps) (hkeep : 0 < feeBps ∨ 0 < y) :
    ((out - y) * (10000 - feeBps)).tdiv 10000 < out := by
  have hless : (out - y) * (10000 - feeBps) < out * 10000 := by
    have hfees : 0 ≤ (out - y) * feeBps := mul_nonneg (by omega) hfee
    obtain hfee | hleft := hkeep
    · obtain rfl | hleft := hy.eq_or_lt
      · have hfees' : 0 < out * feeBps := mul_pos hout hfee
        linarith
      · linarith
    · linarith
  have hle : ((out - y) * (10000 - feeBps)).tdiv 10000 ≤ out - 1 := by
    rwa [tdiv_le_iff (by norm_num) (by omega), sub_add_cancel]
  omega

theorem stocked_swap (hs : Booked amp s)
    (hleaves : 0 < s.feeBps ∨ ∀ d amp invariant, side s tokenIn = .ok d →
      s.amplification = some amp →
      computeD (asU128 d.reserveIn) (asU128 d.reserveOut) amp = .ok invariant →
      swapSlope d amountIn amp invariant < swapConstant d amountIn amp invariant)
    (h : Swapped s tokenIn amountIn d amp' amountOut t) : Stocked t := by
  intro
  have hd := hs.filled h
  cases hs.amplified.symm.trans h.amplified
  obtain ⟨invariant, y, hinvariant, hleft, houtput⟩ := exists_left h hs.amp_pos hd
  have hin := hd.in_pos
  have hout := hd.out_pos
  have hpos := h.positive
  have houtEq := asU128_eq hout.le hd.out_le
  have hle := hleft.le
  have hkeep : 0 < (s.feeBps : Int) ∨ 0 < (y : Int) := by
    obtain hfee | hcurve := hleaves
    · exact .inl (by omega)
    · have hy := hleft.pos (hcurve d amp invariant h.side_eq h.amplified hinvariant)
      exact .inr (by omega)
  have hlt := output_lt hout (by omega) (by omega) (by omega) hkeep
  rw [← houtput] at hlt
  rw [h.reserveA_eq, h.reserveB_eq]
  split_ifs <;> omega

end Steps

theorem stocked_step {i : Input Address W contract (Call Address)} (hs : Booked amp s)
    (hstocked : Stocked s) (hleaves : Leaves s i) (h : step T s i = .ok t) : Stocked t := by
  cases i with
  | world w =>
    cases pure_eq_ok.mp h
    exact hstocked
  | call env c =>
    cases invoke_transition h with
    | setFee admin feeBps hfee => exact hstocked
    | add provider amountA amountB minShares amp shares t h => exact stocked_add hs h
    | remove provider sharesIn minA minB amountA amountB t h =>
      exact stocked_remove hs hstocked h
    | swap trader tokenIn amountIn minOut d amp amountOut t h => exact stocked_swap hs hleaves h

theorem usable_of_stocked (hs : Booked amp s) (hstocked : Stocked s) : Usable T contract s := by
  intro hshares
  obtain ⟨hA, hB⟩ := hstocked hshares
  have hA' := hs.reserveA.2
  have hB' := hs.reserveB.2
  refine ⟨⟨hA, hB⟩, fun f hf => ⟨?_, ?_, ?_⟩⟩
  · intro amp' hamp'
    cases hs.amplified.symm.trans hamp'
    exact computeD_ne_error (asU128_pos hA hA') (asU128_pos hB hB') hs.amp_pos f
  · intro env provider x y minShares hx hy
    exact addLiquidity_ne_error hf hs.amp_pos hs.amplified hA hA' hB hB' hx hy
  · intro env trader tokenIn x minOut hx
    refine swap_ne_error hf hs.amp_pos hs.amplified (fun d hd => ?_) hx
    obtain ⟨-, hin, hout⟩ | ⟨-, hin, hout⟩ := side_ok hd
    · exact ⟨hin ▸ hA, hin ▸ hA', hout ▸ hB, hout ▸ hB'⟩
    · exact ⟨hin ▸ hB, hin ▸ hB', hout ▸ hA, hout ▸ hA'⟩

/-- In a run whose swaps leave something of the token paid out a pool with shares
stays usable. -/
theorem usable_throughout {w : W} {admin tokenA tokenB : Address}
    (h : initialise env (.fresh w) admin tokenA tokenB amp = .ok s)
    (is : List (Input Address W contract (Call Address)))
    (hleaves : Along (step T) Leaves s is) : Throughout (step T) (Usable T contract) s is := by
  have hbooked := booked_initialise h
  have hstocked : Stocked s := fun hshares => absurd (total_initialise h) hshares.ne'
  have hall : Throughout (step T) (fun s => Booked amp s ∧ Stocked s) s is :=
    throughout_of_along
      (fun _ _ _ hs hi ht => ⟨booked_step ht hs.1, stocked_step hs.1 hs.2 hi ht⟩)
      ⟨hbooked, hstocked⟩ hleaves
  exact throughout_mono (fun _ hs => usable_of_stocked hs.1 hs.2) hall

def feelessPool : Storage Nat (Nat → Nat → Nat) :=
  run (step (bookToken Nat)) (openPool 100)
    [.call (Env.signed 0 1) (.addLiquidity 2 10 10 0), .call (Env.signed 0 2) (.setFee 1 0)]

theorem usable_throughout_sample :
    Throughout (step (bookToken Nat)) (Usable (bookToken Nat) 0) (openPool 100)
      [.call (Env.signed 0 1) (.addLiquidity 2 10 10 0), .call (Env.signed 0 2) (.setFee 1 0),
        .call (Env.signed 0 3) (.swap 2 8 5 0)] := by
  have hopen : initialise (Env.signed 0 0) (.fresh sampleWorld) 1 8 9 100 = .ok (openPool 100) :=
    rfl
  refine usable_throughout hopen _ ⟨fun _ _ => trivial, fun _ _ => trivial, fun _ _ => .inr ?_,
    trivial⟩
  intro d amp invariant hside hamp hinvariant
  have hside' : side feelessPool 8 = .ok ⟨10, 10, 9, true⟩ := rfl
  have hamp' : feelessPool.amplification = some 100 := rfl
  cases hside'.symm.trans hside
  cases hamp'.symm.trans hamp
  have hinvariant' : computeD (asU128 10) (asU128 10) 100 = .ok 20 := rfl
  cases hinvariant'.symm.trans hinvariant
  decide +kernel

def drainedPool : Storage Nat (Nat → Nat → Nat) :=
  run (step (bookToken Nat)) (openPool 100)
    [.call (Env.signed 0 1) (.addLiquidity 2 1 1 0), .call (Env.signed 0 2) (.setFee 1 0),
      .call (Env.signed 0 3) (.swap 2 8 1 0)]

/-- The pool has shares and no second reserve, and every later deposit divides by
zero. -/
theorem swap_drains_pool :
    initialise (Env.signed 0 0) (.fresh sampleWorld) 1 8 9 100 = .ok (openPool 100) ∧
      drainedPool.totalShares = 2 ∧ (drainedPool.reserveA, drainedPool.reserveB) = (2, 0) ∧
      addLiquidity (bookToken Nat) (Env.signed 0 4) drainedPool 2 5 5 0 =
        .error (.error .divisionByZero) :=
  ⟨rfl, by decide +kernel, by decide +kernel, rfl⟩

end Suban.Stableswap.Reserves
