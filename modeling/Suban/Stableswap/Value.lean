import Suban.Basis.Division
import Suban.Basis.Runs
import Suban.Stableswap.Outputs
import Suban.Stableswap.Transitions

namespace Suban.Stableswap.Value

open Suban.Basis.Calls Suban.Basis.Tables Suban.Basis.Division Suban.Basis.Runs
open Suban.Basis.StableCurve Suban.Soroban.Host
open Suban.Stableswap.Contract Suban.Stableswap.Invariant Suban.Stableswap.Outputs
open Suban.Stableswap.Transitions

variable {Address W : Type} [DecidableEq Address] {contract : Address}
variable {T : Sep41 Address W} {env : Env Address contract} {s t : Storage Address W}
variable {d d' : Side Address} {tokenIn trader : Address} {amountIn minOut amountOut : Int}
variable {amp : Nat}

/-- The constant and the slope of the equation that a trade solves, given the
invariant of the reserves before it. -/
def swapConstant (d : Side Address) (amountIn : Int) (amp invariant : Nat) : Nat :=
  constant (asU128 d.reserveIn + asU128 amountIn) (amp * 2 * 2) invariant

def swapSlope (d : Side Address) (amountIn : Int) (amp invariant : Nat) : Int :=
  slope (asU128 d.reserveIn + asU128 amountIn) (amp * 2 * 2) invariant

/-- What an accepted swap pays out is the reserve less what has to be left, after
the fee. -/
theorem exists_left (h : Swapped s tokenIn amountIn d amp amountOut t) (hamp : 0 < amp)
    (hd : Filled d) : ∃ invariant y : Nat,
      computeD (asU128 d.reserveIn) (asU128 d.reserveOut) amp = .ok invariant ∧
      Left (swapSlope d amountIn amp invariant) (swapConstant d amountIn amp invariant)
        (asU128 d.reserveOut) y ∧
      amountOut = ((d.reserveOut - y) * (10000 - s.feeBps)).tdiv 10000 := by
  have hfits := h.in_fits
  have hin := hd.in_pos
  have hout' := hd.out_le
  have hinU := asU128_pos hin hd.in_le
  have houtU := asU128_pos hd.out_pos hout'
  have hposU := asU128_pos h.positive (by omega)
  have houtEq := asU128_eq hd.out_pos.le hout'
  have houtput := h.output
  simp only [outputFor, bind_eq_ok, subU_eq_ok, checked_eq_ok, pure_eq_ok] at houtput
  obtain ⟨y, hy, _, ⟨hle, rfl⟩, _, ⟨-, rfl⟩, rfl⟩ := houtput
  obtain ⟨invariant, hinvariant, hleft⟩ := computeY_ok hinU houtU hposU hamp hy
  refine ⟨invariant, y, hinvariant, hleft, ?_⟩
  rw [asI128_eq (by unfold maxI128 at hout'; omega), Nat.cast_sub hle, houtEq]

theorem fee_bounds {out : Int} {feeBps : Nat} (hfee : feeBps ≤ 1000) (hout : 0 ≤ out) :
    0 ≤ (out * (10000 - feeBps)).tdiv 10000 ∧ (out * (10000 - feeBps)).tdiv 10000 ≤ out := by
  refine ⟨Int.tdiv_nonneg (mul_nonneg hout (by omega)) (by norm_num), ?_⟩
  rw [mul_comm]
  exact part_le (by norm_num) hout (by omega)

theorem sides_after (h : Swapped s tokenIn amountIn d amp amountOut t)
    (hd' : side t tokenIn = .ok d') :
    d'.reserveIn = d.reserveIn + amountIn ∧ d'.reserveOut = d.reserveOut - amountOut := by
  have hd := h.side_eq
  have hA := h.reserveA_eq
  have hB := h.reserveB_eq
  rw [side, h.same.tokens.1, h.same.tokens.2] at hd'
  simp only [side, bind_eq_ok, unwrap_eq_ok] at hd hd'
  obtain ⟨tokenA, htokenA, tokenB, htokenB, hd⟩ := hd
  obtain ⟨_, htokenA', _, htokenB', hd'⟩ := hd'
  cases htokenA.symm.trans htokenA'
  cases htokenB.symm.trans htokenB'
  split_ifs at hd hd' <;> cases hd <;> cases hd'
  · exact ⟨hA, hB⟩
  · exact ⟨hB, hA⟩

/-- A swap costs the pool no more of its invariant than two units of the token
paid out bring back. -/
theorem swap_costs_little {before after : Nat} (hfee : s.feeBps ≤ 1000)
    (hamplified : s.amplification = some amp) (hamp : 1 ≤ amp) (hd : side s tokenIn = .ok d)
    (hin : 1 ≤ d.reserveIn) (hout : 1 ≤ d.reserveOut) (hout' : d.reserveOut ≤ maxI128)
    (h : swap T env s trader tokenIn amountIn minOut = .ok (amountOut, t))
    (hd' : side t tokenIn = .ok d')
    (hbefore : computeD (asU128 d.reserveIn) (asU128 d.reserveOut) amp = .ok before)
    (hafter : computeD (asU128 d'.reserveIn) (asU128 d'.reserveOut + 2) amp = .ok after) :
    before ≤ after := by
  obtain ⟨_, _, hswapped⟩ := swap_ok h
  cases hd.symm.trans hswapped.side_eq
  cases hamplified.symm.trans hswapped.amplified
  have hpos := hswapped.positive
  have hfits := hswapped.in_fits
  obtain ⟨_, y, hinvariant, hleft, hout_eq⟩ :=
    exists_left hswapped hamp ⟨hin, by omega, hout, hout'⟩
  cases hbefore.symm.trans hinvariant
  obtain ⟨hnewIn, hnewOut⟩ := sides_after hswapped hd'
  have hinEq := asU128_eq (by omega : 0 ≤ d.reserveIn) (by omega)
  have houtEq := asU128_eq (by omega : 0 ≤ d.reserveOut) hout'
  have hposEq := asU128_eq hpos.le (by omega)
  have hnewInEq := asU128_eq (by omega : 0 ≤ d'.reserveIn) (by omega)
  have hle := hleft.le
  obtain ⟨hpaid, hpaid'⟩ := fee_bounds hfee (by omega : 0 ≤ d.reserveOut - y)
  rw [hout_eq] at hnewOut
  have hnewOutEq := asU128_eq (by omega : 0 ≤ d'.reserveOut) (by omega)
  have hnewInU : asU128 d'.reserveIn = asU128 d.reserveIn + asU128 amountIn := by omega
  rw [hnewInU] at hafter
  have hinU := asU128_pos (by omega : 0 < d.reserveIn) (by omega)
  have hinvariant2 := two_le_computeD hinU (by omega) hamp hbefore
  exact hleft.le_computeD (by omega) hamp hinvariant2 (by omega) hafter

def sampleWorld : Nat → Nat → Nat :=
  fun token a => if a = 2 ∧ (token = 8 ∨ token = 9) then 1000 else 0

def openPool (amplification : Nat) : Storage Nat (Nat → Nat → Nat) :=
  { Storage.fresh sampleWorld with
    admin := some 1
    tokenA := some 8
    tokenB := some 9
    amplification := some amplification }

def samplePool : Storage Nat (Nat → Nat → Nat) :=
  run (step (bookToken Nat)) (openPool 2)
    [.call (Env.signed 0 1) (.addLiquidity 2 17 58 0), .call (Env.signed 0 2) (.setFee 1 0)]

def sampleSwap : Storage Nat (Nat → Nat → Nat) :=
  run (step (bookToken Nat)) samplePool [.call (Env.signed 0 3) (.swap 2 8 33 0)]

theorem swap_costs_little_sample :
    swap (bookToken Nat) (Env.signed 0 3) samplePool 2 8 33 0 = .ok (36, sampleSwap) ∧
      computeD 17 58 2 = .ok 72 ∧ computeD 50 24 2 = .ok 73 ∧ 72 ≤ 73 := by
  have hfee : samplePool.feeBps ≤ 1000 := by decide +kernel
  have hside : side samplePool 8 = .ok ⟨17, 58, 9, true⟩ := rfl
  have hswap : swap (bookToken Nat) (Env.signed 0 3) samplePool 2 8 33 0 = .ok (36, sampleSwap) :=
    rfl
  have hside' : side sampleSwap 8 = .ok ⟨50, 22, 9, true⟩ := rfl
  have hbefore : computeD (asU128 17) (asU128 58) 2 = .ok 72 := rfl
  have hafter : computeD (asU128 50) (asU128 22 + 2) 2 = .ok 73 := rfl
  exact ⟨hswap, hbefore, hafter, swap_costs_little hfee rfl (by decide) hside (by decide)
    (by decide) (by decide) hswap hside' hbefore hafter⟩

/-- A pool with a fee of zero loses two of its invariant, of which one unit more
of the token paid out brings back one. -/
theorem swap_lowers_invariant :
    initialise (Env.signed 0 0) (.fresh sampleWorld) 1 8 9 2 = .ok (openPool 2) ∧
      samplePool.feeBps = 0 ∧ (samplePool.reserveA, samplePool.reserveB) = (17, 58) ∧
      computeD 17 58 2 = .ok 72 ∧ (sampleSwap.reserveA, sampleSwap.reserveB) = (50, 22) ∧
      computeD 50 22 2 = .ok 70 ∧ computeD 50 23 2 = .ok 71 :=
  ⟨rfl, by decide +kernel, by decide +kernel, rfl, by decide +kernel, rfl, rfl⟩

end Suban.Stableswap.Value
