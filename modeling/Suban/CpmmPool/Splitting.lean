import Suban.CpmmPool.Books

namespace Suban.CpmmPool.Splitting

open Suban.Basis.Calls Suban.Basis.Tables Suban.Basis.Division Suban.Basis.Pools
open Suban.Soroban.Host
open Suban.CpmmPool.Contract Suban.CpmmPool.Transitions Suban.CpmmPool.Books

variable {Address W : Type} [DecidableEq Address] {contract : Address}
variable {T : Sep41 Address W} {s t : Storage Address W} {d : Side Address} {tokenIn : Address}

structure Piece (Address : Type) (contract : Address) where
  env : Env Address contract
  trader : Address
  amountIn : Int
  minAmountOut : Int

def swapAll (T : Sep41 Address W) (tokenIn : Address) :
    List (Piece Address contract) → Storage Address W → Outcome Fault (Int × Storage Address W)
  | [], s => pure (0, s)
  | p :: ps, s => do
    let (amountOut, s) ← swap T p.env s p.trader tokenIn p.amountIn p.minAmountOut
    let (rest, s) ← swapAll T tokenIn ps s
    pure (amountOut + rest, s)

theorem exists_side {env : Env Address contract} {trader : Address} {amountIn minOut : Int}
    {r : Int × Storage Address W} (h : swap T env s trader tokenIn amountIn minOut = .ok r) :
    ∃ d, side s tokenIn = .ok d := by
  simp only [swap, bind_eq_ok] at h
  obtain ⟨_, -, _, -, d, hd, -⟩ := h
  exact ⟨d, hd⟩

theorem side_pos (hd : side s tokenIn = .ok d) (hA : 0 < s.reserveA) (hB : 0 < s.reserveB) :
    0 < d.reserveIn ∧ 0 < d.reserveOut := by
  have htokens : ∃ tokenA tokenB, s.tokenA = some tokenA ∧ s.tokenB = some tokenB := by
    simp only [side, bind_eq_ok, unwrap_eq_ok] at hd
    obtain ⟨tokenA, hA', tokenB, hB', -⟩ := hd
    exact ⟨tokenA, tokenB, hA', hB'⟩
  obtain ⟨tokenA, tokenB, hA', hB'⟩ := htokens
  obtain ⟨-, rfl⟩ | ⟨-, rfl⟩ := side_eq_ok hA' hB' hd
  · exact ⟨hA, hB⟩
  · exact ⟨hB, hA⟩

theorem swap_side {env : Env Address contract} {trader : Address} {amountIn minOut amountOut : Int}
    (hd : side s tokenIn = .ok d)
    (h : swap T env s trader tokenIn amountIn minOut = .ok (amountOut, t)) :
    0 < amountIn ∧ amountOut = output s d.reserveIn d.reserveOut amountIn ∧ t.feeBps = s.feeBps ∧
      side t tokenIn = .ok { d with
        reserveIn := d.reserveIn + amountIn
        reserveOut := d.reserveOut - amountOut } := by
  simp only [swap, bind_eq_ok, rejectIf_eq_ok, unwrap_eq_ok, checked_eq_ok, pure_eq_ok,
    Prod.mk.injEq, not_le] at h
  obtain ⟨_, -, _, hpos, d', hd', out, hout, _, -, _, -, _, ⟨-, rfl⟩, _, ⟨-, rfl⟩, h⟩ := h
  obtain ⟨_, -, tokenA, hA, tokenB, hB, rfl, rfl⟩ := h
  cases hd.symm.trans hd'
  refine ⟨hpos, (outputFor_eq_ok hout).2.2, rfl, ?_⟩
  simp only [side, hA, hB, unwrap, ok_bind, Storage.publish] at hd ⊢
  split at hd
  next ha =>
    cases pure_eq_ok.mp hd
    rw [if_pos ha]
    rfl
  next ha =>
    split at hd
    next hb =>
      cases pure_eq_ok.mp hd
      rw [if_neg ha, if_pos hb]
      rfl
    next => cases hd

/-- The fee on the pieces is at least the fee on the whole. -/
theorem afterFee_add {x y : Int} (hfee : s.feeBps ≤ 1000) (hx : 0 < x) (hy : 0 ≤ y) :
    afterFee s x + afterFee s y ≤ afterFee s (x + y) := by
  have hpart : (0 : Int) ≤ 10000 - s.feeBps := by omega
  have hxs := mul_nonneg hx.le hpart
  have hys := mul_nonneg hy hpart
  have h10000 : (0 : Int) < 10000 := by decide
  rw [afterFee, afterFee, afterFee, le_tdiv_iff h10000 (mul_nonneg (by omega) hpart)]
  have hxle := floor_mul_le hxs h10000
  have hyle := floor_mul_le hys h10000
  linarith

/-- The pieces leave the product of the reserves no smaller, also when their
fees stay outside. -/
theorem swapAll_product {ps : List (Piece Address contract)} {total : Int}
    (hfee : s.feeBps ≤ 1000) (hd : side s tokenIn = .ok d) (hin : 0 < d.reserveIn)
    (hout : 0 < d.reserveOut) (h : swapAll T tokenIn ps s = .ok (total, t)) :
    ∃ net, 0 ≤ net ∧ 0 ≤ (ps.map (·.amountIn)).sum ∧
      net ≤ afterFee s (ps.map (·.amountIn)).sum ∧ total < d.reserveOut ∧
      d.reserveOut * d.reserveIn ≤ (d.reserveOut - total) * (d.reserveIn + net) := by
  induction ps generalizing s d total with
  | nil =>
    cases pure_eq_ok.mp h
    exact ⟨0, le_rfl, le_rfl, by simp [afterFee], by omega, by simp⟩
  | cons p ps ih =>
    simp only [swapAll, bind_eq_ok, pure_eq_ok, Prod.mk.injEq] at h
    obtain ⟨⟨amountOut, u⟩, hswap, ⟨rest, _⟩, hrest, rfl, rfl⟩ := h
    obtain ⟨hpos, rfl, hsame, hside⟩ := swap_side hd hswap
    obtain ⟨hnet, hnetle⟩ := afterFee_bounds hfee hpos
    have hleft := output_lt hin hout hnet
    obtain ⟨net, hnonneg, hsum, hle, hlt, hprod⟩ := ih (by omega) hside (by dsimp only; omega)
      (sub_pos.mpr hleft) hrest
    have hafter : afterFee u (ps.map (·.amountIn)).sum = afterFee s (ps.map (·.amountIn)).sum := by
      rw [afterFee, afterFee, hsame]
    rw [hafter] at hle
    have hwhole := afterFee_add (s := s) hfee hpos hsum
    dsimp only at hlt hprod
    have hfirst : d.reserveOut * d.reserveIn ≤
        (d.reserveOut - output s d.reserveIn d.reserveOut p.amountIn) *
          (d.reserveIn + afterFee s p.amountIn) := by
      rw [mul_comm, mul_comm (_ - _)]
      exact trade_product hin hout hnet le_rfl
    refine ⟨afterFee s p.amountIn + net, by omega, ?_, ?_, by omega, ?_⟩
    · rw [List.map_cons, List.sum_cons]
      omega
    · rw [List.map_cons, List.sum_cons]
      omega
    · rw [← sub_sub]
      exact trade_trans hin.le hnet hnetle (by omega) hnonneg hfirst rfl hprod

/-- However an amount is split into swaps that follow one another, in whatever
hands, they bring no more than a swap of the whole amount. -/
theorem splitting_never_pays {env : Env Address contract} {trader : Address}
    {ps : List (Piece Address contract)} {minOut total whole : Int} {u : Storage Address W}
    (hfee : s.feeBps ≤ 1000) (hA : 0 < s.reserveA) (hB : 0 < s.reserveB)
    (hpieces : swapAll T tokenIn ps s = .ok (total, t))
    (hwhole : swap T env s trader tokenIn (ps.map (·.amountIn)).sum minOut = .ok (whole, u)) :
    total ≤ whole := by
  obtain ⟨d, hd⟩ := exists_side hwhole
  obtain ⟨hin, hout⟩ := side_pos hd hA hB
  obtain ⟨-, rfl, -, -⟩ := swap_side hd hwhole
  obtain ⟨net, hnet, hsum, hle, hlt, hprod⟩ := swapAll_product hfee hd hin hout hpieces
  exact le_trade hin hout.le hnet hle hlt.le hprod

def samplePool : Storage Nat (Nat → Nat → Nat) :=
  { Storage.fresh fun token a =>
      if a = 0 then 10000 else if token = 8 ∧ a = 3 then 1000 else 0 with
    admin := some 1
    tokenA := some 8
    tokenB := some 9
    reserveA := 10000
    reserveB := 10000
    totalShares := 10000 }

def samplePieces : List (Piece Nat 0) :=
  [⟨Env.signed 0 1, 3, 400, 0⟩, ⟨Env.signed 0 2, 3, 600, 0⟩]

theorem splitting_never_pays_sample :
    ∃ total whole t u, swapAll (bookToken Nat) 8 samplePieces samplePool = .ok (total, t) ∧
      swap (bookToken Nat) (Env.signed 0 1) samplePool 3 8 1000 0 = .ok (whole, u) ∧
      total ≤ whole := by
  have hpieces : (swapAll (bookToken Nat) 8 samplePieces samplePool).isOk = true := by
    decide +kernel
  have hwhole : (swap (bookToken Nat) (Env.signed 0 1) samplePool 3 8 1000 0).isOk = true := by
    decide +kernel
  obtain ⟨⟨total, t⟩, hpieces⟩ := exists_of_isOk hpieces
  obtain ⟨⟨whole, u⟩, hwhole⟩ := exists_of_isOk hwhole
  have hwhole' : swap (bookToken Nat) (Env.signed 0 1) samplePool 3 8
      (samplePieces.map (·.amountIn)).sum 0 = .ok (whole, u) := hwhole
  exact ⟨total, whole, t, u, hpieces, hwhole,
    splitting_never_pays (by decide) (by decide) (by decide) hpieces hwhole'⟩

end Suban.CpmmPool.Splitting
