import Suban.CpmmPool.Soundness
import Suban.Sdk.Quote

namespace Suban.CpmmPool.Quotes

open Suban.Basis.Calls Suban.Basis.Numbers Suban.Basis.Division Suban.Basis.Pools
open Suban.Soroban.Host Suban.Sdk.Quote
open Suban.CpmmPool.Contract Suban.CpmmPool.Transitions Suban.CpmmPool.Books
open Suban.CpmmPool.Soundness

variable {Address W : Type} [DecidableEq Address] {contract : Address}
variable {T : Sep41 Address W} {s : Storage Address W} {d : Side Address} {tokenIn : Address}
variable {amountIn : Int}

/-- The amounts that the pool comes across on its way to the output have 128
bits. -/
structure Fits (s : Storage Address W) (d : Side Address) (amountIn : Int) : Prop where
  reserveOut : d.reserveOut ≤ maxI128
  scaledIn : amountIn * (10000 - s.feeBps) ≤ maxI128
  scaledOut : d.reserveOut * afterFee s amountIn ≤ maxI128
  divisor : d.reserveIn + afterFee s amountIn ≤ maxI128

structure Asks (s : Storage Address W) (d : Side Address) (amountIn : Int)
    (quote : CpmmQuoteInput) : Prop where
  reserveIn : toUnits quote.reserveIn "reserveIn" = .ok d.reserveIn
  reserveOut : toUnits quote.reserveOut "reserveOut" = .ok d.reserveOut
  amountIn : toUnits quote.amountIn "amountIn" = .ok amountIn
  feeBps : quote.feeBps = some (s.feeBps : Rat)

theorem reservesFor_of_side (h : side s tokenIn = .ok d) :
    reservesFor s tokenIn = .ok (d.reserveIn, d.reserveOut) := by
  simp only [side, bind_eq_ok, unwrap_eq_ok] at h
  obtain ⟨tokenA, hA, tokenB, hB, h⟩ := h
  simp only [reservesFor, bind_eq_ok, unwrap_eq_ok]
  refine ⟨tokenA, hA, tokenB, hB, ?_⟩
  by_cases ha : tokenIn = tokenA
  · rw [if_pos ha, pure_eq_ok] at h
    rw [if_pos ha, ← h]
    rfl
  · rw [if_neg ha] at h ⊢
    by_cases hb : tokenIn = tokenB
    · rw [if_pos hb, pure_eq_ok] at h
      rw [if_pos hb, ← h]
      rfl
    · rw [if_neg hb] at h
      cases h

section Amounts

variable (hfee : s.feeBps ≤ 1000) (hin : 0 < d.reserveIn) (hout : 0 < d.reserveOut)
variable (hpos : 0 < amountIn)

include hfee hin hout hpos

theorem output_bounds : 0 ≤ output s d.reserveIn d.reserveOut amountIn ∧
    output s d.reserveIn d.reserveOut amountIn < d.reserveOut := by
  have hnet := (afterFee_bounds hfee hpos).1
  refine ⟨?_, output_lt hin hout hnet⟩
  exact Int.tdiv_nonneg (mul_nonneg hout.le hnet) (add_nonneg hin.le hnet)

theorem output_fits (hfits : Fits s d amountIn) :
    output s d.reserveIn d.reserveOut amountIn ≤ maxI128 :=
  (output_bounds hfee hin hout hpos).2.le.trans hfits.reserveOut

theorem impact_bounds :
    let numerator := amountIn * d.reserveOut -
      output s d.reserveIn d.reserveOut amountIn * d.reserveIn
    0 ≤ (numerator * 10000).tdiv (amountIn * d.reserveOut) ∧
      (numerator * 10000).tdiv (amountIn * d.reserveOut) ≤ 10000 := by
  obtain ⟨hnet, hnetle⟩ := afterFee_bounds hfee hpos
  have hcost := trade_cost hin hout hnet hnetle
  have hout' := (output_bounds hfee hin hout hpos).1
  have hworth : 0 ≤ amountIn * d.reserveOut := mul_nonneg hpos.le hout.le
  have hpaid : 0 ≤ output s d.reserveIn d.reserveOut amountIn * d.reserveIn :=
    mul_nonneg hout' hin.le
  refine ⟨?_, ?_⟩
  · exact Int.tdiv_nonneg (mul_nonneg (sub_nonneg.mpr hcost) (by norm_num)) hworth
  · exact part_le hworth (by norm_num) (by omega)

theorem outputFor_of_fits (hfits : Fits s d amountIn) :
    outputFor s d.reserveIn d.reserveOut amountIn =
      .ok (output s d.reserveIn d.reserveOut amountIn) := by
  obtain ⟨hnet, -⟩ := afterFee_bounds hfee hpos
  have hpart : (0 : Int) ≤ 10000 - s.feeBps := by omega
  have hdivisor : 0 < d.reserveIn + afterFee s amountIn := add_pos_of_pos_of_nonneg hin hnet
  have hresult := (output_bounds hfee hin hout hpos).1
  simp only [outputFor, bind_eq_ok, rejectIf_eq_ok, panicIf_eq_ok, checked_eq_ok]
  refine ⟨(), by omega, (), by omega, _, ⟨?_, rfl⟩, _, ⟨?_, rfl⟩, _, ⟨?_, rfl⟩, ?_⟩
  · exact inRange_of_nonneg (mul_nonneg hpos.le hpart) hfits.scaledIn
  · exact inRange_of_nonneg (mul_nonneg hout.le hnet) hfits.scaledOut
  · exact inRange_of_nonneg hdivisor.le hfits.divisor
  · change quotient (d.reserveOut * afterFee s amountIn) (d.reserveIn + afterFee s amountIn) = _
    rw [quotient, if_neg hdivisor.ne', checked_eq_ok]
    exact ⟨inRange_of_nonneg hresult (output_fits hfee hin hout hpos hfits), rfl⟩

theorem quoteCpmm_of_fits (hfits : Fits s d amountIn) {quote : CpmmQuoteInput}
    (hquote : Asks s d amountIn quote) : ∃ q, quoteCpmm quote = .ok q ∧
      q.amountOut = toString (output s d.reserveIn d.reserveOut amountIn) ∧
      q.amountInAfterFee = toString (afterFee s amountIn) ∧
      q.feeAmount = toString (amountIn - afterFee s amountIn) ∧
      ∃ impact ≤ 10000, q.priceImpactBps = ofNat impact := by
  obtain ⟨hnet, hnetle⟩ := afterFee_bounds hfee hpos
  obtain ⟨himpact, himpactle⟩ := impact_bounds hfee hin hout hpos
  have hreserveIn : d.reserveIn ≤ maxI128 := (le_add_of_nonneg_right hnet).trans hfits.divisor
  have hamount : amountIn ≤ maxI128 := by
    have hscaled := hfits.scaledIn
    nlinarith
  have htoFee : toFee quote.feeBps = .ok (s.feeBps : Int) := by
    rw [hquote.feeBps]
    exact toFee_natCast hfee
  obtain ⟨price, hprice⟩ := executionPrice_isOk (output_fits hfee hin hout hpos hfits) hamount
  simp only [quoteCpmm, bind_eq_ok, rejectIf_eq_ok, pure_eq_ok]
  refine ⟨_, ⟨_, hquote.reserveIn, _, hquote.reserveOut, _, hquote.amountIn, (), by omega, (),
    by omega, _, htoFee, _, impactBps_eq_ok (mul_pos hpos hout).ne' himpact himpactle, _,
    toNumber_eq_ok hfits.reserveOut, _, toNumber_eq_ok hreserveIn, price, hprice, rfl⟩, rfl, rfl,
    rfl, _, Int.toNat_le.mpr himpactle, rfl⟩

end Amounts

theorem swap_output {env : Env Address contract} {trader : Address} {minOut amountOut : Int}
    {t : Storage Address W} (hd : side s tokenIn = .ok d)
    (h : swap T env s trader tokenIn amountIn minOut = .ok (amountOut, t)) :
    outputFor s d.reserveIn d.reserveOut amountIn = .ok amountOut := by
  simp only [swap, bind_eq_ok, pure_eq_ok, Prod.mk.injEq] at h
  obtain ⟨_, -, _, -, d', hd', _, hout, _, -, _, -, _, -, h⟩ := h
  obtain ⟨_, -, _, -, _, -, _, -, rfl, -⟩ := h
  cases hd.symm.trans hd'
  exact hout

/-- On either side of a pool with reserves the view, a swap that is accepted
and the preview agree about the output of a trade. -/
theorem quote_parity (hfee : s.feeBps ≤ 1000) (hd : side s tokenIn = .ok d)
    (hin : 0 < d.reserveIn) (hout : 0 < d.reserveOut) (hpos : 0 < amountIn)
    (hfits : Fits s d amountIn) {quote : CpmmQuoteInput} (hquote : Asks s d amountIn quote) :
    ∃ amountOut q, getQuote s tokenIn amountIn = .ok amountOut ∧
      (∀ (env : Env Address contract) (trader : Address) (minOut paid : Int)
        (t : Storage Address W),
        swap T env s trader tokenIn amountIn minOut = .ok (paid, t) → paid = amountOut) ∧
      quoteCpmm quote = .ok q ∧ q.amountOut = toString amountOut ∧
      (∃ fee net : Int, q.feeAmount = toString fee ∧ q.amountInAfterFee = toString net ∧
        fee + net = amountIn) ∧
      amountOut < d.reserveOut ∧ ∃ impact ≤ 10000, q.priceImpactBps = ofNat impact := by
  have houtput := outputFor_of_fits hfee hin hout hpos hfits
  obtain ⟨q, hq, hsame, hnet, htaken, himpact⟩ := quoteCpmm_of_fits hfee hin hout hpos hfits hquote
  refine ⟨_, q, ?_, ?_, hq, hsame, ⟨_, _, htaken, hnet, sub_add_cancel _ _⟩,
    (output_bounds hfee hin hout hpos).2, himpact⟩
  · rw [getQuote, reservesFor_of_side hd]
    exact houtput
  · intro env trader minOut paid t hswap
    have hpaid := swap_output hd hswap
    rw [houtput] at hpaid
    exact (Except.ok.inj hpaid).symm

def sampleStocked : Storage Nat (Nat → Nat → Nat) :=
  { sample with reserveA := 10000, reserveB := 10000, totalShares := 10000 }

def sampleQuote : CpmmQuoteInput where
  reserveIn := .text (toString 10000)
  reserveOut := .bigint 10000
  amountIn := .text (toString 1000)
  feeBps := some (30 : Nat)

theorem asks_sample : Asks sampleStocked ⟨10000, 10000, 9, false⟩ 1000 sampleQuote where
  reserveIn := toUnits_text 10000 "reserveIn"
  reserveOut := toUnits_bigint (by decide) "reserveOut"
  amountIn := toUnits_text 1000 "amountIn"
  feeBps := rfl

theorem fits_sample : Fits sampleStocked ⟨10000, 10000, 9, false⟩ 1000 where
  reserveOut := by decide
  scaledIn := by decide +kernel
  scaledOut := by decide +kernel
  divisor := by decide +kernel

theorem quote_parity_sample : ∃ amountOut q, getQuote sampleStocked 8 1000 = .ok amountOut ∧
    quoteCpmm sampleQuote = .ok q ∧ q.amountOut = toString amountOut ∧ amountOut < 10000 := by
  obtain ⟨amountOut, q, hview, -, hq, hsame, -, hlt, -⟩ :=
    @quote_parity Nat _ _ 0 (bookToken Nat) sampleStocked ⟨10000, 10000, 9, false⟩ 8 1000
      (by decide +kernel) rfl (by decide) (by decide) (by decide) fits_sample sampleQuote
      asks_sample
  exact ⟨amountOut, q, hview, hq, hsame, hlt⟩

end Suban.CpmmPool.Quotes
