import Suban.Basis.Calls
import Suban.Basis.Numbers

namespace Suban.Sdk.Quote

open Suban.Basis.Calls Suban.Basis.Numbers

/-- Amounts come as texts or as integers. -/
inductive Units where
  | text (s : String)
  | bigint (n : Int)

/-- The fee is any number. One that is not finite is no fraction. -/
structure CpmmQuoteInput where
  reserveIn : Units
  reserveOut : Units
  amountIn : Units
  feeBps : Option Rat

/-- A quotient of two numbers, before it is rounded. -/
structure Ratio where
  dividend : Number
  divisor : Number

structure CpmmQuote where
  amountIn : String
  amountInAfterFee : String
  feeAmount : String
  amountOut : String
  feeBps : Int
  spotPriceOutPerIn : Ratio
  executionPriceOutPerIn : Ratio
  priceImpactBps : Number

def toUnits (value : Units) (field : String) : Outcome String Int :=
  match value with
  | .bigint n => do
    rejectIf (n < 0) (field ++ " must be non-negative")
    pure n
  | .text s => do
    let n ← okOr (numeral s.toList) (field ++ " must be a non-negative integer string")
    pure n

/-- From here on a number is infinite. -/
def infinity : Nat := 2 ^ 1024

/-- The values it is given are not negative. -/
def toNumber (value : Int) : Outcome String Number := do
  rejectIf (infinity ≤ nearest value.toNat) "quote value is too large to represent"
  pure (ofNat value.toNat)

def isInteger (feeBps : Option Rat) : Option Int :=
  feeBps.bind (fun q => if q.den = 1 then some q.num else none)

def toFee (feeBps : Option Rat) : Outcome String Int := do
  let fee ← okOr (isInteger feeBps) "feeBps must be an integer between 0 and 1000"
  rejectIf (fee < 0 ∨ 1000 < fee) "feeBps must be an integer between 0 and 1000"
  pure fee

/-- The cost of a trade in basis points of what it pays in, at the spot price. -/
def impactBps (numerator denominator : Int) : Outcome String Number :=
  let rawImpactBps := if denominator = 0 then 0 else (numerator * 10000).tdiv denominator
  if rawImpactBps < 0 then pure (ofNat 0) else toNumber rawImpactBps

def executionPrice (amountOut input : Int) : Outcome String Ratio :=
  if amountOut = 0 then pure ⟨ofNat 0, ofNat 1⟩
  else do
    let executionOut ← toNumber amountOut
    let executionIn ← toNumber input
    pure ⟨executionOut, executionIn⟩

def quoteCpmm (quote : CpmmQuoteInput) : Outcome String CpmmQuote := do
  let inReserve ← toUnits quote.reserveIn "reserveIn"
  let outReserve ← toUnits quote.reserveOut "reserveOut"
  let input ← toUnits quote.amountIn "amountIn"
  rejectIf (inReserve ≤ 0 ∨ outReserve ≤ 0) "reserves must be positive"
  rejectIf (input ≤ 0) "amountIn must be positive"
  let feeBps ← toFee quote.feeBps
  let amountInAfterFee := (input * (10000 - feeBps)).tdiv 10000
  let amountOut := (outReserve * amountInAfterFee).tdiv (inReserve + amountInAfterFee)
  let feeAmount := input - amountInAfterFee
  let numerator := input * outReserve - amountOut * inReserve
  let denominator := input * outReserve
  let priceImpactBps ← impactBps numerator denominator
  let spotOut ← toNumber outReserve
  let spotIn ← toNumber inReserve
  let executionPrice ← executionPrice amountOut input
  pure {
    amountIn := toString input
    amountInAfterFee := toString amountInAfterFee
    feeAmount := toString feeAmount
    amountOut := toString amountOut
    feeBps := feeBps
    spotPriceOutPerIn := ⟨spotOut, spotIn⟩
    executionPriceOutPerIn := executionPrice
    priceImpactBps := priceImpactBps }

/-- An integer that is not negative is read alike in both forms. -/
theorem toUnits_bigint {n : Int} (h : 0 ≤ n) (field : String) :
    toUnits (.bigint n) field = .ok n := by
  simp [toUnits, rejectIf, not_lt.mpr h, bind, Except.bind, pure, Except.pure]

theorem toUnits_text (n : Nat) (field : String) : toUnits (.text (toString n)) field = .ok n := by
  simp [toUnits, numeral_toDigits, okOr, bind, Except.bind, pure, Except.pure]

theorem toFee_natCast {n : Nat} (h : n ≤ 1000) : toFee (some (n : Rat)) = .ok (n : Int) := by
  have hwhole : isInteger (some (n : Rat)) = some (n : Int) := by
    simp [isInteger, Rat.den_natCast, Rat.num_natCast]
  have hrange : ¬ ((n : Int) < 0 ∨ 1000 < (n : Int)) := by omega
  simp only [toFee, hwhole, okOr, bind_eq_ok, Except.ok.injEq, exists_eq_left', rejectIf_eq_ok,
    pure_eq_ok, and_true]
  exact ⟨(), hrange⟩

/-- Amounts of 128 bits are small enough for a number. -/
theorem toNumber_eq_ok {n : Int} (h : n ≤ maxI128) : toNumber n = .ok (ofNat n.toNat) := by
  have hround := nearest_le n.toNat
  unfold maxI128 at h
  have hsmall : nearest n.toNat < 2 ^ 128 := by omega
  have hlarge : 2 ^ 128 ≤ infinity := pow_le_pow_right₀ one_le_two (show 128 ≤ 1024 by decide)
  have hfits : ¬ infinity ≤ nearest n.toNat := not_le.mpr (hsmall.trans_le hlarge)
  rw [toNumber, rejectIf, if_neg hfits]
  rfl

theorem impactBps_eq_ok {numerator denominator : Int} (hd : denominator ≠ 0)
    (h0 : 0 ≤ (numerator * 10000).tdiv denominator)
    (hle : (numerator * 10000).tdiv denominator ≤ 10000) :
    impactBps numerator denominator =
      .ok (ofNat ((numerator * 10000).tdiv denominator).toNat) := by
  rw [impactBps, if_neg hd, if_neg (not_lt.mpr h0)]
  exact toNumber_eq_ok (hle.trans (by decide))

theorem executionPrice_isOk {amountOut input : Int} (hout : amountOut ≤ maxI128)
    (hin : input ≤ maxI128) : ∃ price, executionPrice amountOut input = .ok price := by
  unfold executionPrice
  split
  · exact ⟨_, rfl⟩
  · rw [toNumber_eq_ok hout, toNumber_eq_ok hin]
    exact ⟨_, rfl⟩

end Suban.Sdk.Quote
