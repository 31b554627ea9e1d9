import Mathlib.Tactic.LinearCombination
import Suban.LendingPool.Health
import Suban.LendingPool.Setup

namespace Suban.LendingPool.Seizure

open Suban.Basis.Calls Suban.Basis.Tables Suban.Basis.Runs Suban.Soroban.Host
open Suban.LendingPool.State Suban.LendingPool.Contract Suban.LendingPool.Steps
open Suban.LendingPool.Setup Suban.LendingPool.Health

variable {Address W : Type} [DecidableEq Address] {contract : Address}
variable {M : Market Address W} {env : Env Address contract} {s t : Storage Address W}
variable {liquidator borrower oracle : Address} {repayAmount minCollateral : Int}

/-- What the borrower loses is worth what has been repaid for it and the bonus,
give or take one unit of the collateral. -/
def SeizesFairValue (s t : Storage Address W) (borrower : Address) (pc pd : Int) : Prop :=
  let repaid := s.borrowOf borrower - t.borrowOf borrower
  let seized := s.collateralOf borrower - t.collateralOf borrower
  |10000 * (seized * pc) - repaid * pd * (10000 + s.liquidationBonus)| ≤ 10000 * pc

/-- The gap between the two prices over the units that are seized, in parts of
ten thousand, comes to about a unit of the collateral. -/
def GapWithinUnit (units pc pd : Int) : Prop :=
  (units.tmod 10000 - 10000) * pc ≤ units * (pc - pd) ∧
    units * (pc - pd) ≤ (units.tmod 10000 + 10000) * pc

theorem fairValue_iff_gap (n bonus pc pd : Int) :
    |10000 * ((n * (10000 + bonus)).tdiv 10000 * pc) - n * pd * (10000 + bonus)| ≤ 10000 * pc ↔
      GapWithinUnit (n * (10000 + bonus)) pc pd := by
  have hsplit := Int.mul_tdiv_add_tmod (n * (10000 + bonus)) 10000
  have hswap : n * pd * (10000 + bonus) = n * (10000 + bonus) * pd := by ring
  rw [hswap]
  generalize n * (10000 + bonus) = units at *
  have hvalue : 10000 * (units.tdiv 10000 * pc) - units * pd =
      units * (pc - pd) - units.tmod 10000 * pc := by
    linear_combination pc * hsplit
  rw [hvalue, abs_le, GapWithinUnit]
  refine and_congr ?_ ?_
  · rw [sub_mul, neg_le_sub_iff_le_add, sub_le_iff_le_add]
  · rw [add_mul, sub_le_iff_le_add, add_comm]

theorem liquidate_amounts
    (h : liquidate M env s liquidator borrower repayAmount minCollateral = .ok t) :
    t.borrowOf borrower = s.borrowOf borrower - min repayAmount (s.borrowOf borrower) ∧
      t.collateralOf borrower = s.collateralOf borrower -
        (min repayAmount (s.borrowOf borrower) * (10000 + s.liquidationBonus)).tdiv 10000 := by
  cases liquidate_effect h with
  | liquidate _ _ _ _ n seize v w hpos hsrc hn hs =>
    subst hn hs
    exact ⟨s.borrowOf_setBorrow_self _ _, s.collateralOf_setCollateral_self _ _⟩
  | configure hc => exact absurd hc id

/-- Against an oracle a liquidation is fair exactly when the prices of the two
sides are as close as the units that it seizes require. -/
theorem seizesFairValue_iff (horacle : s.priceOracle = some oracle)
    (h : liquidate M env s liquidator borrower repayAmount minCollateral = .ok t) :
    ∃ pc pd, Quotes M env s oracle pc pd ∧
      (SeizesFairValue s t borrower pc.price pd.price ↔
        GapWithinUnit (min repayAmount (s.borrowOf borrower) * (10000 + s.liquidationBonus))
          pc.price pd.price) := by
  obtain ⟨health, hh, hlt⟩ := liquidate_health h
  have hdebt : s.borrowOf borrower ≠ 0 := by
    intro hz
    rw [health_of_no_debt hz] at hh
    cases hh
    exact absurd hlt (by decide)
  obtain ⟨cv, bv, hvalues, -, -⟩ := health_values hdebt hh
  obtain ⟨pc, pd, hquotes, -⟩ := quoted_values horacle hvalues
  obtain ⟨hrepaid, hseized⟩ := liquidate_amounts h
  refine ⟨pc, pd, hquotes, ?_⟩
  rw [SeizesFairValue, hrepaid, hseized, sub_sub_cancel, sub_sub_cancel]
  exact fairValue_iff_gap _ _ _ _

/-- The collateral, token 11, is quoted at two, and the debt at one by the
oracle at address 20 and at four by any other. -/
def quoteMarket : Market Nat (Nat → Nat → Nat) where
  toSep41 := bookToken Nat
  getPrice _ oracle asset := .price ⟨if asset = 11 then 2 else if oracle = 20 then 1 else 4, 7, 0⟩

def lent : List (Input Nat (Nat → Nat → Nat) 0 (Call Nat)) :=
  samplePair ++
    [.call (Env.signed 0 0) (.setPriceOracle 1 20 100),
      .call (Env.signed 0 0) (.deposit 2 1000),
      .call (Env.signed 0 0) (.depositCollateral 3 1000),
      .call (Env.signed 0 0) (.borrow 3 500)]

def underwater : Storage Nat (Nat → Nat → Nat) :=
  run (step quoteMarket) (.fresh sampleWorld)
    (lent ++ [.call (Env.signed 0 0) (.setPriceOracle 1 24 100)])

theorem underwater_amounts : underwater.borrowOf 3 = 500 ∧ underwater.collateralOf 3 = 1000 ∧
    underwater.liquidationBonus = 500 := by
  decide +kernel

theorem liquidate_underwater :
    ∃ t, liquidate quoteMarket (Env.signed 0 0) underwater 2 3 500 0 = .ok t :=
  exists_of_isOk (by decide +kernel)

theorem seizesFairValue_iff_sample : ∃ t, liquidate quoteMarket (Env.signed 0 0) underwater 2 3
      500 0 = .ok t ∧
    ∃ pc pd, Quotes quoteMarket (Env.signed 0 0) underwater 24 pc pd ∧
      (SeizesFairValue underwater t 3 pc.price pd.price ↔
        GapWithinUnit (min 500 (underwater.borrowOf 3) * (10000 + underwater.liquidationBonus))
          pc.price pd.price) := by
  obtain ⟨t, ht⟩ := liquidate_underwater
  exact ⟨t, ht, seizesFairValue_iff (by decide +kernel) ht⟩

/-- At prices of two and four 500 of the debt are worth 2000, and 1050 worth of
collateral is seized for them. -/
theorem seizes_half_of_fair_value :
    ∃ t, liquidate quoteMarket (Env.signed 0 0) underwater 2 3 500 0 = .ok t ∧
      Quotes quoteMarket (Env.signed 0 0) underwater 24 ⟨2, 7, 0⟩ ⟨4, 7, 0⟩ ∧
      ¬ SeizesFairValue underwater t 3 2 4 := by
  obtain ⟨t, ht⟩ := liquidate_underwater
  obtain ⟨hdebt, hcollateral, hbonus⟩ := underwater_amounts
  obtain ⟨hrepaid, hseized⟩ := liquidate_amounts ht
  have htoken : collateralToken 0 underwater = 11 := by decide +kernel
  have hasset : poolAsset 0 underwater = 10 := by decide +kernel
  refine ⟨t, ht, ⟨?_, ?_, rfl⟩, ?_⟩
  · rw [htoken]
    rfl
  · rw [hasset]
    rfl
  · rw [SeizesFairValue, hrepaid, hseized, hdebt, hcollateral, hbonus]
    decide

end Suban.LendingPool.Seizure
