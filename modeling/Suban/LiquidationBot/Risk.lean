import Suban.LendingPool.Contract

namespace Suban.LiquidationBot.Risk

open Suban.Basis.Calls Suban.Soroban.Host Suban.LendingPool.State
open Suban.LendingPool.Contract (liquidate calculateHealthFactor getPosition poolAsset
  collateralToken)

structure LiquidationPlanInput (Address : Type) where
  account : Address
  healthBps : Int
  borrowRaw : Int
  collateralRaw : Int
  maxRepayRaw : Int
  minHealthBps : Option Int
  bonusBps : Option Int
  slippageBps : Option Int

structure LiquidationPlan (Address : Type) where
  account : Address
  liquidatable : Bool
  reason : String
  healthBps : Int
  repayRaw : Int
  estimatedCollateralRaw : Int
  minCollateralRaw : Int

variable {Address : Type}

/-- Division of big integers truncates towards zero, and throws on zero. -/
def bigDiv (a b : Int) : Option Int := if b = 0 then none else some (a.tdiv b)

namespace LiquidationPlanInput

variable (input : LiquidationPlanInput Address)

def minHealth : Int := input.minHealthBps.getD 10000

def bonus : Int := input.bonusBps.getD 500

def slippage : Int := input.slippageBps.getD 100

def refused (reason : String) : LiquidationPlan Address where
  account := input.account
  liquidatable := false
  reason := reason
  healthBps := input.healthBps
  repayRaw := 0
  estimatedCollateralRaw := 0
  minCollateralRaw := 0

end LiquidationPlanInput

def isLiquidatable (healthBps minHealthBps : Int) : Bool := decide (healthBps < minHealthBps)

/-- The repayment whose seizure the collateral still covers. -/
def maxRepayFromCollateral (input : LiquidationPlanInput Address) : Option Int :=
  if 0 < input.collateralRaw then bigDiv (input.collateralRaw * 10000) (10000 + input.bonus)
  else some 0

def repayCap (input : LiquidationPlanInput Address) (fromCollateral : Int) : Int :=
  if input.maxRepayRaw < fromCollateral then input.maxRepayRaw else fromCollateral

def planFor (input : LiquidationPlanInput Address) (cap : Int) :
    Option (LiquidationPlan Address) := do
  let repayRaw := if input.borrowRaw < cap then input.borrowRaw else cap
  let estimatedCollateralRaw ← bigDiv (repayRaw * (10000 + input.bonus)) 10000
  let bufferBps := if 10000 < input.slippage then 10000 else input.slippage
  let minCollateralRaw ← bigDiv (estimatedCollateralRaw * (10000 - bufferBps)) 10000
  pure {
    account := input.account
    liquidatable := true
    reason := "undercollateralised"
    healthBps := input.healthBps
    repayRaw := repayRaw
    estimatedCollateralRaw := estimatedCollateralRaw
    minCollateralRaw := minCollateralRaw }

def planLiquidation (input : LiquidationPlanInput Address) : Option (LiquidationPlan Address) :=
  if isLiquidatable input.healthBps input.minHealth = false then some (input.refused "healthy")
  else if input.borrowRaw ≤ 0 then some (input.refused "no-debt")
  else if input.maxRepayRaw ≤ 0 then some (input.refused "repay-cap-zero")
  else do
    let fromCollateral ← maxRepayFromCollateral input
    let cap := repayCap input fromCollateral
    if cap ≤ 0 then some (input.refused "collateral-cap-zero") else planFor input cap

structure Sound (input : LiquidationPlanInput Address) (plan : LiquidationPlan Address) :
    Prop where
  unhealthy : input.healthBps < input.minHealth
  repay_pos : 0 < plan.repayRaw
  repay_le_borrow : plan.repayRaw ≤ input.borrowRaw
  repay_le_cap : plan.repayRaw ≤ input.maxRepayRaw
  estimate : plan.estimatedCollateralRaw = (plan.repayRaw * (10000 + input.bonus)).tdiv 10000
  estimate_le : plan.estimatedCollateralRaw ≤ input.collateralRaw
  minimum_le : plan.minCollateralRaw ≤ plan.estimatedCollateralRaw

theorem bigDiv_eq_some {a b c : Int} : bigDiv a b = some c ↔ b ≠ 0 ∧ a.tdiv b = c := by
  by_cases h : b = 0 <;> simp [bigDiv, h]

/-- A seizure computed from a repayment that was bounded by the collateral does
not exceed it: rounding down twice loses in one direction only. -/
theorem seizure_le {collateral repay bonus : Int} (hrepay : 0 ≤ repay) (hbonus : 0 ≤ bonus)
    (hle : repay ≤ (collateral * 10000).tdiv (10000 + bonus)) (hc : 0 ≤ collateral) :
    (repay * (10000 + bonus)).tdiv 10000 ≤ collateral := by
  have hrate : 0 < 10000 + bonus := by omega
  rw [Int.tdiv_eq_ediv_of_nonneg (mul_nonneg hc (by decide))] at hle
  have hmul : repay * (10000 + bonus) ≤ collateral * 10000 :=
    (Int.le_ediv_iff_mul_le hrate).mp hle
  rw [Int.tdiv_eq_ediv_of_nonneg (mul_nonneg hrepay hrate.le)]
  exact Int.ediv_le_of_le_mul (by decide) hmul

theorem minimum_le {estimate buffer : Int} (he : 0 ≤ estimate) (h0 : 0 ≤ buffer)
    (h1 : buffer ≤ 10000) : (estimate * (10000 - buffer)).tdiv 10000 ≤ estimate := by
  have hscaled : 0 ≤ estimate * (10000 - buffer) := mul_nonneg he (by omega)
  rw [Int.tdiv_eq_ediv_of_nonneg hscaled]
  refine Int.ediv_le_of_le_mul (by decide) ?_
  exact mul_le_mul_of_nonneg_left (by omega) he

theorem planFor_sound {input : LiquidationPlanInput Address} {plan : LiquidationPlan Address}
    {fromCollateral : Int} (h : planFor input (repayCap input fromCollateral) = some plan)
    (hhealth : input.healthBps < input.minHealth) (hborrow : 0 < input.borrowRaw)
    (hfrom : maxRepayFromCollateral input = some fromCollateral)
    (hpos : 0 < repayCap input fromCollateral) (hbonus : 0 ≤ input.bonus)
    (hslippage : 0 ≤ input.slippage) : Sound input plan := by
  have hcap : repayCap input fromCollateral ≤ input.maxRepayRaw ∧
      repayCap input fromCollateral ≤ fromCollateral := by
    unfold repayCap
    split <;> omega
  generalize repayCap input fromCollateral = cap at *
  simp only [planFor, bind, Option.bind_eq_some_iff, bigDiv_eq_some, pure,
    Option.some.injEq] at h
  obtain ⟨estimate, ⟨-, hestimate⟩, minimum, ⟨-, hminimum⟩, rfl⟩ := h
  have hrepay : 0 < (if input.borrowRaw < cap then input.borrowRaw else cap) ∧
      (if input.borrowRaw < cap then input.borrowRaw else cap) ≤ input.borrowRaw ∧
      (if input.borrowRaw < cap then input.borrowRaw else cap) ≤ cap := by
    split <;> omega
  generalize (if input.borrowRaw < cap then input.borrowRaw else cap) = repay at *
  obtain ⟨hrepay, hle, hle'⟩ := hrepay
  have hestimate_nonneg : 0 ≤ estimate :=
    hestimate ▸ Int.tdiv_nonneg (mul_nonneg hrepay.le (by omega)) (by decide)
  refine ⟨hhealth, hrepay, hle, hle'.trans hcap.1, hestimate.symm, ?_, ?_⟩
  · -- A positive bound on the repayment needs a positive collateral.
    unfold maxRepayFromCollateral at hfrom
    split at hfrom
    next hc =>
      obtain ⟨-, rfl⟩ := bigDiv_eq_some.mp hfrom
      exact hestimate ▸ seizure_le hrepay.le hbonus (hle'.trans hcap.2) hc.le
    next hc =>
      cases hfrom
      exact absurd hcap.2 (not_le.mpr hpos)
  · exact hminimum ▸ minimum_le hestimate_nonneg (by split <;> omega) (by split <;> omega)

theorem planLiquidation_sound {input : LiquidationPlanInput Address}
    {plan : LiquidationPlan Address} (h : planLiquidation input = some plan)
    (hl : plan.liquidatable = true) (hbonus : 0 ≤ input.bonus)
    (hslippage : 0 ≤ input.slippage) : Sound input plan := by
  unfold planLiquidation at h
  split at h
  next => cases h; cases hl
  next hhealth =>
    split at h
    next => cases h; cases hl
    next hborrow =>
      split at h
      next => cases h; cases hl
      next hmax =>
        simp only [bind, Option.bind_eq_some_iff] at h
        obtain ⟨fromCollateral, hfrom, h⟩ := h
        split at h
        next => cases h; cases hl
        next hcap =>
          have hhealth' : input.healthBps < input.minHealth := by
            simpa [isLiquidatable] using hhealth
          exact planFor_sound h hhealth' (not_le.mp hborrow) hfrom (not_le.mp hcap) hbonus
            hslippage

variable {W : Type} [DecidableEq Address] {contract : Address}
variable {M : Market Address W} {env : Env Address contract} {s : Storage Address W}

def Fits (x : Int) : Prop := minI128 ≤ x ∧ x ≤ maxI128

structure NoOverflow (s : Storage Address W) (borrower : Address) (repay seize : Int) : Prop where
  rate : Fits (10000 + s.liquidationBonus)
  scaled : Fits (repay * (10000 + s.liquidationBonus))
  seized : Fits seize
  owed : Fits (s.borrowOf borrower - repay)
  left : Fits (s.collateralOf borrower - seize)
  borrows : Fits (s.totalBorrows - repay)

def liquidated (s : Storage Address W) (liquidator borrower : Address) (repay seize : Int)
    (w : W) : Storage Address W :=
  { (s.setBorrow borrower (s.borrowOf borrower - repay)).setCollateral borrower
      (s.collateralOf borrower - seize) with
    totalBorrows := s.totalBorrows - repay
    world := w }.report borrower (.liquidate liquidator borrower repay seize)

theorem liquidate_accepts {liquidator borrower : Address} {health repay minCollateral seize : Int}
    {v w : W} (hpos : 0 < repay) (hpaused : s.poolPaused = false)
    (hauth : env.auths liquidator = true)
    (hhealth : calculateHealthFactor M env s borrower = .ok health) (hlt : health < 10000)
    (hborrow : repay ≤ s.borrowOf borrower)
    (hseize : seize = (repay * (10000 + s.liquidationBonus)).tdiv 10000)
    (hmin : minCollateral ≤ seize) (hcollateral : seize ≤ s.collateralOf borrower)
    (hfits : NoOverflow s borrower repay seize)
    (hv : M.transfer s.world (poolAsset contract s) liquidator contract repay = some v)
    (hw : M.transfer v (collateralToken contract s) contract liquidator seize = some w) :
    liquidate M env s liquidator borrower repay minCollateral =
      .ok (liquidated s liquidator borrower repay seize w) := by
  subst hseize
  simp only [liquidate, LendingPool.Contract.requireNotPaused, LendingPool.Contract.transfer,
    bind_eq_ok, rejectIf_eq_ok, requireAuth_eq_ok, checked_eq_ok, checkedDiv_eq_ok, unwrap_eq_ok,
    pure_eq_ok, min_eq_left hborrow]
  refine ⟨(), not_le.mpr hpos, (), by simp [hpaused], (), hauth, health, hhealth, (),
    not_le.mpr hlt, _, ⟨hfits.rate, rfl⟩, _, ⟨hfits.scaled, rfl⟩, _,
    ⟨by decide, hfits.seized, rfl⟩, (), not_lt.mpr hmin, (), not_lt.mpr hcollateral, ?_⟩
  refine ⟨_, ⟨hfits.owed, rfl⟩, _, ⟨hfits.left, rfl⟩, _, ⟨hfits.borrows, rfl⟩, _,
    ⟨v, hv, rfl⟩, _, ⟨w, hw, rfl⟩, rfl⟩

/-- A plan to liquidate, made from what the pool reports of a position, is a
call that the pool accepts: it repays and seizes exactly what was planned. -/
theorem plan_accepted {liquidator borrower : Address} {health : Int}
    {input : LiquidationPlanInput Address} {plan : LiquidationPlan Address} {v w : W}
    (hhealth : calculateHealthFactor M env s borrower = .ok health)
    (hpaused : s.poolPaused = false) (hauth : env.auths liquidator = true)
    (hinput : input.healthBps = health ∧ input.borrowRaw = (getPosition s borrower).borrow ∧
      input.collateralRaw = (getPosition s borrower).collateral ∧
      input.bonus = s.liquidationBonus)
    (hbonus : 0 ≤ s.liquidationBonus) (hminHealth : input.minHealth ≤ 10000)
    (hslippage : 0 ≤ input.slippage) (hplan : planLiquidation input = some plan)
    (hliquidatable : plan.liquidatable = true)
    (hfits : NoOverflow s borrower plan.repayRaw plan.estimatedCollateralRaw)
    (hv : M.transfer s.world (poolAsset contract s) liquidator contract plan.repayRaw = some v)
    (hw : M.transfer v (collateralToken contract s) contract liquidator
      plan.estimatedCollateralRaw = some w) :
    liquidate M env s liquidator borrower plan.repayRaw plan.minCollateralRaw =
        .ok (liquidated s liquidator borrower plan.repayRaw plan.estimatedCollateralRaw w) ∧
      plan.repayRaw ≤ (getPosition s borrower).borrow ∧
      plan.estimatedCollateralRaw ≤ (getPosition s borrower).collateral ∧
      plan.minCollateralRaw ≤ plan.estimatedCollateralRaw := by
  obtain ⟨hh, hb, hc, hbonus'⟩ := hinput
  have hsound := planLiquidation_sound hplan hliquidatable (hbonus' ▸ hbonus) hslippage
  have hlt : health < 10000 := hh ▸ hsound.unhealthy.trans_le hminHealth
  have hborrow := hb ▸ hsound.repay_le_borrow
  have hcollateral := hc ▸ hsound.estimate_le
  have hseize := hbonus' ▸ hsound.estimate
  exact ⟨liquidate_accepts hsound.repay_pos hpaused hauth hhealth hlt hborrow hseize
    hsound.minimum_le hcollateral hfits hv hw, hborrow, hcollateral, hsound.minimum_le⟩

def sampleWorld : Nat → Nat → Nat := fun token a =>
  if token = 10 then (if a = 0 then 200 else if a = 3 then 95 else 0) else 0

def samplePool : Storage Nat (Nat → Nat → Nat) :=
  { (Storage.fresh sampleWorld).setBorrow 2 90 with
    userCollateral := AList.singleton 2 100
    totalBorrows := 90
    collateralAsset := some 10 }

def sampleInput : LiquidationPlanInput Nat where
  account := 2
  healthBps := 9444
  borrowRaw := 90
  collateralRaw := 100
  maxRepayRaw := 1000
  minHealthBps := none
  bonusBps := some 500
  slippageBps := none

theorem plan_accepted_sample :
    ∃ w, liquidate (bookMarket Nat) (Env.signed 0 7) samplePool 3 2 90 93 =
      .ok (liquidated samplePool 3 2 90 94 w) := by
  have hplan : planLiquidation sampleInput =
      some ⟨2, true, "undercollateralised", 9444, 90, 94, 93⟩ := rfl
  obtain ⟨v, hv⟩ : ∃ v, (bookMarket Nat).transfer samplePool.world 10 3 0 90 = some v :=
    ⟨_, rfl⟩
  obtain ⟨w, hw⟩ : ∃ w, (bookMarket Nat).transfer v 10 0 3 94 = some w := by
    cases hv
    exact ⟨_, rfl⟩
  have hhealth : calculateHealthFactor (bookMarket Nat) (Env.signed 0 7) samplePool 2 =
      .ok 9444 := rfl
  have hauth : (Env.signed 0 7).auths 3 = true := rfl
  have hfits : NoOverflow samplePool 2 90 94 := by
    constructor <;> (unfold Fits; decide)
  exact ⟨w, (plan_accepted hhealth rfl hauth ⟨rfl, rfl, rfl, rfl⟩ (by decide)
    (by decide) (by decide) hplan rfl hfits hv hw).1⟩

end Suban.LiquidationBot.Risk
