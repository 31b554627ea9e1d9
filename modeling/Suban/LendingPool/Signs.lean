import Suban.LendingPool.Shares
import Suban.LendingPool.Steps

namespace Suban.LendingPool.Signs

open Suban.Basis.Calls Suban.Basis.Tables Suban.Basis.Runs Suban.Soroban.Host
open Suban.LendingPool.State Suban.LendingPool.Contract Suban.LendingPool.Steps
open Suban.LendingPool.Setup Suban.LendingPool.Shares

variable {Address W : Type} [DecidableEq Address] {contract : Address}
variable {M : Market Address W} {env : Env Address contract} {s t : Storage Address W}

/-- No position and no total of borrows is below zero. -/
structure NonNegative (s : Storage Address W) : Prop where
  deposits : ∀ user, 0 ≤ s.depositOf user
  borrows : ∀ user, 0 ≤ s.borrowOf user
  collateral : ∀ user, 0 ≤ s.collateralOf user
  totalBorrows : 0 ≤ s.totalBorrows

/-- Interest is not negative, and the pool is owed what the users owe. -/
structure Owed (s : Storage Address W) : Prop where
  rate : 0 ≤ s.interestRate
  total : sum s.userBorrows ≤ s.totalBorrows

/-- The pool is not initialised again, and its rate is not set below zero. -/
def KeepsRate (_ : Storage Address W) : Input Address W contract (Call Address) → Prop
  | .call _ (.initialise _ _ _ _ _ _) => False
  | .call _ (.updateConfig _ _ _ _ ir _) => ∀ rate ∈ ir, 0 ≤ rate
  | _ => True

def PledgesNonneg (_ : Storage Address W) : Input Address W contract (Call Address) → Prop
  | .call _ (.setCollateral _ n) => 0 ≤ n
  | _ => True

theorem rate_invoke {c : Call Address} (h : invoke M env s c = .ok t)
    (hE : KeepsRate s (.call env c : Input Address W contract (Call Address)))
    (hs : 0 ≤ s.interestRate) : 0 ≤ t.interestRate := by
  rw [(settings_invoke h).1]
  cases c with
  | initialise => exact absurd hE id
  | updateConfig admin cf lt lb ir rf =>
    cases ir with
    | none => exact hs
    | some rate => exact hE rate rfl
  | _ => exact hs

theorem nonNegative_settings (h : SameBooks s t) (hs : NonNegative s) : NonNegative t where
  deposits user := by
    rw [Storage.depositOf, h.userDeposits]
    exact hs.deposits user
  borrows user := by
    rw [Storage.borrowOf, h.userBorrows]
    exact hs.borrows user
  collateral user := by
    rw [Storage.collateralOf, h.userCollateral]
    exact hs.collateral user
  totalBorrows := by
    rw [h.totalBorrows]
    exact hs.totalBorrows

theorem owed_setBorrow {user : Address} {n : Int} (hb : ∀ user, 0 ≤ s.borrowOf user)
    (ht : sum s.userBorrows ≤ s.totalBorrows) (h0 : 0 ≤ s.borrowOf user + n) :
    (∀ v, 0 ≤ (s.setBorrow user (s.borrowOf user + n)).borrowOf v) ∧
      sum (s.setBorrow user (s.borrowOf user + n)).userBorrows ≤ s.totalBorrows + n := by
  refine ⟨forall_readOr_insert hb user h0, ?_⟩
  rw [s.sum_setBorrow]
  omega

theorem nonNegative_effect {c : Call Address} (h : Effect M env s c t)
    (hE : KeepsRate s (.call env c : Input Address W contract (Call Address))) (ho : Owed s)
    (hs : NonNegative s) :
    (NonNegative t ↔ PledgesNonneg s (.call env c : Input Address W contract (Call Address))) ∧
      sum t.userBorrows ≤ t.totalBorrows := by
  obtain ⟨hd, hb, hc, ht⟩ := hs
  cases h with
  | initialise => exact absurd hE id
  | deposit src n b w hpos =>
    have hcredit : 0 ≤ s.depositOf src + n := add_nonneg (hd src) hpos.le
    exact ⟨iff_of_true ⟨forall_readOr_insert hd src hcredit, hb, hc, ht⟩ trivial, ho.total⟩
  | withdraw src n u w hpos hsrc hz hu hle =>
    have hkept : 0 ≤ s.depositOf src - n := sub_nonneg.mpr hle
    exact ⟨iff_of_true ⟨forall_readOr_insert hd src hkept, hb, hc, ht⟩ trivial, ho.total⟩
  | borrow src n w hpos =>
    obtain ⟨hborrows, htotal⟩ := owed_setBorrow hb ho.total (add_nonneg (hb src) hpos.le)
    exact ⟨iff_of_true ⟨hd, hborrows, hc, add_nonneg ht hpos.le⟩ trivial, htotal⟩
  | repay src amount n w hpos hsrc hn hw =>
    have hle : n ≤ s.borrowOf src := hn.trans_le (min_le_right _ _)
    have hall : s.borrowOf src ≤ sum s.userBorrows := le_sum _ hb src
    obtain ⟨hborrows, htotal⟩ := owed_setBorrow (n := -n) hb ho.total (sub_nonneg.mpr hle)
    exact ⟨iff_of_true ⟨hd, hborrows, hc, sub_nonneg.mpr (hle.trans (hall.trans ho.total))⟩ trivial,
      htotal⟩
  | setCollateral user n hle hh =>
    refine ⟨⟨fun h => ?_, fun h => ⟨hd, hb, forall_readOr_insert hc user h, ht⟩⟩, ho.total⟩
    exact (h.collateral user).trans_eq (s.collateralOf_setCollateral_self user n)
  | liquidate liquidator borrower repayAmount minCollateral n seize v w hpos hsrc hn hseize hle =>
    have hrepaid : n ≤ s.borrowOf borrower := hn.trans_le (min_le_right _ _)
    have hall : s.borrowOf borrower ≤ sum s.userBorrows := le_sum _ hb borrower
    have hleft : 0 ≤ s.collateralOf borrower - seize := sub_nonneg.mpr hle
    obtain ⟨hborrows, htotal⟩ := owed_setBorrow (n := -n) hb ho.total (sub_nonneg.mpr hrepaid)
    exact ⟨iff_of_true ⟨hd, hborrows, forall_readOr_insert hc borrower hleft,
      sub_nonneg.mpr (hrepaid.trans (hall.trans ho.total))⟩ trivial, htotal⟩
  | upToDate => exact ⟨iff_of_true ⟨hd, hb, hc, ht⟩ trivial, ho.total⟩
  | accrue n hn =>
    have hinterest := interestFor_nonneg ho.rate ht n
    exact ⟨iff_of_true ⟨hd, hb, hc, add_nonneg ht hinterest⟩ trivial,
      ho.total.trans (le_add_of_nonneg_right hinterest)⟩
  | @configure c _ hconf hsame =>
    refine ⟨iff_of_true (nonNegative_settings hsame ⟨hd, hb, hc, ht⟩) ?_, ?_⟩
    · cases c with
      | setCollateral => exact absurd hconf id
      | _ => trivial
    · rw [hsame.userBorrows, hsame.totalBorrows]
      exact ho.total
  | setCollateralAsset => exact ⟨iff_of_true ⟨hd, hb, hc, ht⟩ trivial, ho.total⟩
  | setCollateralToken => exact ⟨iff_of_true ⟨hd, hb, hc, ht⟩ trivial, ho.total⟩
  | depositCollateral src n w hpos =>
    have hpledged : 0 ≤ s.collateralOf src + n := add_nonneg (hc src) hpos.le
    exact ⟨iff_of_true ⟨hd, hb, forall_readOr_insert hc src hpledged, ht⟩ trivial, ho.total⟩
  | withdrawCollateral src n w hpos hsrc hle =>
    have hleft : 0 ≤ s.collateralOf src - n := sub_nonneg.mpr hle
    exact ⟨iff_of_true ⟨hd, hb, forall_readOr_insert hc src hleft, ht⟩ trivial, ho.total⟩

/-- After one initialisation with a rate that is not negative, no position and no
total of borrows is below zero in any state of a run exactly when no accepted
pledge of the run is. -/
theorem nonNegative_iff_pledges {w : W} {admin : Address} {cf lt lb ir rf : Int}
    (h : initialise env (.fresh w) admin cf lt lb ir rf = .ok s) (hrate : 0 ≤ ir)
    (is : List (Input Address W contract (Call Address)))
    (hE : Along (step M) KeepsRate s is) :
    Throughout (step M) NonNegative s is ↔ Along (step M) PledgesNonneg s is := by
  simp only [initialise, bind_eq_ok, pure_eq_ok] at h
  obtain ⟨_, -, _, -, rfl⟩ := h
  refine throughout_iff_along (J := Owed) (fun s i t ho hs hi ht => ?_) ⟨hrate, le_rfl⟩
    ⟨fun _ => le_rfl, fun _ => le_rfl, fun _ => le_rfl, le_rfl⟩ hE
  cases i with
  | call env c =>
    obtain ⟨hiff, htotal⟩ := nonNegative_effect (invoke_effect ht) hi ho hs
    exact ⟨hiff, fun _ => ⟨rate_invoke ht hi ho.rate, htotal⟩⟩
  | world w =>
    cases pure_eq_ok.mp ht
    exact ⟨iff_of_true ⟨hs.deposits, hs.borrows, hs.collateral, hs.totalBorrows⟩ trivial,
      fun _ => ⟨ho.rate, ho.total⟩⟩

theorem nonNegative_iff_pledges_sample :
    Throughout (step (bookMarket Nat)) NonNegative sampleOpen
      [.call (Env.signed 0 0) (.setCollateralAsset 1 10),
        .call (Env.signed 0 1) (.deposit 2 1000), .call (Env.signed 0 2) (.setCollateral 2 1000),
        .call (Env.signed 0 3) (.borrow 2 500)] := by
  have hopen : initialise (Env.signed 0 0) (.fresh sampleWorld) 1 7500 8500 500 500 1000 =
      .ok sampleOpen := rfl
  refine (nonNegative_iff_pledges hopen (by decide) _ ?_).mpr ?_
  · simp [Along, KeepsRate]
  · simp [Along, PledgesNonneg]

/-- A user without debts may pledge less than nothing. -/
theorem negative_pledge_is_accepted :
    initialise (Env.signed 0 0) (.fresh sampleWorld) 1 7500 8500 500 500 1000 = .ok sampleOpen ∧
      ¬ Throughout (step (bookMarket Nat)) NonNegative sampleOpen
        [.call (Env.signed 0 1) (.setCollateral 2 (-5))] := by
  refine ⟨rfl, fun h => ?_⟩
  have hpledge := (throughout_run h).collateral 2
  revert hpledge
  decide

end Suban.LendingPool.Signs
