import Mathlib.Algebra.Order.Group.Unbundled.Abs
import Suban.LendingPool.Setup

namespace Suban.LendingPool.Debt

open Suban.Basis.Calls Suban.Basis.Tables Suban.Basis.Runs Suban.Soroban.Host
open Suban.LendingPool.State Suban.LendingPool.Contract Suban.LendingPool.Steps
open Suban.LendingPool.Setup

variable {Address W : Type} [DecidableEq Address] {contract : Address}
variable {M : Market Address W} {env : Env Address contract} {s t : Storage Address W}

def borrowers (s : Storage Address W) : Nat :=
  (s.userBorrows.entries.filter fun e => e.2 ≠ 0).length

/-- What a call adds to the total of the borrows and to nobody's debt. -/
def unowedBy (x : Storage Address W × Input Address W contract (Call Address) × Storage Address W) :
    Int :=
  match x.2.1 with
  | .call env .accrueInterest => interestFor x.1 (env.sequence - x.1.lastAccrual)
  | .call _ (.initialise _ _ _ _ _ _) => -x.1.totalBorrows
  | _ => 0

def slackOf (x : Storage Address W × Input Address W contract (Call Address) × Storage Address W) :
    Int :=
  match x.2.1 with
  | .call _ .accrueInterest => borrowers x.1
  | _ => 0

def unowed (h : History Address W contract) : Int := (h.map unowedBy).sum

def slack (h : History Address W contract) : Int := (h.map slackOf).sum

/-- The users owe what the pool is owed, up to the slack. So nothing but slack is
left of the total when nobody owes anything. -/
structure OwedByUsers (s : Storage Address W) (n : Int) : Prop where
  total : |s.totalBorrows - sum s.userBorrows| ≤ n
  cleared : (∀ user, s.borrowOf user = 0) → |s.totalBorrows| ≤ n

theorem owedByUsers_iff {n : Int} :
    OwedByUsers s n ↔ |s.totalBorrows - sum s.userBorrows| ≤ n := by
  refine ⟨OwedByUsers.total, fun h => ⟨h, fun hz => ?_⟩⟩
  rwa [sum_eq_zero _ hz, sub_zero] at h

theorem gap_setBorrow (s : Storage Address W) (user : Address) (n : Int) :
    s.totalBorrows + n - sum (s.setBorrow user (s.borrowOf user + n)).userBorrows =
      s.totalBorrows - sum s.userBorrows + 0 := by
  rw [s.sum_setBorrow]
  ring

theorem gap_effect {c : Call Address} (h : Effect M env s c t) :
    t.totalBorrows - sum t.userBorrows = s.totalBorrows - sum s.userBorrows +
      unowedBy (s, (.call env c : Input Address W contract (Call Address)), t) := by
  cases h with
  | initialise =>
    change 0 - sum s.userBorrows = s.totalBorrows - sum s.userBorrows + -s.totalBorrows
    ring
  | borrow src n => exact gap_setBorrow s src n
  | repay src amount n => exact gap_setBorrow s src (-n)
  | liquidate liquidator borrower repayAmount minCollateral n seize =>
    exact gap_setBorrow s borrower (-n)
  | upToDate hz =>
    have hnone : interestFor s (env.sequence - s.lastAccrual) = 0 := by
      rw [hz, interestFor, Nat.cast_zero, mul_zero, Int.zero_tdiv]
    change _ = _ + interestFor s (env.sequence - s.lastAccrual)
    rw [hnone, add_zero]
  | accrue n hn =>
    subst hn
    exact add_sub_right_comm _ _ _
  | @configure c _ hconf hsame =>
    rw [hsame.totalBorrows, hsame.userBorrows]
    cases c with
    | setPaused | updateConfig | setPriceOracle | clearPriceOracle => exact (add_zero _).symm
    | _ => exact absurd hconf id
  | _ => exact (add_zero _).symm

theorem gap_step {i : Input Address W contract (Call Address)} (h : step M s i = .ok t) :
    t.totalBorrows - sum t.userBorrows = s.totalBorrows - sum s.userBorrows +
      unowedBy (s, i, t) := by
  cases i with
  | call env c => exact gap_effect (invoke_effect h)
  | world w =>
    cases pure_eq_ok.mp h
    exact (add_zero _).symm

/-- What the pool is owed and the users do not owe is what the accruals of the
run have added, less what initialising the pool again has struck off. -/
theorem gap_run (w : W) (is : List (Input Address W contract (Call Address))) :
    (run (step M) (.fresh w) is).totalBorrows - sum (run (step M) (.fresh w) is).userBorrows =
      unowed (history (step M) (.fresh w) is) := by
  have hall : Throughout (step M) (fun _ => True) (.fresh w) is :=
    throughout_of_along (fun _ _ _ _ _ _ => trivial) trivial (along_true _ is)
  have hstep : ∀ s (i : Input Address W contract (Call Address)) t, True → step M s i = .ok t →
      t.totalBorrows - sum t.userBorrows =
        s.totalBorrows - sum s.userBorrows + unowedBy (s, i, t) := fun s i t _ => gap_step
  exact (sum_history (fun s => s.totalBorrows - sum s.userBorrows) hstep hall).trans (zero_add _)

/-- After any run the users owe what the pool is owed, up to a unit for each
borrower of each accrual, exactly when that is all that the accruals have added
and no initialisation has struck off. -/
theorem owedByUsers_iff_unowed (w : W) (is : List (Input Address W contract (Call Address))) :
    OwedByUsers (run (step M) (.fresh w) is) (slack (history (step M) (.fresh w) is)) ↔
      |unowed (history (step M) (.fresh w) is)| ≤ slack (history (step M) (.fresh w) is) := by
  rw [owedByUsers_iff, gap_run]

def repaid : List (Input Nat (Nat → Nat → Nat) 0 (Call Nat)) :=
  samplePool ++
    [.call (Env.signed 0 0) (.deposit 2 1000), .call (Env.signed 0 0) (.setCollateral 2 1000),
      .call (Env.signed 0 0) (.borrow 2 500), .call (Env.signed 0 20000) .accrueInterest,
      .call (Env.signed 0 20000) (.repay 2 600)]

/-- The interest on a debt that has been repaid is owed by nobody. -/
theorem interest_is_owed_by_nobody :
    (run (step (bookMarket Nat)) (.fresh sampleWorld) repaid).borrowOf 2 = 0 ∧
      (run (step (bookMarket Nat)) (.fresh sampleWorld) repaid).totalBorrows = 5 ∧
      ¬ OwedByUsers (run (step (bookMarket Nat)) (.fresh sampleWorld) repaid)
        (slack (history (step (bookMarket Nat)) (.fresh sampleWorld) repaid)) := by
  refine ⟨by decide +kernel, by decide +kernel, fun h => ?_⟩
  have htotal := h.total
  revert htotal
  decide +kernel

end Suban.LendingPool.Debt
