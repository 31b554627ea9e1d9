import Mathlib.Algebra.Order.Group.Abs
import Suban.LendingPool.Setup
import Suban.LendingPool.Steps
import Suban.Soroban.Ledgers

namespace Suban.LendingPool.Interest

open Suban.Basis.Calls Suban.Basis.Tables Suban.Basis.Runs Suban.Soroban.Host
open Suban.LendingPool.State Suban.LendingPool.Contract Suban.LendingPool.Steps
open Suban.LendingPool.Setup
open Suban.Soroban.Ledgers (InOrder)

variable {Address W : Type} [DecidableEq Address] {contract : Address}
variable {M : Market Address W} {env : Env Address contract} {s t : Storage Address W}

/-- What a ledger adds to the borrows, in units of a thousand millionth. -/
def load (s : Storage Address W) : Int := s.totalBorrows * s.interestRate

/-- The load of the ledgers since the last accrual, as far as it has been
counted. -/
structure Meter where
  since : Nat
  area : Int

namespace Meter

def areaAt (m : Meter) (s : Storage Address W) (ledger : Nat) : Int :=
  m.area + load s * (ledger - m.since : Nat)

/-- An accrual starts the count afresh, and so does initialising the pool. -/
def next (m : Meter) (s : Storage Address W) (ledger : Nat) : Call Address → Meter
  | .initialise _ _ _ _ _ _ | .accrueInterest => ⟨ledger, 0⟩
  | _ => ⟨ledger, m.areaAt s ledger⟩

end Meter

/-- An accrual adds the load of the ledgers since the last one, up to a unit.
Another call leaves the load of the ledgers before it as it was. -/
def ChargesLoad (m : Meter) (env : Env Address contract) (s t : Storage Address W) :
    Call Address → Prop
  | .initialise _ _ _ _ _ _ => True
  | .accrueInterest =>
    |1000000000 * (t.totalBorrows - s.totalBorrows) - m.areaAt s env.sequence| ≤ 1000000000
  | _ => load t * (env.sequence - s.lastAccrual : Nat) =
      load s * (env.sequence - s.lastAccrual : Nat)

def FollowsLoad : Meter → History Address W contract → Prop
  | _, [] => True
  | m, (_, .world _, _) :: h => FollowsLoad m h
  | m, (s, .call env c, t) :: h =>
    ChargesLoad m env s t c ∧ FollowsLoad (m.next s env.sequence c) h

def loadAfter (s : Storage Address W) : Call Address → Int
  | .borrow _ n => (s.totalBorrows + n) * s.interestRate
  | .repay src amount => (s.totalBorrows - min amount (s.borrowOf src)) * s.interestRate
  | .liquidate _ borrower repayAmount _ =>
    (s.totalBorrows - min repayAmount (s.borrowOf borrower)) * s.interestRate
  | .updateConfig _ _ _ _ ir _ => s.totalBorrows * ir.getD s.interestRate
  | _ => load s

/-- A call that changes the load is made in the ledger of the last accrual. -/
def OnTime (s : Storage Address W) : Input Address W contract (Call Address) → Prop
  | .call env c => loadAfter s c = load s ∨ env.sequence ≤ s.lastAccrual
  | .world _ => True

/-- The call restarts the interest: it accrues it or initialises the pool. -/
def Restarts : Call Address → Prop
  | .initialise _ _ _ _ _ _ | .accrueInterest => True
  | _ => False

theorem load_invoke {c : Call Address} (h : invoke M env s c = .ok t) (hc : ¬ Restarts c) :
    load t = loadAfter s c ∧ t.lastAccrual = s.lastAccrual := by
  obtain ⟨hrate, haccrual⟩ := settings_invoke h
  unfold load
  cases invoke_effect h with
  | initialise => exact absurd trivial hc
  | upToDate => exact absurd trivial hc
  | accrue => exact absurd trivial hc
  | repay src amount n w hpos hsrc hn =>
    subst hn
    exact ⟨rfl, rfl⟩
  | liquidate liquidator borrower repayAmount minCollateral n seize v w hpos hsrc hn =>
    subst hn
    exact ⟨rfl, rfl⟩
  | @configure c _ hconf hsame =>
    rw [hsame.totalBorrows, hrate, haccrual]
    cases c with
    | setPaused | updateConfig | setPriceOracle | clearPriceOracle => exact ⟨rfl, rfl⟩
    | _ => exact absurd hconf id
  | _ => exact ⟨rfl, rfl⟩

theorem chargesLoad_iff {m : Meter} {c : Call Address} (h : invoke M env s c = .ok t)
    (hc : ¬ Restarts c) :
    ChargesLoad m env s t c ↔ OnTime s (.call env c : Input Address W contract (Call Address)) := by
  have hload := (load_invoke h hc).1
  have hiff : load t * (env.sequence - s.lastAccrual : Nat) =
      load s * (env.sequence - s.lastAccrual : Nat) ↔
      loadAfter s c = load s ∨ env.sequence ≤ s.lastAccrual := by
    rw [hload, mul_eq_mul_right_iff, Nat.cast_eq_zero, Nat.sub_eq_zero_iff_le]
  cases c with
  | initialise | accrueInterest => exact absurd trivial hc
  | _ => exact hiff

/-- The meter has counted the load in force for the ledgers since the last
accrual. -/
structure Reads (m : Meter) (s : Storage Address W) : Prop where
  since : s.lastAccrual ≤ m.since
  area : m.area = load s * (m.since - s.lastAccrual : Nat)

theorem Reads.areaAt {m : Meter} (h : Reads m s) {ledger : Nat} (hle : m.since ≤ ledger) :
    m.areaAt s ledger = load s * (ledger - s.lastAccrual : Nat) := by
  rw [Meter.areaAt, h.area, ← mul_add, ← Nat.cast_add]
  congr 2
  have hsince := h.since
  omega

theorem scaled_interestFor (s : Storage Address W) (n : Nat) :
    1000000000 * interestFor s n = load s * n - (load s * n).tmod 1000000000 :=
  eq_sub_of_add_eq (Int.mul_tdiv_add_tmod _ _)

theorem abs_interestFor_sub_load (s : Storage Address W) (n : Nat) :
    |1000000000 * interestFor s n - load s * n| ≤ 1000000000 := by
  have hlow : -1000000000 < (load s * n).tmod 1000000000 := Int.lt_tmod_of_pos _ (by decide)
  have hhigh : (load s * n).tmod 1000000000 < 1000000000 := Int.tmod_lt_of_pos _ (by decide)
  rw [scaled_interestFor, abs_le]
  omega

theorem accrue_charges {m : Meter} (h : invoke M env s .accrueInterest = .ok t)
    (hm : Reads m s) (hle : m.since ≤ env.sequence) :
    ChargesLoad m env s t .accrueInterest := by
  have hadded : t.totalBorrows - s.totalBorrows =
      interestFor s (env.sequence - s.lastAccrual) := by
    rw [(accrueInterest_ok h).1, add_sub_cancel_left]
  unfold ChargesLoad
  rw [hadded, hm.areaAt hle]
  exact abs_interestFor_sub_load s _

theorem reads_invoke {m : Meter} {c : Call Address} (h : invoke M env s c = .ok t)
    (hm : Reads m s) (hle : m.since ≤ env.sequence)
    (htime : OnTime s (.call env c : Input Address W contract (Call Address))) :
    ChargesLoad m env s t c ∧ Reads (m.next s env.sequence c) t := by
  have hlast := (settings_invoke h).2
  by_cases hc : Restarts c
  · cases c with
    | initialise =>
      refine ⟨trivial, hlast.le, ?_⟩
      rw [hlast]
      simp [Meter.next, accrualAfter]
    | accrueInterest =>
      have hnow : t.lastAccrual = env.sequence := by
        rw [hlast]
        exact max_eq_right (hm.since.trans hle)
      refine ⟨accrue_charges h hm hle, hnow.le, ?_⟩
      rw [hnow]
      simp [Meter.next]
    | _ => exact absurd hc id
  · have hcharged := (chargesLoad_iff (m := m) h hc).mpr htime
    obtain ⟨hload, hsame⟩ := load_invoke h hc
    have hnext : m.next s env.sequence c = ⟨env.sequence, m.areaAt s env.sequence⟩ := by
      cases c with
      | initialise | accrueInterest => exact absurd trivial hc
      | _ => rfl
    have hkept : load t * (env.sequence - s.lastAccrual : Nat) =
        load s * (env.sequence - s.lastAccrual : Nat) := by
      cases c with
      | initialise | accrueInterest => exact absurd trivial hc
      | _ => exact hcharged
    refine ⟨hcharged, ?_⟩
    rw [hnext]
    refine ⟨hsame.le.trans (hm.since.trans hle), ?_⟩
    rw [hsame, hkept]
    exact hm.areaAt hle

theorem onTime_of_followsLoad {m : Meter} {is : List (Input Address W contract (Call Address))}
    (h : FollowsLoad m (history (step M) s is)) : Along (step M) OnTime s is := by
  induction is generalizing s m with
  | nil => trivial
  | cons i is ih =>
    cases hi : step M s i with
    | error e =>
      rw [history_error hi] at h
      refine ⟨fun t ht => ?_, ?_⟩
      · rw [hi] at ht
        cases ht
      · rw [next_error hi]
        exact ih h
    | ok t =>
      rw [history_ok hi] at h
      rw [Along, next_ok hi]
      cases i with
      | world w => exact ⟨fun _ _ => trivial, ih h⟩
      | call env c =>
        refine ⟨fun u hu => ?_, ih h.2⟩
        cases hi.symm.trans hu
        by_cases hc : Restarts c
        · cases c with
          | initialise | accrueInterest => exact .inl rfl
          | _ => exact absurd hc id
        · exact (chargesLoad_iff hi hc).mp h.1

theorem followsLoad_of_onTime {m : Meter} {ledger : Nat}
    {is : List (Input Address W contract (Call Address))} (hm : Reads m s)
    (hle : m.since ≤ ledger) (horder : InOrder ledger is) (h : Along (step M) OnTime s is) :
    FollowsLoad m (history (step M) s is) := by
  induction is generalizing s m ledger with
  | nil => trivial
  | cons i is ih =>
    cases hi : step M s i with
    | error e =>
      have hrest := h.2
      rw [next_error hi] at hrest
      rw [history_error hi]
      cases i with
      | world w => exact ih hm hle horder hrest
      | call env c => exact ih hm (hle.trans horder.1) horder.2 hrest
    | ok t =>
      have hrest := h.2
      rw [next_ok hi] at hrest
      rw [history_ok hi]
      cases i with
      | world w =>
        cases pure_eq_ok.mp hi
        exact ih ⟨hm.since, hm.area⟩ hle horder hrest
      | call env c =>
        obtain ⟨hcharged, hnext⟩ := reads_invoke hi hm (hle.trans horder.1) (h.1 t hi)
        have hsince : (m.next s env.sequence c).since = env.sequence := by cases c <;> rfl
        exact ⟨hcharged, ih hnext hsince.le horder.2 hrest⟩

/-- In a run whose ledgers do not run back every accrual adds the load in force
since the last one, and no other call changes what earlier ledgers have added,
exactly when each call that changes the load is made in the ledger of the last
accrual. -/
theorem followsLoad_iff_onTime (w : W) {is : List (Input Address W contract (Call Address))}
    (h : InOrder 0 is) :
    FollowsLoad ⟨0, 0⟩ (history (step M) (.fresh w) is) ↔
      Along (step M) OnTime (.fresh w) is := by
  refine ⟨onTime_of_followsLoad, followsLoad_of_onTime ⟨le_rfl, ?_⟩ le_rfl h⟩
  simp [load, Storage.fresh]

def borrowedTwice : List (Input Nat (Nat → Nat → Nat) 0 (Call Nat)) :=
  samplePool ++
    [.call (Env.signed 0 0) (.deposit 2 4000), .call (Env.signed 0 0) (.setCollateral 2 4000),
      .call (Env.signed 0 0) (.borrow 2 500), .call (Env.signed 0 20000) (.borrow 2 500),
      .call (Env.signed 0 20000) .accrueInterest]

theorem inOrder_borrowedTwice : InOrder 0 borrowedTwice := by
  simp [borrowedTwice, samplePool, InOrder, Env.signed]

theorem followsLoad_iff_onTime_sample :
    FollowsLoad ⟨0, 0⟩ (history (step (bookMarket Nat)) (.fresh sampleWorld) borrowedTwice) ↔
      Along (step (bookMarket Nat)) OnTime (.fresh sampleWorld) borrowedTwice :=
  followsLoad_iff_onTime sampleWorld inOrder_borrowedTwice

/-- The second 500 are charged for the ledgers before they were borrowed: the
accrual adds 10, and the load in force comes to 5. -/
theorem late_borrow_charges_the_past :
    (run (step (bookMarket Nat)) (.fresh sampleWorld) borrowedTwice).totalBorrows = 1010 ∧
      ¬ FollowsLoad ⟨0, 0⟩
        (history (step (bookMarket Nat)) (.fresh sampleWorld) borrowedTwice) := by
  refine ⟨by decide +kernel, fun h => ?_⟩
  obtain ⟨-, -, -, -, -, hlate, -⟩ := onTime_of_followsLoad h
  let once := run (step (bookMarket Nat)) (.fresh sampleWorld) (borrowedTwice.take 5)
  have hok : (step (bookMarket Nat) once (.call (Env.signed 0 20000) (.borrow 2 500))).isOk =
      true := by decide +kernel
  obtain ⟨t, ht⟩ := exists_of_isOk hok
  obtain hload | hledger := hlate t ht
  · exact absurd hload (by decide +kernel)
  · exact absurd hledger (by decide +kernel)

end Suban.LendingPool.Interest
