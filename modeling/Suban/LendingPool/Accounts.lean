import Suban.Basis.Runs
import Suban.LendingPool.Health
import Suban.LendingPool.Setup

namespace Suban.LendingPool.Accounts

open Suban.Basis.Calls Suban.Basis.Tables Suban.Basis.Runs Suban.Soroban.Host
open Suban.LendingPool.State Suban.LendingPool.Contract Suban.LendingPool.Steps
open Suban.LendingPool.Health Suban.LendingPool.Setup

variable {Address W : Type} [DecidableEq Address] {contract : Address}
variable {M : Market Address W} {env : Env Address contract} {s t r : Storage Address W}
variable {user : Address}

def told : Event Address → Option (Address × UserPosition)
  | .deposit src _ _ after _ | .withdraw src _ _ after _ | .borrow src _ after _
  | .repay src _ after _ | .setCol src _ after _ | .depCol src _ after _ | .wdCol src _ after _ =>
    some (src, after)
  | .liquidate _ borrower _ _ after _ => some (borrower, after)
  | .accrue .. => none

def toldOf (user : Address) (e : Event Address) : Option UserPosition :=
  ((told e).filter fun p => p.1 = user).map Prod.snd

def lastTold (user : Address) (events : List (Event Address)) : Option UserPosition :=
  events.reverse.findSome? (toldOf user)

/-- All positions are known from the events alone. -/
def Told (s : Storage Address W) : Prop :=
  ∀ user, s.readUserPosition user = (lastTold user s.events).getD ⟨0, 0, 0⟩

theorem lastTold_append (events : List (Event Address)) (e : Event Address) :
    lastTold user (events ++ [e]) = (toldOf user e).or (lastTold user events) := by
  rw [lastTold, List.reverse_append, List.reverse_singleton, List.singleton_append,
    List.findSome?_cons]
  cases toldOf user e <;> rfl

theorem Told.report (hs : Told s) {e : UserPosition → PoolTotals → Event Address}
    (hevents : r.events = s.events) (htold : ∀ p totals, told (e p totals) = some (user, p))
    (hother : ∀ v, v ≠ user → r.readUserPosition v = s.readUserPosition v) :
    Told (r.report user e) := by
  intro v
  have hlast : lastTold v (r.report user e).events =
      (toldOf v (e (r.readUserPosition user) r.readPoolTotals)).or (lastTold v s.events) := by
    rw [← hevents]
    exact lastTold_append _ _
  rw [hlast, toldOf, htold]
  by_cases hv : v = user
  · subst hv
    simp only [Option.filter, decide_true, if_true, Option.map_some, Option.some_or,
      Option.getD_some]
    rfl
  · have hne : user ≠ v := Ne.symm hv
    simp only [Option.filter, hne, decide_false, Bool.false_eq_true, if_false, Option.map_none,
      Option.none_or]
    exact (hother v hv).trans (hs v)

theorem Told.silent (hs : Told s) {e : Event Address} (he : told e = none)
    (hevents : r.events = s.events ++ [e])
    (hsame : ∀ v, r.readUserPosition v = s.readUserPosition v) : Told r := by
  intro v
  have hnone : toldOf v e = none := by rw [toldOf, he]; rfl
  rw [hsame, hevents, lastTold_append, hnone, Option.none_or]
  exact hs v

theorem position_eq {v : Address} (hd : t.depositOf v = s.depositOf v)
    (hb : t.borrowOf v = s.borrowOf v) (hc : t.collateralOf v = s.collateralOf v) :
    t.readUserPosition v = s.readUserPosition v := by
  rw [Storage.readUserPosition, hd, hb, hc]
  rfl

theorem read_other {table : Table Address Int} {v : Address} (hv : v ≠ user) (n : Int) :
    readOr (table.insert user n) v 0 = readOr table v 0 :=
  (readOr_insert _ _ _ _ _).trans (if_neg hv)

theorem read_self {table : Table Address Int} (n : Int) : readOr (table.insert user n) user 0 = n :=
  (readOr_insert _ _ _ _ _).trans (if_pos rfl)

theorem told_effect {c : Call Address} (h : Effect M env s c t) (hs : Told s) : Told t := by
  cases h with
  | initialise | upToDate | setCollateralAsset | setCollateralToken => exact hs
  | deposit src | withdraw src =>
    exact hs.report rfl (fun _ _ => rfl) fun v hv => position_eq (read_other hv _) rfl rfl
  | borrow src | repay src =>
    exact hs.report rfl (fun _ _ => rfl) fun v hv => position_eq rfl (read_other hv _) rfl
  | setCollateral src | depositCollateral src | withdrawCollateral src =>
    exact hs.report rfl (fun _ _ => rfl) fun v hv => position_eq rfl rfl (read_other hv _)
  | liquidate liquidator borrower =>
    exact hs.report rfl (fun _ _ => rfl) fun v hv =>
      position_eq rfl (read_other hv _) (read_other hv _)
  | accrue => exact hs.silent rfl rfl fun _ => rfl
  | configure hc ht =>
    intro v
    rw [ht.events, ← hs v]
    exact position_eq (by rw [Storage.depositOf, ht.userDeposits]; rfl)
      (by rw [Storage.borrowOf, ht.userBorrows]; rfl)
      (by rw [Storage.collateralOf, ht.userCollateral]; rfl)

theorem told_step {i : Input Address W contract (Call Address)} (h : step M s i = .ok t)
    (hs : Told s) : Told t := by
  cases i with
  | call env c => exact told_effect (invoke_effect h) hs
  | world w =>
    cases pure_eq_ok.mp h
    exact hs

/-- In every state of a run each position is the one that the last event about it
has told. -/
theorem told_throughout (w : W) (is : List (Input Address W contract (Call Address))) :
    Throughout (step M) Told (.fresh w) is :=
  throughout_of_along (C := fun _ _ => True) (fun _ _ _ hu _ hv => told_step hv hu)
    (fun _ => rfl) (along_true _ is)

def caller : Call Address → Option Address
  | .deposit src _ | .withdraw src _ | .borrow src _ | .repay src _ | .setCollateral src _
  | .liquidate src _ _ _ | .depositCollateral src _ | .withdrawCollateral src _ => some src
  | _ => none

theorem signed_of_caller {c : Call Address} {a : Address} (h : invoke M env s c = .ok t)
    (hc : caller c = some a) : s.poolPaused = false ∧ env.auths a = true := by
  have hopen {u : Unit} (hu : requireNotPaused s = .ok u) : s.poolPaused = false :=
    Bool.eq_false_iff.mpr (rejectIf_eq_ok.mp hu)
  cases c with
  | deposit | withdraw | repay =>
    cases hc
    simp only [invoke, deposit, withdraw, repay, bind_eq_ok, requireAuth_eq_ok] at h
    obtain ⟨_, ⟨_, -, _, hpaused, _, hauth, -⟩, -⟩ := h
    exact ⟨hopen hpaused, hauth⟩
  | borrow | liquidate | depositCollateral | withdrawCollateral =>
    cases hc
    simp only [invoke, borrow, liquidate, depositCollateral, withdrawCollateral, bind_eq_ok,
      requireAuth_eq_ok] at h
    obtain ⟨_, -, _, hpaused, _, hauth, -⟩ := h
    exact ⟨hopen hpaused, hauth⟩
  | setCollateral =>
    cases hc
    simp only [invoke, setCollateral, bind_eq_ok, requireAuth_eq_ok] at h
    obtain ⟨_, hpaused, _, hauth, -⟩ := h
    exact ⟨hopen hpaused, hauth⟩
  | _ => cases hc

def subject : Call Address → Option Address
  | .liquidate _ borrower _ _ => some borrower
  | c => caller c

theorem position_other {c : Call Address} (h : Effect M env s c t) (hc : subject c ≠ some user) :
    t.readUserPosition user = s.readUserPosition user := by
  have hne {a : Address} (ha : subject c = some a) : user ≠ a := by
    rintro rfl
    exact hc ha
  cases h with
  | initialise | upToDate | accrue | setCollateralAsset | setCollateralToken => rfl
  | deposit src | withdraw src => exact position_eq (read_other (hne rfl) _) rfl rfl
  | borrow src | repay src => exact position_eq rfl (read_other (hne rfl) _) rfl
  | setCollateral src | depositCollateral src | withdrawCollateral src =>
    exact position_eq rfl rfl (read_other (hne rfl) _)
  | liquidate liquidator borrower =>
    exact position_eq rfl (read_other (hne rfl) _) (read_other (hne rfl) _)
  | configure hc ht =>
    exact position_eq (by rw [Storage.depositOf, ht.userDeposits]; rfl)
      (by rw [Storage.borrowOf, ht.userBorrows]; rfl)
      (by rw [Storage.collateralOf, ht.userCollateral]; rfl)

/-- A user changes a position of his own. Another one may only liquidate it, while
it is not healthy, and then as much collateral goes as the repaid debt is worth. -/
inductive Entitled (M : Market Address W) (env : Env Address contract) (s t : Storage Address W)
    (user : Address) : Call Address → Prop where
  | owner {c : Call Address} (hcaller : caller c = some user) (hsubject : subject c = some user)
      (hauth : env.auths user = true) : Entitled M env s t user c
  | liquidator (liquidator : Address) (repayAmount minCollateral n : Int)
      (hauth : env.auths liquidator = true)
      (hsick : ∃ health, calculateHealthFactor M env s user = .ok health ∧ health < 10000)
      (hn : n = min repayAmount (s.borrowOf user))
      (hafter : t.readUserPosition user = ⟨s.depositOf user, s.borrowOf user - n,
        s.collateralOf user - (n * (10000 + s.liquidationBonus)).tdiv 10000⟩) :
      Entitled M env s t user (.liquidate liquidator user repayAmount minCollateral)

theorem entitled_of_subject {c : Call Address} (h : invoke M env s c = .ok t)
    (hc : subject c = some user) : s.poolPaused = false ∧ Entitled M env s t user c := by
  cases c with
  | liquidate liquidator borrower repayAmount minCollateral =>
    cases hc
    obtain ⟨hopen, hauth⟩ := signed_of_caller h rfl
    refine ⟨hopen, .liquidator liquidator repayAmount minCollateral _ hauth
      (liquidate_health h) rfl ?_⟩
    cases invoke_effect h with
    | liquidate _ _ _ _ n seize v w hpos hsrc hn hs hle hv hw =>
      subst hn hs
      exact congrArg₂ (UserPosition.mk (s.depositOf user)) (read_self _) (read_self _)
    | configure hconf => exact hconf.elim
  | _ =>
    obtain ⟨hopen, hauth⟩ := signed_of_caller h hc
    exact ⟨hopen, .owner hc hc hauth⟩

/-- A change of a position in a run, seen from its user. -/
def Permitted (M : Market Address W) (user : Address) :
    Storage Address W × Input Address W contract (Call Address) × Storage Address W → Prop
  | (s, .call env c, t) => s.poolPaused = false ∧ Entitled M env s t user c
  | (_, .world _, _) => False

/-- Whatever calls a run is made of, no position changes unless the pool is open
and its user has signed, or is liquidated while not healthy. -/
theorem changes_permitted (s : Storage Address W)
    (is : List (Input Address W contract (Call Address))) :
    ∀ x ∈ history (step M) s is, ∀ user,
      x.2.2.readUserPosition user ≠ x.1.readUserPosition user → Permitted M user x := by
  rintro ⟨u, i, v⟩ hx user hchanged
  have hi : step M u i = .ok v := step_of_mem_history hx
  cases i with
  | world w =>
    cases pure_eq_ok.mp hi
    exact absurd rfl hchanged
  | call env c =>
    by_cases hsubject : subject c = some user
    · exact entitled_of_subject hi hsubject
    · exact absurd (position_other (invoke_effect hi) hsubject) hchanged

theorem changes_permitted_sample : ∃ x ∈ history (step (bookMarket Nat))
      (run (step (bookMarket Nat)) (.fresh sampleWorld) samplePool)
      [.call (Env.signed 0 1 : Env Nat 0) (.deposit 2 1000)],
    x.2.2.readUserPosition 2 ≠ x.1.readUserPosition 2 ∧ Permitted (bookMarket Nat) 2 x := by
  have hok : (step (bookMarket Nat) (run (step (bookMarket Nat)) (.fresh sampleWorld) samplePool)
      (.call (Env.signed 0 1) (.deposit 2 1000))).isOk = true := by decide
  obtain ⟨t, ht⟩ := exists_of_isOk hok
  have hx := (history_ok ht []).symm ▸ List.mem_cons_self
  have hchanged : t.readUserPosition 2 ≠
      (run (step (bookMarket Nat)) (.fresh sampleWorld) samplePool).readUserPosition 2 := by
    have hrun : run (step (bookMarket Nat)) _ [_] = t := run_ok ht []
    intro h
    have hdeposit := congrArg UserPosition.deposit h
    rw [← hrun] at hdeposit
    revert hdeposit
    decide
  exact ⟨_, hx, hchanged, changes_permitted _ _ _ hx 2 hchanged⟩

end Suban.LendingPool.Accounts
