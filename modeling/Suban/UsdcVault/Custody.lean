import Suban.Basis.Runs
import Suban.UsdcVault.Transitions

namespace Suban.UsdcVault.Custody

open Suban.Basis.Calls Suban.Basis.Tables Suban.Basis.Runs Suban.Soroban.Host
open Suban.UsdcVault.Contract Suban.UsdcVault.Transitions

variable {Address W : Type} [DecidableEq Address] {contract : Address}
variable {T : Sep41 Address W} {env : Env Address contract} {s t : Storage Address W}

abbrev Entry (Address W : Type) [DecidableEq Address] (contract : Address) :=
  Storage Address W × Input Address W contract (Call Address) × Storage Address W

def deposited : Entry Address W contract → Int
  | (_, .call _ (.deposit _ amount), _) => amount
  | _ => 0

def depositedBy (user : Address) : Entry Address W contract → Int
  | (_, .call _ (.deposit depositor amount), _) => if depositor = user then amount else 0
  | _ => 0

def released : Entry Address W contract → Int
  | (_, .call _ (.release _ _ amount), _) => amount
  | _ => 0

def paidOut : Entry Address W contract → Int
  | (_, .call _ (.release _ recipient amount), _) => outflow contract recipient amount
  | (_, .call _ (.adminWithdraw _ destination amount), _) => outflow contract destination amount
  | _ => 0

/-- What has come or gone without the vault's doing: what it was found holding
when it was initialised, and what others have moved since. -/
def outside (T : Sep41 Address W) : Entry Address W contract → Int
  | (s, .call _ (.initialise _ usdcToken), _) => T.balance s.world usdcToken contract
  | (s, .world w, _) => vaultBalance T { s with world := w } contract - vaultBalance T s contract
  | _ => 0

def published : Entry Address W contract → List (Event Address)
  | (_, .call _ (.deposit depositor amount), _) => [.deposit depositor amount]
  | (_, .call _ (.release _ recipient amount), _) => [.release recipient amount]
  | (_, .call _ (.adminWithdraw admin destination amount), _) =>
    [.withdraw admin destination amount]
  | _ => []

/-- A vault without an administrator has no token, and nothing was booked. -/
def Unopened (s : Storage Address W) : Prop :=
  s.admin = none →
    s.usdcToken = none ∧ s.totalDeposited = 0 ∧ s.totalReleased = 0 ∧ s.reserveBalance = 0

/-- The books of the vault against the calls that were accepted. -/
structure Booked (T : Sep41 Address W) (s : Storage Address W)
    (past : List (Entry Address W contract)) : Prop where
  balance : vaultBalance T s contract =
    (past.map deposited).sum - (past.map paidOut).sum + (past.map (outside T)).sum
  totalDeposited : s.totalDeposited = (past.map deposited).sum
  totalReleased : s.totalReleased = (past.map released).sum
  userDeposit : ∀ user, s.readUserDeposit user = (past.map (depositedBy user)).sum
  deposits : sum s.deposits = s.totalDeposited
  events : s.events = past.flatMap published

theorem unopened_step {i : Input Address W contract (Call Address)} (hs : Unopened s)
    (h : step T s i = .ok t) : Unopened t := by
  intro hnone
  cases i with
  | world w =>
    cases pure_eq_ok.mp h
    exact hs hnone
  | call env c =>
    cases invoke_transition h with
    | initialise | setAdmin => cases hnone
    | deposit depositor amount usdc w hopen hpos hauth husdc =>
      exact absurd (husdc.symm.trans (hs hnone).1) (by simp)
    | release _ _ _ _ _ hadmin | adminWithdraw _ _ _ _ _ hadmin | setReserveMinimum _ _ hadmin
    | setPaused _ _ hadmin => exact absurd (hadmin.stored.symm.trans hnone) (by simp)

theorem Booked.append {past : List (Entry Address W contract)} {x : Entry Address W contract}
    (h : Booked T s past)
    (hbalance : vaultBalance T t contract =
      vaultBalance T s contract + (deposited x - paidOut x + outside T x))
    (hdeposited : t.totalDeposited = s.totalDeposited + deposited x)
    (hreleased : t.totalReleased = s.totalReleased + released x)
    (huser : ∀ user, t.readUserDeposit user = s.readUserDeposit user + depositedBy user x)
    (hsum : sum t.deposits = sum s.deposits + deposited x)
    (hevents : t.events = s.events ++ published x) : Booked T t (past ++ [x]) where
  balance := by
    simp only [List.map_append, List.sum_append, List.map_cons, List.map_nil, List.sum_singleton]
    rw [hbalance, h.balance]
    ring
  totalDeposited := by simp [hdeposited, h.totalDeposited]
  totalReleased := by simp [hreleased, h.totalReleased]
  userDeposit user := by simp [huser, h.userDeposit]
  deposits := by rw [hsum, h.deposits, hdeposited]
  events := by simp [hevents, h.events]

theorem readUserDeposit_insert (depositor user : Address) (amount : Int) :
    readOr (s.deposits.insert depositor (s.readUserDeposit depositor + amount)) user 0 =
      s.readUserDeposit user + if depositor = user then amount else 0 := by
  rw [readOr_insert]
  by_cases hu : user = depositor
  · simp [hu]
  · simp [hu, Ne.symm hu, Storage.readUserDeposit]

theorem sum_deposit (depositor : Address) (amount : Int) :
    sum (s.deposits.insert depositor (s.readUserDeposit depositor + amount)) =
      sum s.deposits + amount := by
  rw [sum_insert, Storage.readUserDeposit]
  ring

theorem booked_step {i : Input Address W contract (Call Address)}
    {past : List (Entry Address W contract)} (hs : Unopened s) (hb : Booked T s past)
    (h : step T s i = .ok t) : Booked T t (past ++ [(s, i, t)]) := by
  cases i with
  | world w =>
    cases pure_eq_ok.mp h
    apply hb.append <;> simp [deposited, released, paidOut, outside, published, depositedBy,
      Storage.readUserDeposit]
  | call env c =>
    cases invoke_transition h with
    | initialise admin usdcToken hnew hauth =>
      obtain ⟨htoken, hdeposited, hreleased, -⟩ := hs hnew
      apply hb.append <;> simp [deposited, released, paidOut, outside, published, depositedBy,
        Storage.readUserDeposit, vaultBalance, htoken, hdeposited, hreleased]
    | deposit depositor amount usdc w hopen hpos hauth husdc hpay =>
      apply hb.append
      · have hin := T.balance_in hpay (ne_self hauth)
        simpa [deposited, paidOut, outside, vaultBalance, Storage.publish, husdc] using hin
      · rfl
      · exact (add_zero _).symm
      · exact fun user => readUserDeposit_insert depositor user amount
      · exact sum_deposit depositor amount
      · rfl
    | release admin recipient amount usdc w hadmin hopen hpay =>
      apply hb.append
      · have hout := hpay.balance
        simp only [vaultBalance, Storage.publish, hpay.token, deposited, paidOut, outside] at hout ⊢
        omega
      · exact (add_zero _).symm
      · rfl
      · exact fun user => (add_zero _).symm
      · exact (add_zero _).symm
      · rfl
    | adminWithdraw admin destination amount usdc w hadmin hpay =>
      apply hb.append
      · have hout := hpay.balance
        simp only [vaultBalance, Storage.publish, hpay.token, deposited, paidOut, outside] at hout ⊢
        omega
      · exact (add_zero _).symm
      · exact (add_zero _).symm
      · exact fun user => (add_zero _).symm
      · exact (add_zero _).symm
      · rfl
    | setReserveMinimum | setPaused | setAdmin =>
      apply hb.append <;> simp [deposited, released, paidOut, outside, published, depositedBy,
        Storage.readUserDeposit, vaultBalance]

/-- Whatever is called on a vault from its deployment on, its balance and its
books are what the accepted calls have made them. -/
theorem booked_run (w : W) (is : List (Input Address W contract (Call Address))) :
    Booked T (run (step T) (.fresh w) is) (history (step T) (.fresh w) is) := by
  have hfresh : Booked T (Storage.fresh w : Storage Address W)
      ([] : List (Entry Address W contract)) :=
    ⟨rfl, rfl, rfl, fun _ => rfl, rfl, rfl⟩
  have hstep : ∀ (s : Storage Address W) (i : Input Address W contract (Call Address)) t past,
      Unopened s ∧ Booked T s past → True → step T s i = .ok t →
        Unopened t ∧ Booked T t (past ++ [(s, i, t)]) :=
    fun s i t past hs _ h => ⟨unopened_step hs.1 h, booked_step hs.1 hs.2 h⟩
  have hopen : Unopened (Storage.fresh w : Storage Address W) := fun _ => ⟨rfl, rfl, rfl, rfl⟩
  exact (history_of_along hstep ⟨hopen, hfresh⟩ (along_true _ is)).2

end Suban.UsdcVault.Custody
