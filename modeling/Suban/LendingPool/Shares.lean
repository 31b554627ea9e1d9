import Suban.Basis.Runs
import Suban.LendingPool.Rate
import Suban.LendingPool.Setup

namespace Suban.LendingPool.Shares

open Suban.Basis.Calls Suban.Basis.Tables Suban.Basis.Runs Suban.Soroban.Host
open Suban.LendingPool.State Suban.LendingPool.Contract Suban.LendingPool.Steps
open Suban.LendingPool.Rate Suban.LendingPool.Setup

variable {Address W : Type} [DecidableEq Address] {contract : Address}
variable {M : Market Address W} {env : Env Address contract} {s t : Storage Address W}

/-- The shares the users hold add up to the supply. So a user who holds some can
divide by the supply, and one who is the last to hold any holds all of it. -/
structure Accounted (s : Storage Address W) : Prop where
  total : sum s.userDeposits = s.totalSupplies
  nonneg : 0 ≤ s.totalSupplies
  divides : ∀ user, 0 < s.depositOf user → s.totalSupplies ≠ 0
  last : ∀ user, (∀ v, v ≠ user → s.depositOf v = 0) → s.depositOf user = s.totalSupplies

def DepositsNonneg (s : Storage Address W) : Prop := ∀ user, 0 ≤ s.depositOf user

/-- A deposit is made while it gets one share for each unit. -/
def DepositsAtPar (s : Storage Address W) : Input Address W contract (Call Address) → Prop
  | .call _ (.deposit _ x) => AtPar s x
  | _ => True

def InitialisedOnce (_ : Storage Address W) : Input Address W contract (Call Address) → Prop
  | .call _ (.initialise _ _ _ _ _ _) => False
  | _ => True

theorem accounted_iff (h : DepositsNonneg s) :
    Accounted s ↔ sum s.userDeposits = s.totalSupplies := by
  refine ⟨Accounted.total, fun hsum => ⟨hsum, ?_, fun user hpos => ?_, fun user hsole => ?_⟩⟩
  · rw [← hsum]
    exact sum_nonneg _ h
  · have hle : s.depositOf user ≤ sum s.userDeposits := le_sum _ h user
    omega
  · rw [← hsum]
    exact (sum_eq_of_sole _ user hsole).symm

theorem nonneg_keep (h : DepositsNonneg s) (hd : t.userDeposits = s.userDeposits) :
    DepositsNonneg t := by
  intro v
  rw [Storage.depositOf, hd]
  exact h v

theorem nonneg_effect {c : Call Address} (h : Effect M env s c t) (hs : DepositsNonneg s) :
    DepositsNonneg t := by
  cases h with
  | deposit src n b w hpos =>
    have hcredit : 0 ≤ s.depositOf src + n := add_nonneg (hs src) hpos.le
    exact forall_readOr_insert hs src hcredit
  | withdraw src n u w hpos hsrc hz hu hle =>
    have hkept : 0 ≤ s.depositOf src - n := sub_nonneg.mpr hle
    exact forall_readOr_insert hs src hkept
  | configure _ ht => exact nonneg_keep hs ht.userDeposits
  | _ => exact nonneg_keep hs rfl

/-- A deposit credits the amount and issues the shares; nothing else moves one
without the other. -/
theorem total_effect {c : Call Address} (h : Effect M env s c t) (hs : Accounted s)
    (hi : InitialisedOnce s (.call env c)) :
    sum t.userDeposits = t.totalSupplies ↔ DepositsAtPar s (.call env c) := by
  cases h with
  | initialise => exact absurd hi id
  | deposit src n b w hpos hsrc hb hw =>
    change sum (s.setDeposit src (s.depositOf src + n)).userDeposits = s.totalSupplies + b ↔
      AtPar s n
    have hcredit : s.totalSupplies - s.depositOf src + (s.depositOf src + n) =
        s.totalSupplies + n := by ring
    rw [s.sum_setDeposit, hs.total, hcredit, bTokensFor_ok hb,
      ← supplyWith_eq_iff hpos hs.nonneg, eq_comm]
  | withdraw src n u w hpos hsrc hz hu hle =>
    refine iff_of_true ?_ trivial
    apply (s.sum_setDeposit src _).trans
    rw [hs.total]
    exact sub_add_sub_cancel _ _ _
  | @configure c _ hc ht =>
    rw [ht.userDeposits, ht.totalSupplies]
    apply iff_of_true hs.total
    cases c with
    | deposit => exact absurd hc id
    | _ => trivial
  | _ => exact iff_of_true hs.total trivial

theorem accounted_step {i : Input Address W contract (Call Address)} (h : step M s i = .ok t)
    (hd : DepositsNonneg s) (hs : Accounted s) (hi : InitialisedOnce s i) :
    (Accounted t ↔ DepositsAtPar s i) ∧ DepositsNonneg t := by
  cases i with
  | call env c =>
    have he := invoke_effect h
    have ht := nonneg_effect he hd
    exact ⟨(accounted_iff ht).trans (total_effect he hs hi), ht⟩
  | world w =>
    cases pure_eq_ok.mp h
    exact ⟨iff_of_true ⟨hs.total, hs.nonneg, hs.divides, hs.last⟩ trivial, hd⟩

/-- After one initialisation the shares of the users add up to the supply in
every state of a run exactly when every accepted deposit of the run is made at
par. -/
theorem accounted_iff_depositsAtPar {w : W} {admin : Address} {cf lt lb ir rf : Int}
    (h : initialise env (.fresh w) admin cf lt lb ir rf = .ok s)
    (is : List (Input Address W contract (Call Address)))
    (honce : Along (step M) InitialisedOnce s is) :
    Throughout (step M) Accounted s is ↔ Along (step M) DepositsAtPar s is := by
  simp only [initialise, bind_eq_ok, pure_eq_ok] at h
  obtain ⟨_, -, _, -, rfl⟩ := h
  refine throughout_iff_along (J := DepositsNonneg) (fun s i t hd hs hi ht => ?_)
    (fun _ => le_rfl) ⟨rfl, le_rfl, fun _ h => absurd h (lt_irrefl _), fun _ _ => rfl⟩ honce
  obtain ⟨hiff, hn⟩ := accounted_step ht hd hs hi
  exact ⟨hiff, fun _ => hn⟩

def sampleOpen : Storage Nat (Nat → Nat → Nat) :=
  run (step (bookMarket Nat)) (.fresh sampleWorld)
    [.call (Env.signed 0 0) (.initialise 1 7500 8500 500 500 1000)]

theorem accounted_iff_depositsAtPar_sample :
    Throughout (step (bookMarket Nat)) Accounted sampleOpen
      [.call (Env.signed 0 0) (.setCollateralAsset 1 10),
        .call (Env.signed 0 1) (.deposit 2 1000), .call (Env.signed 0 2) (.withdraw 2 400)] := by
  have hopen : initialise (Env.signed 0 0) (.fresh sampleWorld) 1 7500 8500 500 500 1000 =
      .ok sampleOpen := rfl
  refine (accounted_iff_depositsAtPar hopen _ ?_).mpr ?_
  · simp [Along, InitialisedOnce]
  · exact ⟨fun _ _ => trivial, fun _ _ => .inl rfl, fun _ _ => trivial, trivial⟩

/-- A deposit into a pool with open borrows is credited in full and gets fewer
shares. -/
theorem deposit_above_par_breaks_total :
    initialise (Env.signed 0 0) (.fresh sampleWorld) 1 7500 8500 500 500 1000 = .ok sampleOpen ∧
    ¬ Throughout (step (bookMarket Nat)) Accounted sampleOpen
      [.call (Env.signed 0 0) (.setCollateralAsset 1 10),
        .call (Env.signed 0 1) (.deposit 2 1000), .call (Env.signed 0 1) (.setCollateral 2 1000),
        .call (Env.signed 0 1) (.borrow 2 500), .call (Env.signed 0 1) (.deposit 3 300)] := by
  refine ⟨rfl, fun h => ?_⟩
  have htotal := (throughout_run h).total
  revert htotal
  decide

end Suban.LendingPool.Shares
