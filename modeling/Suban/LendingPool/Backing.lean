import Suban.LendingPool.Health
import Suban.LendingPool.Setup

namespace Suban.LendingPool.Backing

open Suban.Basis.Calls Suban.Basis.Tables Suban.Basis.Runs Suban.Soroban.Host
open Suban.LendingPool.State Suban.LendingPool.Contract Suban.LendingPool.Steps
open Suban.LendingPool.Health Suban.LendingPool.Setup

variable {Address W : Type} [DecidableEq Address] {contract : Address}
variable {M : Market Address W} {env : Env Address contract} {s t : Storage Address W}

/-- No user has pledged more than it has deposited. -/
def Backed (s : Storage Address W) : Prop := ∀ user, s.collateralOf user ≤ s.depositOf user

/-- The user of a withdrawal, a borrow or a pledge is healthy right after it. -/
def HealthyAfter (M : Market Address W) (s : Storage Address W) :
    Input Address W contract (Call Address) → Prop
  | .call env (.withdraw user n) =>
    Healthy M env (next (step M) s (.call env (.withdraw user n))) user
  | .call env (.borrow user n) =>
    Healthy M env (next (step M) s (.call env (.borrow user n))) user
  | .call env (.setCollateral user n) =>
    Healthy M env (next (step M) s (.call env (.setCollateral user n))) user
  | _ => True

/-- The calls that users make of a pool with one asset. -/
def SingleAsset (_ : Storage Address W) : Input Address W contract (Call Address) → Prop
  | .call _ (.deposit _ _) | .call _ (.withdraw _ _) | .call _ (.borrow _ _)
  | .call _ (.repay _ _) | .call _ (.setCollateral _ _) | .call _ (.liquidate _ _ _ _)
  | .call _ .accrueInterest | .world _ => True
  | _ => False

/-- A withdrawal leaves at least what is pledged. -/
def KeepsPledge (s : Storage Address W) : Input Address W contract (Call Address) → Prop
  | .call _ (.withdraw user n) => n ≤ s.depositOf user - s.collateralOf user
  | _ => True

theorem healthyAfter_step {i : Input Address W contract (Call Address)} (h : step M s i = .ok t)
    (hs : s.priceOracle = none) : HealthyAfter M s i := by
  have hunquoted {t : Storage Address W} {env : Env Address contract} (oracle : Address)
      (horacle : s.priceOracle = some oracle) (asset : Address) :
      readOraclePrice M env t oracle asset = readOraclePrice M env s oracle asset :=
    nomatch hs.symm.trans horacle
  cases i with
  | world w => trivial
  | call env c =>
    have hn := next_ok h
    cases invoke_effect h with
    | withdraw src n u w hpos hsrc hz hu hle hh hw =>
      rw [HealthyAfter, hn]
      exact healthy_of_same hh rfl hunquoted rfl rfl rfl rfl rfl
    | borrow src n w hpos hsrc hle hh hw =>
      rw [HealthyAfter, hn]
      exact healthy_of_same hh rfl hunquoted rfl rfl rfl rfl rfl
    | setCollateral user n hle hh =>
      rw [HealthyAfter, hn]
      exact healthy_of_same hh rfl hunquoted rfl rfl rfl rfl rfl
    | @configure c _ hc _ =>
      cases c with
      | withdraw | borrow | setCollateral => exact absurd hc id
      | _ => trivial
    | _ => trivial

theorem backed_effect {c : Call Address} (h : Effect M env s c t) (hs : Backed s)
    (hi : SingleAsset s (.call env c)) : Backed t ↔ KeepsPledge s (.call env c) := by
  cases h with
  | deposit src n b w hpos =>
    refine iff_of_true (fun v => (hs v).trans ?_) trivial
    refine le_trans ?_ (s.depositOf_setDeposit src v _).ge
    split
    next hv => subst hv; omega
    next => exact le_rfl
  | withdraw src n u w hpos =>
    change (∀ v, s.collateralOf v ≤ (s.setDeposit src (s.depositOf src - n)).depositOf v) ↔
      n ≤ s.depositOf src - s.collateralOf src
    simp only [s.depositOf_setDeposit]
    refine ⟨?_, ?_⟩
    · intro h
      have hsrc := h src
      rw [if_pos rfl] at hsrc
      omega
    · intro hn v
      split
      next hv => subst hv; omega
      next => exact hs v
  | setCollateral user n hle hh =>
    refine iff_of_true (fun v => ?_) trivial
    apply (s.collateralOf_setCollateral user v n).le.trans
    split
    next hv => subst hv; exact hle
    next => exact hs v
  | liquidate liquidator borrower amount least n z v w hpos hsrc hn hz hle hv hw =>
    have hseize := (M.transfer_covered hw).1
    refine iff_of_true (fun a => ?_) trivial
    apply (s.collateralOf_setCollateral borrower a _).le.trans
    have ha := hs a
    change _ ≤ s.depositOf a
    split
    next he => subst he; omega
    next => exact ha
  | borrow => exact iff_of_true hs trivial
  | repay => exact iff_of_true hs trivial
  | upToDate => exact iff_of_true hs trivial
  | accrue => exact iff_of_true hs trivial
  | @configure c _ hc _ => cases c <;> first | exact absurd hi id | exact absurd hc id
  | _ => exact absurd hi id

theorem backed_step {i : Input Address W contract (Call Address)} (h : step M s i = .ok t)
    (hs : Backed s) (hi : SingleAsset s i) : Backed t ↔ KeepsPledge s i := by
  cases i with
  | call env c => exact backed_effect (invoke_effect h) hs hi
  | world w =>
    cases pure_eq_ok.mp h
    exact iff_of_true hs trivial

theorem oracle_step {i : Input Address W contract (Call Address)} (h : step M s i = .ok t)
    (ho : s.priceOracle = none) (hi : SingleAsset s i) : t.priceOracle = none := by
  cases i with
  | call env c =>
    cases invoke_effect h with
    | @configure c _ hc _ => cases c <;> first | exact absurd hi id | exact absurd hc id
    | _ => exact ho
  | world w =>
    cases pure_eq_ok.mp h
    exact ho

/-- In a pool with one asset and no oracle, every user's pledge is covered by its
deposits in every state of a run, and every user is healthy after its own calls,
exactly when no accepted withdrawal of the run takes what is pledged. -/
theorem backed_iff_keepsPledge (w : W)
    {setup : List (Input Address W contract (Call Address))} (hsetup : ∀ i ∈ setup, IsSetup i)
    {s : Storage Address W} (hs : s = run (step M) (.fresh w) setup) (ho : s.priceOracle = none)
    (is : List (Input Address W contract (Call Address)))
    (hsingle : Along (step M) SingleAsset s is) :
    Throughout (step M) Backed s is ∧ Along (step M) (HealthyAfter M) s is ↔
      Along (step M) KeepsPledge s is := by
  have hu : Unused s := hs ▸ unused_run hsetup (unused_fresh w)
  have hb : Backed s := fun user => by
    rw [Storage.collateralOf, Storage.depositOf, hu.userCollateral, hu.userDeposits]
  have hiff : Throughout (step M) Backed s is ↔ Along (step M) KeepsPledge s is :=
    throughout_iff_along_self (fun _ _ _ hs hi h => backed_step h hs hi) hb hsingle
  have honone : Throughout (step M) (fun u => u.priceOracle = none) s is :=
    throughout_of_along (fun _ _ _ ho hi h => oracle_step h ho hi) ho hsingle
  have hhealthy : Along (step M) (HealthyAfter M) s is :=
    along_of_throughout (fun _ _ _ ho _ h => healthyAfter_step h ho) honone hsingle
  rw [hiff]
  exact and_iff_left hhealthy

theorem backed_iff_keepsPledge_sample :
    Throughout (step (bookMarket Nat)) Backed
        (run (step (bookMarket Nat)) (.fresh sampleWorld) samplePool)
        [.call (Env.signed 0 1) (.deposit 2 1000), .call (Env.signed 0 1) (.setCollateral 2 600),
          .call (Env.signed 0 2) (.withdraw 2 400)] ∧
      Along (step (bookMarket Nat)) (HealthyAfter (bookMarket Nat))
        (run (step (bookMarket Nat)) (.fresh sampleWorld) samplePool)
        [.call (Env.signed 0 1) (.deposit 2 1000), .call (Env.signed 0 1) (.setCollateral 2 600),
          .call (Env.signed 0 2) (.withdraw 2 400)] := by
  have hsetup : ∀ i ∈ samplePool, IsSetup i := by simp [samplePool, IsSetup]
  refine (backed_iff_keepsPledge sampleWorld hsetup rfl rfl _ ?_).mpr ?_
  · simp [Along, SingleAsset]
  · refine ⟨fun _ _ => trivial, fun _ _ => trivial, fun _ _ => ?_, trivial⟩
    unfold KeepsPledge
    decide

/-- A user withdraws the deposit that it has just pledged. -/
theorem pledge_is_withdrawn :
    (∀ i ∈ samplePool, IsSetup i) ∧
    ¬ Throughout (step (bookMarket Nat)) Backed
      (run (step (bookMarket Nat)) (.fresh sampleWorld) samplePool)
      [.call (Env.signed 0 1) (.deposit 2 1000), .call (Env.signed 0 1) (.setCollateral 2 1000),
        .call (Env.signed 0 1) (.borrow 2 400), .call (Env.signed 0 1) (.deposit 3 1000),
        .call (Env.signed 0 2) (.withdraw 2 1000)] := by
  refine ⟨by simp [samplePool, IsSetup], fun h => ?_⟩
  have hbacked := throughout_run h 2
  revert hbacked
  decide

end Suban.LendingPool.Backing
