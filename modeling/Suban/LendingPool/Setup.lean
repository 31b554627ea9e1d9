import Suban.Basis.Runs
import Suban.LendingPool.Steps

namespace Suban.LendingPool.Setup

open Suban.Basis.Calls Suban.Basis.Tables Suban.Basis.Runs Suban.Soroban.Host
open Suban.LendingPool.State Suban.LendingPool.Contract Suban.LendingPool.Steps

variable {Address W : Type} [DecidableEq Address] {contract : Address}
variable {M : Market Address W} {env : Env Address contract} {s t : Storage Address W}

abbrev History (Address W : Type) [DecidableEq Address] (contract : Address) :=
  List (Storage Address W × Input Address W contract (Call Address) × Storage Address W)

def IsSetup : Input Address W contract (Call Address) → Prop
  | .call _ (.initialise _ _ _ _ _ _) | .call _ (.setPaused _ _)
  | .call _ (.updateConfig _ _ _ _ _ _) | .call _ (.setCollateralAsset _ _)
  | .call _ (.setCollateralToken _ _) | .call _ (.setPriceOracle _ _ _)
  | .call _ (.clearPriceOracle _) | .world _ => True
  | _ => False

/-- No user has called the pool yet. -/
structure Unused (s : Storage Address W) : Prop where
  totalSupplies : s.totalSupplies = 0
  totalBorrows : s.totalBorrows = 0
  totalReserves : s.totalReserves = 0
  userDeposits : s.userDeposits = ∅
  userBorrows : s.userBorrows = ∅
  userCollateral : s.userCollateral = ∅
  events : s.events = []

theorem unused_fresh (w : W) : Unused (.fresh w : Storage Address W) :=
  ⟨rfl, rfl, rfl, rfl, rfl, rfl, rfl⟩

theorem unused_effect {c : Call Address} (h : Effect M env s c t)
    (hc : IsSetup (.call env c : Input Address W contract (Call Address))) (hs : Unused s) :
    Unused t := by
  cases h with
  | initialise admin cf lt lb ir rf =>
    exact ⟨rfl, rfl, rfl, hs.userDeposits, hs.userBorrows, hs.userCollateral, hs.events⟩
  | configure hconf ht =>
    exact ⟨ht.totalSupplies.trans hs.totalSupplies, ht.totalBorrows.trans hs.totalBorrows,
      ht.totalReserves.trans hs.totalReserves, ht.userDeposits.trans hs.userDeposits,
      ht.userBorrows.trans hs.userBorrows, ht.userCollateral.trans hs.userCollateral,
      ht.events.trans hs.events⟩
  | setCollateralAsset admin asset =>
    exact ⟨hs.totalSupplies, hs.totalBorrows, hs.totalReserves, hs.userDeposits, hs.userBorrows,
      hs.userCollateral, hs.events⟩
  | setCollateralToken admin asset =>
    exact ⟨hs.totalSupplies, hs.totalBorrows, hs.totalReserves, hs.userDeposits, hs.userBorrows,
      hs.userCollateral, hs.events⟩
  | _ => exact absurd hc id

theorem unused_next {i : Input Address W contract (Call Address)} (hi : IsSetup i)
    (hs : Unused s) : Unused (next (step M) s i) := by
  cases h : step M s i with
  | error e => rwa [next_error h]
  | ok t =>
    rw [next_ok h]
    cases i with
    | call env c => exact unused_effect (invoke_effect h) hi hs
    | world w =>
      cases pure_eq_ok.mp h
      exact ⟨hs.totalSupplies, hs.totalBorrows, hs.totalReserves, hs.userDeposits,
        hs.userBorrows, hs.userCollateral, hs.events⟩

theorem unused_run {setup : List (Input Address W contract (Call Address))}
    (h : ∀ i ∈ setup, IsSetup i) (hs : Unused s) : Unused (run (step M) s setup) := by
  induction setup generalizing s with
  | nil => exact hs
  | cons i setup ih =>
    obtain ⟨hi, hrest⟩ := List.forall_mem_cons.mp h
    exact ih hrest (unused_next hi hs)

def sampleWorld : Nat → Nat → Nat := fun token a =>
  if (a = 2 ∨ a = 3) ∧ (token = 10 ∨ token = 11) then 5000 else 0

def samplePool : List (Input Nat (Nat → Nat → Nat) 0 (Call Nat)) :=
  [.call (Env.signed 0 0) (.initialise 1 7500 8500 500 500 1000),
    .call (Env.signed 0 0) (.setCollateralAsset 1 10)]

def samplePair : List (Input Nat (Nat → Nat → Nat) 0 (Call Nat)) :=
  samplePool ++ [.call (Env.signed 0 0) (.setCollateralToken 1 11)]

end Suban.LendingPool.Setup
