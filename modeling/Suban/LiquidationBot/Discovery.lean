import Suban.Indexer.Positions

namespace Suban.LiquidationBot.Discovery

open Suban.Basis.Numbers Suban.Indexer.Database Suban.Indexer.Values Suban.Indexer.Financial
open Suban.Indexer.Positions (plainSdk sampleAccount sampleRow)

variable {X : Type}

def property (value : Value X) (key : String) : Option (Value X) :=
  match value with
  | .obj fields => Value.field fields key
  | _ => none

def asRaw : Value X → Option Nat
  | .str s => numeral s.toList
  | .num n => if 0 ≤ n then some n.toNat else none
  | _ => none

/-- The accounts of an event after which something is borrowed. -/
def borrowersOf (event : Value X) : Option (List String) := do
  let accounts ← (property event "accounts").bind Value.entries?
  let position ← property event "position"
  let borrow ← (property position "borrow").bind asRaw
  if borrow = 0 then none else some (accounts.filterMap accountText)

def add (found : List String) (account : String) : List String :=
  if found.contains account then found else found ++ [account]

def collect (maxCandidates : Nat) : List (Value X) → List String → List String
  | [], found => found
  | event :: events, found =>
    match borrowersOf event with
    | none => collect maxCandidates events found
    | some accounts =>
      let found := accounts.foldl add found
      if maxCandidates ≤ found.length then found else collect maxCandidates events found

def accountsFromEvents (events : Value X) (maxCandidates : Nat) : List String :=
  match events with
  | .arr events => (collect maxCandidates events []).take maxCandidates
  | _ => []

def Borrows (account : String) (e : LendingEvent X) : Prop :=
  isAccount account = true ∧ e.account = some account ∧
    ∃ p, e.position = some p ∧ ∃ n, bigInt p.borrowRaw = some n ∧ 0 < n

/-- The bot reads a field that the indexer does not serve. -/
theorem borrowersOf_served (e : LendingEvent X) : borrowersOf (served e) = none := by
  have hposition : property (served e) "position" = some (servedPosition e.position) := rfl
  have hborrow : property (servedPosition e.position : Value X) "borrow" = none := by
    cases e.position <;> rfl
  simp only [borrowersOf, hposition, bind, Option.bind_some, hborrow, Option.bind_none,
    Option.bind_fun_none]

theorem collect_served (maxCandidates : Nat) (events : List (LendingEvent X))
    (found : List String) :
    collect maxCandidates (events.map served) found = found := by
  induction events with
  | nil => rfl
  | cons e events ih =>
    rw [List.map_cons, collect, borrowersOf_served]
    exact ih

variable (sdk : ScValSdk X)

/-- The candidates that the bot finds in what the indexer serves of its rows. -/
def discovered (rows : List EventRow) (maxCandidates : Nat) : List String :=
  accountsFromEvents (.arr ((rows.filterMap (parseLendingEvent sdk)).map served)) maxCandidates

theorem discovered_eq_nil (rows : List EventRow) (maxCandidates : Nat) :
    discovered sdk rows maxCandidates = [] := by
  rw [discovered, accountsFromEvents, collect_served, List.take_nil]

/-- All the borrowers among the events are found exactly when there are none. -/
theorem discovered_iff (rows : List EventRow) (maxCandidates : Nat) :
    (∀ account, ∀ e ∈ rows.filterMap (parseLendingEvent sdk), Borrows account e →
        account ∈ discovered sdk rows maxCandidates) ↔
      ∀ account, ∀ e ∈ rows.filterMap (parseLendingEvent sdk), ¬ Borrows account e := by
  simp [discovered_eq_nil]

def sampleBorrow : EventRow :=
  sampleRow "borrow" [sampleAccount 'A'] ["40", "50", "40", "50", "50", "40", "0"] 100

theorem borrower_not_discovered :
    (∃ e ∈ [sampleBorrow].filterMap (parseLendingEvent plainSdk), Borrows (sampleAccount 'A') e) ∧
      discovered plainSdk [sampleBorrow] 100 = [] := by
  have hparse : (parseLendingEvent plainSdk sampleBorrow).map (fun e => (e.account, e.position)) =
      some (some (sampleAccount 'A'), some ⟨"50", "40", "50"⟩) := by decide +kernel
  obtain ⟨e, he, hfields⟩ := Option.map_eq_some_iff.mp hparse
  obtain ⟨haccount, hposition⟩ := Prod.mk.inj hfields
  refine ⟨⟨e, ?_, by decide +kernel, haccount, _, hposition, 40, by decide, by decide⟩,
    by decide +kernel⟩
  rw [List.filterMap_cons, he]
  exact List.mem_cons_self

end Suban.LiquidationBot.Discovery
