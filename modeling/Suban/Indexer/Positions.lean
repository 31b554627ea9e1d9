import Mathlib.Data.List.Find
import Suban.Indexer.Payloads
import Suban.LendingPool.Accounts

namespace Suban.Indexer.Positions

open Suban.Basis.JsonText (Json)
open Suban.Basis.Rows Suban.Indexer.Database Suban.Indexer.Values Suban.Indexer.Financial
open Suban.Indexer.StoredJson Suban.Indexer.Payloads Suban.LendingPool.Accounts
open Suban.LendingPool.State (Event UserPosition PoolTotals)

variable {Address X : Type} (sdk : ScValSdk X)

/-- What is served for an account: the event that the position is taken from,
and what else was found. -/
inductive AccountReply (X : Type) where
  | invalidAccount
  | notFound (scannedEvents : Nat)
  | found (latest : LendingEvent X) (recentEvents : List (LendingEvent X)) (scannedEvents : Nat)

def scanLimit : Nat := 10000

def lendingAccount (rows : List EventRow) (account : String) : AccountReply X :=
  if isAccount account = false then .invalidAccount
  else
    let scanned := eventRows rows isLending scanLimit 0
    let events := (scanned.filterMap (parseLendingEvent sdk)).filter fun e =>
      e.accounts.contains account
    match (events.find? fun e => e.position.isSome).orElse fun _ => events.head? with
    | none => .notFound scanned.length
    | some latest => .found latest (events.take 20) scanned.length

def servedSnapshot : AccountReply X → Option (LendingEvent X)
  | .found latest _ _ => if latest.position.isSome then some latest else none
  | _ => none

def lendingRows (rows : List EventRow) : List EventRow := newestFirst (rows.filter isLending)

def storedEvents (rows : List EventRow) : List (LendingEvent X) :=
  (lendingRows rows).filterMap (parseLendingEvent sdk)

def namesWithSnapshot (account : String) (e : LendingEvent X) : Bool :=
  e.accounts.contains account && e.position.isSome

/-- The newest event with any snapshot that names the account. -/
def newestNaming (rows : List EventRow) (account : String) : Option (LendingEvent X) :=
  (storedEvents sdk rows).find? (namesWithSnapshot account)

variable {sdk} {rows : List EventRow} {account : String}

theorem isAccount_of_mem {row : EventRow} (h : account ∈ accountsOf sdk row) :
    isAccount account = true := by
  obtain ⟨topic, -, htext⟩ := List.mem_filterMap.mp h
  unfold accountText at htext
  split at htext
  next s =>
    split at htext
    next hs =>
      cases htext
      exact hs
    next => cases htext
  next => cases htext

theorem parseLendingEvent_accounts {row : EventRow} {e : LendingEvent X}
    (h : parseLendingEvent sdk row = some e) : e.accounts = accountsOf sdk row := by
  simp only [parseLendingEvent, bind, Option.bind_eq_some_iff, pure, Option.some.injEq] at h
  obtain ⟨normalized, -, rfl⟩ := h
  rfl

theorem isAccount_of_naming {e : LendingEvent X} (h : newestNaming sdk rows account = some e) :
    isAccount account = true := by
  obtain ⟨row, -, hparse⟩ := List.mem_filterMap.mp (List.mem_of_find?_eq_some h)
  have hnames := List.find?_some h
  simp only [namesWithSnapshot, Bool.and_eq_true, List.contains_iff_mem] at hnames
  rw [parseLendingEvent_accounts hparse] at hnames
  exact isAccount_of_mem hnames.1

/-- The events that name the account are searched for the newest snapshot,
whoever it belongs to. -/
theorem servedSnapshot_eq (hwindow : (rows.filter isLending).length ≤ scanLimit) :
    servedSnapshot (lendingAccount sdk rows account) = newestNaming sdk rows account := by
  have hall : eventRows rows isLending scanLimit 0 = lendingRows rows := by
    rw [lendingRows, eventRows, List.drop_zero, List.take_of_length_le]
    rwa [newestFirst, List.length_insertionSort, List.length_reverse]
  have hfind : ((storedEvents sdk rows).filter fun e => e.accounts.contains account).find?
      (fun e => e.position.isSome) = newestNaming sdk rows account := by
    rw [List.find?_filter, newestNaming]
    congr 1
    funext e
    simp [namesWithSnapshot]
  unfold lendingAccount
  split
  next hinvalid =>
    cases hn : newestNaming sdk rows account with
    | none => rfl
    | some e =>
      rw [isAccount_of_naming hn] at hinvalid
      cases hinvalid
  next =>
    simp only [hall]
    rw [← storedEvents, hfind]
    cases hn : newestNaming sdk rows account with
    | some e =>
      have hposition := List.find?_some hn
      simp only [namesWithSnapshot, Bool.and_eq_true] at hposition
      exact if_pos hposition.2
    | none =>
      -- No event that names the account has a snapshot: the fallback has none.
      cases hhead : ((storedEvents sdk rows).filter fun e =>
          e.accounts.contains account).head? with
      | none => rfl
      | some e =>
        rw [hn] at hfind
        have hnone := List.find?_eq_none.mp hfind e (List.mem_of_head? hhead)
        exact if_neg hnone

def shown (p : UserPosition) : PositionSnapshot :=
  ⟨toString p.deposit, toString p.borrow, toString p.collateral⟩

def kindOf : Event Address → LendingEventType
  | .deposit .. => .deposit
  | .withdraw .. => .withdraw
  | .borrow .. => .borrow
  | .repay .. => .repay
  | .setCol .. => .setCollateral
  | .liquidate .. => .liquidate
  | .accrue .. => .accrue
  | .depCol .. => .depositCollateral
  | .wdCol .. => .withdrawCollateral

theorem classify_published (event : Event Address) :
    classifyLendingEvent (publishedLending event).symbol = some (kindOf event) := by
  cases event <;> simp only [publishedLending, kindOf] <;> decide

/-- What the indexer makes of a published lending event: the accounts among its
parties, and the position that it tells. -/
theorem told_stored {S : Strkeys Address} {row : EventRow} {event : Event Address}
    (h : Stored sdk S (publishedLending event) row) : ∃ e, parseLendingEvent sdk row = some e ∧
      e.id = row.eventId ∧
      e.accounts = ((publishedLending event).accounts.map S.text).filter isAccount ∧
      e.position = (told event).map fun p => shown p.2 := by
  obtain ⟨js, hdata, hpayload⟩ := h.data
  have hraw (i : Nat) : rawAt (ofJsonAll js : List (Value X)) i = _ :=
    entry_decoded (fun _ _ => rawAmount_decoded) hpayload i
  have hkind := classify_published event
  have haccounts := accountsOf_filter h (not_isAccount_of_lending hkind)
  simp only [parseLendingEvent, h.eventType, hkind, hdata, valuesOf, Value.entries?,
    Option.getD_some, haccounts, bind, Option.bind_some, pure]
  refine ⟨_, rfl, rfl, rfl, ?_⟩
  cases event <;> simp only [kindOf, lendingFields, positionAt, hraw] <;> rfl

def carried (S : Strkeys Address) (account : String) (event : Event Address) :
    Option UserPosition :=
  ((told event).filter fun p => S.text p.1 = account).map Prod.snd

def named (S : Strkeys Address) (account : String) (event : Event Address) : Bool :=
  ((publishedLending event).accounts.map S.text).contains account

theorem named_of_carried {S : Strkeys Address} {account : String} {event : Event Address}
    (h : (carried S account event).isSome = true) : named S account event = true := by
  unfold carried at h
  cases event <;> simp_all [told, Option.filter, named, publishedLending]

theorem told_of_named {S : Strkeys Address} {account : String} {event : Event Address}
    (h : named S account event = true) : (told event).isSome = true := by
  cases event with
  | accrue => cases h
  | _ => rfl

/-- The lending rows were stored for events that pools have published, and no two
rows have one id. -/
structure Archive (sdk : ScValSdk X) (S : Strkeys Address) (published : EventRow → Event Address)
    (rows : List EventRow) : Prop where
  stored : ∀ row ∈ rows, isLending row = true → Stored sdk S (publishedLending (published row)) row
  unique : (rows.map EventRow.eventId).Nodup

/-- The newest row of an event that carries a snapshot of the account. -/
def newestOwn (S : Strkeys Address) (published : EventRow → Event Address) (rows : List EventRow)
    (account : String) : Option EventRow :=
  (lendingRows rows).find? fun row => (carried S account (published row)).isSome

/-- What is served is the newest event that carries a snapshot of the account, and
that snapshot. Where there is none, none is served. -/
def ServesOwn (S : Strkeys Address) (published : EventRow → Event Address) (rows : List EventRow)
    (account : String) (served : Option (LendingEvent X)) : Prop :=
  served.map (fun e => (e.id, e.position)) = (newestOwn S published rows account).map fun row =>
    (row.eventId, (carried S account (published row)).map shown)

/-- The event names the account, and the snapshot that it carries is another
one's. -/
def Misleads (S : Strkeys Address) (account : String) (event : Event Address) : Prop :=
  named S account event = true ∧ carried S account event = none

section Archived

variable {S : Strkeys Address} {published : EventRow → Event Address}

theorem mem_lendingRows {row : EventRow} :
    row ∈ lendingRows rows ↔ row ∈ rows ∧ isLending row = true := by
  rw [lendingRows, newestFirst, List.mem_insertionSort, List.mem_reverse, List.mem_filter]

theorem Archive.parsed (h : Archive sdk S published rows) (account : String) {row : EventRow}
    (hrow : row ∈ lendingRows rows) : ∃ e, parseLendingEvent sdk row = some e ∧
      e.id = row.eventId ∧ e.position = (told (published row)).map (fun p => shown p.2) ∧
      namesWithSnapshot account e = (isAccount account && named S account (published row)) := by
  obtain ⟨hmem, hlending⟩ := mem_lendingRows.mp hrow
  obtain ⟨e, he, hid, haccounts, hposition⟩ := told_stored (h.stored row hmem hlending)
  refine ⟨e, he, hid, hposition, ?_⟩
  rw [namesWithSnapshot, haccounts, hposition, Option.isSome_map, Bool.eq_iff_iff]
  simp only [Bool.and_eq_true, List.contains_iff_mem, List.mem_filter, named]
  constructor
  · rintro ⟨⟨hnamed, haccount⟩, -⟩
    exact ⟨haccount, hnamed⟩
  · rintro ⟨haccount, hnamed⟩
    exact ⟨⟨hnamed, haccount⟩, told_of_named (List.contains_iff_mem.mpr hnamed)⟩

/-- What is served is the newest event that names the account. -/
theorem Archive.served (h : Archive sdk S published rows) (account : String)
    (hwindow : (rows.filter isLending).length ≤ scanLimit) :
    (servedSnapshot (lendingAccount sdk rows account)).map (fun e => (e.id, e.position)) =
      ((lendingRows rows).find? fun row => isAccount account && named S account (published row)).map
        fun row => (row.eventId, (told (published row)).map fun p => shown p.2) := by
  have hsame : (lendingRows rows).find? (fun row =>
        (parseLendingEvent sdk row).any (namesWithSnapshot account)) =
      (lendingRows rows).find? fun row => isAccount account && named S account (published row) := by
    refine List.find?_congr fun row hrow => ?_
    obtain ⟨e, he, -, -, hnames⟩ := h.parsed account hrow
    rw [he, Option.any_some, hnames]
  rw [servedSnapshot_eq hwindow, newestNaming, storedEvents, List.find?_filterMap, hsame]
  cases hfind : (lendingRows rows).find? fun row =>
      isAccount account && named S account (published row) with
  | none => rfl
  | some row =>
    obtain ⟨e, he, hid, hposition, -⟩ :=
      h.parsed account (List.mem_of_find?_eq_some hfind)
    rw [Option.bind_some, he, Option.map_some, Option.map_some, hid, hposition]

theorem Archive.servesOwn_iff (h : Archive sdk S published rows)
    (hwindow : (rows.filter isLending).length ≤ scanLimit) :
    ServesOwn S published rows account (servedSnapshot (lendingAccount sdk rows account)) ↔
      newestOwn S published rows account = (lendingRows rows).find? fun row =>
        isAccount account && named S account (published row) := by
  rw [ServesOwn, h.served account hwindow]
  constructor
  · intro hserved
    cases hown : newestOwn S published rows account with
    | none =>
      rw [hown, Option.map_none, Option.map_eq_none_iff] at hserved
      exact hserved.symm
    | some own =>
      rw [hown, Option.map_some, Option.map_eq_some_iff] at hserved
      obtain ⟨row, hrow, hpair⟩ := hserved
      have hid : row.eventId = own.eventId := congrArg Prod.fst hpair
      have hmem := (mem_lendingRows.mp (List.mem_of_find?_eq_some hrow)).1
      have hmem' := (mem_lendingRows.mp (List.mem_of_find?_eq_some hown)).1
      rw [hrow, List.inj_on_of_nodup_map h.unique hmem' hmem hid.symm]
  · intro hsame
    rw [← hsame]
    cases hown : newestOwn S published rows account with
    | none => rfl
    | some own =>
      have hcarried := List.find?_some hown
      obtain ⟨after, hafter⟩ := Option.isSome_iff_exists.mp hcarried
      obtain ⟨p, hp, rfl⟩ := Option.map_eq_some_iff.mp hafter
      have htold := (Option.filter_eq_some_iff.mp hp).1
      rw [Option.map_some, Option.map_some, hafter, htold]
      rfl

/-- The position that is served is the account's own and the newest one exactly
when every event that misleads has been followed by one with a snapshot of the
account. A contract is served nothing, whatever it has. -/
theorem servedSnapshot_iff (h : Archive sdk S published rows)
    (hwindow : (rows.filter isLending).length ≤ scanLimit) :
    ServesOwn S published rows account (servedSnapshot (lendingAccount sdk rows account)) ↔
      (isAccount account = true → ∀ newer row older, lendingRows rows = newer ++ row :: older →
        Misleads S account (published row) →
        ∃ own ∈ newer, (carried S account (published own)).isSome = true) ∧
      (isAccount account = false →
        ∀ row ∈ lendingRows rows, carried S account (published row) = none) := by
  rw [h.servesOwn_iff hwindow, newestOwn]
  cases haccount : isAccount account with
  | false =>
    have hnone : (lendingRows rows).find? (fun _ => false) = none :=
      List.find?_eq_none.mpr fun _ _ => Bool.false_ne_true
    simp only [Bool.false_and, hnone, Bool.false_eq_true, false_imp_iff, true_and, forall_const,
      List.find?_eq_none, Option.not_isSome_iff_eq_none]
  | true =>
    simp only [Bool.true_and, forall_const, Bool.true_eq_false, false_imp_iff, and_true]
    rw [find?_eq_iff_behind fun row _ => named_of_carried]
    refine forall₄_congr fun newer row older _ => ?_
    rw [Misleads, and_imp, Option.isSome_eq_false_iff, Option.isNone_iff_eq_none]

end Archived

def plainSdk : ScValSdk Empty where
  scValToNative x := nomatch x
  nativeOfXdr _ := none
  ownFields x := nomatch x
  toJson x := nomatch x

def sampleAccount (c : Char) : String := String.ofList ('G' :: List.replicate 55 c)

def sampleRow (eventType : String) (accounts amounts : List String) (timestamp : Int) :
    EventRow where
  eventId := eventType
  contractId := "C1"
  contractName := "lending-pool"
  eventType := eventType
  txHash := "t1"
  ledger := 1
  timestamp := timestamp
  data := some (stringify plainSdk (.arr (amounts.map .str)))
  ledgerClosedAt := none
  raw := stringify plainSdk (.obj [("topic", .arr (.obj [("symbol", .str eventType)] ::
    accounts.map fun a => .obj [("address", .str a)]))])

def sampleStrkeys : Strkeys (Fin 2) where
  text a := sampleAccount (if a.val = 0 then 'A' else 'B')
  valid := by decide +kernel

/-- The account A makes a deposit, and later liquidates a part of B. -/
def sampleRows : List EventRow :=
  [sampleRow "deposit" [sampleAccount 'A'] ["50", "50", "50", "0", "0", "50", "0", "0"] 100,
    sampleRow "liquidate" [sampleAccount 'A', sampleAccount 'B']
      ["30", "31", "0", "10", "69", "50", "10", "0"] 200]

def samplePublished (row : EventRow) : Event (Fin 2) :=
  if row.eventType = "deposit" then .deposit 0 50 50 ⟨50, 0, 0⟩ ⟨50, 0, 0⟩
  else .liquidate 0 1 30 31 ⟨0, 10, 69⟩ ⟨50, 10, 0⟩

theorem ofJsonAll_map {α : Type} (f : α → Json) (l : List α) :
    (ofJsonAll (l.map f) : List (Value X)) = l.map fun x => ofJson (f x) := by
  induction l with
  | nil => rfl
  | cons x l ih => rw [List.map_cons, List.map_cons, ofJsonAll, ih]

theorem topicsOf_sampleRow (eventType : String) (accounts amounts : List String)
    (timestamp : Int) : topicsOf plainSdk (sampleRow eventType accounts amounts timestamp) =
      .str eventType :: accounts.map .str := by
  have hjson : (.obj [("topic", .arr (.obj [("symbol", .str eventType)] ::
      accounts.map fun a => .obj [("address", .str a)]))] : Value Empty) =
      ofJson (.obj [("topic", .arr (.obj [("symbol", .str eventType)] ::
        accounts.map fun a => .obj [("address", .str a)]))]) := by
    simp only [ofJson, ofJsonFields, ofJsonAll, ofJsonAll_map]
  rw [topicsOf, sampleRow, hjson, parseJson_stringify, ← hjson]
  change List.map _ _ = _
  rw [List.map_cons, List.map_map]
  rfl

theorem parseJson_sampleRow (eventType : String) (accounts amounts : List String)
    (timestamp : Int) (fallback : Value Empty) :
    parseJson (sampleRow eventType accounts amounts timestamp).data fallback =
      .arr (ofJsonAll (amounts.map .str)) := by
  have hjson : (.arr (amounts.map .str) : Value Empty) = ofJson (.arr (amounts.map .str)) := by
    simp only [ofJson, ofJsonAll_map]
  rw [sampleRow, hjson, parseJson_stringify, ofJson]

theorem sample_archive : Archive plainSdk sampleStrkeys samplePublished sampleRows := by
  refine ⟨?_, by decide +kernel⟩
  intro row hrow _
  obtain rfl | rfl := List.mem_pair.mp hrow
  · refine ⟨rfl, topicsOf_sampleRow _ _ _ _, _, parseJson_sampleRow _ _ _ _ _, ?_⟩
    exact .cons (.text 50) (.cons (.text 50) (.cons (.text 50) (.cons (.text 0) (.cons (.text 0)
      (.cons (.text 50) (.cons (.text 0) (.cons (.text 0) .nil)))))))
  · refine ⟨rfl, topicsOf_sampleRow _ _ _ _, _, parseJson_sampleRow _ _ _ _ _, ?_⟩
    exact .cons (.text 30) (.cons (.text 31) (.cons (.text 0) (.cons (.text 10) (.cons (.text 69)
      (.cons (.text 50) (.cons (.text 10) (.cons (.text 0) .nil)))))))

theorem servedSnapshot_iff_sample :
    ServesOwn sampleStrkeys samplePublished sampleRows (sampleAccount 'B')
      (servedSnapshot (lendingAccount plainSdk sampleRows (sampleAccount 'B'))) := by
  have hnone : ∀ row ∈ sampleRows, ¬ (named sampleStrkeys (sampleAccount 'B')
      (samplePublished row) = true ∧
      carried sampleStrkeys (sampleAccount 'B') (samplePublished row) = none) := by
    decide +kernel
  refine (servedSnapshot_iff sample_archive (by decide +kernel)).mpr ⟨?_, ?_⟩
  · rintro - newer row older hrows hmisleads
    have hmem : row ∈ lendingRows sampleRows := hrows ▸ List.mem_append_right _ List.mem_cons_self
    exact absurd hmisleads (hnone row (mem_lendingRows.mp hmem).1)
  · intro hcontract
    exact absurd hcontract (by decide +kernel)

/-- The liquidator is shown what the borrower has left. -/
theorem liquidator_sees_borrower :
    Archive plainSdk sampleStrkeys samplePublished sampleRows ∧
      (servedSnapshot (lendingAccount plainSdk sampleRows (sampleAccount 'A'))).map
        (fun e => (e.id, e.account, e.position)) =
      some ("liquidate", some (sampleAccount 'B'), some ⟨"0", "10", "69"⟩) ∧
      ¬ ServesOwn sampleStrkeys samplePublished sampleRows (sampleAccount 'A')
        (servedSnapshot (lendingAccount plainSdk sampleRows (sampleAccount 'A'))) := by
  have hserved : (servedSnapshot (lendingAccount plainSdk sampleRows (sampleAccount 'A'))).map
      (fun e => (e.id, e.account, e.position)) =
      some ("liquidate", some (sampleAccount 'B'), some ⟨"0", "10", "69"⟩) := by
    decide +kernel
  have hown : (newestOwn sampleStrkeys samplePublished sampleRows (sampleAccount 'A')).map
      EventRow.eventId = some "deposit" := by
    decide +kernel
  refine ⟨sample_archive, hserved, fun hserves => ?_⟩
  obtain ⟨e, he, hentry⟩ := Option.map_eq_some_iff.mp hserved
  obtain ⟨own, hnewest, hdeposit⟩ := Option.map_eq_some_iff.mp hown
  rw [ServesOwn, he, hnewest, Option.map_some, Option.map_some] at hserves
  have hid : e.id = own.eventId := congrArg Prod.fst (Option.some.inj hserves)
  have hliquidate : e.id = "liquidate" := congrArg Prod.fst hentry
  rw [hdeposit, hliquidate] at hid
  exact absurd hid (by decide)

end Suban.Indexer.Positions
