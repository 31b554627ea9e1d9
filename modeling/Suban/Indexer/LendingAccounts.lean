import Suban.Indexer.LpPositions
import Suban.Indexer.Payloads
import Suban.Indexer.Positions
import Suban.LendingPool.Accounts

namespace Suban.Indexer.LendingAccounts

open Suban.Basis.Calls Suban.Basis.Numbers Suban.Basis.Runs Suban.Soroban.Host
open Suban.LendingPool.State Suban.LendingPool.Contract Suban.LendingPool.Accounts
open Suban.Indexer.Database Suban.Indexer.Values Suban.Indexer.Financial Suban.Indexer.Payloads
open Suban.Indexer.Positions

variable {Address X : Type} {sdk : ScValSdk X} {S : Strkeys Address}
variable {published : EventRow → Event Address} {events : List (Event Address)}
variable {rows : List EventRow}

/-- The lending rows are those of the events of the pool, stored in their order, and
no event is older than the one before it. -/
structure Chronicle (sdk : ScValSdk X) (S : Strkeys Address) (published : EventRow → Event Address)
    (events : List (Event Address)) (rows : List EventRow) : Prop where
  archive : Archive sdk S published rows
  events_eq : (rows.filter isLending).map published = events
  ordered : (rows.filter isLending).Pairwise fun older newer => older.timestamp ≤ newer.timestamp

/-- The events are looked at from the newest on. -/
theorem Chronicle.published_lendingRows (h : Chronicle sdk S published events rows) :
    (lendingRows rows).map published = events.reverse := by
  rw [lendingRows, newestFirst, (List.pairwise_reverse.mpr h.ordered).insertionSort_eq,
    List.map_reverse, h.events_eq]

variable [DecidableEq Address]

/-- The event names the account, whose position it need not tell. -/
def names (a : Address) (event : Event Address) : Bool :=
  decide (a ∈ (publishedLending event).accounts)

def lastNaming (a : Address) (events : List (Event Address)) : Option (Event Address) :=
  events.reverse.find? (names a)

theorem named_text (hinj : Function.Injective S.text) (a : Address) (event : Event Address) :
    named S (S.text a) event = names a event := by
  rw [Bool.eq_iff_iff, named, names, List.contains_iff_mem, decide_eq_true_eq]
  exact List.mem_map_of_injective hinj

/-- What is served is what the newest event that names the account tells, whoever
it tells it of. -/
theorem Chronicle.served (h : Chronicle sdk S published events rows)
    (hinj : Function.Injective S.text) (hwindow : events.length ≤ scanLimit) {a : Address}
    (ha : isAccount (S.text a) = true) :
    (servedSnapshot (lendingAccount sdk rows (S.text a))).map (fun e => e.position) =
      (lastNaming a events).map fun event => (told event).map fun p => shown p.2 := by
  have hrows : (rows.filter isLending).length ≤ scanLimit := by
    rwa [← h.events_eq, List.length_map] at hwindow
  have hserved := congrArg (Option.map Prod.snd) (h.archive.served (S.text a) hrows)
  rw [Option.map_map, Option.map_map] at hserved
  refine hserved.trans ?_
  rw [lastNaming, ← h.published_lendingRows, List.find?_map, Option.map_map]
  simp only [ha, Bool.true_and, named_text hinj]
  rfl

omit [DecidableEq Address] in
theorem find_none_of_silent {f : Event Address → Option UserPosition} {p : Event Address → Bool}
    (hnamed : ∀ e, (f e).isSome = true → p e = true) {l : List (Event Address)}
    (h : l.find? p = none) : l.findSome? f = none := by
  rw [List.find?_eq_none] at h
  refine List.findSome?_eq_none_iff.mpr fun e he => ?_
  rw [← Option.not_isSome_iff_eq_none]
  exact fun hsome => h e he (hnamed e hsome)

omit [DecidableEq Address] in
theorem findSome_of_find {f : Event Address → Option UserPosition} {p : Event Address → Bool}
    (hnamed : ∀ e, (f e).isSome = true → p e = true) {l : List (Event Address)}
    {event : Event Address} {after : UserPosition} (h : l.find? p = some event)
    (hevent : f event = some after) : l.findSome? f = some after := by
  induction l with
  | nil => cases h
  | cons e l ih =>
    rw [List.find?_cons] at h
    rw [List.findSome?_cons]
    cases hp : p e with
    | true =>
      rw [hp] at h
      cases h
      rw [hevent]
    | false =>
      rw [hp] at h
      have hnone : f e = none := by
        rw [← Option.not_isSome_iff_eq_none]
        exact fun hsome => Bool.false_ne_true (hp.symm.trans (hnamed e hsome))
      rw [hnone]
      exact ih h

theorem names_of_told {a : Address} {event : Event Address}
    (h : (toldOf a event).isSome = true) : names a event = true := by
  unfold toldOf at h
  cases event <;> simp_all [told, Option.filter, names, publishedLending]

variable {W : Type} {contract : Address} {M : Market Address W}

/-- The snapshot that is served is the account's position in the pool. Where there is
none, the account has no position. -/
def Serves (s : Storage Address W) (a : Address) : Option (LendingEvent X) → Prop
  | some e => e.position = some (shown (s.readUserPosition a))
  | none => s.readUserPosition a = ⟨0, 0, 0⟩

/-- After any run of a pool whose events are all indexed, an account is served the
position that the pool has of it, unless the last that was heard of the account is
that it has liquidated another one. -/
theorem served_position (w : W) (is : List (Input Address W contract (Call Address)))
    (hinj : Function.Injective S.text)
    (hchronicle : Chronicle sdk S published (run (step M) (.fresh w) is).events rows)
    (hwindow : (run (step M) (.fresh w) is).events.length ≤ scanLimit) (a : Address)
    (ha : isAccount (S.text a) = true)
    (hown : ∀ event ∈ lastNaming a (run (step M) (.fresh w) is).events,
      (told event).map Prod.fst = some a) :
    Serves (run (step M) (.fresh w) is) a
      (servedSnapshot (lendingAccount sdk rows (S.text a))) := by
  have htold : Told (run (step M) (.fresh w) is) := throughout_run (told_throughout w is)
  have hserved := hchronicle.served hinj hwindow ha
  have hnamed : ∀ event, (toldOf a event).isSome = true → names a event = true :=
    fun _ => names_of_told
  cases hlast : lastNaming a (run (step M) (.fresh w) is).events with
  | none =>
    rw [hlast, Option.map_none, Option.map_eq_none_iff] at hserved
    have hsilent : lastTold a (run (step M) (.fresh w) is).events = none :=
      find_none_of_silent hnamed hlast
    rw [hserved]
    exact (htold a).trans (by rw [hsilent]; rfl)
  | some event =>
    obtain ⟨⟨b, after⟩, htoldEvent, rfl⟩ := Option.map_eq_some_iff.mp (hown event hlast)
    have hafter : lastTold b (run (step M) (.fresh w) is).events = some after :=
      findSome_of_find hnamed hlast (by simp [toldOf, htoldEvent, Option.filter])
    have hposition : (run (step M) (.fresh w) is).readUserPosition b = after :=
      (htold b).trans (by rw [hafter]; rfl)
    rw [hlast, Option.map_some, htoldEvent, Option.map_eq_some_iff] at hserved
    obtain ⟨e, he, heposition⟩ := hserved
    rw [he, Serves, hposition, heposition]
    rfl

section Sample

variable (pool token supplier : Fin 5)

def supplierBooks : Fin 5 → Fin 5 → Nat := fun t a => if t = token ∧ a = supplier then 5000 else 0

def supplierCalls : List (Input (Fin 5) (Fin 5 → Fin 5 → Nat) pool (Call (Fin 5))) :=
  [.call (Env.signed pool 0) (.initialise supplier 7500 8500 500 500 1000),
    .call (Env.signed pool 0) (.setCollateralAsset supplier token),
    .call (Env.signed pool 1) (.deposit supplier 100)]

def supplyEvent : Event (Fin 5) := .deposit supplier 100 100 ⟨100, 0, 0⟩ ⟨100, 0, 0⟩

def supplyWire : Wire.WireEvent where
  id := none
  ledger := some 7
  txHash := some "t1"
  transactionHash := none
  ledgerClosedAt := none
  topic := some [.obj [("symbol", .str "deposit")],
    .obj [("address", .str (LpPositions.holderStrkeys.text supplier))]]
  topics := none
  value := some (.obj [("vec", .arr [.obj [("i128", .str "100")], .obj [("i128", .str "100")],
    .obj [("i128", .str "100")], .obj [("i128", .str "0")], .obj [("i128", .str "0")],
    .obj [("i128", .str "100")], .obj [("i128", .str "0")], .obj [("i128", .str "0")]])])

def supplyRow : EventRow :=
  Events.eventRow samplePlatform ⟨"lending-pool", "C1"⟩ (supplyWire supplier).event 0 0

theorem supply_events :
    (run (step (bookMarket (Fin 5))) (.fresh (supplierBooks 3 1)) (supplierCalls 0 3 1)).events =
      [supplyEvent 1] := rfl

theorem stored_supply : Stored samplePlatform.toScValSdk LpPositions.holderStrkeys
    (publishedLending (supplyEvent supplier)) (supplyRow supplier) :=
  stored_eventRow (carries_wire [.str "100", .str "100", .str "100", .str "0", .str "0",
      .str "100", .str "0", .str "0"] rfl rfl rfl
    (.cons (.text 100) (.cons (.text 100) (.cons (.text 100) (.cons (.text 0) (.cons (.text 0)
      (.cons (.text 100) (.cons (.text 0) (.cons (.text 0) .nil))))))))) _ 0 0

theorem chronicle_supply : Chronicle samplePlatform.toScValSdk LpPositions.holderStrkeys
    (fun _ => supplyEvent 1)
    (run (step (bookMarket (Fin 5))) (.fresh (supplierBooks 3 1)) (supplierCalls 0 3 1)).events
    [supplyRow 1] := by
  have hlending : isLending (supplyRow 1) = true := by
    have hname : includes (supplyRow 1).contractName.toLower "lending" = true := by
      decide +kernel
    have hkind : (classifyLendingEvent "deposit").isSome = true := by decide
    rw [isLending, (stored_supply 1).eventType]
    exact Bool.and_eq_true_iff.mpr ⟨hname, hkind⟩
  have hrows : [supplyRow 1].filter isLending = [supplyRow 1] := List.filter_cons_of_pos hlending
  rw [supply_events]
  refine ⟨⟨fun row hrow _ => ?_, List.nodup_singleton _⟩, ?_, ?_⟩
  · rw [List.mem_singleton.mp hrow]
    exact stored_supply 1
  · rw [hrows]
    rfl
  · rw [hrows]
    exact List.pairwise_singleton _ _

theorem served_position_sample :
    Serves (run (step (bookMarket (Fin 5))) (.fresh (supplierBooks 3 1)) (supplierCalls 0 3 1)) 1
      (servedSnapshot (lendingAccount samplePlatform.toScValSdk [supplyRow 1]
        (LpPositions.holderStrkeys.text 1))) := by
  have hwindow : (run (step (bookMarket (Fin 5))) (.fresh (supplierBooks 3 1))
      (supplierCalls 0 3 1)).events.length ≤ scanLimit := by
    rw [supply_events]
    decide
  have hown : ∀ event ∈ lastNaming 1 (run (step (bookMarket (Fin 5)))
      (.fresh (supplierBooks 3 1)) (supplierCalls 0 3 1)).events,
      (told event).map Prod.fst = some 1 := by
    rw [supply_events]
    intro event hevent
    cases hevent
    rfl
  exact served_position (supplierBooks 3 1) (supplierCalls 0 3 1)
    LpPositions.holderStrkeys_injective chronicle_supply hwindow 1 (by decide +kernel) hown

end Sample

end Suban.Indexer.LendingAccounts
