import Suban.Basis.Numbers
import Suban.Indexer.Database
import Suban.Indexer.Values

namespace Suban.Indexer.Events

open Suban.Basis.Numbers Suban.Basis.Routines Suban.Indexer.Database Suban.Indexer.Values

/-- What the indexer takes from its platform beside the Stellar SDK: digests in
hexadecimal, and times in milliseconds. -/
structure Platform (X : Type) extends ScValSdk X where
  sha256 : String → String
  dateParse : String → Option Int

structure ContractConfig where
  name : String
  contractId : String

structure IndexerConfig where
  contracts : List ContractConfig
  eventBootstrapLedgers : Nat
  horizonBootstrapLedgers : Nat
  maxLedgersPerPoll : Nat

/-- An event as the RPC server hands it over. Servers differ in the fields they
fill in. -/
structure SorobanEvent (X : Type) where
  id : Option String
  ledger : Option Nat
  txHash : Option String
  transactionHash : Option String
  ledgerClosedAt : Option String
  topic : Option (List (Value X))
  topics : Option (List (Value X))
  value : Option (Value X)

variable {X Q : Type} {R : Q → Type}

/-- A text that counts as true. -/
def truthy (text : Option String) : Option String := text.filter (· ≠ "")

def orNull : Value X → Value X
  | .bool false | .num 0 | .bigint 0 | .str "" => .null
  | value => value

namespace SorobanEvent

variable (e : SorobanEvent X)

def ledgerNumber : Nat := e.ledger.getD 0

def hash : String := ((truthy e.txHash).orElse fun _ => truthy e.transactionHash).getD ""

def allTopics : List (Value X) := (e.topic.orElse fun _ => e.topics).getD []

def object : Value X :=
  .obj ([("id", e.id.map .str), ("ledger", e.ledger.map fun n => .num n),
    ("txHash", e.txHash.map .str), ("transactionHash", e.transactionHash.map .str),
    ("ledgerClosedAt", e.ledgerClosedAt.map .str), ("topic", e.topic.map .arr),
    ("topics", e.topics.map .arr), ("value", e.value)].filterMap
      fun f => f.2.map fun value => (f.1, value))

end SorobanEvent

section Rows

variable (P : Platform X)

def eventTypeFrom (e : SorobanEvent X) : String :=
  match e.allTopics with
  | [] => "unknown"
  | topic :: _ =>
    match decodeScVal P.toScValSdk topic with
    | .str s => s
    | decoded => stringify P.toScValSdk decoded

def eventData (e : SorobanEvent X) : Value X :=
  match e.value with
  | none => .null
  | some value => decodeScVal P.toScValSdk value

/-- An event without an id of its own is known by its content and its place in
the page. -/
def deterministicEventId (contractId : String) (e : SorobanEvent X) (index : Nat) : String :=
  match truthy e.id with
  | some id => contractId ++ ":" ++ id
  | none =>
    let parts := [contractId, toString e.ledgerNumber, e.hash,
      stringify P.toScValSdk (.arr e.allTopics),
      stringify P.toScValSdk (orNull (e.value.getD .null)), toString index]
    contractId ++ ":" ++ P.sha256 ("|".intercalate parts)

def eventTimestamp (e : SorobanEvent X) (now : Nat) : Int :=
  match (truthy e.ledgerClosedAt).bind P.dateParse with
  | some parsed => parsed / 1000
  | none => (now / 1000 : Nat)

def eventRow (contract : ContractConfig) (e : SorobanEvent X) (index now : Nat) : EventRow where
  eventId := deterministicEventId P contract.contractId e index
  contractId := contract.contractId
  contractName := contract.name
  eventType := eventTypeFrom P e
  txHash := e.hash
  ledger := e.ledgerNumber
  timestamp := eventTimestamp P e now
  data :=
    match eventData P e with
    | .null => none
    | data => some (stringify P.toScValSdk data)
  ledgerClosedAt := truthy e.ledgerClosedAt
  raw := stringify P.toScValSdk e.object

def payload (event : EventRow) (data : Value X) : String :=
  stringify P.toScValSdk (.obj [("id", .str event.eventId), ("type", .str event.eventType),
    ("contract_id", .str event.contractId), ("contract_name", .str event.contractName),
    ("tx_hash", .str event.txHash), ("ledger", .num event.ledger),
    ("timestamp", .num event.timestamp), ("data", data)])

end Rows

/-- No list of types, or the star, stands for all types, and no list of
contracts for all contracts. -/
def subscribes (event : EventRow) (s : WebhookSubscription) : Bool :=
  let typeMatches := s.eventTypes.isEmpty || s.eventTypes.contains "*" ||
    s.eventTypes.contains event.eventType
  let contractMatches := s.contractIds.isEmpty || s.contractIds.contains event.contractId
  typeMatches && contractMatches

def enqueue (P : Platform X) (event : EventRow) (data : Value X) : Routine Answer R Unit := do
  let now ← query .now
  let subscriptions ← query .activeSubscriptions
  if subscriptions = [] then pure ()
  else
    let ids := (subscriptions.filter (subscribes event)).map WebhookSubscription.id
    query (.insertDeliveries event.eventId (payload P event data) (now / 1000) ids)

def getNumberMeta (key : String) : Routine Answer R (Option Nat) := do
  let value ← query (.getMeta key)
  pure (value.bind fun text => numeral (text.toList.takeWhile Char.isDigit))

def observeLedger (sequence : Nat) : Routine Answer R Unit := do
  let current ← getNumberMeta "latest_observed_ledger"
  if current.getD 0 < sequence then
    query (.setMeta "latest_observed_ledger" (toString sequence))
  else pure ()

theorem keeps_observeLedger {σ : Type} {D : Store Answer R σ} {L : Outline Statement R σ}
    {G : σ → σ → Prop} (hframe : Frame D L G) (hget : ∀ key, L.allowed (.getMeta key))
    (hset : ∀ key value, L.allowed (.setMeta key value)) (sequence : Nat) :
    Keeps D L G (observeLedger sequence) := by
  have hnumber : Keeps D L G (getNumberMeta (R := R) "latest_observed_ledger") :=
    hframe.bind (hframe.perform (hget _)) fun _ => hframe.done _
  refine hframe.bind hnumber fun current => ?_
  split
  · exact hframe.perform (hset _ _)
  · exact hframe.done ()

inductive Request where
  | getLatestLedger
  | getEvents (startLedger : Nat) (contractId : String) (limit : Nat)

structure EventsResponse (X : Type) where
  events : List (SorobanEvent X)
  cursor : Option String

abbrev Reply (X : Type) : Request → Type
  | .getLatestLedger => Nat
  | .getEvents _ _ _ => EventsResponse X

abbrev EventRoutine (X α : Type) := Routine Answer (Reply X) α

abbrev ask (q : Request) : EventRoutine X (Reply X q) := request q

def stream (contractId : String) : String := "events:" ++ contractId

section Polling

variable (P : Platform X) (config : IndexerConfig)

/-- A row that was stored before has been enqueued then. -/
def enqueueInserted (inserted : Nat) (row : EventRow) (data : Value X) : EventRoutine X Unit :=
  if 0 < inserted then enqueue P row data else pure ()

def storeEvents (contract : ContractConfig) :
    List (SorobanEvent X) → Nat → Nat → EventRoutine X Nat
  | [], _, maxLedger => pure maxLedger
  | event :: events, index, maxLedger => do
    let now ← query .now
    let row := eventRow P contract event index now
    let inserted ← query (.insertEvent row)
    enqueueInserted P inserted row (eventData P event)
    storeEvents contract events (index + 1) (max maxLedger event.ledgerNumber)

def cursorAtEnd (response : EventsResponse X) : Bool :=
  match truthy response.cursor with
  | none => false
  | some cursor => response.events.getLast?.bind SorobanEvent.id = some cursor

/-- Asks for pages after the ledger `src`, so many at most. -/
def pollPages (contract : ContractConfig) (latest : Nat) : Nat → Nat → EventRoutine X Unit
  | 0, _ => pure ()
  | pages + 1, src =>
    if src < latest then do
      let response ← ask (.getEvents (src + 1) contract.contractId 200)
      if response.events.isEmpty then pure ()
      else do
        let maxLedger ← storeEvents P contract response.events 0 src
        query (.setCheckpoint (stream contract.contractId) maxLedger none)
        if response.events.length < 200 ∨ cursorAtEnd response then pure ()
        else pollPages contract latest pages maxLedger
    else pure ()

/-- A stream without a checkpoint starts some ledgers before the latest one. -/
def bootstrap (stream : String) (latest bootstrapLedgers : Nat) : Routine Answer R Nat := do
  let checkpoint ← query (.getCheckpoint stream)
  if checkpoint = 0 then do
    let checkpoint := max 1 (latest - bootstrapLedgers)
    query (.setCheckpoint stream checkpoint none)
    pure checkpoint
  else pure checkpoint

def pollContract (latest : Nat) (contract : ContractConfig) : EventRoutine X Unit := do
  let checkpoint ← bootstrap (stream contract.contractId) latest config.eventBootstrapLedgers
  if latest ≤ checkpoint then pure () else pollPages P contract latest 20 checkpoint

def pollContracts (latest : Nat) : List ContractConfig → EventRoutine X Unit
  | [] => pure ()
  | contract :: contracts => do
    pollContract P config latest contract
    pollContracts latest contracts

def pollContractEvents : EventRoutine X Unit :=
  if config.contracts.isEmpty then pure ()
  else do
    let latest ← ask .getLatestLedger
    observeLedger latest
    pollContracts P config latest config.contracts

end Polling

end Suban.Indexer.Events
