import Suban.Indexer.Events

namespace Suban.Indexer.Horizon

open Suban.Basis.Routines
open Suban.Indexer.Database Suban.Indexer.Events

structure HorizonLedger where
  sequence : Nat
  hash : String
  prevHash : Option String
  closedAt : String
  operationCount : Option Nat

structure HorizonTransaction where
  hash : String
  ledger : Nat
  successful : Bool
  sourceAccount : String
  createdAt : String

structure HorizonOperation where
  id : String
  transactionHash : String
  sourceAccount : Option String
  type : String
  createdAt : String
  transactionSuccessful : Option Bool

structure HorizonCollection (T : Type) where
  records : Option (List T)
  next : Option String

inductive Listing where
  | ledgersFrom (sequence limit : Nat)
  | transactionsForLedger (sequence : Nat)
  | operationsForLedger (sequence : Nat)

abbrev Listing.Record : Listing → Type
  | .ledgersFrom _ _ => HorizonLedger
  | .transactionsForLedger _ => HorizonTransaction
  | .operationsForLedger _ => HorizonOperation

def Listing.path : Listing → String
  | .ledgersFrom sequence limit =>
    "/ledgers?order=asc&limit=" ++ toString (max 1 (min limit 200)) ++
      "&cursor=" ++ toString (sequence * 4294967296)
  | .transactionsForLedger sequence =>
    "/ledgers/" ++ toString sequence ++ "/transactions?order=asc&limit=200"
  | .operationsForLedger sequence =>
    "/ledgers/" ++ toString sequence ++ "/operations?order=asc&limit=200"

inductive Request where
  | latestLedger
  | pages (listing : Listing)

/-- The pages of a listing are asked for one after the other. Each request has
the number of the page and the link to it. -/
abbrev Reply : Request → Type
  | .latestLedger => HorizonCollection HorizonLedger
  | .pages listing => Nat → String → HorizonCollection listing.Record

abbrev HorizonRoutine (α : Type) := Routine Answer Reply α

abbrev ask (q : Request) : HorizonRoutine (Reply q) := request q

/-- Reads so many pages at most, and none after a page without a link. -/
def readPages {T : Type} (request : Nat → String → HorizonCollection T) :
    Nat → Nat → Option String → List T
  | 0, _, _ => []
  | _ + 1, _, none => []
  | left + 1, pages, some next =>
    let page := request pages next
    page.records.getD [] ++ readPages request left (pages + 1) (truthy page.next)

def collect (listing : Listing) (request : Nat → String → HorizonCollection listing.Record) :
    List listing.Record :=
  readPages request 50 0 (some listing.path)

def collection (listing : Listing) : HorizonRoutine (List listing.Record) := do
  let request ← ask (.pages listing)
  pure (collect listing request)

def markSuccess (toISOString : Nat → String) : HorizonRoutine Unit := do
  let now ← query .now
  query (.setMeta "last_success_at" (toISOString now))
  let now ← query .now
  query (.setMeta "last_success_at_ms" (toString (now / 1000)))

def HorizonLedger.row (ledger : HorizonLedger) : LedgerRow where
  sequence := ledger.sequence
  hash := ledger.hash
  prevHash := truthy ledger.prevHash
  closedAt := ledger.closedAt
  operationCount := ledger.operationCount.getD 0

def HorizonTransaction.row (transaction : HorizonTransaction) : TransactionRow where
  hash := transaction.hash
  ledger := transaction.ledger
  successful := transaction.successful
  sourceAccount := truthy (some transaction.sourceAccount)
  createdAt := transaction.createdAt

def HorizonOperation.row (operation : HorizonOperation) (transaction : HorizonTransaction) :
    OperationRow where
  id := operation.id
  txHash := (truthy (some operation.transactionHash)).getD transaction.hash
  ledger := transaction.ledger
  sourceAccount := truthy operation.sourceAccount
  type := operation.type
  createdAt := operation.createdAt
  transactionSuccessful := operation.transactionSuccessful ≠ some false

def operationsOf (operations : List HorizonOperation) (transaction : HorizonTransaction) :
    List HorizonOperation :=
  operations.filter (·.transactionHash = transaction.hash)

/-- Operations are stored with the transaction that they name, if it is listed. -/
def transactionRows (transactions : List HorizonTransaction)
    (operations : List HorizonOperation) : List (TransactionRow × List OperationRow) :=
  transactions.map fun transaction =>
    (transaction.row, (operationsOf operations transaction).map (·.row transaction))

def writeLedger (ledger : HorizonLedger) (transactions : List HorizonTransaction)
    (operations : List HorizonOperation) : HorizonRoutine Unit :=
  query (.writeLedger ledger.row (transactionRows transactions operations))

section Polling

variable (toISOString : Nat → String) (config : IndexerConfig)

def writeLedgers : List HorizonLedger → HorizonRoutine Unit
  | [] => pure ()
  | ledger :: ledgers => do
    let transactions ← collection (.transactionsForLedger ledger.sequence)
    let operations ← collection (.operationsForLedger ledger.sequence)
    writeLedger ledger transactions operations
    query (.setCheckpoint "horizon" ledger.sequence none)
    markSuccess toISOString
    writeLedgers ledgers

/-- A quiet chain can still advance. -/
def advance (target : Nat) : HorizonRoutine Unit := do
  query (.setCheckpoint "horizon" target none)
  markSuccess toISOString

def relevantLedgers (checkpoint target : Nat) (ledgers : List HorizonLedger) :
    List HorizonLedger :=
  ledgers.filter fun ledger => checkpoint < ledger.sequence ∧ ledger.sequence ≤ target

def pollFrom (checkpoint target : Nat) : HorizonRoutine Unit := do
  let ledgers ← collection (.ledgersFrom checkpoint (target - checkpoint))
  let relevant := relevantLedgers checkpoint target ledgers
  if relevant.isEmpty then advance toISOString target else writeLedgers toISOString relevant

def pollLatest (latest : HorizonLedger) : HorizonRoutine Unit := do
  observeLedger latest.sequence
  let checkpoint ← bootstrap "horizon" latest.sequence config.horizonBootstrapLedgers
  if latest.sequence ≤ checkpoint then markSuccess toISOString
  else pollFrom toISOString checkpoint (min latest.sequence (checkpoint + config.maxLedgersPerPoll))

/-- Without a latest ledger the poll fails. -/
def pollHorizon : HorizonRoutine Unit := do
  let page ← ask .latestLedger
  match page.records.bind List.head? with
  | none => pure ()
  | some latest => pollLatest toISOString config latest

end Polling

end Suban.Indexer.Horizon
