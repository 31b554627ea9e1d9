import Suban.Basis.Routines
import Suban.Basis.Rows
import Suban.Basis.Tables

namespace Suban.Indexer.Database

open Suban.Basis.Routines Suban.Basis.Rows Suban.Basis.Tables

structure EventRow where
  eventId : String
  contractId : String
  contractName : String
  eventType : String
  txHash : String
  ledger : Nat
  timestamp : Int
  data : Option String
  ledgerClosedAt : Option String
  raw : String

structure Checkpoint where
  cursor : Option String
  lastLedger : Nat

structure WebhookSubscription where
  id : String
  url : String
  secret : String
  eventTypes : List String
  contractIds : List String
  active : Bool
  deriving DecidableEq

inductive DeliveryStatus where
  | pending
  | delivered
  | failed
  deriving DecidableEq

/-- The random id of a delivery is its number here. -/
structure WebhookDelivery where
  id : Nat
  subscriptionId : String
  eventId : String
  status : DeliveryStatus
  attempts : Nat
  nextAttemptAt : Nat
  lastError : Option String
  payload : String

def WebhookDelivery.key (d : WebhookDelivery) : String × String := (d.subscriptionId, d.eventId)

structure LedgerRow where
  sequence : Nat
  hash : String
  prevHash : Option String
  closedAt : String
  operationCount : Nat

structure TransactionRow where
  hash : String
  ledger : Nat
  successful : Bool
  sourceAccount : Option String
  createdAt : String

structure OperationRow where
  id : String
  txHash : String
  ledger : Nat
  sourceAccount : Option String
  type : String
  createdAt : String
  transactionSuccessful : Bool

/-- The tables of the indexer, on a machine with a clock in milliseconds. -/
structure Host where
  events : List EventRow
  checkpoints : Table String Checkpoint
  indexerMeta : Table String String
  webhookSubscriptions : List WebhookSubscription
  webhookDeliveries : List WebhookDelivery
  deliveryIds : Nat
  ledgers : List LedgerRow
  transactions : List TransactionRow
  operations : List OperationRow
  clock : Nat

def Host.fresh : Host where
  events := []
  checkpoints := ∅
  indexerMeta := ∅
  webhookSubscriptions := []
  webhookDeliveries := []
  deliveryIds := 0
  ledgers := []
  transactions := []
  operations := []
  clock := 0

/-- The statements that the process carries out without a pause in between. A
transaction counts as one. -/
inductive Statement where
  | now
  | getMeta (key : String)
  | setMeta (key value : String)
  | getCheckpoint (stream : String)
  | setCheckpoint (stream : String) (lastLedger : Nat) (cursor : Option String)
  | insertEvent (row : EventRow)
  | activeSubscriptions
  | insertDeliveries (eventId payload : String) (now : Nat) (subscriptionIds : List String)
  | writeLedger (ledger : LedgerRow) (transactions : List (TransactionRow × List OperationRow))
  | createSubscription (subscription : WebhookSubscription)
  | deleteSubscription (id : String)
  | updateDelivery (id : Nat) (status : DeliveryStatus) (attempts nextAttemptAt : Nat)
      (lastError : Option String)
  | passTime (milliseconds : Nat)

abbrev Answer : Statement → Type
  | .now => Nat
  | .getMeta _ => Option String
  | .getCheckpoint _ => Nat
  | .insertEvent _ => Nat
  | .activeSubscriptions => List WebhookSubscription
  | _ => Unit

abbrev query {Q : Type} {R : Q → Type} (c : Statement) : Routine Answer R (Answer c) := perform c

namespace Host

variable (h : Host)

def getCheckpoint (stream : String) : Nat :=
  ((h.checkpoints.lookup stream).map Checkpoint.lastLedger).getD 0

def activeSubscriptions : List WebhookSubscription :=
  h.webhookSubscriptions.filter WebhookSubscription.active

def insertDeliveries (eventId payload : String) (now : Nat) (subscriptionIds : List String) :
    Host :=
  let rows := subscriptionIds.mapIdx fun i subscriptionId =>
    { id := h.deliveryIds + i
      subscriptionId := subscriptionId
      eventId := eventId
      status := .pending
      attempts := 0
      nextAttemptAt := now
      lastError := none
      payload := payload }
  { h with
    webhookDeliveries := insertAll WebhookDelivery.key rows h.webhookDeliveries
    deliveryIds := h.deliveryIds + subscriptionIds.length }

/-- What is there already stays as it is. -/
def writeLedger (ledger : LedgerRow) (transactions : List (TransactionRow × List OperationRow)) :
    Host :=
  { h with
    ledgers := insertOrIgnore LedgerRow.sequence ledger h.ledgers
    transactions := insertAll TransactionRow.hash (transactions.map Prod.fst) h.transactions
    operations := insertAll OperationRow.id (transactions.flatMap Prod.snd) h.operations }

def deleteSubscription (id : String) : Host :=
  { h with
    webhookSubscriptions := h.webhookSubscriptions.filter (·.id ≠ id)
    webhookDeliveries := h.webhookDeliveries.filter (·.subscriptionId ≠ id) }

def updateDelivery (id : Nat) (status : DeliveryStatus) (attempts nextAttemptAt : Nat)
    (lastError : Option String) : Host :=
  { h with
    webhookDeliveries := h.webhookDeliveries.map fun d =>
      if d.id = id then { d with
        status := status
        attempts := attempts
        nextAttemptAt := nextAttemptAt
        lastError := lastError }
      else d }

end Host

/-- An insertion answers with the number of rows it has added. -/
def exec (c : Statement) (h : Host) : Answer c × Host :=
  match c with
  | .now => (h.clock, h)
  | .getMeta key => (h.indexerMeta.lookup key, h)
  | .setMeta key value => ((), { h with indexerMeta := h.indexerMeta.insert key value })
  | .getCheckpoint stream => (h.getCheckpoint stream, h)
  | .setCheckpoint stream lastLedger cursor =>
    ((), { h with checkpoints := h.checkpoints.insert stream ⟨cursor, lastLedger⟩ })
  | .insertEvent row =>
    (if HasKey EventRow.eventId h.events row.eventId then 0 else 1,
      { h with events := insertOrIgnore EventRow.eventId row h.events })
  | .activeSubscriptions => (h.activeSubscriptions, h)
  | .insertDeliveries eventId payload now subscriptionIds =>
    ((), h.insertDeliveries eventId payload now subscriptionIds)
  | .writeLedger ledger transactions => ((), h.writeLedger ledger transactions)
  | .createSubscription subscription =>
    ((), { h with webhookSubscriptions :=
      insertOrIgnore WebhookSubscription.id subscription h.webhookSubscriptions })
  | .deleteSubscription id => ((), h.deleteSubscription id)
  | .updateDelivery id status attempts nextAttemptAt lastError =>
    ((), h.updateDelivery id status attempts nextAttemptAt lastError)
  | .passTime milliseconds => ((), { h with clock := h.clock + milliseconds })

theorem getCheckpoint_setCheckpoint (h : Host) (stream other : String) (lastLedger : Nat)
    (cursor : Option String) :
    (exec (.setCheckpoint stream lastLedger cursor) h).2.getCheckpoint other =
      if other = stream then lastLedger else h.getCheckpoint other := by
  by_cases heq : other = stream
  · subst heq
    simp [exec, Host.getCheckpoint]
  · simp [exec, Host.getCheckpoint, AList.lookup_insert_ne heq, heq]

end Suban.Indexer.Database
