import Suban.Indexer.Horizon

namespace Suban.Indexer.Polling

open Suban.Basis.Numbers Suban.Basis.Routines
open Suban.Indexer.Database Suban.Indexer.Events

inductive Source where
  | events
  | horizon
  deriving DecidableEq

/-- What the indexer does beside the statements of its two polls. It counts its
polls and their failures. -/
inductive Call where
  | db (c : Statement)
  | latestIndexedLedger
  | started
  | enter (source : Source)
  | leave (source : Source) (succeeded : Bool)

abbrev CallAnswer : Call → Type
  | .db c => Answer c
  | .latestIndexedLedger => Nat
  | _ => Unit

/-- The account snapshots are fetched one by one, and none of them matters. -/
inductive PollRequest where
  | events (q : Events.Request)
  | horizon (q : Horizon.Request)
  | accounts

/-- A request to one of the servers may fail. -/
abbrev PollReply (X : Type) : PollRequest → Type
  | .events q => Option (Events.Reply X q)
  | .horizon q => Option (Horizon.Reply q)
  | .accounts => Unit

abbrev PollRoutine (X α : Type) := Routine CallAnswer (PollReply X) α

variable {X : Type}

abbrev tell (c : Call) : PollRoutine X (CallAnswer c) := perform c

def pollPart {Q : Type} {R : Q → Type} (request : Q → PollRequest)
    (reply : ∀ q, PollReply X (request q) → Option (R q)) :
    Part Answer R CallAnswer (PollReply X) where
  statement := .db
  answer _ a := a
  request := request
  reply := reply

def eventsPart (X : Type) : Part Answer (Events.Reply X) CallAnswer (PollReply X) :=
  pollPart .events fun _ x => x

def received : (q : Horizon.Request) → Option (Horizon.Reply q) → Option (Horizon.Reply q)
  | .latestLedger, reply => reply.filter fun page => (page.records.bind List.head?).isSome
  | .pages _, reply => reply

def horizonPart (X : Type) : Part Answer Horizon.Reply CallAnswer (PollReply X) :=
  pollPart .horizon received

def poll (source : Source) (r : PollRoutine X (Option Unit)) : PollRoutine X Bool := do
  tell (.enter source)
  let result ← r
  tell (.leave source result.isSome)
  pure result.isSome

/-- Failing to fetch account snapshots is no failure of the poll. -/
def hydrateAccounts : Option Unit → PollRoutine X (Option Unit)
  | none => pure none
  | some () => do
    request PollRequest.accounts
    pure (some ())

section Polling

variable (toISOString : Nat → String)

def recordSuccess : Bool → PollRoutine X Unit
  | false => pure ()
  | true => do
    let now ← tell (.db .now)
    let successSeconds := now / 1000
    let now ← tell (.db .now)
    tell (.db (.setMeta "last_success_at" (toISOString now)))
    tell (.db (.setMeta "last_success_at_ms" (toString successSeconds)))

def recordPoll (succeeded : Bool) : PollRoutine X Unit := do
  let latestIndexed ← tell .latestIndexedLedger
  tell (.db (.setMeta "latest_indexed_ledger" (toString latestIndexed)))
  let now ← tell (.db .now)
  tell (.db (.setMeta "last_poll_at" (toISOString now)))
  recordSuccess toISOString succeeded

variable (P : Platform X) (config : IndexerConfig)

def pollHorizonIf (enabled : Bool) : PollRoutine X Bool :=
  if enabled then
    poll .horizon do
      let result ← attempt (horizonPart X) (Horizon.pollHorizon toISOString config)
      hydrateAccounts result
  else pure false

def pollOnce (enabled : Bool) : PollRoutine X Unit := do
  tell .started
  let events ← poll .events (attempt (eventsPart X) (pollContractEvents P config))
  let horizon ← pollHorizonIf toISOString config enabled
  recordPoll toISOString (events || horizon)

end Polling

section Freshness

def latestIndexedLedger (h : Host) : Nat :=
  (h.checkpoints.entries.map fun e => e.2.lastLedger).max?.getD 0

def numberMeta (h : Host) (key : String) : Option Nat :=
  (h.indexerMeta.lookup key).bind fun text => numeral (text.toList.takeWhile Char.isDigit)

structure FreshnessConfig where
  staleAfterSeconds : Nat
  maxLagLedgers : Nat

structure Freshness where
  asOf : String
  latestIndexedLedger : Nat
  latestObservedLedger : Nat
  lagLedgers : Nat
  lagSeconds : Option Nat
  lastSuccessAt : Option String
  stale : Bool
  staleAfterSeconds : Nat

variable (toISOString : Nat → String) (dateParse : String → Option Int)
variable (config : FreshnessConfig) (h : Host)

def lagSeconds : Option Nat :=
  ((truthy (h.indexerMeta.lookup "last_success_at")).bind dateParse).map fun lastSuccessMs =>
    (((h.clock : Int) - lastSuccessMs) / 1000).toNat

/-- Nothing observed, or a zero, counts as what is indexed. -/
def latestObservedLedger : Nat :=
  ((numberMeta h "latest_observed_ledger").filter (· ≠ 0)).getD (latestIndexedLedger h)

def lagLedgers : Nat := latestObservedLedger h - latestIndexedLedger h

def getFreshness : Freshness where
  asOf := toISOString h.clock
  latestIndexedLedger := latestIndexedLedger h
  latestObservedLedger := latestObservedLedger h
  lagLedgers := lagLedgers h
  lagSeconds := lagSeconds dateParse h
  lastSuccessAt := h.indexerMeta.lookup "last_success_at"
  stale := decide (config.maxLagLedgers < lagLedgers h) ||
    match lagSeconds dateParse h with
    | none => true
    | some seconds => decide (config.staleAfterSeconds < seconds)
  staleAfterSeconds := config.staleAfterSeconds

end Freshness

end Suban.Indexer.Polling
