import Mathlib.Data.List.Basic
import Suban.Basis.Numbers

namespace Suban.Relayer.Stellar

open Suban.Basis.Numbers

inductive Native where
  | text (s : String)
  | integer (n : Int)
  | several (parts : List String)
  deriving DecidableEq

def Native.toString : Native → String
  | .text s => s
  | .integer n => ToString.toString n
  | .several parts => ",".intercalate parts

/-- An event as its contract publishes it, with the transaction it did so in. -/
structure Published where
  topic : List Native
  value : Native
  txHash : String
  deriving DecidableEq

structure RpcEvent extends Published where
  ledger : Nat
  deriving DecidableEq

/-- The closed ledgers, with the events of the contract in their order. -/
structure Chain where
  latest : Nat
  events : List RpcEvent
  ordered : events.Pairwise (fun a b => a.ledger ≤ b.ledger)
  closed : ∀ e ∈ events, e.ledger ≤ latest

namespace Chain

def empty (latest : Nat) : Chain where
  latest := latest
  events := []
  ordered := List.Pairwise.nil
  closed := by simp

variable (c : Chain)

def added (published : List Published) : List RpcEvent :=
  published.map (fun p => ⟨p, c.latest + 1⟩)

theorem ledger_added {published : List Published} {e : RpcEvent} (h : e ∈ c.added published) :
    e.ledger = c.latest + 1 := by
  obtain ⟨p, -, rfl⟩ := List.mem_map.mp h
  rfl

def close (published : List Published) : Chain where
  latest := c.latest + 1
  events := c.events ++ c.added published
  ordered := by
    refine List.pairwise_append.mpr ⟨c.ordered, ?_, ?_⟩
    · exact List.pairwise_of_forall_mem_list fun a ha b hb =>
        ((c.ledger_added ha).trans (c.ledger_added hb).symm).le
    · intro a ha b hb
      rw [c.ledger_added hb]
      exact (c.closed a ha).trans (Nat.le_succ _)
  closed := by
    intro e he
    obtain he | he := List.mem_append.mp he
    · exact (c.closed e he).trans (Nat.le_succ _)
    · exact (c.ledger_added he).le

def since (startLedger : Nat) : List RpcEvent := c.events.filter (fun e => startLedger ≤ e.ledger)

/-- The events from a ledger on, but one page of them at most. -/
def getEvents (limit startLedger : Nat) : List RpcEvent := (c.since startLedger).take limit

end Chain

structure StellarBurnEvent where
  destinationChain : String
  sender : String
  amount : String
  nonce : Number
  txHash : String
  ledger : Nat
  deriving DecidableEq

def StellarBurnEvent.sourceChain (_ : StellarBurnEvent) : String := "stellar"

def parseBurnEvent (event : RpcEvent) : Option StellarBurnEvent :=
  match event.topic with
  | eventType :: destination :: rest =>
    if eventType ≠ .text "burn" then none
    else some {
      destinationChain := destination.toString
      sender := (rest[0]?.map Native.toString).getD "unknown"
      amount := event.value.toString
      nonce := (rest[1]?.map (fun topic => parseInt topic.toString)).getD (ofNat 0)
      txHash := if event.txHash.startsWith "0x" then event.txHash else "0x" ++ event.txHash
      ledger := event.ledger }
  | _ => none

/-- The watcher, with the ledger that a poll under way has read as the latest,
and the burns that it has emitted. -/
structure StellarWatcher where
  lastLedger : Nat
  polling : Option Nat
  emitted : List StellarBurnEvent

/-- Without a ledger to start from, at zero, it starts from the latest one. -/
def start (c : Chain) (fromLedger : Nat) : StellarWatcher where
  lastLedger := if fromLedger = 0 then c.latest else fromLedger
  polling := none
  emitted := []

/-- The first half of a poll, up to its request for events. -/
def checkForEvents (w : StellarWatcher) (currentLedger : Nat) : StellarWatcher :=
  if currentLedger ≤ w.lastLedger then w else { w with polling := some currentLedger }

def emitBurns (w : StellarWatcher) (currentLedger : Nat) (events : List RpcEvent) :
    StellarWatcher where
  lastLedger := currentLedger
  polling := none
  emitted := w.emitted ++ events.filterMap parseBurnEvent

structure Watch where
  chain : Chain
  watcher : StellarWatcher

/-- Ledgers close at any time, between the two requests of a poll as well. -/
inductive Input where
  | close (published : List Published)
  | getLatestLedger
  | getEvents

/-- The watcher makes its requests one after the other. -/
def step (limit : Nat) (s : Watch) : Input → Except Unit Watch
  | .close published => .ok { s with chain := s.chain.close published }
  | .getLatestLedger =>
    match s.watcher.polling with
    | none => .ok { s with watcher := checkForEvents s.watcher s.chain.latest }
    | some _ => .error ()
  | .getEvents =>
    match s.watcher.polling with
    | none => .error ()
    | some current =>
      let page := s.chain.getEvents limit (s.watcher.lastLedger + 1)
      .ok { s with watcher := emitBurns s.watcher current page }

end Suban.Relayer.Stellar
