import Suban.Basis.Spans
import Suban.Relayer.EventIds

namespace Suban.Relayer.ArcBlocks

open Suban.Basis.Spans Suban.Evm.Host Suban.Relayer.Arc Suban.Relayer.EventIds
open Suban.Relayer.Processor

variable {B : Type} {K : Crypto} {X : Erc20 B} {contract : Account}

theorem log_step {s t : ArcChain B} {i : Sent B} (h : EventIds.step K X contract s i = .ok t) :
    ∃ added, t.log = s.log ++ added ∧ ∀ e ∈ added, e.blockNumber = i.blockNumber := by
  simp only [EventIds.step, Basis.Calls.bind_eq_ok, Basis.Calls.pure_eq_ok] at h
  obtain ⟨bridge, -, rfl⟩ := h
  refine ⟨_, rfl, fun e he => ?_⟩
  obtain ⟨event, -, rfl⟩ := List.mem_map.mp he
  rfl

/-- The mined blocks. The entries of the next one, which is still to be mined,
are in the log already. -/
structure Blocks (B : Type) extends ArcChain B where
  blockNumber : Nat
  ordered : Ordered EventLog.blockNumber log
  next : ∀ e ∈ log, e.blockNumber ≤ blockNumber + 1

namespace Blocks

variable (c : Blocks B)

def transact (K : Crypto) (X : Erc20 B) (contract : Account) (transactionHash : String)
    (input : ArcBridge.Contract.Input B) : Except Unit (Blocks B) :=
  match h : EventIds.step K X contract c.toArcChain
      ⟨transactionHash, c.blockNumber + 1, input⟩ with
  | .error _ => .error ()
  | .ok t => .ok {
      toArcChain := t
      blockNumber := c.blockNumber
      ordered := by
        obtain ⟨added, hlog, hblock⟩ := log_step h
        rw [hlog]
        exact c.ordered.append c.next hblock
      next := by
        obtain ⟨added, hlog, hblock⟩ := log_step h
        rw [hlog]
        exact List.forall_mem_append.mpr ⟨c.next, fun e he => (hblock e he).le⟩ }

def mine : Blocks B where
  toArcChain := c.toArcChain
  blockNumber := c.blockNumber + 1
  ordered := c.ordered
  next e he := (c.next e he).trans (Nat.le_succ _)

/-- The entries of the blocks in a range, both ends among them. -/
def queryFilter (fromBlock toBlock : Nat) : List EventLog :=
  c.log.filter (fun e => fromBlock ≤ e.blockNumber ∧ e.blockNumber ≤ toBlock)

end Blocks

/-- The watcher, with the block that a poll under way has read as the current
one, and the burns that it has emitted. -/
structure ArcWatcher where
  lastBlock : Nat
  polling : Option Nat
  emitted : List ArcBurnEvent

def start (c : Blocks B) (fromBlock : Nat) : ArcWatcher where
  lastBlock := if fromBlock = 0 then c.blockNumber else fromBlock
  polling := none
  emitted := []

/-- The first half of a poll, up to its request for events. -/
def checkForEvents (w : ArcWatcher) (currentBlock : Nat) : ArcWatcher :=
  if currentBlock ≤ w.lastBlock then w else { w with polling := some currentBlock }

def emitBurns (w : ArcWatcher) (currentBlock : Nat) (burnEvents : List ArcBurnEvent) :
    ArcWatcher where
  lastBlock := currentBlock
  polling := none
  emitted := w.emitted ++ burnEvents

structure Network (B : Type) where
  arc : Blocks B
  watcher : ArcWatcher
  processor : EventProcessor ArcBurnEvent

/-- Transactions are sent and blocks mined at any time. Either request of a
poll can fail, which ends the poll. -/
inductive Input (B : Type) where
  | transact (transactionHash : String) (input : ArcBridge.Contract.Input B)
  | mine
  | getBlockNumber
  | queryFilter
  | fail
  | settle (k : Nat) (result : Result)

def launch (c : Blocks B) (fromBlock : Nat) : Network B where
  arc := c
  watcher := start c fromBlock
  processor := .fresh

/-- Each burn that is emitted is handed to the processor at once. -/
def step (K : Crypto) (X : Erc20 B) (contract : Account) (s : Network B) :
    Input B → Except Unit (Network B)
  | .transact transactionHash input => do
    let arc ← s.arc.transact K X contract transactionHash input
    pure { s with arc := arc }
  | .mine => .ok { s with arc := s.arc.mine }
  | .getBlockNumber =>
    match s.watcher.polling with
    | none => .ok { s with watcher := checkForEvents s.watcher s.arc.blockNumber }
    | some _ => .error ()
  | .queryFilter =>
    match s.watcher.polling with
    | none => .error ()
    | some currentBlock =>
      let events := s.arc.queryFilter (s.watcher.lastBlock + 1) currentBlock
      let burnEvents := events.filterMap (parseBurnEvent K)
      .ok { s with
        watcher := emitBurns s.watcher currentBlock burnEvents
        processor := burnEvents.foldl (fun p event => processArcBurn p event event) s.processor }
  | .fail => .ok { s with watcher := { s.watcher with polling := none } }
  | .settle k result => do
    let processor ← settle .arc s.processor k result
    pure { s with processor := processor }

end Suban.Relayer.ArcBlocks
