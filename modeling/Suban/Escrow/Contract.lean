import Suban.Basis.Tables
import Suban.Hub.Types
import Suban.Soroban.Host

namespace Suban.Escrow.Contract

open Suban.Basis.Calls Suban.Basis.Tables Suban.Soroban.Host Suban.Hub.Types

inductive Event (Address : Type) where
  | escCrt (escrowId : Nat) (funder receiver : Address)
  | escFnd (escrowId : Nat) (amount : Int)
  | escSub (escrowId milestoneIdx : Nat) (receiver : Address)
  | escApr (escrowId milestoneIdx : Nat) (approver : Address)
  | escRjt (escrowId milestoneIdx : Nat) (approver : Address)
  | escRel (escrowId : Nat) (amount : Int) (receiver : Address)
  | escRef (escrowId : Nat) (amount : Int) (funder : Address)
  | escDsp (escrowId : Nat) (disputer : Address)
  | escRes (escrowId : Nat) (arbitrator : Address) (outcome : String)

structure Storage (Address W : Type) where
  admin : Option Address
  paused : Bool
  escrowState : Table Nat (EscrowState Address)
  escrowConfig : Table Nat (EscrowConfig Address)
  escrowCount : Nat
  events : List (Event Address)
  world : W

variable {Address W : Type} [DecidableEq Address] {contract : Address}

namespace Storage

def fresh (world : W) : Storage Address W := ⟨none, false, ∅, ∅, 0, [], world⟩

variable (s : Storage Address W)

def publish (e : Event Address) : Storage Address W := { s with events := s.events ++ [e] }

def readAdmin : Outcome HubError Address := unwrap s.admin

def nextEscrowId : Outcome HubError (Nat × Storage Address W) := do
  let count ← checkedUInt 32 (s.escrowCount + 1)
  pure (s.escrowCount, { s with escrowCount := count })

def readEscrowState (escrowId : Nat) : Outcome HubError (EscrowState Address) :=
  okOr (s.escrowState.lookup escrowId) .escrowNotFound

def writeEscrowState (escrowId : Nat) (state : EscrowState Address) : Storage Address W :=
  { s with escrowState := s.escrowState.insert escrowId state }

def readEscrowConfig (escrowId : Nat) : Outcome HubError (EscrowConfig Address) :=
  okOr (s.escrowConfig.lookup escrowId) .escrowNotFound

def writeEscrowConfig (escrowId : Nat) (config : EscrowConfig Address) : Storage Address W :=
  { s with escrowConfig := s.escrowConfig.insert escrowId config }

end Storage

variable (T : Sep41 Address W) (env : Env Address contract) (s : Storage Address W)

def initialise (admin : Address) : Outcome HubError (Storage Address W) := do
  panicIf s.admin.isSome
  requireAuth env admin
  pure { s with admin := some admin, paused := false, escrowCount := 0 }

def createEscrow (funder receiver arbitrator asset : Address)
    (milestones : List (Milestone Address)) (feeBps deadlineLedger : Nat) :
    Outcome HubError (Nat × Storage Address W) := do
  rejectIf s.paused .paused
  rejectIf (10000 < feeBps) .feeBpsExceedsMaximum
  rejectIf milestones.isEmpty .invalidArgument
  rejectIf (deadlineLedger ≤ env.sequence) .deadlineAlreadyPassed
  requireAuth env funder
  let (escrowId, s) ← s.nextEscrowId
  let config := ⟨funder, receiver, arbitrator, asset, milestones, feeBps, deadlineLedger⟩
  let state :=
    { escrowId := escrowId
      config := config
      totalDeposited := 0
      totalReleased := 0
      milestonesCompleted := 0
      milestoneStatuses := List.replicate milestones.length .pending
      status := .active }
  let s := (s.writeEscrowConfig escrowId config).writeEscrowState escrowId state
  pure (escrowId, s.publish (.escCrt escrowId funder receiver))

def transfer (token src dst : Address) (amount : Int) :
    Outcome HubError (Storage Address W) := do
  let world ← unwrap (T.transfer s.world token src dst amount)
  pure { s with world := world }

def fundEscrow (escrowId : Nat) (amount : Int) : Outcome HubError (Storage Address W) := do
  rejectIf s.paused .paused
  rejectIf (amount ≤ 0) .invalidArgument
  let state ← s.readEscrowState escrowId
  rejectIf (state.status ≠ .active) .invalidEscrowStatus
  requireAuth env state.config.funder
  let deposited ← checked (state.totalDeposited + amount)
  let s := s.writeEscrowState escrowId { state with totalDeposited := deposited }
  let s ← transfer T s state.config.asset state.config.funder contract amount
  pure (s.publish (.escFnd escrowId amount))

def readActive (escrowId : Nat) : Outcome HubError (EscrowState Address) := do
  rejectIf s.paused .paused
  let state ← s.readEscrowState escrowId
  rejectIf (state.status ≠ .active) .invalidEscrowStatus
  pure state

def submitMilestone (escrowId milestoneIdx : Nat) : Outcome HubError (Storage Address W) := do
  let state ← readActive s escrowId
  rejectIf (state.config.milestones.length ≤ milestoneIdx) .invalidArgument
  requireAuth env state.config.receiver
  let cur ← okOr state.milestoneStatuses[milestoneIdx]? .invalidArgument
  rejectIf (cur ≠ .pending) .milestoneAlreadySubmitted
  let state := { state with
    milestoneStatuses := state.milestoneStatuses.set milestoneIdx .submitted }
  pure ((s.writeEscrowState escrowId state).publish
    (.escSub escrowId milestoneIdx state.config.receiver))

/-- A submitted milestone, before its approver has decided on it. -/
def readSubmitted (escrowId milestoneIdx : Nat) :
    Outcome HubError (EscrowState Address × Milestone Address) := do
  let state ← readActive s escrowId
  rejectIf (state.config.milestones.length ≤ milestoneIdx) .invalidArgument
  let milestone ← okOr state.config.milestones[milestoneIdx]? .invalidArgument
  requireAuth env milestone.approver
  let cur ← okOr state.milestoneStatuses[milestoneIdx]? .invalidArgument
  rejectIf (cur ≠ .submitted) .milestoneNotApprovable
  pure (state, milestone)

def approveMilestone (escrowId milestoneIdx : Nat) : Outcome HubError (Storage Address W) := do
  let (state, milestone) ← readSubmitted env s escrowId milestoneIdx
  let completed ← checkedUInt 32 (state.milestonesCompleted + 1)
  let state := { state with
    milestoneStatuses := state.milestoneStatuses.set milestoneIdx .approved
    milestonesCompleted := completed }
  pure ((s.writeEscrowState escrowId state).publish
    (.escApr escrowId milestoneIdx milestone.approver))

def rejectMilestone (escrowId milestoneIdx : Nat) : Outcome HubError (Storage Address W) := do
  let (state, milestone) ← readSubmitted env s escrowId milestoneIdx
  let state := { state with
    milestoneStatuses := state.milestoneStatuses.set milestoneIdx .rejected }
  pure ((s.writeEscrowState escrowId state).publish
    (.escRjt escrowId milestoneIdx milestone.approver))

def addApproved (state : EscrowState Address) (releaseAmount : Int) (i : Nat) :
    Outcome HubError Int := do
  let status ← okOr state.milestoneStatuses[i]? .invalidArgument
  if status = .approved then
    let m ← okOr state.config.milestones[i]? .invalidArgument
    checked (releaseAmount + m.amount)
  else pure releaseAmount

/-- Whoever calls, the receiver is paid. -/
def releaseFunds (contract : Address) (escrowId : Nat) :
    Outcome HubError (Storage Address W) := do
  let state ← readActive s escrowId
  let approved ← (List.range state.config.milestones.length).foldlM (addApproved state) 0
  let releaseAmount ← checked (approved - state.totalReleased)
  rejectIf (releaseAmount ≤ 0) .insufficientEscrowBalance
  let available ← checked (state.totalDeposited - state.totalReleased)
  rejectIf (available < releaseAmount) .insufficientEscrowBalance
  let released ← checked (state.totalReleased + releaseAmount)
  let state := { state with
    totalReleased := released
    status :=
      if state.milestonesCompleted = state.config.milestones.length then .completed
      else state.status }
  let s := s.writeEscrowState escrowId state
  let s ← transfer T s state.config.asset contract state.config.receiver releaseAmount
  pure (s.publish (.escRel escrowId releaseAmount state.config.receiver))

def refund (escrowId : Nat) : Outcome HubError (Storage Address W) := do
  let state ← readActive s escrowId
  requireAuth env state.config.funder
  let remaining ← checked (state.totalDeposited - state.totalReleased)
  rejectIf (remaining ≤ 0) .insufficientEscrowBalance
  let allRejected := state.milestoneStatuses.all (· = .rejected)
  let deadlinePassed := decide (state.config.deadlineLedger ≤ env.sequence)
  rejectIf (!allRejected && !deadlinePassed) .deadlineNotReached
  let released ← checked (state.totalReleased + remaining)
  let s := s.writeEscrowState escrowId
    { state with totalReleased := released, status := .refunded }
  let s ← transfer T s state.config.asset contract state.config.funder remaining
  pure (s.publish (.escRef escrowId remaining state.config.funder))

def dispute (escrowId : Nat) (disputer : Address) : Outcome HubError (Storage Address W) := do
  let state ← readActive s escrowId
  rejectIf (disputer ≠ state.config.funder ∧ disputer ≠ state.config.receiver) .unauthorized
  requireAuth env disputer
  let s := s.writeEscrowState escrowId { state with status := .disputed }
  pure (s.publish (.escDsp escrowId disputer))

def settlement (config : EscrowConfig Address) (outcome : String) :
    Outcome HubError (Address × EscrowStatus) :=
  if outcome = "release" then pure (config.receiver, .completed)
  else if outcome = "refund" then pure (config.funder, .refunded)
  else .error (.error .invalidArgument)

def resolve (escrowId : Nat) (outcome : String) : Outcome HubError (Storage Address W) := do
  rejectIf s.paused .paused
  let state ← s.readEscrowState escrowId
  rejectIf (state.status ≠ .disputed) .invalidEscrowStatus
  requireAuth env state.config.arbitrator
  let remaining ← checked (state.totalDeposited - state.totalReleased)
  rejectIf (remaining ≤ 0) .insufficientEscrowBalance
  let (recipient, status) ← settlement state.config outcome
  let released ← checked (state.totalReleased + remaining)
  let s := s.writeEscrowState escrowId
    { state with totalReleased := released, status := status }
  let s ← transfer T s state.config.asset contract recipient remaining
  pure (s.publish (.escRes escrowId state.config.arbitrator outcome))

def requireAdmin (admin : Address) : Outcome HubError Unit := do
  let currentAdmin ← s.readAdmin
  rejectIf (admin ≠ currentAdmin) .unauthorized
  requireAuth env admin

def setPaused (admin : Address) (paused : Bool) : Outcome HubError (Storage Address W) := do
  requireAdmin env s admin
  pure { s with paused := paused }

def setAdmin (admin newAdmin : Address) : Outcome HubError (Storage Address W) := do
  requireAdmin env s admin
  pure { s with admin := some newAdmin }

def getEscrow (escrowId : Nat) : Outcome HubError (EscrowState Address) :=
  s.readEscrowState escrowId

def getConfig (escrowId : Nat) : Outcome HubError (EscrowConfig Address) :=
  s.readEscrowConfig escrowId

def remainingBalance (escrowId : Nat) : Outcome HubError Int := do
  let state ← s.readEscrowState escrowId
  checked (state.totalDeposited - state.totalReleased)

inductive Call (Address : Type) where
  | createEscrow (funder receiver arbitrator asset : Address)
      (milestones : List (Milestone Address)) (feeBps deadlineLedger : Nat)
  | fundEscrow (escrowId : Nat) (amount : Int)
  | submitMilestone (escrowId milestoneIdx : Nat)
  | approveMilestone (escrowId milestoneIdx : Nat)
  | rejectMilestone (escrowId milestoneIdx : Nat)
  | releaseFunds (escrowId : Nat)
  | refund (escrowId : Nat)
  | dispute (escrowId : Nat) (disputer : Address)
  | resolve (escrowId : Nat) (outcome : String)
  | setPaused (admin : Address) (paused : Bool)
  | setAdmin (admin newAdmin : Address)

def invoke : Call Address → Outcome HubError (Storage Address W)
  | .createEscrow funder receiver arbitrator asset milestones feeBps deadlineLedger => do
    let (_, s) ← createEscrow env s funder receiver arbitrator asset milestones feeBps
      deadlineLedger
    pure s
  | .fundEscrow escrowId amount => fundEscrow T env s escrowId amount
  | .submitMilestone escrowId milestoneIdx => submitMilestone env s escrowId milestoneIdx
  | .approveMilestone escrowId milestoneIdx => approveMilestone env s escrowId milestoneIdx
  | .rejectMilestone escrowId milestoneIdx => rejectMilestone env s escrowId milestoneIdx
  | .releaseFunds escrowId => releaseFunds T s contract escrowId
  | .refund escrowId => refund T env s escrowId
  | .dispute escrowId disputer => dispute env s escrowId disputer
  | .resolve escrowId outcome => resolve T env s escrowId outcome
  | .setPaused admin paused => setPaused env s admin paused
  | .setAdmin admin newAdmin => setAdmin env s admin newAdmin

def step (s : Storage Address W) : Input Address W contract (Call Address) →
    Outcome HubError (Storage Address W)
  | .call env c => invoke T env s c
  | .world w => pure { s with world := w }

end Suban.Escrow.Contract
