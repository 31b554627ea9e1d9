import Suban.Basis.Tables
import Suban.Soroban.Host

namespace Suban.BridgeMultisig.Contract

open Suban.Basis.Calls Suban.Basis.Tables Suban.Soroban.Host

variable {Address W : Type} [DecidableEq Address] {contract : Address}

abbrev BytesN (n : Nat) := Vector UInt8 n

inductive ProposalStatus where
  | pending
  | executed
  | rejected
  | expired
  deriving DecidableEq

inductive ProposalKind where
  | mintWpi
  | releaseUsdc
  | addSigner
  | removeSigner
  | setThreshold
  | setVolumeCap
  | pause
  | unpause
  deriving DecidableEq

structure Proposal (Address : Type) where
  id : Nat
  kind : ProposalKind
  proposer : Address
  target : Address
  amount : Int
  depositId : BytesN 32
  approvals : List Address
  status : ProposalStatus
  createdAt : Nat
  executedAt : Option Nat

inductive BridgeError where
  | notAdmin
  | notSigner
  | thresholdNotMet
  | proposalNotFound
  | proposalAlreadyExecuted
  | proposalExpired
  | duplicateApproval
  | duplicateSigner
  | signerNotFound
  | cannotRemoveBelowThreshold
  | cannotRemoveLastSigner
  | invalidThreshold
  | depositAlreadyProcessed
  | volumeCapExceeded
  | invalidAmount
  | alreadyPaused
  | notPaused
  | invalidProposalKind
  deriving DecidableEq

inductive Event (Address : Type) where
  | init (admin : Address) (threshold signerCount : Nat)
  | created (proposalId : Nat) (kind : ProposalKind) (proposer target : Address)
      (amount : Int) (depositId : BytesN 32)
  | vote (proposalId : Nat) (signer : Address) (approvals : Nat)
  | mint (proposalId : Nat) (target : Address) (amount : Int) (depositId : BytesN 32)
  | release (proposalId : Nat) (target : Address) (amount : Int) (depositId : BytesN 32)
  | signerAdded (signer : Address)
  | signerRemoved (signer : Address)
  | threshold (threshold : Nat)
  | volCap (cap : Int) (windowLedgers : Nat)
  | paused
  | unpaused
  | admin (newAdmin : Address)

/-- The instance storage of the bridge, next to the rest of the chain. A nonce
counts as used when it has an entry. -/
structure Storage (Address W : Type) [DecidableEq Address] where
  admin : Option Address
  wpiToken : Option Address
  usdcToken : Option Address
  signer : Table Address Bool
  signerCount : Nat
  threshold : Nat
  proposal : Table Nat (Proposal Address)
  proposalCount : Nat
  nonce : Table Nat Bool
  volumeWindowStart : Nat
  volumeInWindow : Int
  volumeCap : Int
  volumeWindowLedgers : Nat
  paused : Bool
  maxProposalAge : Nat
  events : List (Event Address)
  world : W

/-- The first eight bytes of a deposit id, read big-endian. -/
def depositIdToNonce (depositId : BytesN 32) : Nat :=
  (depositId.toList.take 8).foldl (fun acc byte => 256 * acc + byte.toNat) 0

namespace Storage

def fresh (world : W) : Storage Address W where
  admin := none
  wpiToken := none
  usdcToken := none
  signer := ∅
  signerCount := 0
  threshold := 1
  proposal := ∅
  proposalCount := 0
  nonce := ∅
  volumeWindowStart := 0
  volumeInWindow := 0
  volumeCap := 0
  volumeWindowLedgers := 100
  paused := false
  maxProposalAge := 100
  events := []
  world := world

variable (s : Storage Address W)

def publish (e : Event Address) : Storage Address W := { s with events := s.events ++ [e] }

def readAdmin : Outcome BridgeError Address := unwrap s.admin

def isSigner (a : Address) : Bool := readOr s.signer a false

def getProposal (proposalId : Nat) : Outcome BridgeError (Proposal Address) :=
  okOr (s.proposal.lookup proposalId) .proposalNotFound

def isDepositProcessed (depositId : BytesN 32) : Bool :=
  (s.nonce.lookup (depositIdToNonce depositId)).isSome

end Storage

variable (T : StellarAsset Address W) (env : Env Address contract) (s : Storage Address W)

def initialise (admin : Address) (signers : List Address) (threshold : Nat) (volumeCap : Int)
    (volumeWindowLedgers maxProposalAge : Nat) (wpiToken usdcToken : Address) :
    Outcome BridgeError (Storage Address W) := do
  panicIf s.admin.isSome
  requireAuth env admin
  let signerCount := signers.length
  panicIf (threshold = 0 ∨ signerCount < threshold)
  let s := { s with
    admin := some admin
    wpiToken := some wpiToken
    usdcToken := some usdcToken
    threshold := threshold
    signerCount := signerCount
    proposalCount := 0
    paused := false
    volumeCap := volumeCap
    volumeWindowLedgers := volumeWindowLedgers
    volumeWindowStart := 0
    volumeInWindow := 0
    maxProposalAge := maxProposalAge
    signer := signers.foldl (fun t signer => t.insert signer true) s.signer }
  pure (s.publish (.init admin threshold signerCount))

/-- The volume in the window is compared as it stands: an expired window is
only reset when volume is added. -/
def checkVolume (amount cap : Int) : Outcome BridgeError Unit := do
  let volume ← checked (s.volumeInWindow + amount)
  rejectIf (cap < volume) .volumeCapExceeded

/-- A cap of zero or below switches the check off. -/
def volumeBreaker (amount : Int) : Outcome BridgeError Unit :=
  if 0 < s.volumeCap then checkVolume s amount s.volumeCap else pure ()

def addVolume (amount : Int) : Outcome BridgeError (Storage Address W) := do
  let windowEnd ← checkedUInt 64 (s.volumeWindowStart + s.volumeWindowLedgers)
  let expired := windowEnd ≤ env.sequence
  let volume ← checked ((if expired then 0 else s.volumeInWindow) + amount)
  pure { s with
    volumeWindowStart := if expired then env.sequence else s.volumeWindowStart
    volumeInWindow := volume }

def propose (proposer : Address) (kind : ProposalKind) (target : Address) (amount : Int)
    (depositId : BytesN 32) : Outcome BridgeError (Nat × Storage Address W) := do
  requireAuth env proposer
  rejectIf s.paused .alreadyPaused
  rejectIf (¬ s.isSigner proposer) .notSigner
  rejectIf (amount ≤ 0) .invalidAmount
  rejectIf (kind ≠ .mintWpi ∧ kind ≠ .releaseUsdc) .invalidProposalKind
  rejectIf (s.isDepositProcessed depositId) .depositAlreadyProcessed
  volumeBreaker s amount
  let proposalId := s.proposalCount
  let count ← checkedUInt 32 (proposalId + 1)
  let s := { s with
    proposal := s.proposal.insert proposalId
      { id := proposalId
        kind := kind
        proposer := proposer
        target := target
        amount := amount
        depositId := depositId
        approvals := [proposer]
        status := .pending
        createdAt := env.sequence
        executedAt := none }
    proposalCount := count }
  pure (proposalId, s.publish (.created proposalId kind proposer target amount depositId))

/-- A quorum marks the nonce of its deposit as used, without looking whether it
already is. -/
def executeProposal (p : Proposal Address) :
    Outcome BridgeError (ProposalStatus × Storage Address W) := do
  match p.kind with
  | .mintWpi =>
    let s := { s with nonce := s.nonce.insert (depositIdToNonce p.depositId) true }
    let s ← addVolume env s p.amount
    let wpi ← unwrap s.wpiToken
    let world ← unwrap (T.mint s.world wpi p.target p.amount)
    let s := { s with world := world }
    pure (.executed, s.publish (.mint p.id p.target p.amount p.depositId))
  | .releaseUsdc =>
    let s := { s with nonce := s.nonce.insert (depositIdToNonce p.depositId) true }
    let s ← addVolume env s p.amount
    let usdc ← unwrap s.usdcToken
    let world ← unwrap (T.transfer s.world usdc contract p.target p.amount)
    let s := { s with world := world }
    pure (.executed, s.publish (.release p.id p.target p.amount p.depositId))
  | _ => pure (.executed, s)

/-- A proposal found to be too old is also written back as expired, but the
host discards that write together with the failing call. -/
def approve (signer : Address) (proposalId : Nat) :
    Outcome BridgeError (ProposalStatus × Storage Address W) := do
  requireAuth env signer
  rejectIf (¬ s.isSigner signer) .notSigner
  let p ← s.getProposal proposalId
  rejectIf (p.status ≠ .pending) .proposalAlreadyExecuted
  let deadline ← checkedUInt 64 (p.createdAt + s.maxProposalAge)
  rejectIf (deadline < env.sequence) .proposalExpired
  rejectIf (signer ∈ p.approvals) .duplicateApproval
  let p := { p with approvals := p.approvals ++ [signer] }
  let s := s.publish (.vote proposalId signer p.approvals.length)
  if s.threshold ≤ p.approvals.length then
    let (status, s) ← executeProposal T env s p
    let p := { p with status := status, executedAt := some env.sequence }
    pure (status, { s with proposal := s.proposal.insert proposalId p })
  else
    pure (.pending, { s with proposal := s.proposal.insert proposalId p })

def addSigner (admin newSigner : Address) : Outcome BridgeError (Storage Address W) := do
  let current ← s.readAdmin
  rejectIf (admin ≠ current) .notAdmin
  requireAuth env admin
  rejectIf (s.isSigner newSigner) .duplicateSigner
  let count ← checkedUInt 32 (s.signerCount + 1)
  let s := { s with signer := s.signer.insert newSigner true, signerCount := count }
  pure (s.publish (.signerAdded newSigner))

def removeSigner (admin signer : Address) : Outcome BridgeError (Storage Address W) := do
  let current ← s.readAdmin
  rejectIf (admin ≠ current) .notAdmin
  requireAuth env admin
  rejectIf (¬ s.isSigner signer) .signerNotFound
  rejectIf (s.signerCount ≤ 1) .cannotRemoveLastSigner
  rejectIf (s.signerCount - 1 < s.threshold) .cannotRemoveBelowThreshold
  let s := { s with signer := s.signer.insert signer false, signerCount := s.signerCount - 1 }
  pure (s.publish (.signerRemoved signer))

def setThreshold (admin : Address) (newThreshold : Nat) :
    Outcome BridgeError (Storage Address W) := do
  let current ← s.readAdmin
  rejectIf (admin ≠ current) .notAdmin
  requireAuth env admin
  rejectIf (newThreshold = 0 ∨ s.signerCount < newThreshold) .invalidThreshold
  let s := { s with threshold := newThreshold }
  pure (s.publish (.threshold newThreshold))

def setVolumeCap (admin : Address) (cap : Int) (windowLedgers : Nat) :
    Outcome BridgeError (Storage Address W) := do
  let current ← s.readAdmin
  rejectIf (admin ≠ current) .notAdmin
  requireAuth env admin
  let s := { s with volumeCap := cap, volumeWindowLedgers := windowLedgers }
  pure (s.publish (.volCap cap windowLedgers))

def pause (admin : Address) : Outcome BridgeError (Storage Address W) := do
  let current ← s.readAdmin
  rejectIf (admin ≠ current) .notAdmin
  requireAuth env admin
  pure ({ s with paused := true }.publish .paused)

def unpause (admin : Address) : Outcome BridgeError (Storage Address W) := do
  let current ← s.readAdmin
  rejectIf (admin ≠ current) .notAdmin
  requireAuth env admin
  pure ({ s with paused := false }.publish .unpaused)

def setAdmin (admin newAdmin : Address) : Outcome BridgeError (Storage Address W) := do
  let current ← s.readAdmin
  rejectIf (admin ≠ current) .notAdmin
  requireAuth env admin
  pure ({ s with admin := some newAdmin }.publish (.admin newAdmin))

def setMaxProposalAge (admin : Address) (maxAge : Nat) :
    Outcome BridgeError (Storage Address W) := do
  let current ← s.readAdmin
  rejectIf (admin ≠ current) .notAdmin
  requireAuth env admin
  pure { s with maxProposalAge := maxAge }

inductive Call (Address : Type) where
  | propose (proposer : Address) (kind : ProposalKind) (target : Address) (amount : Int)
      (depositId : BytesN 32)
  | approve (signer : Address) (proposalId : Nat)
  | addSigner (admin newSigner : Address)
  | removeSigner (admin signer : Address)
  | setThreshold (admin : Address) (newThreshold : Nat)
  | setVolumeCap (admin : Address) (cap : Int) (windowLedgers : Nat)
  | pause (admin : Address)
  | unpause (admin : Address)
  | setAdmin (admin newAdmin : Address)
  | setMaxProposalAge (admin : Address) (maxAge : Nat)

def invoke : Call Address → Outcome BridgeError (Storage Address W)
  | .propose proposer kind target amount depositId => do
    let (_, s) ← propose env s proposer kind target amount depositId
    pure s
  | .approve signer proposalId => do
    let (_, s) ← approve T env s signer proposalId
    pure s
  | .addSigner admin newSigner => addSigner env s admin newSigner
  | .removeSigner admin signer => removeSigner env s admin signer
  | .setThreshold admin newThreshold => setThreshold env s admin newThreshold
  | .setVolumeCap admin cap windowLedgers => setVolumeCap env s admin cap windowLedgers
  | .pause admin => pause env s admin
  | .unpause admin => unpause env s admin
  | .setAdmin admin newAdmin => setAdmin env s admin newAdmin
  | .setMaxProposalAge admin maxAge => setMaxProposalAge env s admin maxAge

def step (s : Storage Address W) : Input Address W contract (Call Address) →
    Outcome BridgeError (Storage Address W)
  | .call env c => invoke T env s c
  | .world w => pure { s with world := w }

end Suban.BridgeMultisig.Contract
