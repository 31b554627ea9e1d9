import Suban.Basis.Tables
import Suban.Soroban.Host

namespace Suban.BridgeBurnMint.Contract

open Suban.Basis.Calls Suban.Basis.Tables Suban.Soroban.Host

variable {Address W : Type} [DecidableEq Address] {contract : Address}

abbrev Symbol := String

abbrev TxHash := Vector UInt8 32

inductive BridgeError where
  | notAdmin
  | notSigner
  | thresholdNotMet
  | invalidAmount
  | alreadyProcessed
  | duplicateSigner
  | signerNotFound
  | cannotRemoveBelowThreshold
  | invalidThreshold
  | volumeCapExceeded
  | mintCapExceeded
  | alreadyPaused
  | notPaused
  deriving DecidableEq

inductive Event (Address : Type) where
  | init (admin : Address) (threshold signerCount : Nat)
  | burn (destination : Symbol) (sender : Address) (nonce : Nat) (amount : Int)
  | mint (sourceChain : Symbol) (sourceNonce : Nat) (recipient : Address) (amount : Int)
  | signerAdd (signer : Address)
  | signerRemove (signer : Address)
  | threshold (threshold : Nat)
  | setCap (cap : Int)
  | mintCap (cap : Int)

/-- The instance storage of the bridge, next to the rest of the chain. A
transaction hash counts as processed when it has an entry. -/
structure Storage (Address W : Type) [DecidableEq Address] where
  admin : Option Address
  pusdToken : Option Address
  signer : Table Address Bool
  signerCount : Option Nat
  threshold : Nat
  nextNonce : Nat
  processedHash : Table TxHash Bool
  chainMinted : Table Symbol Int
  chainBurned : Table Symbol Int
  chainMintCap : Table Symbol Int
  volumeWindowStart : Nat
  volumeInWindow : Int
  volumeCap : Int
  volumeWindowLedgers : Nat
  paused : Bool
  events : List (Event Address)
  world : W

namespace Storage

def fresh (world : W) : Storage Address W where
  admin := none
  pusdToken := none
  signer := ∅
  signerCount := none
  threshold := 1
  nextNonce := 0
  processedHash := ∅
  chainMinted := ∅
  chainBurned := ∅
  chainMintCap := ∅
  volumeWindowStart := 0
  volumeInWindow := 0
  volumeCap := 0
  volumeWindowLedgers := 100
  paused := false
  events := []
  world := world

variable (s : Storage Address W)

def publish (e : Event Address) : Storage Address W := { s with events := s.events ++ [e] }

def readAdmin : Outcome BridgeError Address := unwrap s.admin

def isSigner (a : Address) : Bool := readOr s.signer a false

def isProcessed (txHash : TxHash) : Bool := (s.processedHash.lookup txHash).isSome

def minted (chain : Symbol) : Int := readOr s.chainMinted chain 0

def burned (chain : Symbol) : Int := readOr s.chainBurned chain 0

def mintCap (chain : Symbol) : Int := readOr s.chainMintCap chain 0

end Storage

variable (T : StellarAsset Address W) (env : Env Address contract) (s : Storage Address W)

def initialise (admin : Address) (signers : List Address) (threshold : Nat)
    (pusdToken : Address) (volumeCap : Int) (volumeWindowLedgers : Nat) :
    Outcome BridgeError (Storage Address W) := do
  panicIf s.admin.isSome
  requireAuth env admin
  let signerCount := signers.length
  panicIf (threshold = 0 ∨ signerCount < threshold)
  let s := { s with
    admin := some admin
    pusdToken := some pusdToken
    threshold := threshold
    signerCount := some signerCount
    volumeCap := volumeCap
    volumeWindowLedgers := volumeWindowLedgers
    nextNonce := 0
    paused := false
    signer := signers.foldl (fun t signer => t.insert signer true) s.signer }
  pure (s.publish (.init admin threshold signerCount))

/-- An expired window starts again before the amount is compared with the cap. -/
def meterVolume (amount : Int) : Outcome BridgeError (Storage Address W) := do
  let windowEnd ← checkedUInt 64 (s.volumeWindowStart + s.volumeWindowLedgers)
  let expired := windowEnd ≤ env.sequence
  let volume ← checked ((if expired then 0 else s.volumeInWindow) + amount)
  rejectIf (s.volumeCap < volume) .volumeCapExceeded
  pure { s with
    volumeWindowStart := if expired then env.sequence else s.volumeWindowStart
    volumeInWindow := volume }

def checkVolumeCircuitBreaker (amount : Int) : Outcome BridgeError (Storage Address W) :=
  if s.volumeCap = 0 then pure s else meterVolume env s amount

def burnPusd (sender : Address) (amount : Int) (destination : Symbol) :
    Outcome BridgeError (Nat × Storage Address W) := do
  rejectIf s.paused .alreadyPaused
  rejectIf (amount ≤ 0) .invalidAmount
  requireAuth env sender
  let nonce := s.nextNonce
  let nonceAfter ← checkedUInt 64 (nonce + 1)
  let s := { s with nextNonce := nonceAfter }
  let burned ← checked (s.burned destination + amount)
  let s := { s with chainBurned := s.chainBurned.insert destination burned }
  let token ← unwrap s.pusdToken
  let world ← unwrap (T.transfer s.world token sender contract amount)
  let s := { s with world := world }
  pure (nonce, s.publish (.burn destination sender nonce amount))

/-- Each signer is a member, is not named before, and authorises the call. -/
def verifySigners (seen : List Address) : List Address → Outcome BridgeError Unit
  | [] => pure ()
  | signer :: signers => do
    rejectIf (¬ s.isSigner signer) .notSigner
    rejectIf (signer ∈ seen) .duplicateSigner
    requireAuth env signer
    verifySigners (seen ++ [signer]) signers

def overMintCap (sourceChain : Symbol) (amount : Int) : Outcome BridgeError Unit := do
  let minted ← checked (s.minted sourceChain + amount)
  rejectIf (s.mintCap sourceChain < minted) .mintCapExceeded

/-- A cap of zero or below switches the check off. -/
def checkMintCap (sourceChain : Symbol) (amount : Int) : Outcome BridgeError Unit :=
  if 0 < s.mintCap sourceChain then overMintCap s sourceChain amount else pure ()

def mintPusd (recipient : Address) (amount : Int) (sourceChain : Symbol) (sourceNonce : Nat)
    (sourceTxHash : TxHash) (signers : List Address) :
    Outcome BridgeError (Storage Address W) := do
  rejectIf s.paused .alreadyPaused
  rejectIf (amount ≤ 0) .invalidAmount
  let s ← checkVolumeCircuitBreaker env s amount
  rejectIf (s.isProcessed sourceTxHash) .alreadyProcessed
  rejectIf (signers.length < s.threshold) .thresholdNotMet
  verifySigners env s [] signers
  checkMintCap s sourceChain amount
  let s := { s with processedHash := s.processedHash.insert sourceTxHash true }
  let minted ← checked (s.minted sourceChain + amount)
  let s := { s with chainMinted := s.chainMinted.insert sourceChain minted }
  let token ← unwrap s.pusdToken
  let world ← unwrap (T.mint s.world token recipient amount)
  let s := { s with world := world }
  pure (s.publish (.mint sourceChain sourceNonce recipient amount))

def addSigner (signer : Address) : Outcome BridgeError (Storage Address W) := do
  let admin ← s.readAdmin
  requireAuth env admin
  rejectIf (s.isSigner signer) .duplicateSigner
  let s := { s with signer := s.signer.insert signer true }
  let count ← unwrap s.signerCount
  let countAfter ← checkedUInt 32 (count + 1)
  let s := { s with signerCount := some countAfter }
  pure (s.publish (.signerAdd signer))

def removeSigner (signer : Address) : Outcome BridgeError (Storage Address W) := do
  let admin ← s.readAdmin
  requireAuth env admin
  rejectIf (¬ s.isSigner signer) .signerNotFound
  let count ← unwrap s.signerCount
  panicIf (count = 0)
  rejectIf (count - 1 < s.threshold) .cannotRemoveBelowThreshold
  let s := { s with signer := s.signer.insert signer false, signerCount := some (count - 1) }
  pure (s.publish (.signerRemove signer))

def setThreshold (newThreshold : Nat) : Outcome BridgeError (Storage Address W) := do
  let admin ← s.readAdmin
  requireAuth env admin
  let count ← unwrap s.signerCount
  rejectIf (newThreshold = 0 ∨ count < newThreshold) .invalidThreshold
  let s := { s with threshold := newThreshold }
  pure (s.publish (.threshold newThreshold))

def setVolumeCap (cap : Int) (windowLedgers : Nat) : Outcome BridgeError (Storage Address W) := do
  let admin ← s.readAdmin
  requireAuth env admin
  let s := { s with volumeCap := cap, volumeWindowLedgers := windowLedgers }
  pure (s.publish (.setCap cap))

def setChainMintCap (chain : Symbol) (cap : Int) : Outcome BridgeError (Storage Address W) := do
  let admin ← s.readAdmin
  requireAuth env admin
  let s := { s with chainMintCap := s.chainMintCap.insert chain cap }
  pure (s.publish (.mintCap cap))

def pause : Outcome BridgeError (Storage Address W) := do
  let admin ← s.readAdmin
  requireAuth env admin
  rejectIf s.paused .alreadyPaused
  pure { s with paused := true }

def unpause : Outcome BridgeError (Storage Address W) := do
  let admin ← s.readAdmin
  requireAuth env admin
  rejectIf (¬ s.paused) .notPaused
  pure { s with paused := false }

inductive Call (Address : Type) where
  | burnPusd (sender : Address) (amount : Int) (destination : Symbol)
  | mintPusd (recipient : Address) (amount : Int) (sourceChain : Symbol) (sourceNonce : Nat)
      (sourceTxHash : TxHash) (signers : List Address)
  | addSigner (signer : Address)
  | removeSigner (signer : Address)
  | setThreshold (newThreshold : Nat)
  | setVolumeCap (cap : Int) (windowLedgers : Nat)
  | setChainMintCap (chain : Symbol) (cap : Int)
  | pause
  | unpause

def invoke : Call Address → Outcome BridgeError (Storage Address W)
  | .burnPusd sender amount destination => do
    let (_, s) ← burnPusd T env s sender amount destination
    pure s
  | .mintPusd recipient amount sourceChain sourceNonce sourceTxHash signers =>
    mintPusd T env s recipient amount sourceChain sourceNonce sourceTxHash signers
  | .addSigner signer => addSigner env s signer
  | .removeSigner signer => removeSigner env s signer
  | .setThreshold newThreshold => setThreshold env s newThreshold
  | .setVolumeCap cap windowLedgers => setVolumeCap env s cap windowLedgers
  | .setChainMintCap chain cap => setChainMintCap env s chain cap
  | .pause => pause env s
  | .unpause => unpause env s

def step (s : Storage Address W) : Input Address W contract (Call Address) →
    Outcome BridgeError (Storage Address W)
  | .call env c => invoke T env s c
  | .world w => pure { s with world := w }

end Suban.BridgeBurnMint.Contract
