import Suban.ArcBridge.PusdToken

namespace Suban.ArcBridge.Contract

open Suban.Basis.Calls Suban.Basis.Tables Suban.Evm.Host Suban.ArcBridge.PusdToken

inductive Role where
  | defaultAdmin
  | relayer
  deriving DecidableEq

structure ChainState where
  totalMinted : Word
  totalBurned : Word
  mintCap : Word

inductive Event where
  | pusdMinted (sourceChain : Bytes) (recipient : Account) (amount nonce sourceTxHash : Word)
  | pusdBurned (destChain : Bytes) (sender : Account) (amount nonce : Word)
  | validatorAdded (validator : Account)
  | validatorRemoved (validator : Account)
  | thresholdUpdated (oldThreshold newThreshold : Word)
  | volumeCapUpdated (oldCap newCap : Word)

/-- The storage of the bridge, next to that of the token it mints. Mappings
without an entry read as zero. -/
structure Bridge (B : Type) where
  roles : Roles Role
  paused : Bool
  pusd : Token B
  validators : List Account
  isValidator : Table Account Bool
  threshold : Word
  nonces : Table (Bytes × Account) Word
  processedHashes : Table Word Bool
  chainStates : Table Bytes ChainState
  volumeCap : Word
  volumeWindow : Word
  windowStart : Word
  windowVolume : Word
  logs : List Event

namespace Bridge

variable {B : Type} (s : Bridge B)

def log (e : Event) : Bridge B := { s with logs := s.logs ++ [e] }

def validator (a : Account) : Bool := readOr s.isValidator a false

def chainState (chain : Bytes) : ChainState := readOr s.chainStates chain ⟨0, 0, 0⟩

def nonce (chain : Bytes) (user : Account) : Word := readOr s.nonces (chain, user) 0

def processed (bridgeHash : Word) : Bool := readOr s.processedHashes bridgeHash false

end Bridge

variable {B : Type} (K : Crypto) (X : Erc20 B) (contract : Account) (msg : Msg) (s : Bridge B)

/-- One round of the constructor's loop over the validators it is given. -/
def register (s : Bridge B) (validator : Account) : Outcome Revert (Bridge B) := do
  require (validator ≠ 0) "Bridge: zero validator"
  let s := { s with isValidator := s.isValidator.insert validator true }
  pure (s.log (.validatorAdded validator))

def construct (pusdAddress : Account) (pusd : Token B) (validators : List Account)
    (threshold volumeCap volumeWindow : Word) : Outcome Revert (Bridge B) := do
  require (pusdAddress ≠ 0) "Bridge: zero PUSD address"
  require (2 ≤ validators.length) "Bridge: need >= 2 validators"
  require (0 < threshold ∧ threshold.toNat ≤ validators.length) "Bridge: invalid threshold"
  validators.foldlM register
    { roles := grantRole (grantRole ∅ .defaultAdmin msg.sender) .relayer msg.sender
      paused := false
      pusd := pusd
      validators := validators
      isValidator := ∅
      threshold := threshold
      nonces := ∅
      processedHashes := ∅
      chainStates := ∅
      volumeCap := volumeCap
      volumeWindow := volumeWindow
      windowStart := msg.timestamp
      windowVolume := 0
      logs := [] }

/-- The packed encoding of what a burn on the source chain asks to be minted. -/
def bridgeMessage (sourceChain : Bytes) (sourceTxHash sourceNonce amount : Word)
    (recipient : Account) : Bytes :=
  sourceChain ++ bigEndian 32 sourceTxHash.toNat ++ bigEndian 32 sourceNonce.toNat ++
    bigEndian 32 amount.toNat ++ bigEndian 20 recipient.toNat

def messagePrefix : Bytes :=
  0x19 :: "Ethereum Signed Message:\n32".toList.map (fun c => UInt8.ofNat c.toNat)

def signedDigest (bridgeHash : Word) : Word :=
  K.keccak256 (messagePrefix ++ bigEndian 32 bridgeHash.toNat)

/-- Each signature has to recover to a current validator. No signature is
compared with the others. -/
def verifySignatures (digest : Word) : List Bytes → Outcome Revert Unit
  | [] => pure ()
  | signature :: signatures => do
    let signer ← okOr (K.recover digest signature) .invalidSignature
    require (s.validator signer = true) "Bridge: invalid signer"
    verifySignatures digest signatures

def rollWindow : Outcome Revert (Bridge B) := do
  let windowEnd ← checkedAdd s.windowStart s.volumeWindow
  pure (if windowEnd ≤ msg.timestamp then
    { s with windowStart := msg.timestamp, windowVolume := 0 } else s)

def checkWindow (amount : Word) : Outcome Revert (Bridge B) := do
  let s ← rollWindow msg s
  let volume ← checkedAdd s.windowVolume amount
  require (volume ≤ s.volumeCap) "Bridge: circuit breaker triggered"
  pure s

def checkCircuitBreaker (amount : Word) : Outcome Revert (Bridge B) :=
  if s.volumeCap = 0 then pure s else checkWindow msg s amount

def mintPusd (recipient : Account) (amount : Word) (sourceChain : Bytes)
    (sourceTxHash sourceNonce : Word) (signatures : List Bytes) :
    Outcome Revert (Bridge B) := do
  onlyRole s.roles .relayer msg.sender
  whenNotPaused s.paused
  require (recipient ≠ 0) "Bridge: zero recipient"
  require (0 < amount) "Bridge: zero amount"
  let bridgeHash :=
    K.keccak256 (bridgeMessage sourceChain sourceTxHash sourceNonce amount recipient)
  require (s.processed bridgeHash = false) "Bridge: already processed"
  require (s.threshold.toNat ≤ signatures.length) "Bridge: insufficient signatures"
  verifySignatures K s (signedDigest K bridgeHash) signatures
  let s ← checkCircuitBreaker msg s amount
  let s := { s with processedHashes := s.processedHashes.insert bridgeHash true }
  let state := s.chainState sourceChain
  let totalMinted ← checkedAdd state.totalMinted amount
  let s := { s with
    chainStates := s.chainStates.insert sourceChain { state with totalMinted := totalMinted } }
  let s ← rollWindow msg s
  let windowVolume ← checkedAdd s.windowVolume amount
  let s := { s with windowVolume := windowVolume }
  let pusd ← mint X ⟨contract, msg.timestamp⟩ s.pusd recipient amount
  let s := { s with pusd := pusd }
  pure (s.log (.pusdMinted sourceChain recipient amount sourceNonce sourceTxHash))

def burnPusd (destChain : Bytes) (amount : Word) : Outcome Revert (Bridge B) := do
  whenNotPaused s.paused
  require (0 < amount) "Bridge: zero amount"
  require (0 < destChain.length) "Bridge: empty dest chain"
  let nonce := s.nonce destChain msg.sender
  let pusd ← burn X ⟨contract, msg.timestamp⟩ s.pusd msg.sender amount
  let s := { s with pusd := pusd }
  let state := s.chainState destChain
  let totalBurned ← checkedAdd state.totalBurned amount
  let s := { s with
    chainStates := s.chainStates.insert destChain { state with totalBurned := totalBurned } }
  let nonceAfter ← checkedAdd nonce 1
  let s := { s with nonces := s.nonces.insert (destChain, msg.sender) nonceAfter }
  pure (s.log (.pusdBurned destChain msg.sender amount nonce))

def addValidator (validator : Account) : Outcome Revert (Bridge B) := do
  onlyRole s.roles .defaultAdmin msg.sender
  require (validator ≠ 0) "Bridge: zero address"
  require (s.validator validator = false) "Bridge: already validator"
  let s := { s with
    isValidator := s.isValidator.insert validator true
    validators := s.validators ++ [validator] }
  pure (s.log (.validatorAdded validator))

/-- The last entry takes the place of the first occurrence. -/
def swapRemove (validators : List Account) (validator : Account) : List Account :=
  match validators.idxOf? validator with
  | some i => (validators.set i (validators.getLastD validator)).dropLast
  | none => validators

def removeValidator (validator : Account) : Outcome Revert (Bridge B) := do
  onlyRole s.roles .defaultAdmin msg.sender
  require (s.validator validator = true) "Bridge: not a validator"
  panicIf (s.validators.length = 0)
  require (s.threshold.toNat ≤ s.validators.length - 1) "Bridge: would break threshold"
  let s := { s with
    isValidator := s.isValidator.insert validator false
    validators := swapRemove s.validators validator }
  pure (s.log (.validatorRemoved validator))

def setThreshold (threshold : Word) : Outcome Revert (Bridge B) := do
  onlyRole s.roles .defaultAdmin msg.sender
  require (0 < threshold ∧ threshold.toNat ≤ s.validators.length) "Bridge: invalid threshold"
  let old := s.threshold
  pure ({ s with threshold := threshold }.log (.thresholdUpdated old threshold))

def setVolumeCap (cap window : Word) : Outcome Revert (Bridge B) := do
  onlyRole s.roles .defaultAdmin msg.sender
  let oldCap := s.volumeCap
  pure ({ s with volumeCap := cap, volumeWindow := window }.log (.volumeCapUpdated oldCap cap))

def setChainMintCap (chain : Bytes) (cap : Word) : Outcome Revert (Bridge B) := do
  onlyRole s.roles .defaultAdmin msg.sender
  pure { s with
    chainStates := s.chainStates.insert chain { s.chainState chain with mintCap := cap } }

def pause : Outcome Revert (Bridge B) := do
  onlyRole s.roles .defaultAdmin msg.sender
  whenNotPaused s.paused
  pure { s with paused := true }

def unpause : Outcome Revert (Bridge B) := do
  onlyRole s.roles .defaultAdmin msg.sender
  whenPaused s.paused
  pure { s with paused := false }

inductive Call where
  | mintPusd (recipient : Account) (amount : Word) (sourceChain : Bytes)
      (sourceTxHash sourceNonce : Word) (signatures : List Bytes)
  | burnPusd (destChain : Bytes) (amount : Word)
  | addValidator (validator : Account)
  | removeValidator (validator : Account)
  | setThreshold (threshold : Word)
  | setVolumeCap (cap window : Word)
  | setChainMintCap (chain : Bytes) (cap : Word)
  | pause
  | unpause

def invoke : Call → Outcome Revert (Bridge B)
  | .mintPusd recipient amount sourceChain sourceTxHash sourceNonce signatures =>
    mintPusd K X contract msg s recipient amount sourceChain sourceTxHash sourceNonce signatures
  | .burnPusd destChain amount => burnPusd X contract msg s destChain amount
  | .addValidator validator => addValidator msg s validator
  | .removeValidator validator => removeValidator msg s validator
  | .setThreshold threshold => setThreshold msg s threshold
  | .setVolumeCap cap window => setVolumeCap msg s cap window
  | .setChainMintCap chain cap => setChainMintCap msg s chain cap
  | .pause => pause msg s
  | .unpause => unpause msg s

/-- Between the calls of the bridge its roles are granted and revoked, and the
token has calls of its own. -/
inductive Input (B : Type) where
  | call (msg : Msg) (c : Call)
  | elsewhere (roles : Roles Role) (pusd : Token B)

def step (s : Bridge B) : Input B → Outcome Revert (Bridge B)
  | .call msg c => invoke K X contract msg s c
  | .elsewhere roles pusd => pure { s with roles := roles, pusd := pusd }

end Suban.ArcBridge.Contract
