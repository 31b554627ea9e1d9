import Suban.ArcBridge.Contract

namespace Suban.ArcBridge.Transitions

open Suban.Basis.Calls Suban.Basis.Tables Suban.Evm.Host
open Suban.ArcBridge.PusdToken Suban.ArcBridge.Contract

variable {B : Type} {K : Crypto} {X : Erc20 B} {contract : Account} {msg : Msg}
variable {s t : Bridge B}

def IsAdmin (msg : Msg) (s : Bridge B) : Prop := hasRole s.roles .defaultAdmin msg.sender = true

def mintHash (K : Crypto) (sourceChain : Bytes) (sourceTxHash sourceNonce amount : Word)
    (recipient : Account) : Word :=
  K.keccak256 (bridgeMessage sourceChain sourceTxHash sourceNonce amount recipient)

def WindowOver (msg : Msg) (s : Bridge B) : Prop := s.windowStart + s.volumeWindow ≤ msg.timestamp

instance (msg : Msg) (s : Bridge B) : Decidable (WindowOver msg s) :=
  inferInstanceAs (Decidable (_ ≤ _))

/-- The state with the window that a call at this time falls into. -/
def rolled (msg : Msg) (s : Bridge B) : Bridge B :=
  { s with
    windowStart := if WindowOver msg s then msg.timestamp else s.windowStart
    windowVolume := if WindowOver msg s then 0 else s.windowVolume }

inductive Transition (K : Crypto) (X : Erc20 B) (contract : Account) (msg : Msg) (s : Bridge B) :
    Call → Bridge B → Prop where
  | mint (recipient : Account) (amount : Word) (chain : Bytes) (txHash nonce : Word)
      (signatures : List Bytes) (pusd : Token B)
      (hrole : hasRole s.roles .relayer msg.sender = true) (hp : s.paused = false)
      (hpos : 0 < amount)
      (hnew : s.processed (mintHash K chain txHash nonce amount recipient) = false)
      (hquorum : s.threshold.toNat ≤ signatures.length)
      (hverify : verifySignatures K s
        (signedDigest K (mintHash K chain txHash nonce amount recipient)) signatures = .ok ())
      (hcap : s.volumeCap ≠ 0 → (rolled msg s).windowVolume + amount ≤ s.volumeCap)
      (htotal : (s.chainState chain).totalMinted.toNat + amount.toNat < 2 ^ 256)
      (hvolume : (rolled msg s).windowVolume.toNat + amount.toNat < 2 ^ 256)
      (hmint : PusdToken.mint X ⟨contract, msg.timestamp⟩ s.pusd recipient amount = .ok pusd) :
      Transition K X contract msg s (.mintPusd recipient amount chain txHash nonce signatures)
        ({ rolled msg s with
          processedHashes := s.processedHashes.insert
            (mintHash K chain txHash nonce amount recipient) true
          chainStates := s.chainStates.insert chain { s.chainState chain with
            totalMinted := (s.chainState chain).totalMinted + amount }
          windowVolume := (rolled msg s).windowVolume + amount
          pusd := pusd }.log (.pusdMinted chain recipient amount nonce txHash))
  | burn (chain : Bytes) (amount : Word) (pusd : Token B) (hp : s.paused = false)
      (hpos : 0 < amount) (htotal : (s.chainState chain).totalBurned.toNat + amount.toNat < 2 ^ 256)
      (hburn : PusdToken.burn X ⟨contract, msg.timestamp⟩ s.pusd msg.sender amount = .ok pusd) :
      Transition K X contract msg s (.burnPusd chain amount) ({ s with
        pusd := pusd
        chainStates := s.chainStates.insert chain { s.chainState chain with
          totalBurned := (s.chainState chain).totalBurned + amount }
        nonces := s.nonces.insert (chain, msg.sender) (s.nonce chain msg.sender + 1) }.log
          (.pusdBurned chain msg.sender amount (s.nonce chain msg.sender)))
  | addValidator (a : Account) (ha : IsAdmin msg s) (hzero : a ≠ 0)
      (hnew : s.validator a = false) :
      Transition K X contract msg s (.addValidator a) ({ s with
        isValidator := s.isValidator.insert a true
        validators := s.validators ++ [a] }.log (.validatorAdded a))
  | removeValidator (a : Account) (ha : IsAdmin msg s) (hold : s.validator a = true)
      (hpos : s.validators.length ≠ 0) (hle : s.threshold.toNat ≤ s.validators.length - 1) :
      Transition K X contract msg s (.removeValidator a) ({ s with
        isValidator := s.isValidator.insert a false
        validators := swapRemove s.validators a }.log (.validatorRemoved a))
  | setThreshold (n : Word) (ha : IsAdmin msg s) (hn : 0 < n)
      (hle : n.toNat ≤ s.validators.length) :
      Transition K X contract msg s (.setThreshold n)
        ({ s with threshold := n }.log (.thresholdUpdated s.threshold n))
  | setVolumeCap (cap window : Word) (ha : IsAdmin msg s) :
      Transition K X contract msg s (.setVolumeCap cap window)
        ({ s with volumeCap := cap, volumeWindow := window }.log
          (.volumeCapUpdated s.volumeCap cap))
  | setChainMintCap (chain : Bytes) (cap : Word) (ha : IsAdmin msg s) :
      Transition K X contract msg s (.setChainMintCap chain cap) { s with
        chainStates := s.chainStates.insert chain { s.chainState chain with mintCap := cap } }
  | pause (ha : IsAdmin msg s) (hp : s.paused = false) :
      Transition K X contract msg s .pause { s with paused := true }
  | unpause (ha : IsAdmin msg s) (hp : s.paused = true) :
      Transition K X contract msg s .unpause { s with paused := false }

theorem onlyRole_eq_ok {role : Contract.Role} {u : Unit} :
    onlyRole s.roles role msg.sender = .ok u ↔ hasRole s.roles role msg.sender = true := by
  simp [onlyRole]

theorem whenNotPaused_eq_ok {paused : Bool} {u : Unit} :
    whenNotPaused paused = .ok u ↔ paused = false := by
  simp [whenNotPaused]

theorem whenPaused_eq_ok {paused : Bool} {u : Unit} :
    whenPaused paused = .ok u ↔ paused = true := by
  simp [whenPaused]

theorem rollWindow_ok (h : rollWindow msg s = .ok t) : t = rolled msg s := by
  simp only [rollWindow, bind_eq_ok, checkedAdd_eq_ok, pure_eq_ok] at h
  obtain ⟨_, ⟨-, rfl⟩, rfl⟩ := h
  by_cases hover : WindowOver msg s
  · simp only [rolled, if_pos hover]
    exact if_pos hover
  · simp only [rolled, if_neg hover]
    exact if_neg hover

theorem rolled_rolled : rolled msg (rolled msg s) = rolled msg s := by
  by_cases h : WindowOver msg s
  · by_cases h' : WindowOver msg (rolled msg s) <;> simp [rolled, h]
  · have hsame : rolled msg s = s := by simp [rolled, h]
    rw [hsame, hsame]

theorem checkCircuitBreaker_ok {amount : Word} (h : checkCircuitBreaker msg s amount = .ok t) :
    rolled msg t = rolled msg s ∧
      (s.volumeCap ≠ 0 → (rolled msg s).windowVolume + amount ≤ s.volumeCap) ∧
      ∃ start volume, t = { s with windowStart := start, windowVolume := volume } := by
  unfold checkCircuitBreaker at h
  split at h
  next hz =>
    cases pure_eq_ok.mp h
    exact ⟨rfl, absurd hz, s.windowStart, s.windowVolume, rfl⟩
  next hz =>
    simp only [checkWindow, bind_eq_ok, checkedAdd_eq_ok, require_eq_ok, pure_eq_ok] at h
    obtain ⟨u, hu, _, ⟨-, rfl⟩, _, hle, rfl⟩ := h
    cases rollWindow_ok hu
    exact ⟨rolled_rolled, fun _ => hle, _, _, rfl⟩

theorem mintPusd_transition {recipient : Account} {amount : Word} {chain : Bytes}
    {txHash nonce : Word} {signatures : List Bytes}
    (h : mintPusd K X contract msg s recipient amount chain txHash nonce signatures = .ok t) :
    Transition K X contract msg s (.mintPusd recipient amount chain txHash nonce signatures) t := by
  simp only [mintPusd, bind_eq_ok, onlyRole_eq_ok, whenNotPaused_eq_ok, require_eq_ok,
    checkedAdd_eq_ok, pure_eq_ok] at h
  obtain ⟨_, hrole, _, hp, _, -, _, hpos, _, hnew, _, hquorum, _, hverify, u, hu, _, ⟨htotal, rfl⟩,
    h⟩ := h
  obtain ⟨v, hv, _, ⟨hvolume, rfl⟩, h⟩ := h
  obtain ⟨pusd, hmint, rfl⟩ := h
  obtain ⟨hrolled, hcap, start, volume, rfl⟩ := checkCircuitBreaker_ok hu
  cases rollWindow_ok hv
  have hfits : (rolled msg s).windowVolume.toNat + amount.toNat < 2 ^ 256 := by
    rw [← hrolled]
    exact hvolume
  have hdone := Transition.mint recipient amount chain txHash nonce signatures pusd hrole hp hpos
    hnew hquorum hverify hcap htotal hfits hmint
  rw [← hrolled] at hdone
  exact hdone

theorem burnPusd_transition {chain : Bytes} {amount : Word}
    (h : burnPusd X contract msg s chain amount = .ok t) :
    Transition K X contract msg s (.burnPusd chain amount) t := by
  simp only [burnPusd, bind_eq_ok, whenNotPaused_eq_ok, require_eq_ok, checkedAdd_eq_ok,
    pure_eq_ok] at h
  obtain ⟨_, hp, _, hpos, _, -, pusd, hburn, _, ⟨htotal, rfl⟩, h⟩ := h
  obtain ⟨_, ⟨-, rfl⟩, rfl⟩ := h
  exact .burn chain amount pusd hp hpos htotal hburn

theorem invoke_transition {c : Call} (h : invoke K X contract msg s c = .ok t) :
    Transition K X contract msg s c t := by
  cases c with
  | mintPusd recipient amount chain txHash nonce signatures => exact mintPusd_transition h
  | burnPusd chain amount => exact burnPusd_transition h
  | addValidator a =>
    simp only [invoke, addValidator, bind_eq_ok, onlyRole_eq_ok, require_eq_ok, pure_eq_ok] at h
    obtain ⟨_, ha, _, hzero, _, hnew, rfl⟩ := h
    exact .addValidator a ha hzero hnew
  | removeValidator a =>
    simp only [invoke, removeValidator, bind_eq_ok, onlyRole_eq_ok, require_eq_ok, panicIf_eq_ok,
      pure_eq_ok] at h
    obtain ⟨_, ha, _, hold, _, hpos, _, hle, rfl⟩ := h
    exact .removeValidator a ha hold hpos hle
  | setThreshold n =>
    simp only [invoke, setThreshold, bind_eq_ok, onlyRole_eq_ok, require_eq_ok, pure_eq_ok] at h
    obtain ⟨_, ha, _, ⟨hn, hle⟩, rfl⟩ := h
    exact .setThreshold n ha hn hle
  | setVolumeCap cap window =>
    simp only [invoke, setVolumeCap, bind_eq_ok, onlyRole_eq_ok, pure_eq_ok] at h
    obtain ⟨_, ha, rfl⟩ := h
    exact .setVolumeCap cap window ha
  | setChainMintCap chain cap =>
    simp only [invoke, setChainMintCap, bind_eq_ok, onlyRole_eq_ok, pure_eq_ok] at h
    obtain ⟨_, ha, rfl⟩ := h
    exact .setChainMintCap chain cap ha
  | pause =>
    simp only [invoke, Contract.pause, bind_eq_ok, onlyRole_eq_ok, whenNotPaused_eq_ok,
      pure_eq_ok] at h
    obtain ⟨_, ha, _, hp, rfl⟩ := h
    exact .pause ha hp
  | unpause =>
    simp only [invoke, Contract.unpause, bind_eq_ok, onlyRole_eq_ok, whenPaused_eq_ok,
      pure_eq_ok] at h
    obtain ⟨_, ha, _, hp, rfl⟩ := h
    exact .unpause ha hp

theorem foldlM_register {l : List Account} (h : l.foldlM register s = .ok t) :
    t = { s with
      isValidator := l.foldl (fun m a => m.insert a true) s.isValidator
      logs := s.logs ++ l.map .validatorAdded } := by
  induction l generalizing s with
  | nil =>
    cases pure_eq_ok.mp h
    rw [List.map_nil, List.append_nil]
    rfl
  | cons a l ih =>
    rw [List.foldlM_cons, bind_eq_ok] at h
    obtain ⟨u, hu, hl⟩ := h
    simp only [register, bind_eq_ok, require_eq_ok, pure_eq_ok] at hu
    obtain ⟨_, -, rfl⟩ := hu
    rw [ih hl, List.map_cons, List.append_cons]
    rfl

def deployed (msg : Msg) (pusd : Token B) (validators : List Account)
    (threshold volumeCap volumeWindow : Word) : Bridge B where
  roles := grantRole (grantRole ∅ .defaultAdmin msg.sender) .relayer msg.sender
  paused := false
  pusd := pusd
  validators := validators
  isValidator := validators.foldl (fun m a => m.insert a true) ∅
  threshold := threshold
  nonces := ∅
  processedHashes := ∅
  chainStates := ∅
  volumeCap := volumeCap
  volumeWindow := volumeWindow
  windowStart := msg.timestamp
  windowVolume := 0
  logs := validators.map .validatorAdded

theorem construct_ok {pusdAddress : Account} {pusd : Token B} {validators : List Account}
    {threshold volumeCap volumeWindow : Word}
    (h : construct msg pusdAddress pusd validators threshold volumeCap volumeWindow = .ok s) :
    (0 < threshold ∧ threshold.toNat ≤ validators.length) ∧
      s = deployed msg pusd validators threshold volumeCap volumeWindow := by
  simp only [construct, bind_eq_ok, require_eq_ok] at h
  obtain ⟨_, -, _, -, _, hthreshold, h⟩ := h
  exact ⟨hthreshold, foldlM_register h⟩

/-- What names one burn on its source chain. -/
structure SourceBurn where
  chain : Bytes
  txHash : Word
  nonce : Word
  deriving DecidableEq

structure Payout where
  recipient : Account
  amount : Word
  deriving DecidableEq

def asked : Input B → Option (SourceBurn × Payout)
  | .call _ (.mintPusd recipient amount chain txHash nonce _) =>
    some (⟨chain, txHash, nonce⟩, ⟨recipient, amount⟩)
  | _ => none

def logged : Event → Option (SourceBurn × Payout)
  | .pusdMinted chain recipient amount nonce txHash =>
    some (⟨chain, txHash, nonce⟩, ⟨recipient, amount⟩)
  | _ => none

def mints (s : Bridge B) : List (SourceBurn × Payout) := s.logs.filterMap logged

theorem mints_log (e : Event) : mints (s.log e) = mints s ++ (logged e).toList := by
  rw [mints, Bridge.log, List.filterMap_append]
  cases h : logged e <;> simp [mints, h]

theorem mints_construct {pusdAddress : Account} {pusd : Token B} {validators : List Account}
    {threshold volumeCap volumeWindow : Word}
    (h : construct msg pusdAddress pusd validators threshold volumeCap volumeWindow = .ok s) :
    mints s = [] := by
  obtain ⟨-, rfl⟩ := construct_ok h
  simp [mints, deployed, logged]

theorem mints_step {i : Input B} (h : step K X contract s i = .ok t) :
    mints t = mints s ++ (asked i).toList := by
  cases i with
  | elsewhere roles pusd =>
    cases pure_eq_ok.mp h
    exact (List.append_nil _).symm
  | call msg c =>
    cases invoke_transition h with
    | setChainMintCap | pause | unpause => exact (List.append_nil _).symm
    | _ => exact mints_log _

end Suban.ArcBridge.Transitions
