import Suban.ArcBridge.Transitions
import Suban.Basis.Runs
import Suban.Relayer.Processor

namespace Suban.Relayer.EventIds

open Suban.Basis.Calls Suban.Basis.Numbers Suban.Basis.Runs Suban.Basis.Tables Suban.Evm.Host
open Suban.ArcBridge.PusdToken Suban.ArcBridge.Contract Suban.ArcBridge.Transitions
open Suban.Relayer.Arc Suban.Relayer.Processor

variable {B : Type} {K : Crypto} {X : Erc20 B} {contract : Account} {msg : Msg}

structure ArcChain (B : Type) where
  bridge : Bridge B
  log : List EventLog

/-- What a transaction does to the bridge. One transaction can do several
things, and calls from different accounts are among them. -/
structure Sent (B : Type) where
  transactionHash : String
  blockNumber : Nat
  input : ArcBridge.Contract.Input B

def logged (transactionHash : String) (blockNumber : Nat) (events : List Event) : List EventLog :=
  events.map (fun e => ⟨e, transactionHash, blockNumber⟩)

def step (K : Crypto) (X : Erc20 B) (contract : Account) (s : ArcChain B) (i : Sent B) :
    Outcome Revert (ArcChain B) := do
  let bridge ← ArcBridge.Contract.step K X contract s.bridge i.input
  let events := bridge.logs.drop s.bridge.logs.length
  pure ⟨bridge, s.log ++ logged i.transactionHash i.blockNumber events⟩

def deployed (bridge : Bridge B) (transactionHash : String) (blockNumber : Nat) : ArcChain B where
  bridge := bridge
  log := logged transactionHash blockNumber bridge.logs

def ids (K : Crypto) (s : ArcChain B) : List String :=
  (s.log.filterMap (parseBurnEvent K)).map arcId

def DistinctIds (K : Crypto) (s : ArcChain B) : Prop := (ids K s).Nodup

def nonceOf : Event → Option Word
  | .pusdBurned _ _ _ nonce => some nonce
  | _ => none

/-- A burn by its transaction, and by its nonce as the watcher reads it. -/
def labelOf (log : EventLog) : Option (String × Number) :=
  (nonceOf log.event).map (fun nonce => (log.transactionHash, ofNat nonce.toNat))

def labels (s : ArcChain B) : List (String × Number) := s.log.filterMap labelOf

def nonceFor (s : Bridge B) : ArcBridge.Contract.Input B → Option Word
  | .call msg (.burnPusd destChain _) => some (s.nonce destChain msg.sender)
  | _ => none

/-- A burn has a nonce that no burn before it in the same transaction has, for
whatever account and destination that was. -/
def FreshNonce (s : ArcChain B) (i : Sent B) : Prop :=
  ∀ nonce, nonceFor s.bridge i.input = some nonce →
    (i.transactionHash, ofNat nonce.toNat) ∉ labels s

def idOf (label : String × Number) : String :=
  "arc-" ++ label.1 ++ "-" ++ String.ofList (toText label.2)

theorem idOf_injective : Function.Injective idOf := by
  rintro ⟨h₁, n₁⟩ ⟨h₂, n₂⟩ h
  have htext := congrArg String.toList h
  simp only [idOf, String.toList_append, String.toList_ofList, List.append_assoc] at htext
  have hrest := List.append_cancel_left htext
  -- no sign is written in a number, so the last one is where the text splits
  have hlast : (toText n₁).reverse ++ '-' :: h₁.toList.reverse =
      (toText n₂).reverse ++ '-' :: h₂.toList.reverse := by
    have hreverse := congrArg List.reverse hrest
    simpa using hreverse
  have hnone (n : Number) : '-' ∉ (toText n).reverse := by
    rw [List.mem_reverse]
    exact not_mem_toText n
  obtain ⟨hnumber, hhash⟩ := split_unique (hnone n₁) (hnone n₂) hlast
  have hn := toText_inj (List.reverse_injective hnumber)
  have hh := String.toList_inj.mp (List.reverse_injective hhash)
  rw [hn, hh]

theorem arcId_parse (log : EventLog) :
    (parseBurnEvent K log).map arcId = (labelOf log).map idOf := by
  cases h : log.event with
  | pusdBurned destChain sender amount nonce =>
    simp only [parseBurnEvent, labelOf, nonceOf, h, Option.map_some, parseInt_toString]
    rfl
  | _ => simp [parseBurnEvent, labelOf, nonceOf, h]

theorem ids_eq (s : ArcChain B) : ids K s = (labels s).map idOf := by
  rw [ids, labels, List.map_filterMap, List.map_filterMap]
  apply List.filterMap_congr
  intro log _
  exact arcId_parse log

theorem distinctIds_iff {s : ArcChain B} : DistinctIds K s ↔ (labels s).Nodup := by
  rw [DistinctIds, ids_eq]
  exact List.nodup_map_iff idOf_injective

theorem nonces_step {s t : Bridge B} {i : ArcBridge.Contract.Input B}
    (h : ArcBridge.Contract.step K X contract s i = .ok t) :
    ∃ events, t.logs = s.logs ++ events ∧ events.filterMap nonceOf = (nonceFor s i).toList := by
  cases i with
  | elsewhere roles pusd =>
    cases pure_eq_ok.mp h
    exact ⟨[], (List.append_nil _).symm, rfl⟩
  | call msg c =>
    have htransition : ArcBridge.Contract.invoke K X contract msg s c = .ok t := h
    cases invoke_transition htransition with
    | setChainMintCap | pause | unpause => exact ⟨[], (List.append_nil _).symm, rfl⟩
    | _ => exact ⟨[_], rfl, rfl⟩

theorem labels_logged (transactionHash : String) (blockNumber : Nat) (events : List Event) :
    (logged transactionHash blockNumber events).filterMap labelOf =
      (events.filterMap nonceOf).map (fun nonce => (transactionHash, ofNat nonce.toNat)) := by
  rw [logged, List.filterMap_map, List.map_filterMap]
  rfl

theorem labels_step {s t : ArcChain B} {i : Sent B} (h : step K X contract s i = .ok t) :
    labels t = labels s ++ ((nonceFor s.bridge i.input).map
      (fun nonce => (i.transactionHash, ofNat nonce.toNat))).toList := by
  simp only [step, bind_eq_ok, pure_eq_ok] at h
  obtain ⟨bridge, hbridge, rfl⟩ := h
  obtain ⟨events, hlogs, hnonces⟩ := nonces_step hbridge
  rw [labels, List.filterMap_append, labels_logged, hlogs, List.drop_left, hnonces,
    Option.toList_map]
  rfl

theorem distinctIds_step {s t : ArcChain B} {i : Sent B} (hs : DistinctIds K s)
    (h : step K X contract s i = .ok t) : DistinctIds K t ↔ FreshNonce s i := by
  rw [distinctIds_iff] at hs ⊢
  rw [labels_step h, FreshNonce]
  cases nonceFor s.bridge i.input with
  | none => simpa using hs
  | some nonce =>
    rw [Option.map_some, Option.toList_some, List.nodup_append_comm, List.singleton_append,
      List.nodup_cons, and_iff_left hs]
    simp

theorem labels_deployed {pusdAddress : Account} {pusd : Token B} {validators : List Account}
    {threshold volumeCap volumeWindow : Word} {bridge : Bridge B}
    (h : construct msg pusdAddress pusd validators threshold volumeCap volumeWindow = .ok bridge)
    (transactionHash : String) (blockNumber : Nat) :
    labels (deployed bridge transactionHash blockNumber) = [] := by
  obtain ⟨-, rfl⟩ := construct_ok h
  rw [labels, deployed, labels_logged]
  simp [ArcBridge.Transitions.deployed, nonceOf]

/-- Throughout a run the burns have different ids exactly when no transaction
burns twice with the same nonce. -/
theorem distinctIds_iff_freshNonce {pusdAddress : Account} {pusd : Token B}
    {validators : List Account} {threshold volumeCap volumeWindow : Word} {bridge : Bridge B}
    (h : construct msg pusdAddress pusd validators threshold volumeCap volumeWindow = .ok bridge)
    (transactionHash : String) (blockNumber : Nat) (is : List (Sent B)) :
    Throughout (step K X contract) (DistinctIds K)
        (deployed bridge transactionHash blockNumber) is ↔
      Along (step K X contract) FreshNonce (deployed bridge transactionHash blockNumber) is := by
  refine throughout_iff_along_self (E := fun _ _ => True)
    (fun _ _ _ hs _ ht => distinctIds_step hs ht) ?_ (along_true _ is)
  rw [distinctIds_iff, labels_deployed h]
  exact List.nodup_nil

def stellarName : Bytes := "stellar".toList.map (fun c => UInt8.ofNat c.toNat)

def baseName : Bytes := "base".toList.map (fun c => UInt8.ofNat c.toNat)

def sampleCrypto : Crypto where
  keccak256 m :=
    if m = stellarName then 0xc5998dae77df7daa2be0865a87c92772385ba981209e76c2c3fde17b96885485
    else if m = baseName then 0xf1f3eb40f5bc1ad1344716ced8b8a0431d840b5783aea1fd01786bc26f35ac0f
    else 0
  recover _ _ := none
  SignedBy _ _ _ := False
  recover_signer h := by cases h
  signer_unique h := h.elim

def sampleToken : Token (Word × (Account → Word)) where
  maxSupply := 1000
  bridge := 9
  roles := grantRole (grantRole ∅ .defaultAdmin 1) .burner 9
  paused := false
  books := (100, fun a => if a = 7 then 100 else 0)

def sampleBridge : Bridge (Word × (Account → Word)) :=
  ArcBridge.Transitions.deployed ⟨1, 0⟩ sampleToken [2, 3] 2 0 60

theorem construct_sample : construct ⟨1, 0⟩ 8 sampleToken [2, 3] 2 0 60 = .ok sampleBridge := rfl

def sampleBurn (transactionHash : String) (destChain : Bytes) :
    Sent (Word × (Account → Word)) where
  transactionHash := transactionHash
  blockNumber := 2
  input := .call ⟨7, 5⟩ (.burnPusd destChain 40)

theorem distinctIds_iff_freshNonce_sample :
    Throughout (step sampleCrypto bookErc20 9) (DistinctIds sampleCrypto)
      (deployed sampleBridge "0xa0" 1)
      [sampleBurn "0xa1" stellarName, sampleBurn "0xa2" baseName] := by
  refine (distinctIds_iff_freshNonce construct_sample "0xa0" 1 _).mpr
    ⟨fun _ _ nonce hn => ?_, fun _ _ nonce hn => ?_, trivial⟩
  · cases hn
    decide +kernel
  · cases hn
    decide +kernel

/-- One transaction burns for two destinations, with the same nonce. -/
theorem burns_share_id :
    ∃ s : Bridge (Word × (Account → Word)),
      construct ⟨1, 0⟩ 8 sampleToken [2, 3] 2 0 60 = .ok s ∧
      ¬ Throughout (step sampleCrypto bookErc20 9) (DistinctIds sampleCrypto)
        (deployed s "0xa0" 1) [sampleBurn "0xa1" stellarName, sampleBurn "0xa1" baseName] := by
  refine ⟨sampleBridge, construct_sample, fun h => ?_⟩
  have hend : ids sampleCrypto (run (step sampleCrypto bookErc20 9) (deployed sampleBridge "0xa0" 1)
      [sampleBurn "0xa1" stellarName, sampleBurn "0xa1" baseName]) =
        ["arc-0xa1-0", "arc-0xa1-0"] := by decide +kernel
  have hnodup := throughout_run h
  rw [DistinctIds, hend] at hnodup
  exact absurd hnodup (by decide)

end Suban.Relayer.EventIds
