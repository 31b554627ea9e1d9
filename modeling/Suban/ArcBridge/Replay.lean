import Suban.ArcBridge.Signatures
import Suban.ArcBridge.Transitions
import Suban.Basis.Runs

namespace Suban.ArcBridge.Replay

open Suban.Basis.Calls Suban.Basis.Tables Suban.Basis.Runs Suban.Evm.Host
open Suban.ArcBridge.PusdToken Suban.ArcBridge.Contract Suban.ArcBridge.Transitions
open Suban.ArcBridge.Signatures

variable {B : Type} {K : Crypto} {X : Erc20 B} {contract : Account} {msg : Msg}
variable {s t : Bridge B}

def burnOf (i : Input B) : Option SourceBurn := (asked i).map Prod.fst

def timesMinted (K : Crypto) (X : Erc20 B) (contract : Account) (s : Bridge B)
    (is : List (Input B)) (b : SourceBurn) : Nat :=
  ((accepted (step K X contract) s is).filterMap burnOf).count b

/-- A burn that was minted for comes back, if at all, with the same payout. -/
def SamePayload (s : Bridge B) (i : Input B) : Prop :=
  ∀ b p q, asked i = some (b, p) → (b, q) ∈ mints s → p = q

/-- The calls that are sent in name one payout for each burn. -/
def OnePayload (is : List (Input B)) : Prop :=
  ∀ i ∈ is, ∀ j ∈ is, ∀ b p q, asked i = some (b, p) → asked j = some (b, q) → p = q

def payloadHash (K : Crypto) (b : SourceBurn) (p : Payout) : Word :=
  mintHash K b.chain b.txHash b.nonce p.amount p.recipient

def Recorded (K : Crypto) (s : Bridge B) : Prop :=
  ∀ b p, (b, p) ∈ mints s → s.processed (payloadHash K b p) = true

def MintedOnce (s : Bridge B) : Prop := ((mints s).map Prod.fst).Nodup

theorem processed_step {i : Input B} (h : step K X contract s i = .ok t) {hash : Word}
    (hs : s.processed hash = true) : t.processed hash = true := by
  cases i with
  | elsewhere roles pusd =>
    cases pure_eq_ok.mp h
    exact hs
  | call msg c =>
    cases invoke_transition h with
    | mint =>
      apply (readOr_insert _ _ _ _ _).trans
      split
      · rfl
      · exact hs
    | _ => exact hs

theorem payload_step {i : Input B} (h : step K X contract s i = .ok t) {b : SourceBurn}
    {p : Payout} (hi : asked i = some (b, p)) :
    s.processed (payloadHash K b p) = false ∧ t.processed (payloadHash K b p) = true := by
  cases i with
  | elsewhere roles pusd => cases hi
  | call msg c =>
    cases invoke_transition h with
    | mint recipient amount chain txHash nonce signatures pusd hrole hp hpos hnew =>
      cases hi
      exact ⟨hnew, (readOr_insert _ _ _ _ _).trans (if_pos rfl)⟩
    | _ => cases hi

theorem recorded_step {i : Input B} (h : step K X contract s i = .ok t) (hs : Recorded K s) :
    Recorded K t := by
  intro b p hmem
  rw [mints_step h, List.mem_append, Option.mem_toList] at hmem
  obtain hmem | hi := hmem
  · exact processed_step h (hs b p hmem)
  · exact (payload_step h hi).2

/-- An accepted call leaves every burn minted at most once exactly when it does
not bring a new payload for an old burn: the old payload is refused. -/
theorem mintedOnce_step {i : Input B} (h : step K X contract s i = .ok t) (hs : Recorded K s)
    (honce : MintedOnce s) : MintedOnce t ↔ SamePayload s i := by
  cases hi : asked i with
  | none =>
    have hnone : SamePayload s i := fun b p q hp => by cases hi.symm.trans hp
    have hsame : mints t = mints s := by rw [mints_step h, hi, Option.toList_none, List.append_nil]
    unfold MintedOnce at honce ⊢
    rw [hsame]
    exact iff_of_true honce hnone
  | some a =>
    obtain ⟨b, p⟩ := a
    have hnew : (b, p) ∉ mints s := fun hmem => by
      simpa [hs b p hmem] using (payload_step h hi).1
    have hfresh : MintedOnce t ↔ b ∉ (mints s).map Prod.fst := by
      rw [MintedOnce, mints_step h, hi, Option.toList_some, List.map_append, List.map_singleton,
        List.nodup_append_comm, List.singleton_append, List.nodup_cons]
      exact and_iff_left honce
    rw [hfresh, List.mem_map]
    refine ⟨?_, ?_⟩
    · intro hall c r q hr hq
      cases hi.symm.trans hr
      exact absurd ⟨_, hq, rfl⟩ hall
    · rintro hsame ⟨⟨c, q⟩, hq, rfl⟩
      exact hnew (hsame c p q hi hq ▸ hq)

theorem mintedOnce_back (i : Input B) (h : step K X contract s i = .ok t) (ht : MintedOnce t) :
    MintedOnce s := by
  unfold MintedOnce at ht
  rw [mints_step h, List.map_append] at ht
  exact ht.of_append_left

theorem samePayload_of_onePayload {is : List (Input B)}
    (hs : ∀ i ∈ is, SamePayload s i) (h : OnePayload is) :
    Along (step K X contract) SamePayload s is := by
  induction is generalizing s with
  | nil => trivial
  | cons i is ih =>
    refine ⟨fun _ _ => hs i (List.mem_cons_self ..), ih ?_ ?_⟩
    · intro j hj
      cases hi : step K X contract s i with
      | error e =>
        rw [next_error hi]
        exact hs j (List.mem_cons_of_mem _ hj)
      | ok t =>
        rw [next_ok hi]
        intro b p q hp hq
        rw [mints_step hi, List.mem_append, Option.mem_toList] at hq
        obtain hq | hq := hq
        · exact hs j (List.mem_cons_of_mem _ hj) b p q hp hq
        · exact h j (List.mem_cons_of_mem _ hj) i (List.mem_cons_self ..) b p q hp hq
    · exact fun j hj k hk =>
        h j (List.mem_cons_of_mem _ hj) k (List.mem_cons_of_mem _ hk)

section Deployed

variable {pusdAddress : Account} {pusd : Token B} {validators : List Account}
variable {threshold volumeCap volumeWindow : Word}

/-- Every burn is minted for at most once in a run exactly when no accepted
call brings a burn back with another payout. That is so where the calls that
are sent in name one payout for each burn. -/
theorem mintedOnce_iff_samePayload
    (h : construct msg pusdAddress pusd validators threshold volumeCap volumeWindow = .ok s)
    (is : List (Input B)) :
    ((∀ b, timesMinted K X contract s is b ≤ 1) ↔ Along (step K X contract) SamePayload s is) ∧
      (OnePayload is → ∀ b, timesMinted K X contract s is b ≤ 1) := by
  have hempty := mints_construct h
  have hrecorded : Recorded K s := by simp [Recorded, hempty]
  have honce : MintedOnce s := by simp [MintedOnce, hempty]
  have hburns : (mints (run (step K X contract) s is)).map Prod.fst =
      (accepted (step K X contract) s is).filterMap burnOf := by
    rw [record_run (fun _ _ _ => mints_step), hempty, List.nil_append, List.map_filterMap]
    rfl
  have hend : (∀ b, timesMinted K X contract s is b ≤ 1) ↔
      Throughout (step K X contract) MintedOnce s is := by
    rw [throughout_iff_run (fun _ i _ => mintedOnce_back i), MintedOnce, hburns,
      List.nodup_iff_count_le_one]
    rfl
  have hiff : Throughout (step K X contract) MintedOnce s is ↔
      Along (step K X contract) SamePayload s is :=
    throughout_iff_along (J := Recorded K) (E := fun _ _ => True)
      (fun _ _ _ hs ha _ hi => ⟨mintedOnce_step hi hs ha, fun _ => recorded_step hi hs⟩)
      hrecorded honce (along_true s is)
  refine ⟨hend.trans hiff, fun hone => (hend.trans hiff).mpr ?_⟩
  refine samePayload_of_onePayload (fun i _ b p q _ hq => ?_) hone
  simp [hempty] at hq

end Deployed

def sampleMintCall (amount : Word) (signatures : List Bytes) : Input (Word × (Account → Word)) :=
  .call ⟨1, 5⟩ (.mintPusd sampleRecipient amount sampleChain 5 0 signatures)

theorem mintedOnce_iff_samePayload_sample :
    timesMinted sampleCrypto bookErc20 9 sampleBridge
      [sampleMintCall 100 [sampleSignature₁, sampleSignature₂],
        sampleMintCall 100 [sampleSignature₁, sampleSignature₂]] ⟨sampleChain, 5, 0⟩ ≤ 1 := by
  refine (mintedOnce_iff_samePayload
    (rfl : construct ⟨1, 0⟩ 8 sampleToken sampleValidators 2 0 60 = .ok sampleBridge) _).2 ?_ _
  intro i hi j hj b p q hp hq
  have hsame : asked i = asked j := by
    simp only [List.mem_cons, List.not_mem_nil, or_false, or_self] at hi hj
    rw [hi, hj]
  rw [hp, hq] at hsame
  exact (Prod.mk.inj (Option.some.inj hsame)).2

def retryHash : Word := 0x073d7199359248a7a2696605ec4c38f18ac4f73d094f25635184da0a8022dec4

def retryDigest : Word := 0x2730140f8466ce95762089e3127d5f9c48f1fb682d49e4dbc2795bfb80c4bcd6

/-- A signature of each validator over the digest of the same mint, at one unit
less. -/
def retrySignature₁ : Bytes :=
  bigEndian 32 0x89b6bd7a7c385383ff466db721729e2f4ab4c650bb72e2dedfafd6ff61277a55 ++
    bigEndian 32 0x4a67bdd63f932adb80e7213d57ff413b84d2e05c7ce107c9e103672fd707a531 ++ [27]

def retrySignature₂ : Bytes :=
  bigEndian 32 0x5906b1439b994465c9f3d4fdf7f09a4ab9ae0864262b0140def210148b097533 ++
    bigEndian 32 0x131954ea7ca2e49536920c4fc9488a32f299165cbc1288e8b65c6aa27da1d6ba ++ [27]

def retryRecover (digest : Word) (signature : Bytes) : Option Account :=
  if digest ≠ retryDigest then sampleCrypto.recover digest signature
  else if signature = retrySignature₁ then sampleValidators[0]?
  else if signature = retrySignature₂ then sampleValidators[1]? else none

def retryCrypto : Crypto where
  keccak256 m :=
    if m = bridgeMessage sampleChain 5 0 99 sampleRecipient then retryHash
    else if m = messagePrefix ++ bigEndian 32 retryHash.toNat then retryDigest
    else sampleCrypto.keccak256 m
  recover := retryRecover
  SignedBy digest signature a := retryRecover digest signature = some a
  recover_signer h := h
  signer_unique ha hb := Option.some.inj (ha.symm.trans hb)

/-- One burn is minted for twice, once in full and once less a fee, when the
validators sign both. -/
theorem one_burn_mints_twice :
    ∃ s : Bridge (Word × (Account → Word)),
      construct ⟨1, 0⟩ 8 sampleToken sampleValidators 2 0 60 = .ok s ∧
      ¬ ∀ b, timesMinted retryCrypto bookErc20 9 s
        [sampleMintCall 100 [sampleSignature₁, sampleSignature₂],
          sampleMintCall 99 [retrySignature₁, retrySignature₂]] b ≤ 1 := by
  refine ⟨sampleBridge, rfl, fun h => ?_⟩
  have htwice : timesMinted retryCrypto bookErc20 9 sampleBridge
      [sampleMintCall 100 [sampleSignature₁, sampleSignature₂],
        sampleMintCall 99 [retrySignature₁, retrySignature₂]] ⟨sampleChain, 5, 0⟩ = 2 := by
    decide +kernel
  have hle := h ⟨sampleChain, 5, 0⟩
  omega

end Suban.ArcBridge.Replay
