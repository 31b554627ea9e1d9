import Mathlib.Data.Finset.Card
import Mathlib.Data.Finset.Dedup
import Suban.ArcBridge.Contract

namespace Suban.ArcBridge.Signatures

open Suban.Basis.Calls Suban.Basis.Tables Suban.Evm.Host
open Suban.ArcBridge.PusdToken Suban.ArcBridge.Contract

variable {B : Type} {K : Crypto} {X : Erc20 B} {contract : Account} {msg : Msg}
variable {s t : Bridge B}

def mintDigest (K : Crypto) (recipient : Account) (amount : Word) (sourceChain : Bytes)
    (sourceTxHash sourceNonce : Word) : Word :=
  signedDigest K (K.keccak256 (bridgeMessage sourceChain sourceTxHash sourceNonce amount recipient))

/-- As many current validators as the threshold asks for, all different, have
signed the digest. -/
def Quorum (K : Crypto) (s : Bridge B) (digest : Word) (signatures : List Bytes) : Prop :=
  ∃ S : Finset Account, s.threshold.toNat ≤ S.card ∧
    ∀ a ∈ S, s.validator a = true ∧ ∃ signature ∈ signatures, K.SignedBy digest signature a

/-- The accounts the signatures recover to, each of them once. -/
def signers (K : Crypto) (digest : Word) (signatures : List Bytes) : Finset Account :=
  (signatures.filterMap (K.recover digest)).toFinset

theorem mem_signers {digest : Word} {signatures : List Bytes} {a : Account} :
    a ∈ signers K digest signatures ↔
      ∃ signature ∈ signatures, K.recover digest signature = some a := by
  simp [signers]

theorem verifySignatures_eq_ok {digest : Word} {signatures : List Bytes} {u : Unit} :
    verifySignatures K s digest signatures = .ok u ↔
      ∀ signature ∈ signatures, ∃ a,
        K.recover digest signature = some a ∧ s.validator a = true := by
  induction signatures with
  | nil => simp [verifySignatures]
  | cons signature signatures ih =>
    simp only [verifySignatures, bind_eq_ok, okOr_eq_ok, require_eq_ok, ih,
      List.forall_mem_cons]
    refine ⟨?_, ?_⟩
    · rintro ⟨a, ha, _, hv, h⟩
      exact ⟨⟨a, ha, hv⟩, h⟩
    · rintro ⟨⟨a, ha, hv⟩, h⟩
      exact ⟨a, ha, (), hv, h⟩

theorem mintPusd_ok {recipient : Account} {amount : Word} {sourceChain : Bytes}
    {sourceTxHash sourceNonce : Word} {signatures : List Bytes}
    (h : mintPusd K X contract msg s recipient amount sourceChain sourceTxHash sourceNonce
      signatures = .ok t) :
    s.threshold.toNat ≤ signatures.length ∧
      verifySignatures K s (mintDigest K recipient amount sourceChain sourceTxHash sourceNonce)
        signatures = .ok () := by
  simp only [mintPusd, bind_eq_ok, require_eq_ok] at h
  obtain ⟨_, -, _, -, _, -, _, -, _, -, _, hlen, _, hverify, -⟩ := h
  exact ⟨hlen, hverify⟩

theorem quorum_iff_card {digest : Word} {signatures : List Bytes}
    (h : verifySignatures K s digest signatures = .ok ()) :
    Quorum K s digest signatures ↔ s.threshold.toNat ≤ (signers K digest signatures).card := by
  rw [verifySignatures_eq_ok] at h
  refine ⟨?_, ?_⟩
  · rintro ⟨S, hcard, hS⟩
    refine hcard.trans (Finset.card_le_card fun a ha => ?_)
    obtain ⟨-, signature, hmem, hsigned⟩ := hS a ha
    obtain ⟨b, hb, -⟩ := h signature hmem
    have hab : a = b := K.signer_unique hsigned (K.recover_signer hb)
    exact mem_signers.mpr ⟨signature, hmem, hab ▸ hb⟩
  · intro hcard
    refine ⟨_, hcard, fun a ha => ?_⟩
    obtain ⟨signature, hmem, ha⟩ := mem_signers.mp ha
    obtain ⟨b, hb, hv⟩ := h signature hmem
    have hab : a = b := Option.some.inj (ha.symm.trans hb)
    exact ⟨hab ▸ hv, signature, hmem, K.recover_signer ha⟩

theorem filterMap_recover {digest : Word} {signatures : List Bytes}
    (h : verifySignatures K s digest signatures = .ok ()) :
    signatures.map (K.recover digest) =
      (signatures.filterMap (K.recover digest)).map some := by
  rw [verifySignatures_eq_ok] at h
  induction signatures with
  | nil => rfl
  | cons signature signatures ih =>
    obtain ⟨⟨a, ha, -⟩, hrest⟩ := List.forall_mem_cons.mp h
    rw [List.map_cons, List.filterMap_cons_some ha, List.map_cons, ha, ih hrest]

theorem card_signers {digest : Word} {signatures : List Bytes}
    (h : verifySignatures K s digest signatures = .ok ())
    (hd : (signatures.map (K.recover digest)).Nodup) :
    (signers K digest signatures).card = signatures.length := by
  have hmap := filterMap_recover h
  rw [hmap, List.nodup_map_iff (Option.some_injective _)] at hd
  rw [signers, List.toFinset_card_of_nodup hd]
  simpa using (congrArg List.length hmap).symm

/-- A mint that goes through has the quorum behind it exactly when its
signatures recover to as many different accounts as the threshold. It is enough
that no two of them recover to the same one. -/
theorem quorum_iff_distinct_signers {recipient : Account} {amount : Word} {sourceChain : Bytes}
    {sourceTxHash sourceNonce : Word} {signatures : List Bytes}
    (h : mintPusd K X contract msg s recipient amount sourceChain sourceTxHash sourceNonce
      signatures = .ok t) :
    (Quorum K s (mintDigest K recipient amount sourceChain sourceTxHash sourceNonce) signatures ↔
      s.threshold.toNat ≤ (signers K
        (mintDigest K recipient amount sourceChain sourceTxHash sourceNonce) signatures).card) ∧
    ((signatures.map (K.recover
        (mintDigest K recipient amount sourceChain sourceTxHash sourceNonce))).Nodup →
      Quorum K s (mintDigest K recipient amount sourceChain sourceTxHash sourceNonce)
        signatures) := by
  obtain ⟨hlen, hverify⟩ := mintPusd_ok h
  refine ⟨quorum_iff_card hverify, fun hd => (quorum_iff_card hverify).mpr ?_⟩
  rw [card_signers hverify hd]
  exact hlen

def sampleChain : Bytes := "stellar".toList.map (fun c => UInt8.ofNat c.toNat)

def sampleRecipient : Account := 0x6813eb9362372eef6200f3b1dbc3f819671cba69

def sampleValidators : List Account :=
  [0x7e5f4552091a69125d5dfcb7b8c2659029395bdf, 0x2b5ad5c4795c026514f8317c7a215e218dccd6cf]

def sampleHash : Word := 0x67c157fff11e7b58a1bf0a0faeaef5f37fcfeb45b3ec5e35f9e33089ab57712f

def sampleDigest : Word := 0x78424d808e34f4fb5c9f4b07e4cdd0f6bfd019b4564fd35031415f17abbfdfde

def sampleSignature₁ : Bytes :=
  bigEndian 32 0x89b6bd7a7c385383ff466db721729e2f4ab4c650bb72e2dedfafd6ff61277a55 ++
    bigEndian 32 0x0b9c984275223f025a80ba55a9d7f9afebc8bbb8f3350ca84df8ae82650c70eb ++ [27]

def sampleSignature₂ : Bytes :=
  bigEndian 32 0x5906b1439b994465c9f3d4fdf7f09a4ab9ae0864262b0140def210148b097533 ++
    bigEndian 32 0x0dde12b556472bb255fbf77ab3c3f0d7c7723b76c4b978f8c681dd550e4a05ee ++ [27]

def sampleCrypto : Crypto where
  keccak256 m :=
    if m = bridgeMessage sampleChain 5 0 100 sampleRecipient then sampleHash
    else if m = messagePrefix ++ bigEndian 32 sampleHash.toNat then sampleDigest else 0
  recover digest signature :=
    if digest ≠ sampleDigest then none
    else if signature = sampleSignature₁ then sampleValidators[0]?
    else if signature = sampleSignature₂ then sampleValidators[1]? else none
  SignedBy digest signature a := digest = sampleDigest ∧
    (signature = sampleSignature₁ ∧ sampleValidators[0]? = some a ∨
      signature = sampleSignature₂ ∧ sampleValidators[1]? = some a)
  recover_signer h := by
    split at h
    · cases h
    next hd =>
      refine ⟨not_not.mp hd, ?_⟩
      split at h
      next h1 => exact .inl ⟨h1, h⟩
      next => exact .inr (by split at h <;> simp_all)
  signer_unique ha hb := by
    have hne : sampleSignature₁ ≠ sampleSignature₂ := by decide
    obtain ⟨-, ⟨rfl, ha⟩ | ⟨rfl, ha⟩⟩ := ha
    · obtain ⟨-, ⟨-, hb⟩ | ⟨h, -⟩⟩ := hb
      · exact Option.some.inj (ha.symm.trans hb)
      · exact absurd h hne
    · obtain ⟨-, ⟨h, -⟩ | ⟨-, hb⟩⟩ := hb
      · exact absurd h.symm hne
      · exact Option.some.inj (ha.symm.trans hb)

def sampleToken : Token (Word × (Account → Word)) where
  maxSupply := 1000
  bridge := 9
  roles := grantRole (grantRole ∅ .defaultAdmin 1) .minter 9
  paused := false
  books := (0, fun _ => 0)

def sampleBridge : Bridge (Word × (Account → Word)) where
  roles := grantRole (grantRole ∅ .defaultAdmin 1) .relayer 1
  paused := false
  pusd := sampleToken
  validators := sampleValidators
  isValidator := sampleValidators.foldl (fun t a => t.insert a true) ∅
  threshold := 2
  nonces := ∅
  processedHashes := ∅
  chainStates := ∅
  volumeCap := 0
  volumeWindow := 60
  windowStart := 0
  windowVolume := 0
  logs := sampleValidators.map .validatorAdded

def sampleMint (signatures : List Bytes) : Outcome Revert (Bridge (Word × (Account → Word))) :=
  mintPusd sampleCrypto bookErc20 9 ⟨1, 5⟩ sampleBridge sampleRecipient 100 sampleChain 5 0
    signatures

theorem quorum_iff_distinct_signers_sample :
    Quorum sampleCrypto sampleBridge (mintDigest sampleCrypto sampleRecipient 100 sampleChain 5 0)
      [sampleSignature₁, sampleSignature₂] := by
  have hok : (sampleMint [sampleSignature₁, sampleSignature₂]).isOk = true := by decide +kernel
  obtain ⟨t, ht⟩ := exists_of_isOk hok
  exact (quorum_iff_distinct_signers ht).2 (by decide +kernel)

/-- Of two validators with a threshold of two, one alone mints by giving its
signature twice. -/
theorem one_signature_counts_twice :
    ∃ s t : Bridge (Word × (Account → Word)),
      construct ⟨1, 0⟩ 8 sampleToken sampleValidators 2 0 60 = .ok s ∧
      mintPusd sampleCrypto bookErc20 9 ⟨1, 5⟩ s sampleRecipient 100 sampleChain 5 0
        [sampleSignature₁, sampleSignature₁] = .ok t ∧
      ¬ Quorum sampleCrypto s (mintDigest sampleCrypto sampleRecipient 100 sampleChain 5 0)
        [sampleSignature₁, sampleSignature₁] := by
  have hok : (sampleMint [sampleSignature₁, sampleSignature₁]).isOk = true := by decide +kernel
  obtain ⟨t, ht⟩ := exists_of_isOk hok
  refine ⟨sampleBridge, t, rfl, ht, ?_⟩
  rw [quorum_iff_card (mintPusd_ok ht).2]
  decide +kernel

end Suban.ArcBridge.Signatures
