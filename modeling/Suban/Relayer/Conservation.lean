import Mathlib.Algebra.Order.BigOperators.Group.List
import Mathlib.Data.List.Perm.Subperm
import Suban.ArcBridge.Transitions
import Suban.BridgeBurnMint.Minting
import Suban.Relayer.Traces

namespace Suban.Relayer.Conservation

open Suban.Basis.Numbers Suban.Basis.Runs Suban.Evm.Host Suban.Soroban.Host
open Suban.BridgeBurnMint Suban.Relayer.Stellar Suban.Relayer.Completeness
open Suban.Relayer.Processor Suban.Relayer.Published Suban.Relayer.Traces
open Suban.Relayer.Transfers Suban.Relayer.TxBuilder

variable {Address W B : Type} [DecidableEq Address] {contract : Address}
variable {D : Setup Address W B} {s t : Network Address W B}

/-- No more has been minted for the relayer than was burned for Arc, and
nothing for any other burn. -/
structure Conserved (s : Network Address W B) : Prop where
  total : (s.mints.map (fun m => (m.2.toNat : Int))).sum ≤ s.stellar.burned "arc"
  directed : ∀ m ∈ s.mints, m.1.destinationChain = "arc"

/-- The mint that is mined is for a burn that was made for Arc. -/
def DirectedToArc (_ : Network Address W B) : Transfers.Input Address W B contract → Prop
  | .mine event _ => event.destinationChain = "arc"
  | _ => True

def BurnsToArc (_ : Network Address W B) (i : Transfers.Input Address W B contract) : Prop :=
  ∀ destination, burnedFor i = some destination → destination = "arc"

theorem sum_le_of_subset {α : Type} {l m : List α} (hl : l.Nodup) (hsub : l ⊆ m) (f : α → Int)
    (hf : ∀ a ∈ m, 0 ≤ f a) : (l.map f).sum ≤ (m.map f).sum := by
  obtain ⟨l', hperm, hsublist⟩ := hl.subperm hsub
  rw [← (hperm.map f).sum_eq]
  apply (hsublist.map f).sum_le_sum
  intro x hx
  obtain ⟨a, ha, rfl⟩ := List.mem_map.mp hx
  exact hf a ha

theorem sum_worth_burns (c : Chain) :
    ((burns c).map worth).sum = ((c.events.map RpcEvent.toPublished).map directed).sum := by
  rw [burns]
  induction c.events with
  | nil => rfl
  | cons e events ih =>
    rw [List.map_cons, List.map_cons, List.sum_cons, ← ih, ← directed_eq e, List.filterMap_cons]
    cases parseBurnEvent e with
    | none => simp
    | some b => simp

theorem worth_nonneg (hs : Booked s) : ∀ b ∈ burns s.chain, 0 ≤ worth b := by
  intro b hb
  obtain ⟨e, he, hparse⟩ := List.mem_filterMap.mp hb
  have hdirected := directed_eq e
  rw [hparse, Option.map_some, Option.getD_some] at hdirected
  rw [hdirected]
  exact hs.nonneg _ (List.mem_append_left _ (List.mem_map_of_mem he))

theorem conserved_iff (hb : Booked s) (hs : Linked s) :
    Conserved s ↔ ∀ b ∈ s.mints.map Prod.fst, b.destinationChain = "arc" := by
  rw [List.forall_mem_map]
  refine ⟨fun h => h.directed, fun hdirected => ⟨?_, hdirected⟩⟩
  have hpending : 0 ≤ (s.pending.map directed).sum := by
    apply List.sum_nonneg
    intro x hx
    obtain ⟨p, hp, rfl⟩ := List.mem_map.mp hx
    exact hb.nonneg p (List.mem_append_right _ hp)
  have hsub : s.mints.map Prod.fst ⊆ burns s.chain := by
    intro b hb
    obtain ⟨m, hm, rfl⟩ := List.mem_map.mp hb
    exact hs.emitted _ (hs.mints m hm).1
  calc (s.mints.map (fun m => (m.2.toNat : Int))).sum
      ≤ (s.mints.map (fun m => worth m.1)).sum := by
        apply List.sum_le_sum
        intro m hm
        obtain ⟨-, n, hn, hle⟩ := hs.mints m hm
        rw [worth, if_pos (hdirected m hm), hn]
        exact hle
    _ = ((s.mints.map Prod.fst).map worth).sum := by rw [List.map_map]; rfl
    _ ≤ ((burns s.chain).map worth).sum := sum_le_of_subset hs.sole hsub worth (worth_nonneg hb)
    _ ≤ ((publishedEvents s).map directed).sum := by
        rw [sum_worth_burns, publishedEvents, List.map_append, List.sum_append]
        exact le_add_of_nonneg_right hpending
    _ = s.stellar.burned "arc" := hb.books

theorem conserved_step {i : Transfers.Input Address W B contract} (hb : Booked s) (hs : Linked s)
    (hc : Conserved s) (h : Transfers.step D s i = .ok t) : Conserved t ↔ DirectedToArc s i := by
  rw [conserved_iff hb hs] at hc
  rw [conserved_iff (booked_step hb h) (linked_step hs h), mints_step h, List.forall_mem_append,
    and_iff_right hc]
  cases i <;> simp [minedFor, DirectedToArc]

/-- No burn has been made for another chain. -/
def Undiverted (s : Network Address W B) : Prop :=
  ∀ p ∈ publishedEvents s, ∀ b, parseBurnEvent ⟨p, 0⟩ = some b → b.destinationChain = "arc"

theorem undiverted_step {i : Transfers.Input Address W B contract} (hs : Undiverted s)
    (hi : BurnsToArc s i) (h : Transfers.step D s i = .ok t) : Undiverted t := by
  obtain ⟨txHash, events, hpublished, -, hnew⟩ := published_step h
  rw [Undiverted, hpublished]
  refine List.forall_mem_append.mpr ⟨hs, ?_⟩
  intro p hp b hb
  obtain ⟨e, he, rfl⟩ := List.mem_map.mp hp
  exact hi _ ((hnew e he).2 _ (destination_published hb))

theorem conserved_of_undiverted (hb : Booked s) (hs : Linked s) (h : Undiverted s) :
    Conserved s := by
  rw [conserved_iff hb hs]
  intro b hmem
  obtain ⟨m, hm, rfl⟩ := List.mem_map.mp hmem
  obtain ⟨e, he, hparse⟩ := List.mem_filterMap.mp (hs.emitted _ (hs.mints m hm).1)
  have hat : parseBurnEvent e = _ := parse_at e.toPublished e.ledger
  rw [hat, Option.map_eq_some_iff] at hparse
  obtain ⟨b, hb, hsame⟩ := hparse
  rw [← hsame]
  exact h _ (List.mem_append_left _ (List.mem_map_of_mem he)) b hb

section Launched

variable {env : Soroban.Host.Env Address contract} {admin pusdToken : Address}
variable {signers : List Address} {threshold volumeWindowLedgers : Nat} {volumeCap : Int} {w : W}
variable {stellar : BridgeBurnMint.Contract.Storage Address W}

/-- The relayer mints no more on Arc than was burned for it, and for no other
burns, exactly when each mint that is mined is for a burn made for Arc. Where
burns are made for Arc alone, it does. -/
theorem conserved_iff_directed
    (h : BridgeBurnMint.Contract.initialise env (.fresh w) admin signers threshold pusdToken
      volumeCap volumeWindowLedgers = .ok stellar)
    (D : Setup Address W B) (arc : ArcBridge.Contract.Bridge B) (txHash : String)
    (latest fromLedger : Nat) (is : List (Transfers.Input Address W B contract)) :
    (Throughout (Transfers.step D) Conserved (launch D stellar arc txHash latest fromLedger) is ↔
      Along (Transfers.step D) DirectedToArc (launch D stellar arc txHash latest fromLedger) is) ∧
    (Along (Transfers.step D) BurnsToArc (launch D stellar arc txHash latest fromLedger) is →
      Throughout (Transfers.step D) Conserved
        (launch D stellar arc txHash latest fromLedger) is) := by
  have hbooked := booked_launch (D := D) h arc txHash latest fromLedger
  have hlinked := linked_launch (D := D) stellar arc txHash latest fromLedger
  have hnone : Undiverted (launch D stellar arc txHash latest fromLedger) := by
    rw [Undiverted, published_launch h]
    intro p hp b hb
    rw [List.mem_singleton.mp hp] at hb
    cases destination_published hb
  refine ⟨?_, fun hburns => ?_⟩
  · refine throughout_iff_along (J := fun u => Booked u ∧ Linked u) (E := fun _ _ => True)
      (fun u i v hu hc _ hv => ?_) ⟨hbooked, hlinked⟩ ?_ (along_true _ is)
    · exact ⟨conserved_step hu.1 hu.2 hc hv, fun _ => ⟨booked_step hu.1 hv, linked_step hu.2 hv⟩⟩
    · exact conserved_of_undiverted hbooked hlinked hnone
  · have hall : Throughout (Transfers.step D) (fun u => Booked u ∧ Linked u ∧ Undiverted u)
        (launch D stellar arc txHash latest fromLedger) is :=
      throughout_of_along (fun u i v hu hi hv => ⟨booked_step hu.1 hv, linked_step hu.2.1 hv,
        undiverted_step hu.2.2 hi hv⟩) ⟨hbooked, hlinked, hnone⟩ hburns
    exact throughout_mono (fun u hu => conserved_of_undiverted hu.1 hu.2.1 hu.2.2) hall

end Launched

def sampleTxHash : String := "f43e8cfd4725c1e28fa4a6e3e468b4fcf75367166b850ac5f04e33ec843e82c1"

def sampleRelayer : Account := 0x7e5f4552091a69125d5dfcb7b8c2659029395bdf

def sampleMessage : Bytes :=
  ArcBridge.Contract.bridgeMessage (utf8 "stellar")
    0xf43e8cfd4725c1e28fa4a6e3e468b4fcf75367166b850ac5f04e33ec843e82c1 0 4000000 sampleRelayer

def sampleHash : Word := 0x98ccae6bdbe35c9b93b7266adf00cce1561d5f53159727746547f7ef42372617

def sampleDigest : Word := 0xce352b3360d580c89cda72256fac9370e988848af3da02eeb1806fcd41cb39c1

def sampleSignature : Bytes :=
  bigEndian 32 0x9377c312145a5afb911bf9e8c067bcf6094c533603687850df502b61290bbf5e ++
    bigEndian 32 0x51cb04fac64665a5125575fac8cd5346d6419d939646e219a3c2c12a40e3902d ++ [27]

def sampleRecover (digest : Word) (signature : Bytes) : Option Account :=
  if digest = sampleDigest ∧ signature = sampleSignature then some sampleRelayer else none

/-- The hashes and the signature of one mint of four units, which is a burn of
five less the least fee. -/
def sampleCrypto : Crypto where
  keccak256 m :=
    if m = sampleMessage then sampleHash
    else if m = ArcBridge.Contract.messagePrefix ++ bigEndian 32 sampleHash.toNat then sampleDigest
    else 0
  recover := sampleRecover
  SignedBy digest signature a := sampleRecover digest signature = some a
  recover_signer h := h
  signer_unique ha hb := Option.some.inj (ha.symm.trans hb)

def sampleSetup : Setup Nat (Nat → Nat → Nat) (Word × (Account → Word)) where
  strkey a := "G" ++ toString a
  stellarAsset := bookAsset Nat
  limit := 100
  fees := ⟨50, 10, 1000000⟩
  wallet := ⟨sampleRelayer, fun digest => if digest = sampleDigest then sampleSignature else []⟩
  crypto := sampleCrypto
  erc20 := bookErc20
  arcContract := 9

def sampleToken : ArcBridge.PusdToken.Token (Word × (Account → Word)) where
  maxSupply := 1000000000
  bridge := 9
  roles := grantRole (grantRole ∅ .defaultAdmin 1) .minter 9
  paused := false
  books := (0, fun _ => 0)

def sampleArc : ArcBridge.Contract.Bridge (Word × (Account → Word)) :=
  ArcBridge.Transitions.deployed ⟨sampleRelayer, 0⟩ sampleToken
    [sampleRelayer, 0x2b5ad5c4795c026514f8317c7a215e218dccd6cf] 1 0 60

def sampleStart (stellar : BridgeBurnMint.Contract.Storage Nat (Nat → Nat → Nat)) :
    Network Nat (Nat → Nat → Nat) (Word × (Account → Word)) :=
  launch sampleSetup stellar sampleArc sampleTxHash 1 0

def sampleRun (destination : String) :
    List (Transfers.Input Nat (Nat → Nat → Nat) (Word × (Account → Word)) 0) :=
  [.stellar sampleTxHash (.world fun t a => if t = 9 ∧ a = 4 then 5000000 else 0),
    .stellar sampleTxHash (.call (Env.signed 0 12) (.burnPusd 4 5000000 destination)),
    .close, .getLatestLedger, .getEvents,
    .mine ⟨destination, "G4", "5000000", ofNat 0, "0x" ++ sampleTxHash, 2⟩ 5,
    .settle 0 (.ok "0xfe")]

theorem conserved_iff_directed_sample :
    Throughout (Transfers.step sampleSetup) Conserved (sampleStart Minting.sample)
      (sampleRun "arc") := by
  refine (conserved_iff_directed Minting.initialise_sample sampleSetup sampleArc sampleTxHash 1 0
    _).2 ?_
  have hnone {u : Network Nat (Nat → Nat → Nat) (Word × (Account → Word))}
      {i : Transfers.Input Nat (Nat → Nat → Nat) (Word × (Account → Word)) 0}
      (hi : burnedFor i = none) : BurnsToArc u i := by
    intro _ hd
    rw [hi] at hd
    cases hd
  refine ⟨?_, ?_, ?_, ?_, ?_, ?_, ?_, trivial⟩
  · exact fun _ _ => hnone rfl
  · intro _ _ destination hd
    cases hd
    rfl
  · exact fun _ _ => hnone rfl
  · exact fun _ _ => hnone rfl
  · exact fun _ _ => hnone rfl
  · exact fun _ _ => hnone rfl
  · exact fun _ _ => hnone rfl

/-- A burn for another chain is minted on Arc, where nothing was burned for. -/
theorem diverted_burn_mints :
    ∃ s : BridgeBurnMint.Contract.Storage Nat (Nat → Nat → Nat),
      BridgeBurnMint.Contract.initialise (Env.signed 0 0 : Soroban.Host.Env Nat 0)
        (.fresh fun _ _ => 0) 1 [2, 3] 2 9 1000 10 = .ok s ∧
      ¬ Throughout (Transfers.step sampleSetup) Conserved (sampleStart s) (sampleRun "base") := by
  refine ⟨Minting.sample, rfl, fun h => ?_⟩
  have hend := (throughout_run h).total
  exact absurd hend (by decide +kernel)

end Suban.Relayer.Conservation
