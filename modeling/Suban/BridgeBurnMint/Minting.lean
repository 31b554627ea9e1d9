import Suban.Basis.Runs
import Suban.BridgeBurnMint.Transitions

namespace Suban.BridgeBurnMint.Minting

open Suban.Basis.Calls Suban.Basis.Tables Suban.Basis.Runs Suban.Soroban.Host
open Suban.BridgeBurnMint.Contract Suban.BridgeBurnMint.Transitions

variable {Address W : Type} [DecidableEq Address] {contract : Address}
variable {T : StellarAsset Address W} {env : Env Address contract} {s t : Storage Address W}

/-- The bridge is not paused, and as many signers as the threshold asks for
are named, all different, and have authorised the call. -/
def Authorised (s : Storage Address W) : Input Address W contract (Call Address) → Prop
  | .call env (.mintPusd _ _ _ _ _ signers) =>
    s.paused = false ∧ s.threshold ≤ signers.length ∧ signers.Nodup ∧
      ∀ a ∈ signers, s.isSigner a = true ∧ env.auths a = true
  | _ => True

def CapKept (t : Storage Address W) : Input Address W contract (Call Address) → Prop
  | .call _ (.mintPusd _ _ chain _ _ _) => 0 < t.mintCap chain → t.minted chain ≤ t.mintCap chain
  | _ => True

def sourceTx : Input Address W contract (Call Address) → Option TxHash
  | .call _ (.mintPusd _ _ _ _ txHash _) => some txHash
  | _ => none

def issued (chain : Symbol) : Input Address W contract (Call Address) → Option Int
  | .call _ (.mintPusd _ amount source _ _ _) => if source = chain then some amount else none
  | _ => none

theorem isProcessed_insert {txHash hash : TxHash}
    (h : t.processedHash = s.processedHash.insert txHash true) :
    t.isProcessed hash = true ↔ s.isProcessed hash = true ∨ txHash = hash := by
  rw [Storage.isProcessed, h, isSome_lookup_insert, or_comm, @eq_comm _ hash txHash]
  rfl

theorem isProcessed_step {i : Input Address W contract (Call Address)} (h : step T s i = .ok t)
    (hash : TxHash) :
    t.isProcessed hash = true ↔ s.isProcessed hash = true ∨ sourceTx i = some hash := by
  cases i with
  | world w =>
    cases pure_eq_ok.mp h
    simp [Storage.isProcessed, sourceTx]
  | call env c =>
    cases invoke_transition h with
    | mint recipient amount chain nonce txHash signers =>
      rw [isProcessed_insert rfl, sourceTx, Option.some.injEq]
    | _ => simp [Storage.isProcessed, Storage.publish, sourceTx]

theorem sourceTx_fresh {i : Input Address W contract (Call Address)} (h : step T s i = .ok t)
    {hash : TxHash} (hi : sourceTx i = some hash) : ¬ s.isProcessed hash = true := by
  cases i with
  | world w => cases hi
  | call env c =>
    cases invoke_transition h with
    | mint recipient amount chain nonce txHash signers token w hp hpos hvolume hnew =>
      cases hi
      simp [hnew]
    | _ => cases hi

theorem minted_step {i : Input Address W contract (Call Address)} (h : step T s i = .ok t)
    (chain : Symbol) : t.minted chain = s.minted chain + (issued chain i).getD 0 := by
  cases i with
  | world w =>
    cases pure_eq_ok.mp h
    exact (add_zero _).symm
  | call env c =>
    cases invoke_transition h with
    | mint recipient amount source nonce txHash signers =>
      simp only [issued, Storage.minted, Storage.publish, readOr_insert]
      by_cases hc : chain = source
      · simp [hc]
      · simp [hc, Ne.symm hc]
    | _ => exact (add_zero _).symm

theorem minted_run (s : Storage Address W) (is : List (Input Address W contract (Call Address)))
    (chain : Symbol) : (run (step T) s is).minted chain =
      s.minted chain + ((accepted (step T) s is).filterMap (issued chain)).sum :=
  sum_run (fun u => Storage.minted u chain) (fun _ _ _ ht => minted_step ht chain) s is

theorem authorised_step {i : Input Address W contract (Call Address)} (h : step T s i = .ok t) :
    Authorised s i ∧ CapKept t i := by
  cases i with
  | world w => exact ⟨trivial, trivial⟩
  | call env c =>
    cases invoke_transition h with
    | mint recipient amount chain nonce txHash signers token w hp hpos hvolume hnew hquorum hsigned
        hcap =>
      refine ⟨⟨hp, hquorum, hsigned⟩, fun hset => ?_⟩
      simp only [Storage.minted, Storage.publish, readOr_insert, if_true]
      exact hcap hset
    | _ => exact ⟨trivial, trivial⟩

section Initialised

variable {admin pusdToken : Address} {signers : List Address} {threshold : Nat}
variable {volumeCap : Int} {volumeWindowLedgers : Nat} {w : W}

theorem initialise_eq_ok
    (h : initialise env (.fresh w) admin signers threshold pusdToken volumeCap
      volumeWindowLedgers = .ok s) :
    s.processedHash = ∅ ∧ s.chainMinted = ∅ ∧ s.volumeWindowStart = 0 ∧ s.volumeInWindow = 0 := by
  simp only [initialise, bind_eq_ok, panicIf_eq_ok, pure_eq_ok] at h
  obtain ⟨_, -, _, -, _, -, rfl⟩ := h
  exact ⟨rfl, rfl, rfl, rfl⟩

/-- Every mint of a run is authorised by as many different signers as the
threshold asks for, while the bridge is not paused, leaves its chain within
its cap, and names a source transaction that no other mint has named. What is
minted for a chain is the sum of its mints. -/
theorem mint_authorised
    (h : initialise env (.fresh w) admin signers threshold pusdToken volumeCap
      volumeWindowLedgers = .ok s)
    (is : List (Input Address W contract (Call Address))) :
    (∀ x ∈ history (step T) s is, Authorised x.1 x.2.1 ∧ CapKept x.2.2 x.2.1) ∧
      ((accepted (step T) s is).filterMap sourceTx).Nodup ∧
      ∀ chain, (run (step T) s is).minted chain =
        ((accepted (step T) s is).filterMap (issued chain)).sum := by
  obtain ⟨-, hminted, -, -⟩ := initialise_eq_ok h
  refine ⟨?_, ?_, ?_⟩
  · intro x hx
    exact authorised_step (step_of_mem_history hx)
  · exact (nodup_keys (fun u hash => Storage.isProcessed u hash = true)
      (fun _ _ _ _ ht hi => sourceTx_fresh ht hi)
      (fun _ _ _ hash ht => isProcessed_step ht hash) s is).1
  · intro chain
    rw [minted_run, Storage.minted, hminted, readOr_empty, zero_add]

end Initialised

/-- A bridge of two signers, at addresses 2 and 3, for the token at address 9. -/
def sample : Storage Nat (Nat → Nat → Nat) where
  admin := some 1
  pusdToken := some 9
  signer := [2, 3].foldl (fun t a => t.insert a true) ∅
  signerCount := some 2
  threshold := 2
  nextNonce := 0
  processedHash := ∅
  chainMinted := ∅
  chainBurned := ∅
  chainMintCap := ∅
  volumeWindowStart := 0
  volumeInWindow := 0
  volumeCap := 1000
  volumeWindowLedgers := 10
  paused := false
  events := [.init 1 2 2]
  world := fun _ _ => 0

theorem initialise_sample :
    initialise (Env.signed 0 0) (.fresh sample.world) 1 [2, 3] 2 9 1000 10 = .ok sample := rfl

def sampleHash (n : UInt8) : TxHash := Vector.replicate 32 n

def sampleMint (ledger : Nat) (nonce : Nat) (txHash : TxHash) :
    Input Nat (Nat → Nat → Nat) 0 (Call Nat) :=
  .call (Env.signed 0 ledger) (.mintPusd 4 600 "arc" nonce txHash [2, 3])

theorem mint_authorised_sample :
    (run (step (bookAsset Nat)) sample [sampleMint 5 0 (sampleHash 1)]).minted "arc" =
      ((accepted (step (bookAsset Nat)) sample [sampleMint 5 0 (sampleHash 1)]).filterMap
        (issued "arc")).sum :=
  (mint_authorised initialise_sample _).2.2 "arc"

end Suban.BridgeBurnMint.Minting
