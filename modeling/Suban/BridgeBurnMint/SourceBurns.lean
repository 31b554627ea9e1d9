import Suban.BridgeBurnMint.Minting

namespace Suban.BridgeBurnMint.SourceBurns

open Suban.Basis.Calls Suban.Basis.Tables Suban.Basis.Runs Suban.Soroban.Host
open Suban.BridgeBurnMint.Contract Suban.BridgeBurnMint.Transitions
open Suban.BridgeBurnMint.Minting

variable {Address W : Type} [DecidableEq Address] {contract : Address}
variable {T : StellarAsset Address W} {env : Env Address contract} {s t : Storage Address W}

/-- What names one burn on the other chain, where a transaction can burn more
than once. -/
structure SourceBurn where
  chain : Symbol
  nonce : Nat
  txHash : TxHash
  deriving DecidableEq

def burnOf : Input Address W contract (Call Address) → Option SourceBurn
  | .call _ (.mintPusd _ _ chain nonce txHash _) => some ⟨chain, nonce, txHash⟩
  | _ => none

def minted (T : StellarAsset Address W) (s : Storage Address W)
    (is : List (Input Address W contract (Call Address))) : List SourceBurn :=
  (accepted (step T) s is).filterMap burnOf

/-- A mint has a quorum behind it, and is within the caps of a bridge that is
not paused. -/
structure Mintable (env : Env Address contract) (s : Storage Address W) (amount : Int)
    (chain : Symbol) (signers : List Address) : Prop where
  unpaused : s.paused = false
  positive : 0 < amount
  volume : (checkVolumeCircuitBreaker env s amount).isOk = true
  quorum : s.threshold ≤ signers.length
  signed : Signed env s signers
  cap : 0 < s.mintCap chain → s.minted chain + amount ≤ s.mintCap chain

theorem mem_sourceTx_iff {is : List (Input Address W contract (Call Address))} {hash : TxHash} :
    hash ∈ (accepted (step T) s is).filterMap sourceTx ↔ ∃ b ∈ minted T s is, b.txHash = hash := by
  have hmap : (sourceTx : Input Address W contract (Call Address) → Option TxHash) =
      fun i => (burnOf i).map SourceBurn.txHash := by
    funext i
    cases i with
    | world w => rfl
    | call env c => cases c <;> rfl
  rw [hmap, ← List.map_filterMap, List.mem_map]
  rfl

theorem isProcessed_run {is : List (Input Address W contract (Call Address))}
    (hfresh : s.processedHash = ∅) (hash : TxHash) :
    (run (step T) s is).isProcessed hash = true ↔ ∃ b ∈ minted T s is, b.txHash = hash := by
  have hrun : (run (step T) s is).isProcessed hash = true ↔
      s.isProcessed hash = true ∨ hash ∈ (accepted (step T) s is).filterMap sourceTx :=
    used_run (fun u hash => Storage.isProcessed u hash = true)
      (fun _ _ _ hash ht => isProcessed_step ht hash) s is hash
  have hnone : ¬ s.isProcessed hash = true := by simp [Storage.isProcessed, hfresh]
  rw [hrun, mem_sourceTx_iff]
  exact or_iff_right hnone

section Refused

variable {recipient : Address} {amount : Int} {chain : Symbol} {nonce : Nat} {txHash : TxHash}
variable {signers : List Address}

theorem verifySigners_ne_alreadyProcessed (seen signers : List Address) :
    verifySigners env s seen signers ≠ .error (.error .alreadyProcessed) := by
  induction signers generalizing seen with
  | nil => exact pure_ne_error _ _
  | cons a signers ih =>
    apply bind_ne_error (rejectIf_ne_error (by decide))
    intro _ _
    apply bind_ne_error (rejectIf_ne_error (by decide))
    intro _ _
    apply bind_ne_error (panicIf_ne_error _ _)
    intro _ _
    exact ih (seen ++ [a])

theorem checkMintCap_ne_alreadyProcessed :
    checkMintCap s chain amount ≠ .error (.error .alreadyProcessed) := by
  unfold checkMintCap
  split
  · apply bind_ne_error (checked_ne_error _ _)
    intro _ _
    exact rejectIf_ne_error (by decide)
  · exact pure_ne_error _ _

theorem checkVolume_ne_alreadyProcessed :
    checkVolumeCircuitBreaker env s amount ≠ .error (.error .alreadyProcessed) := by
  unfold checkVolumeCircuitBreaker
  split
  · exact pure_ne_error _ _
  · apply bind_ne_error (checkedUInt_ne_error _ _ _)
    intro _ _
    apply bind_ne_error (checked_ne_error _ _)
    intro _ _
    apply bind_ne_error (rejectIf_ne_error (by decide))
    intro _ _
    exact pure_ne_error _ _

theorem metered_isProcessed {u : Storage Address W}
    (h : checkVolumeCircuitBreaker env s amount = .ok u) :
    u.isProcessed txHash = s.isProcessed txHash := by
  obtain ⟨rfl, -⟩ := checkVolume_ok h
  rfl

theorem not_refused (h : s.isProcessed txHash = false) :
    mintPusd T env s recipient amount chain nonce txHash signers ≠
      .error (.error .alreadyProcessed) := by
  apply bind_ne_error (rejectIf_ne_error (by decide))
  intro _ _
  apply bind_ne_error (rejectIf_ne_error (by decide))
  intro _ _
  apply bind_ne_error checkVolume_ne_alreadyProcessed
  intro u hu
  have hnew : rejectIf (u.isProcessed txHash = true) BridgeError.alreadyProcessed = .ok () := by
    rw [rejectIf_eq_ok, metered_isProcessed hu, h]
    exact Bool.false_ne_true
  apply bind_ne_error (by simp [hnew])
  intro _ _
  apply bind_ne_error (rejectIf_ne_error (by decide))
  intro _ _
  apply bind_ne_error (verifySigners_ne_alreadyProcessed [] signers)
  intro _ _
  apply bind_ne_error checkMintCap_ne_alreadyProcessed
  intro _ _
  apply bind_ne_error (checked_ne_error _ _)
  intro _ _
  apply bind_ne_error (unwrap_ne_error _ _)
  intro _ _
  apply bind_ne_error (unwrap_ne_error _ _)
  intro _ _
  exact pure_ne_error _ _

theorem refused (hm : Mintable env s amount chain signers) (h : s.isProcessed txHash = true) :
    mintPusd T env s recipient amount chain nonce txHash signers =
      .error (.error .alreadyProcessed) := by
  obtain ⟨u, hu⟩ := exists_of_isOk hm.volume
  have hold := (metered_isProcessed hu).trans h
  simp [mintPusd, rejectIf, hm.unpaused, not_le.mpr hm.positive, hu, hold, bind, Except.bind]

end Refused

/-- A burn that has not been minted is not refused as processed exactly when no
other burn of the same source transaction has been minted. -/
theorem not_refused_iff_sole_burn {admin pusdToken : Address} {members : List Address}
    {threshold volumeWindowLedgers : Nat} {volumeCap : Int} {w : W}
    {env₀ : Env Address contract}
    (h : initialise env₀ (.fresh w) admin members threshold pusdToken volumeCap
      volumeWindowLedgers = .ok s)
    (is : List (Input Address W contract (Call Address))) {recipient : Address} {amount : Int}
    {b : SourceBurn} {signers : List Address} (hself : b ∉ minted T s is)
    (hm : Mintable env (run (step T) s is) amount b.chain signers) :
    mintPusd T env (run (step T) s is) recipient amount b.chain b.nonce b.txHash signers ≠
        .error (.error .alreadyProcessed) ↔
      ∀ d ∈ minted T s is, d ≠ b → d.txHash ≠ b.txHash := by
  have hprocessed : (run (step T) s is).isProcessed b.txHash = true ↔
      ∃ d ∈ minted T s is, d.txHash = b.txHash :=
    isProcessed_run (initialise_eq_ok h).1 b.txHash
  refine ⟨?_, ?_⟩
  · intro hok d hd _ hhash
    exact hok (refused hm (hprocessed.mpr ⟨d, hd, hhash⟩))
  · intro hsole
    apply not_refused
    apply Bool.eq_false_of_not_eq_true
    intro hold
    obtain ⟨d, hd, hhash⟩ := hprocessed.mp hold
    exact hsole d hd (fun heq => hself (heq ▸ hd)) hhash

def sampleRun : List (Input Nat (Nat → Nat → Nat) 0 (Call Nat)) :=
  [sampleMint 5 0 (sampleHash 1)]

theorem mintable_sample :
    Mintable (Env.signed 0 12 : Env Nat 0) (run (step (bookAsset Nat)) sample sampleRun) 600 "arc"
      [2, 3] where
  unpaused := by decide +kernel
  positive := by decide
  volume := by decide +kernel
  quorum := by decide +kernel
  signed := ⟨by decide, by decide +kernel⟩
  cap := by decide +kernel

theorem not_refused_iff_sole_burn_sample :
    mintPusd (bookAsset Nat) (Env.signed 0 12 : Env Nat 0)
      (run (step (bookAsset Nat)) sample sampleRun) 4 600 "arc" 0 (sampleHash 2) [2, 3] ≠
        .error (.error .alreadyProcessed) :=
  (not_refused_iff_sole_burn initialise_sample sampleRun (b := ⟨"arc", 0, sampleHash 2⟩)
    (by decide +kernel) mintable_sample).mpr (by decide +kernel)

/-- The second burn of a transaction is refused after the first is minted. -/
theorem second_burn_refused :
    ∃ s : Storage Nat (Nat → Nat → Nat),
      initialise (Env.signed 0 0 : Env Nat 0) (.fresh fun _ _ => 0) 1 [2, 3] 2 9 1000 10 = .ok s ∧
      (⟨"arc", 1, sampleHash 1⟩ : SourceBurn) ∉ minted (bookAsset Nat) s sampleRun ∧
      Mintable (Env.signed 0 12 : Env Nat 0) (run (step (bookAsset Nat)) s sampleRun) 600 "arc"
        [2, 3] ∧
      mintPusd (bookAsset Nat) (Env.signed 0 12 : Env Nat 0)
        (run (step (bookAsset Nat)) s sampleRun) 4 600 "arc" 1 (sampleHash 1) [2, 3] =
          .error (.error .alreadyProcessed) :=
  ⟨sample, rfl, by decide +kernel, mintable_sample, refused mintable_sample (by decide +kernel)⟩

end Suban.BridgeBurnMint.SourceBurns
