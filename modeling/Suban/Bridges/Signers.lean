import Suban.BridgeBurnMint.Transitions
import Suban.BridgeMultisig.Replay
import Suban.Soroban.SignerSet

namespace Suban.Bridges.Signers

open Suban.Basis.Calls Suban.Basis.Tables Suban.Basis.Runs Suban.Soroban.Host
open Suban.Soroban.SignerSet

variable {Address W : Type} [DecidableEq Address] {contract : Address}
variable {T : StellarAsset Address W}

def multisigSigners (s : BridgeMultisig.Contract.Storage Address W) : Signers Address :=
  ⟨s.signer, s.signerCount, s.threshold⟩

def burnMintSigners (s : BridgeBurnMint.Contract.Storage Address W) : Signers Address :=
  ⟨s.signer, s.signerCount.getD 0, s.threshold⟩

theorem multisig_change {s t : BridgeMultisig.Contract.Storage Address W}
    {i : Input Address W contract (BridgeMultisig.Contract.Call Address)}
    (h : BridgeMultisig.Contract.step T s i = .ok t) :
    Change (multisigSigners s) (multisigSigners t) := by
  cases i with
  | world w =>
    cases pure_eq_ok.mp h
    exact .keep
  | call env c =>
    cases BridgeMultisig.Transitions.invoke_transition h with
    | addSigner admin a ha hnew => exact .add a hnew
    | removeSigner admin a ha hold hcount hle => exact .remove a hold hle
    | setThreshold admin n ha hn hle => exact .setThreshold n hn hle
    | _ => exact .keep

theorem burnMintSigners_eq {s : BridgeBurnMint.Contract.Storage Address W} {count : Nat}
    (h : s.signerCount = some count) : burnMintSigners s = ⟨s.signer, count, s.threshold⟩ := by
  rw [burnMintSigners, h]
  rfl

theorem burnMint_change {s t : BridgeBurnMint.Contract.Storage Address W}
    {i : Input Address W contract (BridgeBurnMint.Contract.Call Address)}
    (h : BridgeBurnMint.Contract.step T s i = .ok t) :
    Change (burnMintSigners s) (burnMintSigners t) := by
  cases i with
  | world w =>
    cases pure_eq_ok.mp h
    exact .keep
  | call env c =>
    cases BridgeBurnMint.Transitions.invoke_transition h with
    | addSigner a count ha hnew hcount =>
      rw [burnMintSigners_eq hcount]
      exact .add a hnew
    | removeSigner a count ha hold hcount hpos hle =>
      rw [burnMintSigners_eq hcount]
      exact .remove a hold hle
    | setThreshold n count ha hcount hn hle =>
      have hwithin : n ≤ (burnMintSigners s).count := by
        rw [burnMintSigners_eq hcount]
        exact hle
      exact .setThreshold n hn hwithin
    | _ => exact .keep

theorem multisig_initialise {env : Env Address contract} {admin wpiToken usdcToken : Address}
    {signers : List Address} {threshold volumeWindowLedgers maxProposalAge : Nat}
    {volumeCap : Int} {w : W} {s : BridgeMultisig.Contract.Storage Address W}
    (h : BridgeMultisig.Contract.initialise env (.fresh w) admin signers threshold volumeCap
      volumeWindowLedgers maxProposalAge wpiToken usdcToken = .ok s) :
    multisigSigners s = ofList signers threshold ∧ threshold ≠ 0 ∧
      threshold ≤ signers.length := by
  simp only [BridgeMultisig.Contract.initialise, bind_eq_ok, panicIf_eq_ok, pure_eq_ok, not_or,
    not_lt] at h
  obtain ⟨_, -, _, -, _, ⟨hn, hle⟩, rfl⟩ := h
  exact ⟨rfl, hn, hle⟩

theorem burnMint_initialise {env : Env Address contract} {admin pusdToken : Address}
    {signers : List Address} {threshold volumeWindowLedgers : Nat} {volumeCap : Int} {w : W}
    {s : BridgeBurnMint.Contract.Storage Address W}
    (h : BridgeBurnMint.Contract.initialise env (.fresh w) admin signers threshold pusdToken
      volumeCap volumeWindowLedgers = .ok s) :
    burnMintSigners s = ofList signers threshold ∧ threshold ≠ 0 ∧
      threshold ≤ signers.length := by
  simp only [BridgeBurnMint.Contract.initialise, bind_eq_ok, panicIf_eq_ok, pure_eq_ok, not_or,
    not_lt] at h
  obtain ⟨_, -, _, -, _, ⟨hn, hle⟩, rfl⟩ := h
  exact ⟨rfl, hn, hle⟩

/-- Both bridges keep their signers consistent in every run exactly when they
are initialised with a list that names nobody twice. -/
theorem signersConsistent_iff_nodup {signers : List Address} {threshold : Nat} :
    (∀ {env : Env Address contract} {admin wpiToken usdcToken : Address}
        {volumeWindowLedgers maxProposalAge : Nat} {volumeCap : Int} {w : W}
        {s : BridgeMultisig.Contract.Storage Address W},
      BridgeMultisig.Contract.initialise env (.fresh w) admin signers threshold volumeCap
        volumeWindowLedgers maxProposalAge wpiToken usdcToken = .ok s →
      ∀ is : List (Input Address W contract (BridgeMultisig.Contract.Call Address)),
        Throughout (BridgeMultisig.Contract.step T) (fun u => Consistent (multisigSigners u)) s is ↔
          signers.Nodup) ∧
    (∀ {env : Env Address contract} {admin pusdToken : Address} {volumeWindowLedgers : Nat}
        {volumeCap : Int} {w : W} {s : BridgeBurnMint.Contract.Storage Address W},
      BridgeBurnMint.Contract.initialise env (.fresh w) admin signers threshold pusdToken
        volumeCap volumeWindowLedgers = .ok s →
      ∀ is : List (Input Address W contract (BridgeBurnMint.Contract.Call Address)),
        Throughout (BridgeBurnMint.Contract.step T) (fun u => Consistent (burnMintSigners u)) s is ↔
          signers.Nodup) := by
  refine ⟨?_, ?_⟩
  · intro env admin wpiToken usdcToken ledgers age cap w s h is
    obtain ⟨hs, hn, hle⟩ := multisig_initialise h
    exact throughout_consistent_iff multisigSigners (fun _ _ _ ht => multisig_change ht) hs hn hle
      is
  · intro env admin pusdToken ledgers cap w s h is
    obtain ⟨hs, hn, hle⟩ := burnMint_initialise h
    exact throughout_consistent_iff burnMintSigners (fun _ _ _ ht => burnMint_change ht) hs hn hle
      is

theorem signersConsistent_iff_nodup_sample :
    Throughout (BridgeMultisig.Contract.step (bookAsset Nat))
      (fun u => Consistent (multisigSigners u)) BridgeMultisig.Replay.sample
      [.call (Env.signed 0 1) (.addSigner 1 4), .call (Env.signed 0 2) (.removeSigner 1 2)] :=
  (signersConsistent_iff_nodup.1 BridgeMultisig.Replay.initialise_sample _).mpr (by decide)

/-- Both bridges count one signer twice that is named twice, and then ask for
two approvals where there is one signer. -/
theorem repeated_signer_counts_twice :
    (∃ s : BridgeMultisig.Contract.Storage Nat (Nat → Nat → Nat),
      BridgeMultisig.Contract.initialise (Env.signed 0 0) (.fresh fun _ _ => 0) 1 [2, 2] 2 0 10
        100 9 8 = .ok s ∧ ¬ Consistent (multisigSigners s)) ∧
    ∃ s : BridgeBurnMint.Contract.Storage Nat (Nat → Nat → Nat),
      BridgeBurnMint.Contract.initialise (Env.signed 0 0) (.fresh fun _ _ => 0) 1 [2, 2] 2 9 0
        10 = .ok s ∧ ¬ Consistent (burnMintSigners s) := by
  refine ⟨⟨_, rfl, fun h => ?_⟩, ⟨_, rfl, fun h => ?_⟩⟩
  · exact absurd h.count (by decide)
  · exact absurd h.count (by decide)

end Suban.Bridges.Signers
