import Suban.Basis.Tables
import Suban.BridgeMultisig.Lifecycle

namespace Suban.BridgeMultisig.Quorum

open Suban.Basis.Calls Suban.Basis.Tables Suban.Basis.Runs Suban.Soroban.Host
open Suban.BridgeMultisig.Contract Suban.BridgeMultisig.Transitions Suban.BridgeMultisig.Steps
open Suban.BridgeMultisig.Replay Suban.BridgeMultisig.Lifecycle

variable {Address W : Type} [DecidableEq Address] {contract : Address}
variable {T : StellarAsset Address W} {env : Env Address contract} {s t : Storage Address W}

/-- As many signers as the threshold asks for, all different, have approved. -/
def SignerQuorum (s : Storage Address W) (p : Proposal Address) : Prop :=
  ∃ S : Finset Address, s.threshold ≤ S.card ∧
    ∀ a ∈ S, s.isSigner a = true ∧ a ∈ p.approvals

/-- The step executes the proposal that is then on file under the id. -/
def Executes (s t : Storage Address W) (id : Nat) (q : Proposal Address) : Prop :=
  t.proposal.lookup id = some q ∧ q.status = .executed ∧
    ∀ p, s.proposal.lookup id = some p → p.status ≠ .executed

/-- Whatever the call executes is approved by a quorum of the signers there
are at that moment. -/
def ExecutesByQuorum (T : StellarAsset Address W) (s : Storage Address W) :
    Input Address W contract (Call Address) → Prop
  | .call env c => ∀ t, invoke T env s c = .ok t → ∀ id q, Executes s t id q → SignerQuorum s q
  | .world _ => True

def removedApprovals (s : Storage Address W) (p : Proposal Address) : Nat :=
  p.approvals.countP (fun a => !s.isSigner a)

/-- A quorum that completes reaches the threshold without the approvals of
signers who were removed. -/
def ReachedWithoutRemoved (s : Storage Address W) :
    Input Address W contract (Call Address) → Prop
  | .call _ c => ∀ p, Completes s p c →
      s.threshold + removedApprovals s p ≤ p.approvals.length + 1
  | .world _ => True

/-- No signer is removed while a pending proposal has its approval. -/
def KeepsApprovers (s : Storage Address W) : Input Address W contract (Call Address) → Prop
  | .call _ (.removeSigner _ a) => ∀ id p, s.proposal.lookup id = some p →
      p.status = .pending → a ∉ p.approvals
  | _ => True

theorem signerQuorum_iff {p : Proposal Address} (hp : p.approvals.Nodup) :
    SignerQuorum s p ↔ s.threshold ≤ p.approvals.countP s.isSigner :=
  exists_card_iff hp s.isSigner s.threshold

/-- The voter is a signer, so the quorum is there when those who approved
before and remain are one fewer. -/
theorem signerQuorum_settled {signer : Address} {id ledger : Nat} {p : Proposal Address}
    (hv : Votes env s signer id p) (hp : Sound id p) :
    SignerQuorum s (settled p signer ledger) ↔
      s.threshold + removedApprovals s p ≤ p.approvals.length + 1 := by
  rw [signerQuorum_iff (sound_settled hv hp ledger).nodup]
  have hcount : (settled p signer ledger).approvals.countP s.isSigner =
      p.approvals.countP s.isSigner + 1 := by
    simp [settled, voted, List.countP_append, hv.isSigner]
  have hsplit := List.length_eq_countP_add_countP s.isSigner (l := p.approvals)
  have hremoved : removedApprovals s p = p.approvals.countP (fun a => ¬ s.isSigner a = true) := by
    simp [removedApprovals]
  rw [hcount, hremoved]
  omega

theorem executes_insert {id k : Nat} {q q' : Proposal Address} (hx : Executes s t id q)
    (ht : t.proposal = s.proposal.insert k q') : id = k ∧ q' = q := by
  obtain ⟨hl, hq, hnot⟩ := hx
  rw [ht] at hl
  obtain hwritten | ⟨-, hl⟩ := lookup_insert_eq_some.mp hl
  · exact hwritten
  · exact absurd hq (hnot q hl)

/-- What a transition executes is the proposal whose quorum it completes. -/
theorem executes_transition {c : Call Address} (h : Transition T env s c t) {id : Nat}
    {q : Proposal Address} (hx : Executes s t id q) :
    ∃ signer p, Votes env s signer id p ∧ Completes s p c ∧
      q = settled p signer env.sequence := by
  have hq := hx.2.1
  cases h with
  | propose =>
    obtain ⟨rfl, rfl⟩ := executes_insert hx rfl
    cases hq
  | vote signer k p hv =>
    obtain ⟨rfl, rfl⟩ := executes_insert hx rfl
    cases hv.pending.symm.trans hq
  | execute signer k p w hv hquorum =>
    obtain ⟨rfl, rfl⟩ := executes_insert hx rfl
    exact ⟨signer, p, hv, ⟨hv.lookup, hquorum⟩, rfl⟩
  | settle signer k p hv hquorum =>
    obtain ⟨rfl, rfl⟩ := executes_insert hx rfl
    exact ⟨signer, p, hv, ⟨hv.lookup, hquorum⟩, rfl⟩
  | _ => exact absurd hq (hx.2.2 q hx.1)

theorem executes_of_completes {c : Call Address} (h : Transition T env s c t)
    {p : Proposal Address} (hc : Completes s p c) :
    ∃ signer id, Votes env s signer id p ∧ Executes s t id (settled p signer env.sequence) := by
  have hnot {signer : Address} {id : Nat} (hv : Votes env s signer id p) (q : Proposal Address)
      (hq : s.proposal.lookup id = some q) : q.status ≠ .executed := by
    cases hv.lookup.symm.trans hq
    rw [hv.pending]
    simp
  cases h with
  | vote signer id q hv hopen =>
    cases hv.lookup.symm.trans hc.1
    exact absurd hc.2 (not_le.mpr hopen)
  | execute signer id q w hv =>
    cases hv.lookup.symm.trans hc.1
    exact ⟨signer, id, hv, AList.lookup_insert _, rfl, hnot hv⟩
  | settle signer id q hv =>
    cases hv.lookup.symm.trans hc.1
    exact ⟨signer, id, hv, AList.lookup_insert _, rfl, hnot hv⟩
  | _ => exact hc.elim

theorem executesByQuorum_call {c : Call Address} (h : invoke T env s c = .ok t)
    (hs : Orderly s) :
    ExecutesByQuorum T s (.call env c) ↔ ReachedWithoutRemoved s (.call env c) := by
  refine ⟨?_, ?_⟩
  · intro hx p hc
    obtain ⟨signer, id, hv, hexec⟩ := executes_of_completes (invoke_transition h) hc
    exact (signerQuorum_settled hv (hs.sound id p hv.lookup)).mp (hx t h id _ hexec)
  · intro hreached u hu id q hexec
    obtain ⟨signer, p, hv, hc, rfl⟩ := executes_transition (invoke_transition hu) hexec
    exact (signerQuorum_settled hv (hs.sound id p hv.lookup)).mpr (hreached p hc)

def ApprovedBySigners (s : Storage Address W) : Prop :=
  ∀ id p, s.proposal.lookup id = some p → p.status = .pending → ∀ a ∈ p.approvals,
    s.isSigner a = true

theorem approvedBySigners_transition {c : Call Address} (h : Transition T env s c t)
    (hc : KeepsApprovers s (.call env c)) (hs : ApprovedBySigners s) : ApprovedBySigners t := by
  cases h with
  | propose proposer kind target amount d hauth hsigner =>
    refine forall_insert (fun _ a ha => ?_) hs
    cases List.mem_singleton.mp ha
    exact hsigner
  | vote signer id p hv hq =>
    refine forall_insert (fun _ a ha => ?_) hs
    obtain ha | ha := List.mem_append.mp ha
    · exact hs id p hv.lookup hv.pending a ha
    · cases List.mem_singleton.mp ha
      exact hv.isSigner
  | execute signer id p w hv => exact forall_insert (fun hp => by cases hp) hs
  | settle signer id p hv => exact forall_insert (fun hp => by cases hp) hs
  | addSigner admin b ha hnew =>
    intro id p hl hp a hmem
    have hold := hs id p hl hp a hmem
    apply (readOr_insert _ _ _ _ _).trans
    split
    · rfl
    · exact hold
  | removeSigner admin b ha hold =>
    intro id p hl hp a hmem
    have hne : a ≠ b := by
      rintro rfl
      exact hc id p hl hp hmem
    exact (readOr_insert _ _ _ _ _).trans ((if_neg hne).trans (hs id p hl hp a hmem))
  | _ => exact hs

theorem approvedBySigners_step {i : Input Address W contract (Call Address)}
    (h : step T s i = .ok t) (hi : KeepsApprovers s i) (hs : ApprovedBySigners s) :
    ApprovedBySigners t := by
  cases i with
  | call env c => exact approvedBySigners_transition (invoke_transition h) hi hs
  | world w =>
    cases pure_eq_ok.mp h
    exact hs

theorem reached_of_approvedBySigners {i : Input Address W contract (Call Address)}
    (h : step T s i = .ok t) (hs : ApprovedBySigners s) : ReachedWithoutRemoved s i := by
  cases i with
  | world w => trivial
  | call env c =>
    intro p hc
    obtain ⟨signer, id, hv, -⟩ := executes_of_completes (invoke_transition h) hc
    have hnone : removedApprovals s p = 0 := by
      refine List.countP_eq_zero.mpr fun a ha => ?_
      simp [hs id p hv.lookup hv.pending a ha]
    have hquorum : s.threshold ≤ p.approvals.length + 1 := by
      cases c with
      | approve signer id => exact hc.2
      | _ => exact hc.elim
    rwa [hnone, add_zero]

/-- All that a run executes is approved by a quorum of the signers there are at
that moment, exactly when every quorum that completes in it does without the
approvals of removed signers. That is so in every run that removes no signer whose
approval is on a pending proposal. -/
theorem executesByQuorum_iff {admin wpiToken usdcToken : Address} {signers : List Address}
    {threshold volumeWindowLedgers maxProposalAge : Nat} {volumeCap : Int} {w : W}
    (h : initialise env (.fresh w) admin signers threshold volumeCap volumeWindowLedgers
      maxProposalAge wpiToken usdcToken = .ok s)
    (is : List (Input Address W contract (Call Address))) :
    (Along (step T) (ExecutesByQuorum T) s is ↔ Along (step T) ReachedWithoutRemoved s is) ∧
      (Along (step T) KeepsApprovers s is → Along (step T) (ExecutesByQuorum T) s is) := by
  have hiff : Along (step T) (ExecutesByQuorum T) s is ↔
      Along (step T) ReachedWithoutRemoved s is := by
    refine along_congr (E := fun _ _ => True) (fun _ _ _ hu _ ht => orderly_step ht hu)
      (fun u i t hu _ ht => ?_) (orderly_initialise h) (along_true s is)
    cases i with
    | call env c => exact executesByQuorum_call ht hu
    | world w => exact Iff.rfl
  refine ⟨hiff, fun hkeep => hiff.mpr ?_⟩
  have hsigned : ApprovedBySigners s := by
    intro id p hl
    rw [(initialise_ok h).1] at hl
    cases hl
  exact along_of_throughout (fun _ _ _ hu _ ht => reached_of_approvedBySigners ht hu)
    (throughout_of_along (fun _ _ _ hu hi ht => approvedBySigners_step ht hi hu) hsigned hkeep)
    hkeep

theorem executesByQuorum_iff_sample :
    Along (step (bookAsset Nat)) (ExecutesByQuorum (bookAsset Nat)) sample
      [.call (Env.signed 0 1) (.propose 2 .mintWpi 5 40 sampleDeposit),
        .call (Env.signed 0 2) (.approve 3 0)] := by
  apply (executesByQuorum_iff initialise_sample _).2
  exact ⟨fun _ _ => trivial, fun _ _ => trivial, trivial⟩

def sampleTrio : Storage Nat (Nat → Nat → Nat) :=
  { sample with
    signer := [2, 3, 4].foldl (fun t a => t.insert a true) ∅
    signerCount := 3
    events := [.init 1 2 3] }

def sampleRemoval : List (Input Nat (Nat → Nat → Nat) 0 (Call Nat)) :=
  [.call (Env.signed 0 1) (.propose 2 .mintWpi 5 40 sampleDeposit),
    .call (Env.signed 0 2) (.removeSigner 1 2)]

def sampleRemoved : Storage Nat (Nat → Nat → Nat) :=
  run (step (bookAsset Nat)) sampleTrio sampleRemoval

def sampleSettled : Proposal Nat :=
  ⟨0, .mintWpi, 2, 5, 40, sampleDeposit, [2, 3], .executed, 1, some 3⟩

/-- The proposer is removed, and its approval still counts: one signer is
enough. -/
theorem removed_signer_still_counts :
    ∃ s : Storage Nat (Nat → Nat → Nat),
      initialise (Env.signed 0 0) (.fresh fun _ _ => 0) 1 [2, 3, 4] 2 0 10 100 9 8 = .ok s ∧
      ¬ Along (step (bookAsset Nat)) (ExecutesByQuorum (bookAsset Nat)) s
        (sampleRemoval ++ [.call (Env.signed 0 3) (.approve 3 0)]) := by
  refine ⟨sampleTrio, rfl, fun h => ?_⟩
  have hok : (invoke (bookAsset Nat) (Env.signed 0 3) sampleRemoved (.approve 3 0)).isOk = true :=
    rfl
  obtain ⟨t, ht⟩ := exists_of_isOk hok
  have hexec : Executes sampleRemoved t 0 sampleSettled := by
    cases ht
    refine ⟨rfl, rfl, fun p hp => ?_⟩
    cases hp
    decide
  have hquorum := h.2.2.1 t ht t ht 0 sampleSettled hexec
  rw [signerQuorum_iff (by decide)] at hquorum
  revert hquorum
  decide

end Suban.BridgeMultisig.Quorum
