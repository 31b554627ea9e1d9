import Suban.BridgeMultisig.Replay
import Suban.Soroban.Ledgers

namespace Suban.BridgeMultisig.Deadlines

open Suban.Basis.Calls Suban.Basis.Tables Suban.Basis.Runs Suban.Soroban.Host Suban.Soroban.Ledgers
open Suban.BridgeMultisig.Contract Suban.BridgeMultisig.Transitions Suban.BridgeMultisig.Replay

variable {Address W : Type} [DecidableEq Address] {contract : Address}
variable {T : StellarAsset Address W} {env : Env Address contract} {s t : Storage Address W}
variable {n id : Nat}

def Waits (s : Storage Address W) (ledger : Nat) (p : Proposal Address) : Prop :=
  p.status = .pending ∧ ledger ≤ p.createdAt + s.maxProposalAge

/-- No proposal waits with as many approvals as the threshold asks for. -/
def NoneMet (x : Storage Address W × Nat) : Prop :=
  ∀ id p, x.1.proposal.lookup id = some p → Waits x.1 x.2 p → p.approvals.length < x.1.threshold

/-- The call does not meet a quorum without completing it: one approval is not
enough when a deposit is proposed, a new threshold is above the approvals that
are there, and so is the threshold where a new age limit revives a proposal. -/
def QuorumAhead (x : Storage Address W × Nat) : Input Address W contract (Call Address) → Prop
  | .call _ (.propose ..) => 1 < x.1.threshold
  | .call env (.setThreshold _ threshold) => ∀ id p, x.1.proposal.lookup id = some p →
      Waits x.1 env.sequence p → p.approvals.length < threshold
  | .call env (.setMaxProposalAge _ age) => ∀ id p, x.1.proposal.lookup id = some p →
      p.status = .pending → env.sequence ≤ p.createdAt + age →
      p.approvals.length < x.1.threshold
  | _ => True

/-- The proposal was not executed and is too old to be. -/
def Expired (id : Nat) (x : Storage Address W × Nat) : Prop :=
  ∃ p, x.1.proposal.lookup id = some p ∧ p.status = .pending ∧
    p.createdAt + x.1.maxProposalAge < x.2

def KeptExpired (id : Nat) (x : Storage Address W × Nat) :
    Input Address W contract (Call Address) → Prop
  | .call env (.setMaxProposalAge _ age) => ∀ p, x.1.proposal.lookup id = some p →
      p.createdAt + age < env.sequence
  | _ => True

def NotExecuted (id : Nat) (s : Storage Address W) : Prop :=
  ∀ p, s.proposal.lookup id = some p → p.status ≠ .executed

theorem waits_mono {m : Nat} {p : Proposal Address} (hle : n ≤ m) (h : Waits s m p) :
    Waits s n p :=
  ⟨h.1, hle.trans h.2⟩

theorem noneMet_mono {m : Nat} (hle : n ≤ m) (h : NoneMet (s, n)) : NoneMet (s, m) :=
  fun id p hl hw => h id p hl (waits_mono hle hw)

theorem noneMet_transition {c : Call Address} (h : Transition T env s c t)
    (hle : n ≤ env.sequence) (hs : NoneMet (s, n)) :
    NoneMet (t, env.sequence) ↔ QuorumAhead (s, n) (.call env c) := by
  have hnow : NoneMet (s, env.sequence) := noneMet_mono hle hs
  cases h with
  | propose proposer kind target amount d =>
    refine ⟨fun ht => ?_, fun ht => ?_⟩
    · exact ht s.proposalCount _ (AList.lookup_insert _) ⟨rfl, Nat.le_add_right _ _⟩
    · exact forall_insert (fun _ => ht) hnow
  | vote signer id p hv hq =>
    refine iff_of_true (forall_insert (fun _ => ?_) hnow) trivial
    exact List.length_append.trans_lt hq
  | execute signer id p w hv hq hk hw =>
    refine iff_of_true (forall_insert (fun hw => ?_) hnow) trivial
    cases hw.1
  | settle signer id p hv hq hk =>
    refine iff_of_true (forall_insert (fun hw => ?_) hnow) trivial
    cases hw.1
  | setThreshold admin threshold => exact Iff.rfl
  | setMaxProposalAge admin age =>
    exact ⟨fun ht id p hl hp hage => ht id p hl ⟨hp, hage⟩,
      fun ht id p hl hw => ht id p hl hw.1 hw.2⟩
  | _ => exact iff_of_true hnow trivial

theorem noneMet_step {x y : Storage Address W × Nat} {i : Input Address W contract (Call Address)}
    (h : noted (step T) clock x i = .ok y) (hi : OnTime x.2 i) (hx : NoneMet x) :
    NoneMet y ↔ QuorumAhead x i := by
  obtain ⟨t, hstep, rfl⟩ := noted_eq_ok.mp h
  cases i with
  | call env c => exact noneMet_transition (invoke_transition hstep) hi hx
  | world w =>
    cases pure_eq_ok.mp hstep
    exact iff_of_true hx trivial

/-- No proposal is left waiting with a quorum exactly when every accepted call
keeps the quorums ahead. -/
theorem noneMet_iff_quorumAhead {admin wpiToken usdcToken : Address} {signers : List Address}
    {threshold volumeWindowLedgers maxProposalAge : Nat} {volumeCap : Int} {w : W}
    (h : initialise env (.fresh w) admin signers threshold volumeCap volumeWindowLedgers
      maxProposalAge wpiToken usdcToken = .ok s)
    (is : List (Input Address W contract (Call Address))) (horder : InOrder env.sequence is) :
    Throughout (noted (step T) clock) NoneMet (s, env.sequence) is ↔
      Along (noted (step T) clock) QuorumAhead (s, env.sequence) is := by
  have hstart : NoneMet (s, env.sequence) := by
    intro id p hl
    rw [(initialise_ok h).1] at hl
    cases hl
  exact throughout_iff_along_self (fun x i y hx hi hy => noneMet_step hy hi hx) hstart
    (along_onTime (L := fun n => n) (fun _ _ => rfl) horder)

theorem noneMet_iff_quorumAhead_sample :
    Throughout (noted (step (bookAsset Nat)) clock) NoneMet (sample, 0)
      [.call (Env.signed 0 1) (.propose 2 .mintWpi 5 40 sampleDeposit),
        .call (Env.signed 0 2) (.approve 3 0)] := by
  refine (noneMet_iff_quorumAhead initialise_sample _ ?_).mpr ?_
  · exact ⟨Nat.zero_le _, by decide, trivial⟩
  · exact ⟨fun _ _ => Nat.one_lt_two, fun _ _ => trivial, trivial⟩

def sampleSole : Storage Nat (Nat → Nat → Nat) :=
  { sample with
    signer := (∅ : Table Nat Bool).insert 2 true
    signerCount := 1
    threshold := 1
    events := [.init 1 1 1] }

/-- The proposal of the only signer waits with its quorum, and nobody is left to
approve it. -/
theorem quorum_met_but_pending :
    ∃ s : Storage Nat (Nat → Nat → Nat),
      initialise (Env.signed 0 0) (.fresh fun _ _ => 0) 1 [2] 1 0 10 100 9 8 = .ok s ∧
      ¬ Throughout (noted (step (bookAsset Nat)) clock) NoneMet (s, 0)
        [.call (Env.signed 0 1) (.propose 2 .mintWpi 5 40 sampleDeposit)] ∧
      approve (bookAsset Nat) (Env.signed 0 2) (run (step (bookAsset Nat)) s
        [.call (Env.signed 0 1) (.propose 2 .mintWpi 5 40 sampleDeposit)]) 2 0 =
          .error (.error .duplicateApproval) := by
  refine ⟨sampleSole, rfl, fun h => ?_, rfl⟩
  have hmet := throughout_run h 0 _ rfl ⟨rfl, by decide⟩
  exact absurd hmet (by decide)

theorem executeProposal_ne_error (p : Proposal Address) (e : BridgeError) :
    executeProposal T env s p ≠ .error (.error e) := by
  unfold executeProposal addVolume
  split <;> simp only [ne_eq, bind_eq_error, checkedUInt_ne_error, checked_ne_error,
    unwrap_ne_error, pure_ne_error, and_false, exists_false, or_false, not_false_eq_true]

theorem expired_of_refused {signer : Address}
    (h : approve T env s signer id = .error (.error .proposalExpired)) :
    Expired id (s, env.sequence) := by
  simp only [approve, Storage.getProposal, bind_eq_error, requireAuth, panicIf_ne_error,
    rejectIf_eq_error, rejectIf_eq_ok, checkedUInt_ne_error, checkedUInt_eq_ok, okOr_eq_ok,
    reduceCtorEq, and_false, and_true, false_or] at h
  obtain ⟨_, -, _, -, hnone | ⟨p, hl, _, hp, _, ⟨-, rfl⟩, hlate | ⟨_, -, _, -, hrest⟩⟩⟩ := h
  · unfold okOr at hnone
    split at hnone <;> cases hnone
  · exact ⟨p, hl, not_not.mp hp, hlate⟩
  · split at hrest
    · simp only [bind_eq_error, executeProposal_ne_error, pure_ne_error, and_false, exists_false,
        or_false] at hrest
    · exact absurd hrest (pure_ne_error _ _)

theorem expired_transition {c : Call Address} (h : Transition T env s c t) (hf : Filed s)
    (hle : n ≤ env.sequence) (hs : Expired id (s, n)) :
    Expired id (t, env.sequence) ↔ KeptExpired id (s, n) (.call env c) := by
  obtain ⟨p, hl, hp, hold⟩ := hs
  have hnow : Expired id (s, env.sequence) := ⟨p, hl, hp, hold.trans_le hle⟩
  -- whatever is voted on is another proposal
  have hother {signer : Address} {k : Nat} {q : Proposal Address} (hv : Votes env s signer k q)
      (r : Proposal Address) : (s.proposal.insert k r).lookup id = some p := by
    refine (AList.lookup_insert_ne ?_).trans hl
    rintro rfl
    cases hl.symm.trans hv.lookup
    exact absurd (hold.trans_le hle) (not_lt.mpr hv.inTime)
  cases h with
  | propose proposer kind target amount d =>
    have hne : id ≠ s.proposalCount := by
      rintro rfl
      cases hl.symm.trans (lookup_proposalCount hf)
    exact iff_of_true ⟨p, (AList.lookup_insert_ne hne).trans hl, hp, hold.trans_le hle⟩ trivial
  | vote signer k q hv hq => exact iff_of_true ⟨p, hother hv _, hp, hold.trans_le hle⟩ trivial
  | execute signer k q w hv => exact iff_of_true ⟨p, hother hv _, hp, hold.trans_le hle⟩ trivial
  | settle signer k q hv => exact iff_of_true ⟨p, hother hv _, hp, hold.trans_le hle⟩ trivial
  | setMaxProposalAge admin age =>
    refine ⟨?_, fun hkept => ⟨p, hl, hp, hkept p hl⟩⟩
    rintro ⟨q, hq, -, hage⟩ r hr
    cases hq.symm.trans hr
    exact hage
  | _ => exact iff_of_true hnow trivial

theorem expired_step {x y : Storage Address W × Nat} {i : Input Address W contract (Call Address)}
    (h : noted (step T) clock x i = .ok y) (hf : Filed x.1) (hi : OnTime x.2 i)
    (hx : Expired id x) : Expired id y ↔ KeptExpired id x i := by
  obtain ⟨t, hstep, rfl⟩ := noted_eq_ok.mp h
  cases i with
  | call env c => exact expired_transition (invoke_transition hstep) hf hi hx
  | world w =>
    cases pure_eq_ok.mp hstep
    exact iff_of_true hx trivial

theorem notExecuted_of_expired {x : Storage Address W × Nat} (h : Expired id x) :
    NotExecuted id x.1 := by
  obtain ⟨p, hl, hp, -⟩ := h
  intro q hq hx
  cases hl.symm.trans hq
  cases hp.symm.trans hx

/-- After an approval was refused because the proposal had expired, the proposal
stays expired for as long as every new age limit leaves it so, and as long it is
not executed. -/
theorem expired_iff_keptExpired {env' : Env Address contract}
    {admin wpiToken usdcToken signer : Address} {signers : List Address}
    {threshold volumeWindowLedgers maxProposalAge : Nat} {volumeCap : Int} {w : W}
    (h : initialise env (.fresh w) admin signers threshold volumeCap volumeWindowLedgers
      maxProposalAge wpiToken usdcToken = .ok s)
    (is : List (Input Address W contract (Call Address)))
    (hrefused : approve T env' (run (step T) s is) signer id = .error (.error .proposalExpired))
    (js : List (Input Address W contract (Call Address))) (horder : InOrder env'.sequence js) :
    (Throughout (noted (step T) clock) (Expired id) (run (step T) s is, env'.sequence) js ↔
      Along (noted (step T) clock) (KeptExpired id) (run (step T) s is, env'.sequence) js) ∧
    (Along (noted (step T) clock) (KeptExpired id) (run (step T) s is, env'.sequence) js →
      Throughout (step T) (NotExecuted id) (run (step T) s is) js) := by
  have hfiled : Filed (run (step T) s is) := filed_run (filed_initialise h) is
  have hiff : Throughout (noted (step T) clock) (Expired id) (run (step T) s is, env'.sequence) js ↔
      Along (noted (step T) clock) (KeptExpired id) (run (step T) s is, env'.sequence) js := by
    refine throughout_iff_along (J := fun x => Filed x.1) (fun x i y hf hx hi hy => ?_)
      hfiled (expired_of_refused hrefused)
      (along_onTime (L := fun n => n) (fun _ _ => rfl) horder)
    refine ⟨expired_step hy hf hi hx, fun _ => ?_⟩
    obtain ⟨t, ht, rfl⟩ := noted_eq_ok.mp hy
    exact filed_step ht hf
  refine ⟨hiff, fun hkept => ?_⟩
  exact throughout_noted.mp (throughout_mono (fun x => notExecuted_of_expired) (hiff.mpr hkept))

def proposedOnce : Storage Nat (Nat → Nat → Nat) :=
  run (step (bookAsset Nat)) sample
    [.call (Env.signed 0 1) (.propose 2 .mintWpi 5 40 sampleDeposit)]

theorem expired_iff_keptExpired_sample :
    Throughout (step (bookAsset Nat)) (NotExecuted 0) proposedOnce
      [.call (Env.signed 0 201) (.setThreshold 1 1), .call (Env.signed 0 202) (.approve 3 0)] := by
  have hrefused : approve (bookAsset Nat) (Env.signed 0 200) proposedOnce 3 0 =
      .error (.error .proposalExpired) := rfl
  refine (expired_iff_keptExpired initialise_sample _ hrefused _ ?_).2 ?_
  · exact ⟨by decide, by decide, trivial⟩
  · exact ⟨fun _ _ => trivial, fun _ _ => trivial, trivial⟩

/-- A longer age limit brings the proposal back, and it is executed. -/
theorem expired_proposal_executes :
    ∃ s : Storage Nat (Nat → Nat → Nat),
      initialise (Env.signed 0 0) (.fresh fun _ _ => 0) 1 [2, 3] 2 0 10 100 9 8 = .ok s ∧
      run (step (bookAsset Nat)) s
        [.call (Env.signed 0 1) (.propose 2 .mintWpi 5 40 sampleDeposit)] = proposedOnce ∧
      approve (bookAsset Nat) (Env.signed 0 200) proposedOnce 3 0 =
        .error (.error .proposalExpired) ∧
      ¬ Throughout (step (bookAsset Nat)) (NotExecuted 0) proposedOnce
        [.call (Env.signed 0 201) (.setMaxProposalAge 1 1000),
          .call (Env.signed 0 202) (.approve 3 0)] := by
  refine ⟨sample, rfl, rfl, rfl, fun h => ?_⟩
  exact throughout_run h _ rfl rfl

end Suban.BridgeMultisig.Deadlines
