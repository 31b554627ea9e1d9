import Suban.BridgeMultisig.Replay

namespace Suban.BridgeMultisig.Lifecycle

open Suban.Basis.Calls Suban.Basis.Tables Suban.Basis.Runs Suban.Soroban.Host
open Suban.BridgeMultisig.Contract Suban.BridgeMultisig.Transitions

variable {Address W : Type} [DecidableEq Address] {contract : Address}
variable {T : StellarAsset Address W} {env : Env Address contract} {s t : Storage Address W}

def paysFor (id : Nat) : Event Address → Bool
  | .mint proposalId _ _ _ | .release proposalId _ _ _ => proposalId = id
  | _ => false

def payments (s : Storage Address W) (id : Nat) : Nat := s.events.countP (paysFor id)

structure Sound (id : Nat) (p : Proposal Address) : Prop where
  id : p.id = id
  nodup : p.approvals.Nodup
  first : p.approvals.head? = some p.proposer
  live : p.status = .pending ∨ p.status = .executed
  executed : p.status = .executed ↔ p.executedAt.isSome = true

/-- The proposals are those filed so far, and each was paid at most once, none
of them before it was executed. -/
structure Orderly (s : Storage Address W) : Prop where
  ids : ∀ id, (s.proposal.lookup id).isSome = true ↔ id < s.proposalCount
  sound : ∀ id p, s.proposal.lookup id = some p → Sound id p
  paidOnce : ∀ id, payments s id ≤ 1
  paid : ∀ id, 0 < payments s id → ∃ p, s.proposal.lookup id = some p ∧ p.status = .executed

/-- What was proposed stays, and approvals are only added at the end. -/
structure Evolves (p q : Proposal Address) : Prop where
  id : q.id = p.id
  kind : q.kind = p.kind
  proposer : q.proposer = p.proposer
  target : q.target = p.target
  amount : q.amount = p.amount
  depositId : q.depositId = p.depositId
  createdAt : q.createdAt = p.createdAt
  approvals : p.approvals <+: q.approvals

/-- Every approval that the call adds is by a signer who has authorised it. -/
def Vetted (T : StellarAsset Address W) (s : Storage Address W) :
    Input Address W contract (Call Address) → Prop
  | .call env c => ∀ t, invoke T env s c = .ok t → ∀ id q a, t.proposal.lookup id = some q →
      a ∈ q.approvals → (∀ p, s.proposal.lookup id = some p → a ∉ p.approvals) →
      s.isSigner a = true ∧ env.auths a = true
  | .world _ => True

/-- A proposal that the call pays for has the approvals that the threshold asks
for, and is not too old. -/
def PaidInTime (T : StellarAsset Address W) (s : Storage Address W) :
    Input Address W contract (Call Address) → Prop
  | .call env c => ∀ t, invoke T env s c = .ok t → ∀ id, payments t id ≠ payments s id →
      ∃ q, t.proposal.lookup id = some q ∧ q.status = .executed ∧
        s.threshold ≤ q.approvals.length ∧ env.sequence ≤ q.createdAt + s.maxProposalAge
  | .world _ => True

omit [DecidableEq Address] in
theorem Evolves.refl (p : Proposal Address) : Evolves p p :=
  ⟨rfl, rfl, rfl, rfl, rfl, rfl, rfl, List.prefix_rfl⟩

omit [DecidableEq Address] in
theorem Evolves.trans {p q r : Proposal Address} (h : Evolves p q) (h' : Evolves q r) :
    Evolves p r where
  id := h'.id.trans h.id
  kind := h'.kind.trans h.kind
  proposer := h'.proposer.trans h.proposer
  target := h'.target.trans h.target
  amount := h'.amount.trans h.amount
  depositId := h'.depositId.trans h.depositId
  createdAt := h'.createdAt.trans h.createdAt
  approvals := h.approvals.trans h'.approvals

omit [DecidableEq Address] in
theorem evolves_voted (p : Proposal Address) (signer : Address) : Evolves p (voted p signer) :=
  ⟨rfl, rfl, rfl, rfl, rfl, rfl, rfl, List.prefix_append _ _⟩

omit [DecidableEq Address] in
theorem evolves_settled (p : Proposal Address) (signer : Address) (ledger : Nat) :
    Evolves p (settled p signer ledger) :=
  ⟨rfl, rfl, rfl, rfl, rfl, rfl, rfl, List.prefix_append _ _⟩

theorem payments_publish (s : Storage Address W) (e : Event Address) (id : Nat) :
    payments (s.publish e) id = payments s id + if paysFor id e then 1 else 0 := by
  simp only [payments, Storage.publish, List.countP_append, List.countP_singleton]

theorem payments_paid (env : Env Address contract) (s : Storage Address W) (p : Proposal Address)
    (w : W) (id : Nat) :
    payments (paid env s p w) id = payments s id + if p.id = id then 1 else 0 := by
  have hpays : paysFor id (payment p) = decide (p.id = id) := by
    unfold payment
    split <;> rfl
  rw [paid, payments_publish, hpays]
  simp only [decide_eq_true_eq]
  rfl

theorem voted_approvals {id : Nat} {p : Proposal Address} {signer : Address}
    (hv : Votes env s signer id p) (hp : Sound id p) :
    (p.approvals ++ [signer]).Nodup ∧ (p.approvals ++ [signer]).head? = some p.proposer := by
  refine ⟨?_, ?_⟩
  · rw [List.nodup_append]
    refine ⟨hp.nodup, List.nodup_singleton _, fun a ha b hb hab => ?_⟩
    cases List.mem_singleton.mp hb
    exact hv.notYet (hab ▸ ha)
  · rw [List.head?_append, hp.first]
    rfl

theorem sound_voted {id : Nat} {p : Proposal Address} {signer : Address}
    (hv : Votes env s signer id p) (hp : Sound id p) : Sound id (voted p signer) := by
  obtain ⟨hnodup, hfirst⟩ := voted_approvals hv hp
  exact ⟨hp.id, hnodup, hfirst, hp.live, hp.executed⟩

theorem sound_settled {id : Nat} {p : Proposal Address} {signer : Address}
    (hv : Votes env s signer id p) (hp : Sound id p) (ledger : Nat) :
    Sound id (settled p signer ledger) := by
  obtain ⟨hnodup, hfirst⟩ := voted_approvals hv hp
  exact ⟨hp.id, hnodup, hfirst, .inr rfl, iff_of_true rfl rfl⟩

theorem unpaid_of_pending {id : Nat} {p : Proposal Address} (hs : Orderly s)
    (hl : s.proposal.lookup id = some p) (hp : p.status = .pending) : payments s id = 0 := by
  by_contra hne
  obtain ⟨q, hq, hx⟩ := hs.paid id (Nat.pos_of_ne_zero hne)
  cases hl.symm.trans hq
  cases hp.symm.trans hx

theorem isSome_insert_old {id : Nat} {p q : Proposal Address} (hs : Orderly s)
    (hl : s.proposal.lookup id = some p) (j : Nat) :
    ((s.proposal.insert id q).lookup j).isSome = true ↔ j < s.proposalCount := by
  rw [isSome_lookup_insert, hs.ids]
  apply or_iff_right_of_imp
  rintro rfl
  exact (hs.ids j).mp (by rw [hl]; rfl)

theorem paid_insert {id : Nat} {q : Proposal Address} (hs : Orderly s)
    (hq : q.status = .executed ∨ payments s id = 0) (j : Nat) (hj : 0 < payments s j) :
    ∃ p, (s.proposal.insert id q).lookup j = some p ∧ p.status = .executed := by
  obtain ⟨p, hl, hp⟩ := hs.paid j hj
  by_cases h : j = id
  · subst h
    obtain hq | hq := hq
    · exact ⟨q, AList.lookup_insert _, hq⟩
    · omega
  · exact ⟨p, by rw [AList.lookup_insert_ne h]; exact hl, hp⟩

theorem payments_execute (env : Env Address contract) (s : Storage Address W) (signer : Address)
    (w : W) {id : Nat} {p : Proposal Address} (hp : Sound id p) (j : Nat) :
    payments { paid env (countVote s signer id p) (voted p signer) w with
      proposal := s.proposal.insert id (settled p signer env.sequence) } j =
      payments s j + if j = id then 1 else 0 := by
  have hvote : payments (countVote s signer id p) j = payments s j := payments_publish s _ j
  have hpaid := payments_paid env (countVote s signer id p) (voted p signer) w j
  have hid : (voted p signer).id = j ↔ j = id := by
    rw [show (voted p signer).id = id from hp.id]
    exact eq_comm
  rw [hvote] at hpaid
  simp only [hid] at hpaid
  exact hpaid

theorem orderly_transition {c : Call Address} (h : Transition T env s c t) (hs : Orderly s) :
    Orderly t := by
  cases h with
  | propose proposer kind target amount d hauth hsigner hpos hk hd hv hp =>
    have hunpaid : payments s s.proposalCount = 0 := by
      by_contra hne
      obtain ⟨p, hl, -⟩ := hs.paid _ (Nat.pos_of_ne_zero hne)
      exact lt_irrefl _ ((hs.ids _).mp (by rw [hl]; rfl))
    have hpayments := payments_publish s (.created s.proposalCount kind proposer target amount d)
    refine ⟨fun id => ?_, forall_insert ?_ hs.sound, fun id => ?_, fun id hid => ?_⟩
    · have hiff : id = s.proposalCount ∨ id < s.proposalCount ↔ id < s.proposalCount + 1 := by
        omega
      exact (isSome_lookup_insert.trans (or_congr_right (hs.ids id))).trans hiff
    · exact ⟨rfl, List.nodup_singleton _, rfl, .inl rfl, by simp⟩
    · exact (hpayments id).trans_le (hs.paidOnce id)
    · exact paid_insert hs (.inr hunpaid) id (lt_of_lt_of_eq hid (hpayments id))
  | vote signer id p hv hq =>
    have hp := hs.sound id p hv.lookup
    have hpayments := payments_publish s (.vote id signer (p.approvals.length + 1))
    refine ⟨isSome_insert_old hs hv.lookup, forall_insert (sound_voted hv hp) hs.sound,
      fun j => ?_, fun j hj => ?_⟩
    · exact (hpayments j).trans_le (hs.paidOnce j)
    · exact paid_insert hs (.inr (unpaid_of_pending hs hv.lookup hv.pending)) j
        (lt_of_lt_of_eq hj (hpayments j))
  | execute signer id p w hv hq hk hw =>
    have hp := hs.sound id p hv.lookup
    have hpayments := payments_execute env s signer w hp
    have hunpaid := unpaid_of_pending hs hv.lookup hv.pending
    refine ⟨isSome_insert_old hs hv.lookup, forall_insert (sound_settled hv hp _) hs.sound,
      fun j => ?_, fun j hj => ?_⟩
    · rw [hpayments]
      split
      next h => rw [h, hunpaid]
      next => exact hs.paidOnce j
    · rw [hpayments] at hj
      by_cases h : j = id
      · subst h
        exact ⟨_, AList.lookup_insert _, rfl⟩
      · rw [if_neg h] at hj
        exact paid_insert hs (.inl rfl) j hj
  | settle signer id p hv hq hk =>
    have hp := hs.sound id p hv.lookup
    have hpayments := payments_publish s (.vote id signer (p.approvals.length + 1))
    refine ⟨isSome_insert_old hs hv.lookup, forall_insert (sound_settled hv hp _) hs.sound,
      fun j => ?_, fun j hj => ?_⟩
    · exact (hpayments j).trans_le (hs.paidOnce j)
    · exact paid_insert hs (.inl rfl) j (lt_of_lt_of_eq hj (hpayments j))
  | setMaxProposalAge => exact ⟨hs.ids, hs.sound, hs.paidOnce, hs.paid⟩
  | _ =>
    refine ⟨hs.ids, hs.sound, fun j => ?_, fun j hj => ?_⟩
    · exact (payments_publish _ _ j).trans_le (hs.paidOnce j)
    · exact hs.paid j (lt_of_lt_of_eq hj (payments_publish _ _ j))

theorem evolves_insert {id : Nat} {p q : Proposal Address} (hl : s.proposal.lookup id = some p)
    (hpq : Evolves p q) (j : Nat) (r : Proposal Address) (hr : s.proposal.lookup j = some r) :
    ∃ r', (s.proposal.insert id q).lookup j = some r' ∧ Evolves r r' := by
  by_cases h : j = id
  · subst h
    cases hl.symm.trans hr
    exact ⟨q, AList.lookup_insert _, hpq⟩
  · exact ⟨r, by rw [AList.lookup_insert_ne h]; exact hr, .refl r⟩

theorem evolves_transition {c : Call Address} (h : Transition T env s c t) (hs : Orderly s)
    (id : Nat) (p : Proposal Address) (hl : s.proposal.lookup id = some p) :
    ∃ q, t.proposal.lookup id = some q ∧ Evolves p q := by
  cases h with
  | propose =>
    have hne : id ≠ s.proposalCount := ((hs.ids id).mp (by rw [hl]; rfl)).ne
    exact ⟨p, (AList.lookup_insert_ne hne).trans hl, .refl p⟩
  | vote signer k p' hv hq => exact evolves_insert hv.lookup (evolves_voted _ _) id p hl
  | execute signer k p' w hv => exact evolves_insert hv.lookup (evolves_settled _ _ _) id p hl
  | settle signer k p' hv => exact evolves_insert hv.lookup (evolves_settled _ _ _) id p hl
  | _ => exact ⟨p, hl, .refl p⟩

theorem vetted_vote {signer a : Address} {k id : Nat} {p q q' : Proposal Address}
    (hv : Votes env s signer k p) (hq' : q'.approvals = p.approvals ++ [signer])
    (hl : (s.proposal.insert k q').lookup id = some q) (ha : a ∈ q.approvals)
    (hnew : ∀ p, s.proposal.lookup id = some p → a ∉ p.approvals) :
    s.isSigner a = true ∧ env.auths a = true := by
  obtain ⟨rfl, rfl⟩ | ⟨-, hl⟩ := lookup_insert_eq_some.mp hl
  · rw [hq', List.mem_append, List.mem_singleton] at ha
    obtain rfl := ha.resolve_left (hnew p hv.lookup)
    exact ⟨hv.isSigner, hv.auth⟩
  · exact absurd ha (hnew q hl)

theorem vetted_transition {c : Call Address} (h : Transition T env s c t) {id : Nat}
    {q : Proposal Address} {a : Address} (hl : t.proposal.lookup id = some q)
    (ha : a ∈ q.approvals) (hnew : ∀ p, s.proposal.lookup id = some p → a ∉ p.approvals) :
    s.isSigner a = true ∧ env.auths a = true := by
  cases h with
  | propose proposer kind target amount d hauth hsigner =>
    obtain ⟨rfl, rfl⟩ | ⟨-, hl⟩ := lookup_insert_eq_some.mp hl
    · cases List.mem_singleton.mp ha
      exact ⟨hsigner, hauth⟩
    · exact absurd ha (hnew q hl)
  | vote signer k p hv hq => exact vetted_vote hv rfl hl ha hnew
  | execute signer k p w hv => exact vetted_vote hv rfl hl ha hnew
  | settle signer k p hv => exact vetted_vote hv rfl hl ha hnew
  | _ => exact absurd ha (hnew q hl)

theorem paidInTime_transition {c : Call Address} (h : Transition T env s c t) (hs : Orderly s)
    {id : Nat} (hne : payments t id ≠ payments s id) :
    ∃ q, t.proposal.lookup id = some q ∧ q.status = .executed ∧
      s.threshold ≤ q.approvals.length ∧ env.sequence ≤ q.createdAt + s.maxProposalAge := by
  cases h with
  | execute signer k p w hv hq hk hw =>
    have hpayments := payments_execute env s signer w (hs.sound k p hv.lookup) id
    have hid : id = k := by
      by_contra h
      rw [if_neg h] at hpayments
      exact hne hpayments
    subst hid
    have hlen : (settled p signer env.sequence).approvals.length = p.approvals.length + 1 :=
      List.length_append
    exact ⟨_, AList.lookup_insert _, rfl, hlen.symm ▸ hq, hv.inTime⟩
  | setMaxProposalAge => exact absurd rfl hne
  | _ => exact absurd (payments_publish _ _ id) hne

theorem orderly_step {i : Input Address W contract (Call Address)} (h : step T s i = .ok t)
    (hs : Orderly s) : Orderly t := by
  cases i with
  | call env c => exact orderly_transition (invoke_transition h) hs
  | world w =>
    cases pure_eq_ok.mp h
    exact ⟨hs.ids, hs.sound, hs.paidOnce, hs.paid⟩

theorem evolves_step {i : Input Address W contract (Call Address)} (h : step T s i = .ok t)
    (hs : Orderly s) (id : Nat) (p : Proposal Address) (hl : s.proposal.lookup id = some p) :
    ∃ q, t.proposal.lookup id = some q ∧ Evolves p q := by
  cases i with
  | call env c => exact evolves_transition (invoke_transition h) hs id p hl
  | world w =>
    cases pure_eq_ok.mp h
    exact ⟨p, hl, .refl p⟩

theorem evolves_run {is : List (Input Address W contract (Call Address))} (hs : Orderly s)
    {id : Nat} {p : Proposal Address} (hl : s.proposal.lookup id = some p) :
    ∃ q, (run (step T) s is).proposal.lookup id = some q ∧ Evolves p q := by
  have hstep : ∀ u (i : Input Address W contract (Call Address)) t,
      (Orderly u ∧ ∃ q, u.proposal.lookup id = some q ∧ Evolves p q) → True →
      step T u i = .ok t → Orderly t ∧ ∃ q, t.proposal.lookup id = some q ∧ Evolves p q := by
    rintro u i t ⟨hu, q, hq, hpq⟩ - ht
    obtain ⟨r, hr, hqr⟩ := evolves_step ht hu id q hq
    exact ⟨orderly_step ht hu, r, hr, hpq.trans hqr⟩
  exact (throughout_run (throughout_of_along hstep ⟨hs, p, hl, .refl p⟩ (along_true s is))).2

theorem orderly_initialise {admin wpiToken usdcToken : Address} {signers : List Address}
    {threshold volumeWindowLedgers maxProposalAge : Nat} {volumeCap : Int} {w : W}
    (h : initialise env (.fresh w) admin signers threshold volumeCap volumeWindowLedgers
      maxProposalAge wpiToken usdcToken = .ok s) : Orderly s := by
  simp only [initialise, bind_eq_ok, pure_eq_ok] at h
  obtain ⟨_, -, _, -, _, -, rfl⟩ := h
  have hpayments (id : Nat) := payments_publish (.fresh w : Storage Address W)
    (.init admin threshold signers.length) id
  refine ⟨fun id => ?_, fun id p hp => ?_, fun id => ?_, fun id hid => ?_⟩
  · exact iff_of_false Bool.false_ne_true (Nat.not_lt_zero id)
  · cases hp
  · exact (hpayments id).trans_le (Nat.zero_le 1)
  · exact absurd (lt_of_lt_of_eq hid (hpayments id)) (lt_irrefl 0)

/-- In every run the proposals are filed in order and kept as proposed, each
collects approvals of signers who have authorised them, and each is paid once at
most, by its quorum and in time. -/
theorem proposals_orderly {admin wpiToken usdcToken : Address} {signers : List Address}
    {threshold volumeWindowLedgers maxProposalAge : Nat} {volumeCap : Int} {w : W}
    (h : initialise env (.fresh w) admin signers threshold volumeCap volumeWindowLedgers
      maxProposalAge wpiToken usdcToken = .ok s)
    (is : List (Input Address W contract (Call Address))) :
    Throughout (step T) Orderly s is ∧
      (∀ (js : List (Input Address W contract (Call Address))) id p,
        (run (step T) s is).proposal.lookup id = some p →
        ∃ q, (run (step T) (run (step T) s is) js).proposal.lookup id = some q ∧ Evolves p q) ∧
      Along (step T) (Vetted T) s is ∧ Along (step T) (PaidInTime T) s is := by
  have hall : Throughout (step T) Orderly s is :=
    throughout_of_along (fun _ _ _ hu _ ht => orderly_step ht hu) (orderly_initialise h)
      (along_true s is)
  refine ⟨hall, fun js id p hl => evolves_run (throughout_run hall) hl, ?_, ?_⟩
  · refine along_of_throughout (fun u i t hu _ ht => ?_) hall (along_true s is)
    cases i with
    | call env c => exact fun t ht _ _ _ => vetted_transition (invoke_transition ht)
    | world w => trivial
  · refine along_of_throughout (fun u i t hu _ ht => ?_) hall (along_true s is)
    cases i with
    | call env c => exact fun t ht _ => paidInTime_transition (invoke_transition ht) hu
    | world w => trivial

theorem proposals_orderly_sample :
    Throughout (step (bookAsset Nat)) Orderly Replay.sample
      [.call (Env.signed 0 1) (.propose 2 .mintWpi 5 40 Replay.sampleDeposit),
        .call (Env.signed 0 2) (.approve 3 0)] :=
  (proposals_orderly Replay.initialise_sample _).1

end Suban.BridgeMultisig.Lifecycle
