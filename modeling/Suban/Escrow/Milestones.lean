import Suban.Escrow.Custody

namespace Suban.Escrow.Milestones

open Suban.Basis.Calls Suban.Basis.Tables Suban.Basis.Runs Suban.Soroban.Host Suban.Hub.Types
open Suban.Escrow.Contract Suban.Escrow.Transitions

variable {Address W : Type} {contract : Address} {env : Env Address contract}
variable {s t : Storage Address W} {st st' : EscrowState Address}

/-- The counter of an escrow is the number of its approved milestones. -/
structure Counted (st : EscrowState Address) : Prop where
  length : st.milestoneStatuses.length = st.config.milestones.length
  completed : st.milestonesCompleted = st.milestoneStatuses.count .approved

def Advances (a b : MilestoneStatus) : Prop :=
  a = .pending ∧ b = .submitted ∨ a = .submitted ∧ (b = .approved ∨ b = .rejected)

/-- How a call may change an escrow. -/
structure Lawful (id : Nat) (i : Input Address W contract (Call Address))
    (st st' : EscrowState Address) : Prop where
  completed : st.status = .completed → st' = st
  refunded : st.status = .refunded → st' = st
  disputed : st.status = .disputed →
    st' = st ∨ st'.status = .completed ∨ st'.status = .refunded
  milestones : ∀ k : Nat, st'.milestoneStatuses[k]? = st.milestoneStatuses[k]? ∨
    st.status = .active ∧ ∃ a b, st.milestoneStatuses[k]? = some a ∧
      st'.milestoneStatuses[k]? = some b ∧ Advances a b
  released : st.status = .active → st'.status = .active →
    st'.totalReleased = st.totalReleased ∨ ∃ env, i = .call env (.releaseFunds id)

theorem counted_opened (id : Nat) (config : EscrowConfig Address) :
    Counted (opened id config) := by
  refine ⟨List.length_replicate, ?_⟩
  rw [opened, List.count_replicate]
  rfl

theorem count_set {l : List MilestoneStatus} {k : Nat} {a b : MilestoneStatus}
    (hk : l[k]? = some a) (ha : a ≠ .approved) :
    (l.set k b).count .approved = l.count .approved + if b = .approved then 1 else 0 := by
  obtain ⟨hlt, hget⟩ := List.getElem?_eq_some_iff.mp hk
  rw [List.count_set hlt]
  simp [hget, ha]

theorem counted_move {id : Nat} {c : Call Address} {p : Payment Address}
    (h : Move env id st c p st') (hs : Counted st) : Counted st' := by
  obtain ⟨hlen, hcount⟩ := hs
  cases h with
  | submit k ha hk =>
    refine ⟨List.length_set.trans hlen, ?_⟩
    rw [count_set hk (by decide)]
    exact hcount
  | approve k ha hk =>
    refine ⟨List.length_set.trans hlen, ?_⟩
    rw [count_set hk (by decide), ← hcount]
    rfl
  | reject k ha hk =>
    refine ⟨List.length_set.trans hlen, ?_⟩
    rw [count_set hk (by decide)]
    exact hcount
  | fund | release | refund | dispute | resolve => exact ⟨hlen, hcount⟩

theorem Counted.all_approved (hs : Counted st)
    (h : st.milestonesCompleted = st.config.milestones.length) :
    ∀ x ∈ st.milestoneStatuses, x = .approved := by
  intro x hx
  rw [hs.completed, ← hs.length, List.count_eq_length] at h
  exact (h x hx).symm

theorem set_advances {l : List MilestoneStatus} {k : Nat} {a b : MilestoneStatus}
    (hk : l[k]? = some a) (hab : Advances a b) (j : Nat) :
    (l.set k b)[j]? = l[j]? ∨ ∃ a b', l[j]? = some a ∧ (l.set k b)[j]? = some b' ∧
      Advances a b' := by
  by_cases h : k = j
  · subst h
    obtain ⟨hlt, -⟩ := List.getElem?_eq_some_iff.mp hk
    exact .inr ⟨a, b, hk, List.getElem?_set_self hlt, hab⟩
  · exact .inl (List.getElem?_set_ne h)

theorem lawful_same (id : Nat) (i : Input Address W contract (Call Address))
    (st : EscrowState Address) : Lawful id i st st where
  completed _ := rfl
  refunded _ := rfl
  disputed _ := .inl rfl
  milestones _ := .inl rfl
  released _ _ := .inl rfl

theorem lawful_milestone {id k n : Nat} {a b : MilestoneStatus}
    (i : Input Address W contract (Call Address)) (ha : st.status = .active)
    (hk : st.milestoneStatuses[k]? = some a) (hab : Advances a b) :
    Lawful id i st { st with
      milestoneStatuses := st.milestoneStatuses.set k b
      milestonesCompleted := n } where
  completed h := by simp [ha] at h
  refunded h := by simp [ha] at h
  disputed h := by simp [ha] at h
  milestones j := (set_advances hk hab j).imp_right fun h => ⟨ha, h⟩
  released _ _ := .inl rfl

theorem lawful_amounts {id : Nat} {i : Input Address W contract (Call Address)}
    (ha : st.status = .active) (hm : st'.milestoneStatuses = st.milestoneStatuses)
    (hr : st'.status = .active → st'.totalReleased = st.totalReleased ∨
      ∃ env, i = .call env (.releaseFunds id)) : Lawful id i st st' where
  completed h := by simp [ha] at h
  refunded h := by simp [ha] at h
  disputed h := by simp [ha] at h
  milestones _ := .inl (hm ▸ rfl)
  released _ := hr

theorem lawful_move {id : Nat} {c : Call Address} {p : Payment Address}
    (h : Move env id st c p st') : Lawful (W := W) id (.call env c) st st' := by
  cases h with
  | fund n ha => exact lawful_amounts ha rfl fun _ => .inl rfl
  | submit k ha hk => exact lawful_milestone _ ha hk (.inl ⟨rfl, rfl⟩)
  | approve k ha hk => exact lawful_milestone _ ha hk (.inr ⟨rfl, .inl rfl⟩)
  | reject k ha hk => exact lawful_milestone _ ha hk (.inr ⟨rfl, .inr rfl⟩)
  | release n ha => exact lawful_amounts ha rfl fun _ => .inr ⟨env, rfl⟩
  | refund n ha => exact lawful_amounts ha rfl fun h => by cases h
  | dispute d ha => exact lawful_amounts ha rfl fun h => by cases h
  | resolve outcome n recipient status hd harb hn hpos hs =>
    refine ⟨fun h => ?_, fun h => ?_, fun _ => .inr (settlement_closed hs), fun _ => .inl rfl,
      fun h => ?_⟩
    · simp [hd] at h
    · simp [hd] at h
    · simp [hd] at h

variable [DecidableEq Address] {T : Sep41 Address W}

/-- A release pays the receiver up to what the approved milestones are worth. It
completes the escrow when there are no others. -/
structure Released (T : Sep41 Address W) (contract : Address) (v w : W)
    (st st' : EscrowState Address) : Prop where
  total : st'.totalReleased = approvedAmount st'
  paid : T.transfer v st.config.asset contract st.config.receiver
    (st'.totalReleased - st.totalReleased) = some w
  completed : st'.status = .completed →
    ∀ k : Nat, k < st'.config.milestones.length → st'.milestoneStatuses[k]? = some .approved

def Follows (T : Sep41 Address W)
    (x : Storage Address W × Input Address W contract (Call Address) × Storage Address W) : Prop :=
  ∀ id st, x.1.escrowState.lookup id = some st →
    ∃ st', x.2.2.escrowState.lookup id = some st' ∧ Lawful id x.2.1 st st' ∧
      ∀ env, x.2.1 = .call env (.releaseFunds id) →
        Released T contract x.1.world x.2.2.world st st'

theorem released_move {id : Nat} {p : Payment Address} {v w : W}
    (h : Move env id st (.releaseFunds id) p st') (hs : Counted st)
    (hw : p.Made T contract st.config.asset v w) : Released T contract v w st st' := by
  cases h with
  | release n ha hn hpos hle =>
    refine ⟨?_, ?_, ?_⟩
    · change st.totalReleased + n = approvedAmount st
      rw [hn]
      ring
    · rw [add_sub_cancel_left]
      exact hw
    · intro hdone k hk
      have hall : st.milestonesCompleted = st.config.milestones.length := by
        by_contra hne
        simp [if_neg hne, ha] at hdone
      have hlt : k < st.milestoneStatuses.length := hs.length ▸ hk
      rw [List.getElem?_eq_getElem hlt, Option.some.injEq]
      exact hs.all_approved hall _ (List.getElem_mem hlt)

theorem move_effect {c : Call Address} (h : Effect T env s c t) (hs : Numbered s) {id : Nat}
    (hl : s.escrowState.lookup id = some st) :
    ∃ st', t.escrowState.lookup id = some st' ∧
      ((∃ p, Move env id st c p st' ∧ p.Made T contract st.config.asset s.world t.world) ∨
        st' = st ∧ c ≠ .releaseFunds id) := by
  cases h with
  | createEscrow config =>
    refine ⟨st, ?_, .inr ⟨rfl, fun h => by cases h⟩⟩
    rw [AList.lookup_insert_ne (hs id st hl).ne]
    exact hl
  | moved _ id₁ st₁ st₁' p e w hp hl₁ hm hw =>
    by_cases heq : id = id₁
    · subst heq
      cases hl.symm.trans hl₁
      exact ⟨st₁', AList.lookup_insert _, .inl ⟨p, hm, hw⟩⟩
    · refine ⟨st, ?_, .inr ⟨rfl, ?_⟩⟩
      · rw [AList.lookup_insert_ne heq]
        exact hl
      · rintro rfl
        cases hm
        exact heq rfl
  | setPaused | setAdmin => exact ⟨st, hl, .inr ⟨rfl, fun h => by cases h⟩⟩

theorem follows_step {i : Input Address W contract (Call Address)} (hn : Numbered s)
    (hs : Each Counted s) (h : step T s i = .ok t) : Follows T (s, i, t) := by
  intro id st hl
  cases i with
  | call env c =>
    obtain ⟨st', hl', ⟨p, hm, hw⟩ | ⟨rfl, hne⟩⟩ := move_effect (invoke_effect h) hn hl
    · refine ⟨st', hl', lawful_move hm, fun _ hc => ?_⟩
      cases hc
      exact released_move hm (hs id st hl) hw
    · refine ⟨st', hl', lawful_same id _ st', fun _ hc => ?_⟩
      cases hc
      exact absurd rfl hne
  | world w =>
    cases pure_eq_ok.mp h
    refine ⟨st, hl, lawful_same id _ st, fun _ hc => ?_⟩
    cases hc

theorem counted_step {i : Input Address W contract (Call Address)}
    (hs : Numbered s ∧ Each Counted s) (h : step T s i = .ok t) :
    Numbered t ∧ Each Counted t := by
  cases i with
  | call env c =>
    have he := invoke_effect h
    exact ⟨numbered_effect he hs.1,
      each_effect he hs.2 counted_opened fun _ _ _ _ _ hm => counted_move hm⟩
  | world w =>
    cases pure_eq_ok.mp h
    exact hs

/-- In a run every escrow counts its approved milestones, and every accepted
call treats every escrow lawfully. -/
theorem follows_throughout {w : W} {admin : Address}
    (h : initialise env (.fresh w) admin = .ok s)
    (is : List (Input Address W contract (Call Address))) :
    Throughout (step T) (Each Counted) s is ∧ ∀ x ∈ history (step T) s is, Follows T x := by
  rw [initialise_eq h]
  have hstart : Numbered (W := W) { Storage.fresh w with admin := some admin } := by
    intro id st hl
    cases hl
  have hall := throughout_of_along (C := fun _ _ => True)
    (fun s i t hs _ ht => counted_step (T := T) (i := i) hs ht) ⟨hstart, each_fresh rfl⟩
    (along_true _ is)
  refine ⟨throughout_mono (fun _ => And.right) hall, ?_⟩
  exact forall_history (fun s i t hs ht => follows_step hs.1 hs.2 ht) hall

theorem follows_throughout_sample :
    let is := [Custody.sampleEscrow, .fundEscrow 0 2000, .submitMilestone 0 0,
      .approveMilestone 0 0, .releaseFunds 0].map Custody.sampleCall
    Throughout (step (bookToken Nat)) (Each Counted) Custody.sampleStorage is ∧
      ∀ x ∈ history (step (bookToken Nat)) Custody.sampleStorage is, Follows (bookToken Nat) x := by
  have hopen : initialise (Env.signed 0 0) (.fresh Custody.sampleWorld) 1 =
      .ok Custody.sampleStorage := rfl
  exact follows_throughout hopen _

end Suban.Escrow.Milestones
