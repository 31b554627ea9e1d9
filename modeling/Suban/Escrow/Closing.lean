import Suban.Escrow.Milestones

namespace Suban.Escrow.Closing

open Suban.Basis.Calls Suban.Basis.Tables Suban.Basis.Runs Suban.Soroban.Host Suban.Hub.Types
open Suban.Escrow.Contract Suban.Escrow.Transitions Suban.Escrow.Milestones
open Suban.Escrow.Custody

variable {Address W : Type} {contract : Address} {env : Env Address contract}
variable {s t : Storage Address W} {st st' : EscrowState Address}

/-- A closed escrow has paid out all that was paid in. -/
def Emptied (st : EscrowState Address) : Prop :=
  st.status = .completed ∨ st.status = .refunded → st.totalReleased = st.totalDeposited

def AllApproved (st : EscrowState Address) : Prop :=
  ∀ x ∈ st.milestoneStatuses, x = .approved

/-- A release of an escrow with nothing left to approve finds deposits of just
what its milestones are worth. -/
def DepositsMatch (s : Storage Address W) : Input Address W contract (Call Address) → Prop
  | .call _ (.releaseFunds id) => ∀ st, s.escrowState.lookup id = some st → AllApproved st →
      st.totalDeposited = (st.config.milestones.map Milestone.amount).sum
  | _ => True

theorem allApproved_iff (hs : Counted st) :
    AllApproved st ↔ st.milestonesCompleted = st.config.milestones.length := by
  refine ⟨fun h => ?_, fun h => hs.all_approved h⟩
  rw [hs.completed, ← hs.length, List.count_eq_length]
  exact fun x hx => (h x hx).symm

theorem sum_amountIfApproved (ms : List (Milestone Address)) (l : List MilestoneStatus)
    (hlen : l.length = ms.length) (h : ∀ x ∈ l, x = .approved) :
    ((ms.zip l).map amountIfApproved).sum = (ms.map Milestone.amount).sum := by
  induction ms generalizing l with
  | nil => simp
  | cons m ms ih =>
    cases l with
    | nil => simp at hlen
    | cons x l =>
      obtain ⟨hx, hl⟩ := List.forall_mem_cons.mp h
      have hlen' : l.length = ms.length := Nat.succ.inj hlen
      simp [amountIfApproved, hx, ih l hlen' hl]

theorem emptied_release {id : Nat} {p : Payment Address}
    (h : Move env id st (.releaseFunds id) p st') (hs : Counted st) :
    Emptied st' ↔ (AllApproved st →
      st.totalDeposited = (st.config.milestones.map Milestone.amount).sum) := by
  cases h with
  | release n ha hn hpos hle =>
    rw [allApproved_iff hs]
    by_cases hall : st.milestonesCompleted = st.config.milestones.length
    · have hsum := sum_amountIfApproved _ _ hs.length ((allApproved_iff hs).mpr hall)
      simp only [Emptied, hall, if_true, true_or, true_implies, ← hsum]
      rw [approvedAmount] at hn
      omega
    · simp [Emptied, hall, ha]

theorem emptied_move {id : Nat} {c : Call Address} {p : Payment Address}
    (h : Move env id st c p st') (hs : Emptied st) (hne : c ≠ .releaseFunds id) :
    Emptied st' := by
  cases h with
  | fund n ha => simp [Emptied, ha]
  | submit | approve | reject => exact hs
  | release => exact absurd rfl hne
  | refund n ha hn =>
    intro _
    dsimp only
    omega
  | dispute => simp [Emptied]
  | resolve outcome n recipient status hd ha hn =>
    intro _
    dsimp only
    omega

theorem emptied_opened (id : Nat) (config : EscrowConfig Address) :
    Emptied (opened id config) := by
  simp [Emptied, opened]

variable [DecidableEq Address] {T : Sep41 Address W}

theorem emptied_effect {c : Call Address} (h : Effect T env s c t) (hs : Each Emptied s)
    (hc : Each Counted s) :
    Each Emptied t ↔ DepositsMatch s (.call env c : Input Address W contract (Call Address)) := by
  by_cases hrelease : ∃ id, c = .releaseFunds id
  · obtain ⟨id, rfl⟩ := hrelease
    cases h with
    | moved _ id' st st' p e w hp hl hm =>
      cases hm with
      | release n ha hn hpos hle =>
        have hiff := emptied_release (.release n ha hn hpos hle : Move env id st _ _ _)
          (hc id st hl)
        refine ⟨?_, ?_⟩
        · intro ht st₁ hl₁
          cases hl.symm.trans hl₁
          exact hiff.mp (ht id _ (AList.lookup_insert _))
        · intro hmatch
          exact forall_insert (Q := fun _ => Emptied) (hiff.mpr (hmatch st hl)) hs
  · refine iff_of_true (each_effect h hs emptied_opened ?_) ?_
    · exact fun id st p st' _ hm hst => emptied_move hm hst fun hid => hrelease ⟨id, hid⟩
    · cases c with
      | releaseFunds id => exact absurd ⟨id, rfl⟩ hrelease
      | _ => trivial

theorem emptied_step {i : Input Address W contract (Call Address)} (hc : Each Counted s)
    (hs : Each Emptied s) (h : step T s i = .ok t) : Each Emptied t ↔ DepositsMatch s i := by
  cases i with
  | call env c => exact emptied_effect (invoke_effect h) hs hc
  | world w =>
    cases pure_eq_ok.mp h
    exact iff_of_true hs trivial

/-- No closed escrow holds money in a run exactly when every last release finds
deposits of what the milestones are worth. -/
theorem emptied_iff_depositsMatch {w : W} {admin : Address}
    (h : initialise env (.fresh w) admin = .ok s)
    (is : List (Input Address W contract (Call Address))) :
    Throughout (step T) (Each Emptied) s is ↔ Along (step T) DepositsMatch s is := by
  rw [initialise_eq h]
  refine throughout_iff_along (J := fun s => Numbered s ∧ Each Counted s) (E := fun _ _ => True)
    (fun s i t hJ hs _ ht => ⟨emptied_step hJ.2 hs ht, fun _ => counted_step hJ ht⟩)
    ⟨fun id st hl => ?_, each_fresh rfl⟩ (each_fresh rfl) (along_true _ is)
  cases hl

def sampleRun (deposit : Int) : List (Input Nat (Nat → Nat → Nat) 0 (Call Nat)) :=
  [sampleEscrow, .fundEscrow 0 deposit, .submitMilestone 0 0, .approveMilestone 0 0,
    .releaseFunds 0].map sampleCall

theorem initialise_sample :
    initialise (Env.signed 0 0) (.fresh sampleWorld) 1 = .ok sampleStorage := rfl

theorem emptied_iff_depositsMatch_sample :
    Throughout (step (bookToken Nat)) (Each Emptied) sampleStorage (sampleRun 1000) := by
  refine (emptied_iff_depositsMatch initialise_sample _).mpr ?_
  refine ⟨fun _ _ => trivial, fun _ _ => trivial, fun _ _ => trivial, fun _ _ => trivial,
    fun _ _ => ?_, trivial⟩
  intro st hl _
  cases hl
  rfl

/-- Two thousand are paid in for a milestone of one thousand. The release closes
the escrow over the rest. -/
theorem overfunded_is_stranded :
    initialise (Env.signed 0 0) (.fresh sampleWorld) 1 = .ok sampleStorage ∧
    ¬ Throughout (step (bookToken Nat)) (Each Emptied) sampleStorage (sampleRun 2000) := by
  refine ⟨rfl, fun h => ?_⟩
  have hclosed := throughout_run h 0 _ rfl (.inl rfl)
  revert hclosed
  decide

end Suban.Escrow.Closing
