import Suban.Escrow.Contract

namespace Suban.Escrow.Transitions

open Suban.Basis.Calls Suban.Basis.Tables Suban.Soroban.Host Suban.Hub.Types
open Suban.Escrow.Contract

variable {Address W : Type} {contract : Address} {env : Env Address contract}
variable {s t : Storage Address W} {st st' : EscrowState Address}

inductive Payment (Address : Type) where
  | none
  | deposit (src : Address) (n : Int)
  | payout (dst : Address) (n : Int)

def Payment.net : Payment Address → Int
  | .none => 0
  | .deposit _ n => n
  | .payout _ n => -n

def remaining (st : EscrowState Address) : Int := st.totalDeposited - st.totalReleased

def amountIfApproved (m : Milestone Address × MilestoneStatus) : Int :=
  if m.2 = .approved then m.1.amount else 0

def approvedAmount (st : EscrowState Address) : Int :=
  ((st.config.milestones.zip st.milestoneStatuses).map amountIfApproved).sum

def opened (escrowId : Nat) (config : EscrowConfig Address) : EscrowState Address where
  escrowId := escrowId
  config := config
  totalDeposited := 0
  totalReleased := 0
  milestonesCompleted := 0
  milestoneStatuses := List.replicate config.milestones.length .pending
  status := .active

/-- What an accepted call on one escrow makes of it, and the payment that goes
with it. -/
inductive Move (env : Env Address contract) (id : Nat) (st : EscrowState Address) :
    Call Address → Payment Address → EscrowState Address → Prop where
  | fund (n : Int) (ha : st.status = .active) (hn : 0 < n)
      (hmax : st.totalDeposited + n ≤ maxI128) :
      Move env id st (.fundEscrow id n) (.deposit st.config.funder n)
        { st with totalDeposited := st.totalDeposited + n }
  | submit (k : Nat) (ha : st.status = .active) (hk : st.milestoneStatuses[k]? = some .pending) :
      Move env id st (.submitMilestone id k) .none
        { st with milestoneStatuses := st.milestoneStatuses.set k .submitted }
  | approve (k : Nat) (ha : st.status = .active)
      (hk : st.milestoneStatuses[k]? = some .submitted) :
      Move env id st (.approveMilestone id k) .none
        { st with
          milestoneStatuses := st.milestoneStatuses.set k .approved
          milestonesCompleted := st.milestonesCompleted + 1 }
  | reject (k : Nat) (ha : st.status = .active)
      (hk : st.milestoneStatuses[k]? = some .submitted) :
      Move env id st (.rejectMilestone id k) .none
        { st with milestoneStatuses := st.milestoneStatuses.set k .rejected }
  | release (n : Int) (ha : st.status = .active) (hn : n = approvedAmount st - st.totalReleased)
      (hpos : 0 < n) (hle : n ≤ st.totalDeposited - st.totalReleased) :
      Move env id st (.releaseFunds id) (.payout st.config.receiver n)
        { st with
          totalReleased := st.totalReleased + n
          status :=
            if st.milestonesCompleted = st.config.milestones.length then .completed
            else st.status }
  | refund (n : Int) (ha : st.status = .active) (hn : n = st.totalDeposited - st.totalReleased)
      (hpos : 0 < n)
      (hdue : st.milestoneStatuses.all (· = .rejected) ∨ st.config.deadlineLedger ≤ env.sequence) :
      Move env id st (.refund id) (.payout st.config.funder n)
        { st with totalReleased := st.totalReleased + n, status := .refunded }
  | dispute (disputer : Address) (ha : st.status = .active)
      (hd : disputer = st.config.funder ∨ disputer = st.config.receiver) :
      Move env id st (.dispute id disputer) .none { st with status := .disputed }
  | resolve (outcome : String) (n : Int) (recipient : Address) (status : EscrowStatus)
      (hd : st.status = .disputed) (ha : env.auths st.config.arbitrator = true)
      (hn : n = st.totalDeposited - st.totalReleased) (hpos : 0 < n)
      (hs : settlement st.config outcome = .ok (recipient, status)) :
      Move env id st (.resolve id outcome) (.payout recipient n)
        { st with totalReleased := st.totalReleased + n, status := status }

theorem Move.config {id : Nat} {c : Call Address} {p : Payment Address}
    (h : Move env id st c p st') : st'.config = st.config := by
  cases h <;> rfl

theorem Move.remaining {id : Nat} {c : Call Address} {p : Payment Address}
    (h : Move env id st c p st') :
    Transitions.remaining st' = Transitions.remaining st + p.net := by
  cases h <;> simp only [Transitions.remaining, Payment.net] <;> ring

theorem readActive_eq_ok {id : Nat} : readActive s id = .ok st ↔
    s.paused = false ∧ s.escrowState.lookup id = some st ∧ st.status = .active := by
  simp only [readActive, Storage.readEscrowState, bind_eq_ok, rejectIf_eq_ok, okOr_eq_ok,
    pure_eq_ok]
  constructor
  · rintro ⟨_, hp, st, hl, _, ha, rfl⟩
    exact ⟨by simpa using hp, hl, by simpa using ha⟩
  · rintro ⟨hp, hl, ha⟩
    exact ⟨(), by simpa using hp, st, hl, (), by simpa using ha, rfl⟩

theorem readSubmitted_eq_ok {id k : Nat} {m : Milestone Address}
    (h : readSubmitted env s id k = .ok (st, m)) :
    s.paused = false ∧ s.escrowState.lookup id = some st ∧ st.status = .active ∧
      st.milestoneStatuses[k]? = some .submitted := by
  simp only [readSubmitted, bind_eq_ok, rejectIf_eq_ok, okOr_eq_ok, readActive_eq_ok, pure_eq_ok,
    Prod.mk.injEq] at h
  obtain ⟨_, ⟨hp, hl, ha⟩, _, -, _, -, _, -, cur, hk, _, hcur, rfl, -⟩ := h
  rw [not_not] at hcur
  exact ⟨hp, hl, ha, hcur ▸ hk⟩

/-- A turn of the loop adds the next milestone, if it is approved. -/
theorem addApproved_eq {i : Nat} {a b : Int} (hi : i < st.config.milestones.length)
    (h : addApproved st a i = .ok b) :
    b = a + (((st.config.milestones.zip st.milestoneStatuses)[i]?.toList).map
      amountIfApproved).sum := by
  simp only [addApproved, bind_eq_ok, okOr_eq_ok] at h
  obtain ⟨status, hstatus, h⟩ := h
  rw [List.zip, List.getElem?_zipWith, hstatus, List.getElem?_eq_getElem hi]
  split at h
  next happroved =>
    simp only [bind_eq_ok, okOr_eq_ok, checked_eq_ok] at h
    obtain ⟨m, hm, -, rfl⟩ := h
    rw [List.getElem?_eq_getElem hi, Option.some.injEq] at hm
    simp [amountIfApproved, happroved, hm]
  next happroved =>
    cases pure_eq_ok.mp h
    simp [amountIfApproved, happroved]

theorem foldlM_addApproved {n : Nat} {r : Int} (hn : n ≤ st.config.milestones.length)
    (h : (List.range n).foldlM (addApproved st) 0 = .ok r) :
    r = (((st.config.milestones.zip st.milestoneStatuses).take n).map amountIfApproved).sum := by
  induction n generalizing r with
  | zero =>
    cases h
    rfl
  | succ n ih =>
    rw [List.range_succ, List.foldlM_append, bind_eq_ok] at h
    obtain ⟨a, ha, h⟩ := h
    simp only [List.foldlM_cons, List.foldlM_nil, bind_eq_ok, pure_eq_ok] at h
    obtain ⟨b, hb, rfl⟩ := h
    rw [List.take_add_one, List.map_append, List.sum_append, ← ih (Nat.le_of_succ_le hn) ha]
    exact addApproved_eq hn hb

theorem approvedAmount_of_fold {r : Int}
    (h : (List.range st.config.milestones.length).foldlM (addApproved st) 0 = .ok r) :
    r = approvedAmount st := by
  rw [foldlM_addApproved le_rfl h, List.take_of_length_le, approvedAmount]
  rw [List.length_zip]
  exact min_le_left _ _

theorem settlement_closed {config : EscrowConfig Address} {outcome : String} {a : Address}
    {status : EscrowStatus} (h : settlement config outcome = .ok (a, status)) :
    status = .completed ∨ status = .refunded := by
  unfold settlement at h
  split at h
  · cases pure_eq_ok.mp h
    exact .inl rfl
  · split at h
    · cases pure_eq_ok.mp h
      exact .inr rfl
    · cases h

def Numbered (s : Storage Address W) : Prop :=
  ∀ id st, s.escrowState.lookup id = some st → id < s.escrowCount

def Each (P : EscrowState Address → Prop) (s : Storage Address W) : Prop :=
  ∀ id st, s.escrowState.lookup id = some st → P st

theorem Numbered.lookup_count (hs : Numbered s) : s.escrowState.lookup s.escrowCount = none := by
  cases hl : s.escrowState.lookup s.escrowCount with
  | none => rfl
  | some st => exact absurd (hs _ st hl) (lt_irrefl _)

theorem initialise_eq {w : W} {admin : Address}
    (h : initialise env (.fresh w) admin = .ok s) :
    s = { Storage.fresh w with admin := some admin } := by
  simp only [initialise, bind_eq_ok, pure_eq_ok] at h
  obtain ⟨_, -, _, -, rfl⟩ := h
  rfl

theorem each_fresh {P : EscrowState Address → Prop} (h : s.escrowState = ∅) : Each P s := by
  intro id st hl
  rw [h] at hl
  cases hl

variable [DecidableEq Address] {T : Sep41 Address W}

namespace Payment

def Made (T : Sep41 Address W) (contract token : Address) : Payment Address → W → W → Prop
  | .none, v, w => w = v
  | .deposit src n, v, w => src ≠ contract ∧ T.transfer v token src contract n = some w
  | .payout dst n, v, w => T.transfer v token contract dst n = some w

/-- Paid out to itself, the contract keeps its balance. -/
theorem balance_made {token : Address} {p : Payment Address} {v w : W}
    (h : p.Made T contract token v w) :
    T.balance v token contract + p.net ≤ T.balance w token contract := by
  cases p with
  | none =>
    cases h
    exact (add_zero _).le
  | deposit src n => exact (T.balance_in h.2 h.1).ge
  | payout dst n =>
    have hn := (T.transfer_covered h).1
    rw [T.balance_transfer h, if_pos ⟨rfl, rfl⟩, net]
    split <;> omega

theorem balance_made_other {token other : Address} {p : Payment Address} {v w : W}
    (h : p.Made T contract token v w) (hne : other ≠ token) :
    T.balance w other contract = T.balance v other contract := by
  cases p with
  | none =>
    cases h
    rfl
  | deposit src n => exact T.balance_other h.2 hne
  | payout dst n => exact T.balance_other h hne

end Payment

/-- Everything that an accepted call can do. Which event a call on an escrow
publishes is left open. -/
inductive Effect (T : Sep41 Address W) (env : Env Address contract) (s : Storage Address W) :
    Call Address → Storage Address W → Prop where
  | createEscrow (config : EscrowConfig Address) (hp : s.paused = false)
      (hm : config.milestones ≠ []) (hd : env.sequence < config.deadlineLedger) :
      Effect T env s
        (.createEscrow config.funder config.receiver config.arbitrator config.asset
          config.milestones config.feeBps config.deadlineLedger)
        { s with
          escrowCount := s.escrowCount + 1
          escrowConfig := s.escrowConfig.insert s.escrowCount config
          escrowState := s.escrowState.insert s.escrowCount (opened s.escrowCount config)
          events := s.events ++ [.escCrt s.escrowCount config.funder config.receiver] }
  | moved (c : Call Address) (id : Nat) (st st' : EscrowState Address) (p : Payment Address)
      (e : Event Address) (w : W) (hp : s.paused = false)
      (hl : s.escrowState.lookup id = some st) (hmove : Move env id st c p st')
      (hw : p.Made T contract st.config.asset s.world w) :
      Effect T env s c
        { s with
          escrowState := s.escrowState.insert id st'
          events := s.events ++ [e]
          world := w }
  | setPaused (admin : Address) (paused : Bool) :
      Effect T env s (.setPaused admin paused) { s with paused := paused }
  | setAdmin (admin newAdmin : Address) :
      Effect T env s (.setAdmin admin newAdmin) { s with admin := some newAdmin }

theorem transfer_eq_ok {token src dst : Address} {n : Int} :
    transfer T s token src dst n = .ok t ↔
      ∃ w, T.transfer s.world token src dst n = some w ∧ { s with world := w } = t := by
  simp only [transfer, bind_eq_ok, unwrap_eq_ok, pure_eq_ok]

theorem createEscrow_effect {funder receiver arbitrator asset : Address}
    {milestones : List (Milestone Address)} {feeBps deadlineLedger n : Nat}
    (h : createEscrow env s funder receiver arbitrator asset milestones feeBps deadlineLedger =
      .ok (n, t)) :
    Effect T env s
      (.createEscrow funder receiver arbitrator asset milestones feeBps deadlineLedger) t := by
  simp only [createEscrow, Storage.nextEscrowId, bind_eq_ok, rejectIf_eq_ok, requireAuth_eq_ok,
    checkedUInt_eq_ok, pure_eq_ok, Prod.mk.injEq] at h
  obtain ⟨_, hp, _, -, _, hm, _, hd, _, -, x, ⟨count, ⟨-, rfl⟩, rfl⟩, -, rfl⟩ := h
  exact .createEscrow ⟨funder, receiver, arbitrator, asset, milestones, feeBps, deadlineLedger⟩
    (by simpa using hp) (by simpa using hm) (not_le.mp hd)

theorem fundEscrow_effect {id : Nat} {n : Int} (h : fundEscrow T env s id n = .ok t) :
    Effect T env s (.fundEscrow id n) t := by
  simp only [fundEscrow, Storage.readEscrowState, bind_eq_ok, rejectIf_eq_ok, okOr_eq_ok,
    requireAuth_eq_ok, checked_eq_ok, transfer_eq_ok, pure_eq_ok] at h
  obtain ⟨_, hp, _, hn, st, hl, _, ha, _, hauth, h⟩ := h
  obtain ⟨_, ⟨⟨-, hmax⟩, rfl⟩, _, ⟨w, hw, rfl⟩, rfl⟩ := h
  exact .moved _ id st _ _ _ w (by simpa using hp) hl
    (.fund n (by simpa using ha) (not_le.mp hn) hmax) ⟨ne_self hauth, hw⟩

theorem releaseFunds_effect {id : Nat} (h : releaseFunds T s contract id = .ok t) :
    Effect T env s (.releaseFunds id) t := by
  simp only [releaseFunds, bind_eq_ok, readActive_eq_ok, rejectIf_eq_ok, checked_eq_ok,
    transfer_eq_ok, pure_eq_ok] at h
  obtain ⟨st, ⟨hp, hl, ha⟩, approved, hfold, h⟩ := h
  obtain ⟨_, ⟨-, rfl⟩, _, hpos, _, ⟨-, rfl⟩, _, hle, h⟩ := h
  obtain ⟨_, ⟨-, rfl⟩, _, ⟨w, hw, rfl⟩, rfl⟩ := h
  rw [approvedAmount_of_fold hfold] at hpos hle hw ⊢
  exact .moved _ id st _ _ _ w hp hl
    (.release _ ha rfl (not_le.mp hpos) (not_lt.mp hle)) hw

theorem refund_effect {id : Nat} (h : refund T env s id = .ok t) :
    Effect T env s (.refund id) t := by
  simp only [refund, bind_eq_ok, readActive_eq_ok, requireAuth_eq_ok, rejectIf_eq_ok,
    checked_eq_ok, transfer_eq_ok, pure_eq_ok] at h
  obtain ⟨st, ⟨hp, hl, ha⟩, _, -, _, ⟨-, rfl⟩, _, hpos, _, hdue, h⟩ := h
  obtain ⟨_, ⟨-, rfl⟩, _, ⟨w, hw, rfl⟩, rfl⟩ := h
  refine .moved _ id st _ _ _ w hp hl (.refund _ ha rfl (not_le.mp hpos) ?_) hw
  rw [Bool.and_eq_true, not_and_or] at hdue
  simpa using hdue

theorem dispute_effect {id : Nat} {disputer : Address} (h : dispute env s id disputer = .ok t) :
    Effect T env s (.dispute id disputer) t := by
  simp only [dispute, bind_eq_ok, readActive_eq_ok, rejectIf_eq_ok, requireAuth_eq_ok,
    pure_eq_ok] at h
  obtain ⟨st, ⟨hp, hl, ha⟩, _, hd, _, -, rfl⟩ := h
  refine .moved _ id st _ _ _ s.world hp hl (.dispute disputer ha ?_) rfl
  rw [not_and_or, not_not, not_not] at hd
  exact hd

theorem resolve_effect {id : Nat} {outcome : String} (h : resolve T env s id outcome = .ok t) :
    Effect T env s (.resolve id outcome) t := by
  simp only [resolve, Storage.readEscrowState, bind_eq_ok, rejectIf_eq_ok, okOr_eq_ok,
    requireAuth_eq_ok, checked_eq_ok, transfer_eq_ok, pure_eq_ok] at h
  obtain ⟨_, hp, st, hl, _, hd, _, ha, _, ⟨-, rfl⟩, h⟩ := h
  obtain ⟨_, hpos, ⟨recipient, status⟩, hs, _, ⟨-, rfl⟩, h⟩ := h
  obtain ⟨_, ⟨w, hw, rfl⟩, rfl⟩ := h
  exact .moved _ id st _ _ _ w (by simpa using hp) hl
    (.resolve outcome _ recipient status (by simpa using hd) ha rfl (not_le.mp hpos) hs) hw

theorem invoke_effect {c : Call Address} (h : invoke T env s c = .ok t) : Effect T env s c t := by
  cases c with
  | createEscrow =>
    simp only [invoke, bind_eq_ok, pure_eq_ok] at h
    obtain ⟨⟨n, u⟩, h, rfl⟩ := h
    exact createEscrow_effect h
  | fundEscrow => exact fundEscrow_effect h
  | submitMilestone id k =>
    simp only [invoke, submitMilestone, bind_eq_ok, readActive_eq_ok, rejectIf_eq_ok,
      requireAuth_eq_ok, okOr_eq_ok, pure_eq_ok] at h
    obtain ⟨st, ⟨hp, hl, ha⟩, _, -, _, -, cur, hk, _, hcur, rfl⟩ := h
    rw [not_not] at hcur
    exact .moved _ id st _ _ _ s.world hp hl (.submit k ha (hcur ▸ hk)) rfl
  | approveMilestone id k =>
    simp only [invoke, approveMilestone, bind_eq_ok, checkedUInt_eq_ok, pure_eq_ok] at h
    obtain ⟨⟨st, m⟩, hread, _, ⟨-, rfl⟩, rfl⟩ := h
    obtain ⟨hp, hl, ha, hk⟩ := readSubmitted_eq_ok hread
    exact .moved _ id st _ _ _ s.world hp hl (.approve k ha hk) rfl
  | rejectMilestone id k =>
    simp only [invoke, rejectMilestone, bind_eq_ok, pure_eq_ok] at h
    obtain ⟨⟨st, m⟩, hread, rfl⟩ := h
    obtain ⟨hp, hl, ha, hk⟩ := readSubmitted_eq_ok hread
    exact .moved _ id st _ _ _ s.world hp hl (.reject k ha hk) rfl
  | releaseFunds => exact releaseFunds_effect h
  | refund => exact refund_effect h
  | dispute => exact dispute_effect h
  | resolve => exact resolve_effect h
  | setPaused admin paused =>
    simp only [invoke, setPaused, bind_eq_ok, pure_eq_ok] at h
    obtain ⟨_, -, rfl⟩ := h
    exact .setPaused admin paused
  | setAdmin admin newAdmin =>
    simp only [invoke, setAdmin, bind_eq_ok, pure_eq_ok] at h
    obtain ⟨_, -, rfl⟩ := h
    exact .setAdmin admin newAdmin

theorem numbered_effect {c : Call Address} (h : Effect T env s c t) (hs : Numbered s) :
    Numbered t := by
  cases h with
  | createEscrow config =>
    exact forall_insert (Q := fun id _ => id < s.escrowCount + 1) (Nat.lt_succ_self _)
      fun id st hl => Nat.lt_succ_of_lt (hs id st hl)
  | moved _ id st st' p e w hp hl =>
    exact forall_insert (Q := fun id _ => id < s.escrowCount) (hs id st hl) hs
  | setPaused | setAdmin => exact hs

theorem each_effect {P : EscrowState Address → Prop} {c : Call Address} (h : Effect T env s c t)
    (hs : Each P s) (hopen : ∀ id config, P (opened id config))
    (hmove : ∀ id st p st', s.escrowState.lookup id = some st → Move env id st c p st' →
      P st → P st') : Each P t := by
  cases h with
  | createEscrow config => exact forall_insert (Q := fun _ => P) (hopen _ config) hs
  | moved _ id st st' p e w hp hl hm =>
    exact forall_insert (Q := fun _ => P) (hmove id st p st' hl hm (hs id st hl)) hs
  | setPaused | setAdmin => exact hs

end Suban.Escrow.Transitions
