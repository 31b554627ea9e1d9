import Suban.Escrow.Custody

namespace Suban.Escrow.Disputes

open Suban.Basis.Calls Suban.Basis.Tables Suban.Basis.Runs Suban.Soroban.Host Suban.Hub.Types
open Suban.Escrow.Contract Suban.Escrow.Transitions Suban.Escrow.Custody

variable {Address W : Type} {contract : Address} {env : Env Address contract}
variable {s t : Storage Address W} {st st' : EscrowState Address}

/-- A disputed escrow has something left to be settled. A contract does not
authorise its own calls, so one that is its own arbitrator settles nothing. -/
def Contested (contract : Address) (st : EscrowState Address) : Prop :=
  st.status = .disputed → st.config.arbitrator ≠ contract → st.totalReleased < st.totalDeposited

/-- A dispute is about an escrow with something left. -/
def DisputesFunded (s : Storage Address W) : Input Address W contract (Call Address) → Prop
  | .call _ (.dispute id _) => ∀ st, s.escrowState.lookup id = some st →
      st.config.arbitrator ≠ contract → st.totalReleased < st.totalDeposited
  | _ => True

theorem contested_of_active (ha : st.status = .active) : Contested contract st := by
  intro hd
  simp [ha] at hd

theorem contested_move {id : Nat} {c : Call Address} {p : Payment Address}
    (h : Move env id st c p st') (hne : ∀ disputer, c ≠ .dispute id disputer) :
    Contested contract st' := by
  cases h with
  | fund n ha => exact contested_of_active ha
  | submit k ha => exact contested_of_active ha
  | approve k ha => exact contested_of_active ha
  | reject k ha => exact contested_of_active ha
  | release n ha =>
    intro hd
    simp only at hd
    split at hd <;> simp_all
  | refund n ha =>
    intro hd
    cases hd
  | dispute disputer => exact absurd rfl (hne disputer)
  | resolve outcome n recipient status hd ha hn hpos hs =>
    rintro rfl
    simpa using settlement_closed hs

variable [DecidableEq Address] {T : Sep41 Address W}

/-- The arbitrator can settle every dispute either way, unless the contract is
paused. -/
def Settleable (T : Sep41 Address W) (contract : Address) (s : Storage Address W) : Prop :=
  s.paused = false → ∀ id st, s.escrowState.lookup id = some st → st.status = .disputed →
    ∀ (env : Env Address contract) (outcome : String), env.auths st.config.arbitrator = true →
      outcome = "release" ∨ outcome = "refund" →
      ∃ t, resolve T env s id outcome = .ok t ∧ ∃ st', t.escrowState.lookup id = some st' ∧
        (st'.status = .completed ∨ st'.status = .refunded)

/-- The tokens let the contract pay out what it holds. -/
def PaysHeld (T : Sep41 Address W) (contract : Address) : Prop :=
  ∀ w token dst n, 0 ≤ n → n ≤ T.balance w token contract →
    ∃ v, T.transfer w token contract dst n = some v

omit [DecidableEq Address] in
theorem settlement_ok (config : EscrowConfig Address) {outcome : String}
    (h : outcome = "release" ∨ outcome = "refund") :
    ∃ recipient status, settlement config outcome = .ok (recipient, status) := by
  unfold settlement
  obtain rfl | rfl := h
  · exact ⟨_, _, if_pos rfl⟩
  · exact ⟨_, _, (if_neg (by decide)).trans (if_pos rfl)⟩

theorem resolve_ok (hpays : PaysHeld T contract) (hs : Kept T contract s) {id : Nat}
    {outcome : String} (hp : s.paused = false) (hl : s.escrowState.lookup id = some st)
    (hd : st.status = .disputed) (harb : env.auths st.config.arbitrator = true)
    (hpos : st.totalReleased < st.totalDeposited)
    (houtcome : outcome = "release" ∨ outcome = "refund") :
    ∃ t, resolve T env s id outcome = .ok t ∧ ∃ st', t.escrowState.lookup id = some st' ∧
      (st'.status = .completed ∨ st'.status = .refunded) := by
  obtain ⟨recipient, status, hset⟩ := settlement_ok st.config houtcome
  obtain ⟨h0, hle, hmax⟩ := hs.inRange id st hl
  have hheld : st.totalDeposited - st.totalReleased ≤ T.balance s.world st.config.asset contract :=
    hs.remaining_le hl
  obtain ⟨w, hw⟩ := hpays s.world st.config.asset recipient _ (sub_nonneg.mpr hle) hheld
  have hmin : minI128 ≤ 0 := by decide
  let settled := { st with
    totalReleased := st.totalReleased + (st.totalDeposited - st.totalReleased)
    status := status }
  have hok : resolve T env s id outcome =
      .ok ({ s.writeEscrowState id settled with world := w }.publish
        (.escRes id st.config.arbitrator outcome)) := by
    simp only [resolve, Storage.readEscrowState, bind_eq_ok, rejectIf_eq_ok, okOr_eq_ok,
      requireAuth_eq_ok, checked_eq_ok, transfer_eq_ok, pure_eq_ok]
    refine ⟨(), by simp [hp], st, hl, (), by simp [hd], (), harb, _, ⟨⟨?_, ?_⟩, rfl⟩, (), ?_,
      (recipient, status), hset, _, ⟨⟨?_, ?_⟩, rfl⟩, _, ⟨w, hw, rfl⟩, rfl⟩
    all_goals omega
  exact ⟨_, hok, settled, AList.lookup_insert _, settlement_closed hset⟩

theorem contested_of_resolve {id : Nat} {outcome : String}
    (h : resolve T env s id outcome = .ok t) (hl : s.escrowState.lookup id = some st) :
    st.totalReleased < st.totalDeposited := by
  cases resolve_effect h with
  | moved _ _ st₁ st' p e w hp hl₁ hm =>
    cases hm with
    | resolve _ n recipient status hd ha hn hpos =>
      cases hl.symm.trans hl₁
      omega

theorem settleable_iff (hpays : PaysHeld T contract) (hs : Kept T contract s) :
    Settleable T contract s ↔ (s.paused = false → Each (Contested contract) s) := by
  refine ⟨?_, ?_⟩
  · intro h hp id st hl hd hne
    have hauth : (Env.signed contract 0).auths st.config.arbitrator = true := decide_eq_true hne
    obtain ⟨t, ht, -⟩ := h hp id st hl hd (Env.signed contract 0) "refund" hauth (.inr rfl)
    exact contested_of_resolve ht hl
  · intro h hp id st hl hd env outcome harb houtcome
    exact resolve_ok hpays hs hp hl hd harb (h hp id st hl hd (ne_self harb)) houtcome

theorem contested_effect {c : Call Address} (h : Effect T env s c t)
    (hs : Each (Contested contract) s) :
    Each (Contested contract) t ↔
      DisputesFunded s (.call env c : Input Address W contract (Call Address)) := by
  by_cases hdispute : ∃ id disputer, c = .dispute id disputer
  · obtain ⟨id, disputer, rfl⟩ := hdispute
    cases h with
    | moved _ _ st st' p e w hp hl hm =>
      cases hm
      refine ⟨?_, ?_⟩
      · intro ht st₁ hl₁ hne
        cases hl.symm.trans hl₁
        exact ht id { st with status := .disputed } (AList.lookup_insert _) rfl hne
      · intro hfunded
        exact forall_insert (Q := fun _ => Contested contract) (fun _ => hfunded st hl) hs
  · refine iff_of_true (each_effect h hs (fun _ _ => contested_of_active rfl) ?_) ?_
    · exact fun id st p st' _ hm _ => contested_move hm fun d hd => hdispute ⟨id, d, hd⟩
    · cases c with
      | dispute id disputer => exact absurd ⟨id, disputer, rfl⟩ hdispute
      | _ => trivial

theorem contested_step {i : Input Address W contract (Call Address)}
    (hs : Each (Contested contract) s) (h : step T s i = .ok t) :
    Each (Contested contract) t ↔ DisputesFunded s i := by
  cases i with
  | call env c => exact contested_effect (invoke_effect h) hs
  | world w =>
    cases pure_eq_ok.mp h
    exact iff_of_true hs trivial

theorem disputesFunded_of_paused {i : Input Address W contract (Call Address)}
    (h : step T s i = .ok t) (hp : t.paused ≠ false) : DisputesFunded s i := by
  cases i with
  | world => trivial
  | call env c =>
    cases c with
    | dispute id disputer =>
      have he : Effect T env s (.dispute id disputer) t := invoke_effect h
      cases he with
      | moved _ _ st st' p e w hp' => exact absurd hp' hp
    | _ => trivial

/-- Every dispute of a run can be settled exactly when every accepted dispute is
about an escrow with something left. -/
theorem settleable_iff_disputesFunded {w : W} {admin : Address} (hpays : PaysHeld T contract)
    (h : initialise env (.fresh w) admin = .ok s)
    (is : List (Input Address W contract (Call Address)))
    (hkeep : Along (step T) (Undisturbed T) s is) :
    Throughout (step T) (Settleable T contract) s is ↔ Along (step T) DisputesFunded s is := by
  have hkept := kept_initialise (T := T) h
  have hstart : Each (Contested contract) s := by
    rw [initialise_eq h]
    exact each_fresh rfl
  refine throughout_iff_along (J := fun s => Kept T contract s ∧ Each (Contested contract) s)
    (fun s i t hJ _ hi ht => ?_) ⟨hkept, hstart⟩ ((settleable_iff hpays hkept).mpr fun _ => hstart)
    hkeep
  have hkept' := kept_step hJ.1 hi ht
  have hiff : Settleable T contract t ↔ DisputesFunded s i := by
    rw [settleable_iff hpays hkept', contested_step hJ.2 ht]
    by_cases hp : t.paused = false
    · exact forall_prop_of_true hp
    · exact iff_of_true (fun hp' => absurd hp' hp) (disputesFunded_of_paused ht hp)
  exact ⟨hiff, fun hs => ⟨hkept', (contested_step hJ.2 ht).mpr (hiff.mp hs)⟩⟩

theorem bookToken_paysHeld : PaysHeld (bookToken Nat) 0 :=
  fun _ _ _ _ h0 hle => ⟨_, if_pos ⟨h0, hle⟩⟩

def sampleDispute (first : List (Call Nat)) : List (Input Nat (Nat → Nat → Nat) 0 (Call Nat)) :=
  (sampleEscrow :: (first ++ [Call.dispute 0 3])).map sampleCall

theorem settleable_iff_disputesFunded_sample :
    Throughout (step (bookToken Nat)) (Settleable (bookToken Nat) 0) sampleStorage
      (sampleDispute [.fundEscrow 0 2000]) := by
  have hopen : initialise (Env.signed 0 0) (.fresh sampleWorld) 1 = .ok sampleStorage := rfl
  refine (settleable_iff_disputesFunded bookToken_paysHeld hopen _ ?_).mpr
    ⟨fun _ _ => trivial, fun _ _ => trivial, fun _ _ => ?_, trivial⟩
  · simp [Along, sampleDispute, sampleCall, Undisturbed]
  · intro st hl _
    cases hl
    decide

/-- The receiver disputes an escrow before anything is paid in. -/
theorem empty_dispute_is_stuck :
    initialise (Env.signed 0 0) (.fresh sampleWorld) 1 = .ok sampleStorage ∧
    ¬ Throughout (step (bookToken Nat)) (Settleable (bookToken Nat) 0) sampleStorage
      (sampleDispute []) := by
  refine ⟨rfl, fun h => ?_⟩
  have hall := throughout_run h rfl 0 _ rfl rfl
  obtain ⟨t, ht, -⟩ := hall (Env.signed 0 6) "refund" rfl (.inr rfl)
  cases ht

end Suban.Escrow.Disputes
