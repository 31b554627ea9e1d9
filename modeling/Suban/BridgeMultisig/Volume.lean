import Suban.BridgeMultisig.Replay

namespace Suban.BridgeMultisig.Volume

open Suban.Basis.Calls Suban.Basis.Tables Suban.Basis.Runs Suban.Soroban.Host
open Suban.BridgeMultisig.Contract Suban.BridgeMultisig.Transitions Suban.BridgeMultisig.Steps
open Suban.BridgeMultisig.Replay

variable {Address W : Type} [DecidableEq Address] {contract : Address}
variable {T : StellarAsset Address W} {env : Env Address contract} {s t : Storage Address W}
variable {cap : Int} {ledgers : Nat}

def countedFrom (start : Nat) (p : Proposal Address) : Int :=
  match p.executedAt with
  | some e => if start ≤ e then p.amount else 0
  | none => 0

/-- The amounts of the proposals executed in the current window. -/
def windowTotal (s : Storage Address W) : Int :=
  total (countedFrom s.volumeWindowStart) s.proposal

def WithinCap (cap : Int) (s : Storage Address W) : Prop := windowTotal s ≤ cap

def Fixed (cap : Int) (ledgers : Nat) (_ : Storage Address W) :
    Input Address W contract (Call Address) → Prop
  | .call _ (.setVolumeCap _ n k) => n = cap ∧ k = ledgers
  | _ => True

def InOrder (s : Storage Address W) : Input Address W contract (Call Address) → Prop
  | .call env _ => s.volumeWindowStart ≤ env.sequence
  | .world _ => True

/-- A quorum that completes while the window is open finds room for its amount
under the cap. -/
def FitsWindow (s : Storage Address W) : Input Address W contract (Call Address) → Prop
  | .call env c => ∀ p, Completes s p c → ¬ WindowOver env s →
      s.volumeInWindow + p.amount ≤ s.volumeCap
  | .world _ => True

/-- The recorded volume is that of the window, for a cap and a length that
stay. Proposals are within the cap, and executions within their window. -/
structure Metered (cap : Int) (ledgers : Nat) (s : Storage Address W) : Prop where
  volumeCap : s.volumeCap = cap
  length : s.volumeWindowLedgers = ledgers
  volume : s.volumeInWindow = windowTotal s
  amount : ∀ k p, s.proposal.lookup k = some p → 0 < p.amount ∧ p.amount ≤ cap
  pending : ∀ k p, s.proposal.lookup k = some p → p.status = .pending → p.executedAt = none
  inWindow : ∀ k p, s.proposal.lookup k = some p → ∀ e, p.executedAt = some e →
    e < s.volumeWindowStart + ledgers

omit [DecidableEq Address] in
theorem countedFrom_nonneg {start : Nat} {p : Proposal Address} (h : 0 < p.amount) :
    0 ≤ countedFrom start p := by
  unfold countedFrom
  split
  · split
    · exact h.le
    · exact le_rfl
  · exact le_rfl

omit [DecidableEq Address] in
theorem countedFrom_none {start : Nat} {p : Proposal Address} (h : p.executedAt = none) :
    countedFrom start p = 0 := by
  simp only [countedFrom, h]

theorem windowTotal_nonneg (h : Metered cap ledgers s) : 0 ≤ windowTotal s :=
  total_nonneg _ _ (fun k p hp => countedFrom_nonneg (h.amount k p hp).1)

theorem total_countedFrom_insert {start k : Nat} {q : Proposal Address}
    (h : ∀ p, s.proposal.lookup k = some p → p.executedAt = none) :
    total (countedFrom start) (s.proposal.insert k q) =
      total (countedFrom start) s.proposal + countedFrom start q := by
  rw [total_insert]
  cases hl : s.proposal.lookup k with
  | none => simp
  | some p => simp [countedFrom_none (h p hl)]

theorem total_countedFrom_of_over (hm : Metered cap ledgers s) (h : WindowOver env s) :
    total (countedFrom env.sequence) s.proposal = 0 := by
  refine (total_eq_zero_iff _ _ fun k p hp => countedFrom_nonneg (hm.amount k p hp).1).mpr ?_
  intro k p hp
  cases he : p.executedAt with
  | none => exact countedFrom_none he
  | some e =>
    have hlt : e < env.sequence := by
      have hw := hm.inWindow k p hp e he
      rw [← hm.length] at hw
      exact hw.trans_le h
    simp only [countedFrom, he, not_le.mpr hlt, if_false]

theorem windowTotal_execute {signer : Address} {id : Nat} {p : Proposal Address} {w : W}
    (hm : Metered cap ledgers s) (hord : s.volumeWindowStart ≤ env.sequence)
    (hv : Votes env s signer id p) :
    windowTotal { paid env (countVote s signer id p) (voted p signer) w with
      proposal := s.proposal.insert id (settled p signer env.sequence) } =
      (if WindowOver env s then 0 else windowTotal s) + p.amount := by
  have hnone : ∀ q, s.proposal.lookup id = some q → q.executedAt = none :=
    fun q hq => hm.pending id q hq (by cases hv.lookup.symm.trans hq; exact hv.pending)
  have hover : WindowOver env (countVote s signer id p) ↔ WindowOver env s := Iff.rfl
  simp only [windowTotal, paid, Storage.publish, total_countedFrom_insert hnone, hover]
  by_cases h : WindowOver env s
  · rw [if_pos h, if_pos h, total_countedFrom_of_over hm h]
    simp [countedFrom, settled, voted]
  · rw [if_neg h, if_neg h]
    simp [countedFrom, settled, voted, countVote, Storage.publish, hord]

theorem volume_transition {c : Call Address} (h : Transition T env s c t) (hf : Filed s)
    (hm : Metered cap ledgers s) (hord : s.volumeWindowStart ≤ env.sequence) :
    (∀ p, ¬ Completes s p c) ∧ t.volumeInWindow = s.volumeInWindow ∧
        windowTotal t = windowTotal s ∨
      ∃ p, Completes s p c ∧
        t.volumeInWindow = (if WindowOver env s then 0 else s.volumeInWindow) + p.amount ∧
        windowTotal t = (if WindowOver env s then 0 else windowTotal s) + p.amount := by
  cases h with
  | propose proposer kind target amount d =>
    refine .inl ⟨fun _ => id, rfl, ?_⟩
    refine (total_countedFrom_insert fun p hp => ?_).trans (add_zero _)
    cases (lookup_proposalCount hf).symm.trans hp
  | vote signer id p hv hq =>
    have hnone := hm.pending id p hv.lookup hv.pending
    refine .inl ⟨fun q hc => ?_, rfl, ?_⟩
    · cases hv.lookup.symm.trans hc.1
      exact absurd hc.2 (not_le.mpr hq)
    · refine (total_countedFrom_insert fun q hq' => ?_).trans ?_
      · cases hv.lookup.symm.trans hq'
        exact hnone
      · rw [countedFrom_none (p := voted p signer) hnone, add_zero]
        rfl
  | execute signer id p w hv hq hk hw =>
    exact .inr ⟨p, ⟨hv.lookup, hq⟩, rfl, windowTotal_execute hm hord hv⟩
  | settle signer id p hv hq hk => exact absurd (hf.kind id p hv.lookup) hk
  | _ => exact .inl ⟨fun _ => id, rfl, rfl⟩

theorem metered_transition {c : Call Address} (h : Transition T env s c t) (hf : Filed s)
    (hm : Metered cap ledgers s) (hcap : 0 < cap) (hlen : 1 ≤ ledgers)
    (hfix : Fixed cap ledgers s (.call env c))
    (hord : s.volumeWindowStart ≤ env.sequence) : Metered cap ledgers t := by
  have hvolume : t.volumeInWindow = windowTotal t := by
    obtain ⟨-, hv, hw⟩ | ⟨p, -, hv, hw⟩ := volume_transition h hf hm hord
    · rw [hv, hw, hm.volume]
    · rw [hv, hw, hm.volume]
  cases h with
  | propose proposer kind target amount d hauth hsigner hpos hk hd hle =>
    have hroom := hle (hm.volumeCap.symm ▸ hcap)
    have hnonneg := windowTotal_nonneg hm
    rw [hm.volumeCap, hm.volume] at hroom
    have hwithin : amount ≤ cap := by omega
    refine ⟨hm.volumeCap, hm.length, hvolume, ?_, ?_, ?_⟩
    · exact forall_insert ⟨hpos, hwithin⟩ hm.amount
    · exact forall_insert (fun _ => rfl) hm.pending
    · exact forall_insert (fun e he => by cases he) hm.inWindow
  | vote signer id p hv hq =>
    refine ⟨hm.volumeCap, hm.length, hvolume, ?_, ?_, ?_⟩
    · exact forall_insert (hm.amount id p hv.lookup) hm.amount
    · exact forall_insert (hm.pending id p hv.lookup) hm.pending
    · exact forall_insert (hm.inWindow id p hv.lookup) hm.inWindow
  | execute signer id p w hv hq hk hw =>
    refine ⟨hm.volumeCap, hm.length, hvolume, ?_, ?_, ?_⟩
    · exact forall_insert (hm.amount id p hv.lookup) hm.amount
    · exact forall_insert (fun hp => by cases hp) hm.pending
    · have hstart : s.volumeWindowStart + ledgers ≤
          (if WindowOver env s then env.sequence else s.volumeWindowStart) + ledgers := by
        split
        · exact Nat.add_le_add_right hord _
        · exact le_rfl
      have hnow : env.sequence <
          (if WindowOver env s then env.sequence else s.volumeWindowStart) + ledgers := by
        split
        next => omega
        next hopen =>
          rw [← hm.length]
          exact not_le.mp hopen
      refine forall_insert (fun e he => ?_) (fun k q hq' e he => ?_)
      · cases he
        exact hnow
      · exact (hm.inWindow k q hq' e he).trans_le hstart
  | settle signer id p hv hq hk => exact absurd (hf.kind id p hv.lookup) hk
  | setVolumeCap admin n k =>
    exact ⟨hfix.1, hfix.2, hvolume, hm.amount, hm.pending, hfix.2 ▸ hm.inWindow⟩
  | _ => exact ⟨hm.volumeCap, hm.length, hvolume, hm.amount, hm.pending, hm.inWindow⟩

theorem withinCap_transition {c : Call Address} (h : Transition T env s c t) (hf : Filed s)
    (hm : Metered cap ledgers s) (hord : s.volumeWindowStart ≤ env.sequence)
    (hs : WithinCap cap s) : WithinCap cap t ↔ FitsWindow s (.call env c) := by
  obtain ⟨hnone, -, hw⟩ | ⟨p, hc, -, hw⟩ := volume_transition h hf hm hord
  · refine iff_of_true ?_ (fun p hp => absurd hp (hnone p))
    rw [WithinCap, hw]
    exact hs
  · have hiff : FitsWindow s (.call env c) ↔
        (¬ WindowOver env s → s.volumeInWindow + p.amount ≤ s.volumeCap) := by
      refine ⟨fun hfit => hfit p hc, fun hfit q hq => ?_⟩
      cases completes_unique hc hq
      exact hfit
    rw [WithinCap, hw, hiff, hm.volume, hm.volumeCap]
    by_cases hover : WindowOver env s
    · obtain ⟨k, hk⟩ : ∃ k, s.proposal.lookup k = some p := by
        cases c with
        | approve signer id => exact ⟨id, hc.1⟩
        | _ => exact hc.elim
      simpa [hover] using (hm.amount k p hk).2
    · simp [hover]

theorem metered_step {i : Input Address W contract (Call Address)} (h : step T s i = .ok t)
    (hf : Filed s) (hm : Metered cap ledgers s) (hcap : 0 < cap) (hlen : 1 ≤ ledgers)
    (hfix : Fixed cap ledgers s i) (hord : InOrder s i) : Metered cap ledgers t := by
  cases i with
  | call env c => exact metered_transition (invoke_transition h) hf hm hcap hlen hfix hord
  | world w =>
    cases pure_eq_ok.mp h
    exact ⟨hm.volumeCap, hm.length, hm.volume, hm.amount, hm.pending, hm.inWindow⟩

theorem withinCap_step {i : Input Address W contract (Call Address)} (h : step T s i = .ok t)
    (hf : Filed s) (hm : Metered cap ledgers s) (hord : InOrder s i) (hs : WithinCap cap s) :
    WithinCap cap t ↔ FitsWindow s i := by
  cases i with
  | call env c => exact withinCap_transition (invoke_transition h) hf hm hord hs
  | world w =>
    cases pure_eq_ok.mp h
    exact iff_of_true hs trivial

theorem metered_initialise {admin wpiToken usdcToken : Address} {signers : List Address}
    {threshold maxProposalAge : Nat} {w : W}
    (h : initialise env (.fresh w) admin signers threshold cap ledgers maxProposalAge wpiToken
      usdcToken = .ok s) : Metered cap ledgers s ∧ windowTotal s = 0 := by
  simp only [initialise, bind_eq_ok, pure_eq_ok] at h
  obtain ⟨_, -, _, -, _, -, rfl⟩ := h
  refine ⟨⟨rfl, rfl, rfl, ?_, ?_, ?_⟩, rfl⟩
  · intro k p hp
    cases hp
  · intro k p hp
    cases hp
  · intro k p hp
    cases hp

/-- Under a cap and a window length that stay, every window pays out no more
than the cap exactly when each quorum that completes in an open window finds
room for its amount. -/
theorem withinCap_iff_fitsWindow {admin wpiToken usdcToken : Address} {signers : List Address}
    {threshold maxProposalAge : Nat} {w : W}
    (h : initialise env (.fresh w) admin signers threshold cap ledgers maxProposalAge wpiToken
      usdcToken = .ok s) (hcap : 0 < cap) (hlen : 1 ≤ ledgers)
    (is : List (Input Address W contract (Call Address)))
    (hfix : Along (step T) (Fixed cap ledgers) s is) (hord : Along (step T) InOrder s is) :
    Throughout (step T) (WithinCap cap) s is ↔ Along (step T) FitsWindow s is := by
  obtain ⟨hm, hzero⟩ := metered_initialise h
  have hwithin : WithinCap cap s := hzero.trans_le hcap.le
  refine throughout_iff_along (J := fun u => Filed u ∧ Metered cap ledgers u)
    (fun u i t hJ hu hE ht => ?_) ⟨filed_initialise h, hm⟩ hwithin (along_and.mpr ⟨hfix, hord⟩)
  obtain ⟨hf, hm⟩ := hJ
  exact ⟨withinCap_step ht hf hm hE.2 hu,
    fun _ => ⟨filed_step ht hf, metered_step ht hf hm hcap hlen hE.1 hE.2⟩⟩

def sampleCapped : Storage Nat (Nat → Nat → Nat) :=
  { sample with volumeCap := 100 }

theorem initialise_sampleCapped :
    initialise (Env.signed 0 0) (.fresh fun _ _ => 0) 1 [2, 3] 2 100 10 100 9 8 =
      .ok sampleCapped := rfl

theorem withinCap_iff_fitsWindow_sample :
    Throughout (step (bookAsset Nat)) (WithinCap 100) sampleCapped
      [.call (Env.signed 0 1) (.propose 2 .mintWpi 5 60 sampleDeposit),
        .call (Env.signed 0 2) (.approve 3 0)] := by
  refine (withinCap_iff_fitsWindow initialise_sampleCapped (by decide) (by decide) _ ?_ ?_).mpr ?_
  · exact ⟨fun _ _ => trivial, fun _ _ => trivial, trivial⟩
  · exact ⟨fun _ _ => Nat.zero_le _, fun _ _ => Nat.zero_le _, trivial⟩
  · refine ⟨fun _ _ p hc => hc.elim, fun _ _ p hc _ => ?_, trivial⟩
    cases hc.1
    decide

def sampleOther : BytesN 32 := Vector.replicate 32 8

theorem two_proposals_exceed_cap :
    ∃ s : Storage Nat (Nat → Nat → Nat),
      initialise (Env.signed 0 0) (.fresh fun _ _ => 0) 1 [2, 3] 2 100 10 100 9 8 = .ok s ∧
      ¬ Throughout (step (bookAsset Nat)) (WithinCap 100) s
        [.call (Env.signed 0 1) (.propose 2 .mintWpi 5 60 sampleDeposit),
          .call (Env.signed 0 1) (.propose 2 .mintWpi 5 60 sampleOther),
          .call (Env.signed 0 2) (.approve 3 0),
          .call (Env.signed 0 3) (.approve 3 1)] := by
  refine ⟨sampleCapped, rfl, fun h => ?_⟩
  have hover := throughout_run h
  revert hover
  unfold WithinCap
  decide

end Suban.BridgeMultisig.Volume
