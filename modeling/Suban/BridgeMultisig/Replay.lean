import Suban.Basis.Runs
import Suban.BridgeMultisig.Steps

namespace Suban.BridgeMultisig.Replay

open Suban.Basis.Calls Suban.Basis.Tables Suban.Basis.Runs Suban.Soroban.Host
open Suban.BridgeMultisig.Contract Suban.BridgeMultisig.Steps

variable {Address W : Type} [DecidableEq Address] {contract : Address}
variable {T : StellarAsset Address W}

def carrying (s : Storage Address W) (d : BytesN 32) : Int :=
  total (fun p => if p.depositId = d then 1 else 0) s.proposal

def executed (s : Storage Address W) (d : BytesN 32) : Int :=
  total (fun p => if p.status = .executed ∧ p.depositId = d then 1 else 0) s.proposal

def AtMostOnce (s : Storage Address W) : Prop := ∀ d, executed s d ≤ 1 ∧ payouts s d ≤ 1

/-- The proposals on file are mints and releases that are pending or executed;
the payouts are those of the executed ones, whose nonces are used. -/
structure Filed (s : Storage Address W) : Prop where
  below : ∀ k p, s.proposal.lookup k = some p → k < s.proposalCount
  kind : ∀ k p, s.proposal.lookup k = some p → p.kind = .mintWpi ∨ p.kind = .releaseUsdc
  live : ∀ k p, s.proposal.lookup k = some p → p.status = .pending ∨ p.status = .executed
  used : ∀ k p, s.proposal.lookup k = some p → p.status = .executed →
    s.isDepositProcessed p.depositId = true
  paid : ∀ d, (payouts s d : Int) = executed s d

/-- No quorum completes for a deposit that an executed proposal carries. -/
def ReplayChecked (s : Storage Address W) : Input Address W contract (Call Address) → Prop
  | .call _ (.approve _ id) => ∀ p, s.proposal.lookup id = some p →
      s.threshold ≤ p.approvals.length + 1 →
      ∀ k q, s.proposal.lookup k = some q → q.status = .executed → q.depositId ≠ p.depositId
  | _ => True

/-- No deposit is proposed while a pending proposal carries it. -/
def NotReproposed (s : Storage Address W) : Input Address W contract (Call Address) → Prop
  | .call _ (.propose _ _ _ _ d) => ∀ k q, s.proposal.lookup k = some q →
      q.status = .pending → q.depositId ≠ d
  | _ => True

theorem executed_le_carrying (s : Storage Address W) (d : BytesN 32) :
    executed s d ≤ carrying s d := by
  apply total_mono
  intro p
  by_cases hd : p.depositId = d
  · simp only [hd, and_true, if_true]
    split <;> simp
  · simp [hd]

theorem executed_nonneg (s : Storage Address W) (d : BytesN 32) : 0 ≤ executed s d := by
  apply total_nonneg
  intro k p _
  split <;> simp

theorem executed_eq_zero_iff (s : Storage Address W) (d : BytesN 32) :
    executed s d = 0 ↔
      ∀ k q, s.proposal.lookup k = some q → q.status = .executed → q.depositId ≠ d := by
  unfold executed
  rw [total_eq_zero_iff _ _ (fun _ _ _ => by split <;> simp)]
  simp

theorem carrying_eq_zero {s : Storage Address W} {d : BytesN 32}
    (h : ∀ k q, s.proposal.lookup k = some q → q.depositId ≠ d) : carrying s d = 0 := by
  refine (total_eq_zero_iff _ _ (fun _ _ _ => by split <;> simp)).mpr ?_
  intro k q hq
  simp [h k q hq]

theorem lookup_proposalCount {s : Storage Address W} (h : Filed s) :
    s.proposal.lookup s.proposalCount = none := by
  cases hl : s.proposal.lookup s.proposalCount with
  | none => rfl
  | some p => exact absurd (h.below _ p hl) (lt_irrefl _)

theorem isDepositProcessed_insert (s : Storage Address W) (nonce : Nat) (d : BytesN 32)
    (h : s.isDepositProcessed d = true) :
    ((s.nonce.insert nonce true).lookup (depositIdToNonce d)).isSome = true := by
  by_cases hd : depositIdToNonce d = nonce
  · rw [hd, AList.lookup_insert]
    rfl
  · rw [AList.lookup_insert_ne hd]
    exact h

theorem executed_insert {s t : Storage Address W} {k : Nat} {p : Proposal Address}
    (hp : t.proposal = s.proposal.insert k p) (d : BytesN 32)
    (hk : ∀ q, s.proposal.lookup k = some q → q.status = .pending) :
    executed t d = executed s d +
      if p.status = .executed ∧ p.depositId = d then 1 else 0 := by
  rw [executed, executed, hp, total_insert]
  cases hl : s.proposal.lookup k with
  | none => simp
  | some q => simp [hk q hl]

theorem filed_effect {s t : Storage Address W} {c : Call Address} (h : Effect s t c)
    (hs : Filed s) : Filed t := by
  cases h with
  | keep ha hp hc hn ho =>
    constructor
    · rw [hp, hc]; exact hs.below
    · rw [hp]; exact hs.kind
    · rw [hp]; exact hs.live
    · rw [hp]; simp only [Storage.isDepositProcessed, hn]; exact hs.used
    · intro d; simp only [ho, executed, hp]; exact hs.paid d
  | propose proposer kind target amount d createdAt hk hd hp hc hn ho =>
    constructor
    · rw [hp, hc]
      exact forall_insert (Nat.lt_succ_self _)
        (fun k p hl => (hs.below k p hl).trans_le (Nat.le_succ _))
    · rw [hp]; exact forall_insert hk hs.kind
    · rw [hp]; exact forall_insert (.inl rfl) hs.live
    · rw [hp]
      simp only [Storage.isDepositProcessed, hn]
      exact forall_insert (fun hx => by cases hx) hs.used
    · intro e
      rw [ho, hs.paid, executed_insert hp e (by simp [lookup_proposalCount hs])]
      simp
  | vote signer id p hl hst hq hp hc hn ho =>
    constructor
    · rw [hp, hc]; exact forall_insert (hs.below id p hl) hs.below
    · rw [hp]; exact forall_insert (hs.kind id p hl) hs.kind
    · rw [hp]; exact forall_insert (.inl hst) hs.live
    · rw [hp]
      simp only [Storage.isDepositProcessed, hn]
      exact forall_insert (hs.used id p hl) hs.used
    · intro e
      rw [ho, hs.paid, executed_insert hp e (by simp [hl, hst])]
      simp [hst]
  | execute signer id p executedAt hl hst hq hp hc ho =>
    obtain ⟨hn, ho⟩ := ho (hs.kind id p hl)
    constructor
    · rw [hp, hc]; exact forall_insert (hs.below id p hl) hs.below
    · rw [hp]; exact forall_insert (hs.kind id p hl) hs.kind
    · rw [hp]; exact forall_insert (.inr rfl) hs.live
    · rw [hp]
      simp only [Storage.isDepositProcessed, hn]
      exact forall_insert (fun _ => by simp)
        (fun k q hk hx => isDepositProcessed_insert s _ _ (hs.used k q hk hx))
    · intro e
      rw [ho, Nat.cast_add, hs.paid, executed_insert hp e (by simp [hl, hst])]
      simp

/-- Only a completing quorum executes, and it executes the one proposal. -/
theorem executed_effect {s t : Storage Address W} {c : Call Address} (h : Effect s t c)
    (hs : Filed s) :
    (∀ p, ¬ Completes s p c) ∧ (∀ e, executed t e = executed s e) ∨
      ∃ p, Completes s p c ∧
        ∀ e, executed t e = executed s e + if p.depositId = e then 1 else 0 := by
  cases h with
  | keep hna hp =>
    refine .inl ⟨fun p hc => ?_, fun e => by simp only [executed, hp]⟩
    cases c with
    | approve signer id => exact hna signer id rfl
    | _ => exact hc
  | propose proposer kind target amount d createdAt hk hd hp =>
    refine .inl ⟨fun p => id, fun e => ?_⟩
    rw [executed_insert hp e (by simp [lookup_proposalCount hs])]
    simp
  | vote signer id p hl hst hq hp =>
    refine .inl ⟨fun q hc => ?_, fun e => ?_⟩
    · cases hl.symm.trans hc.1
      exact absurd hc.2 (not_le.mpr hq)
    · rw [executed_insert hp e (by simp [hl, hst])]
      simp [hst]
  | execute signer id p executedAt hl hst hq hp =>
    refine .inr ⟨p, ⟨hl, hq⟩, fun e => ?_⟩
    simpa using executed_insert hp e (by simp [hl, hst])

/-- The check on a completing quorum, read off the call. -/
theorem replayChecked_iff {env : Env Address contract} {s : Storage Address W}
    {c : Call Address} : ReplayChecked s (.call env c) ↔ ∀ p, Completes s p c →
      ∀ k q, s.proposal.lookup k = some q → q.status = .executed → q.depositId ≠ p.depositId := by
  cases c with
  | approve signer id => simp only [ReplayChecked, Completes, and_imp]
  | _ => simp [ReplayChecked, Completes]

/-- Only a completing quorum can break the bound, and it does exactly when an
executed proposal carries its deposit already. -/
theorem atMostOnce_effect {env : Env Address contract} {s t : Storage Address W}
    {c : Call Address} (h : Effect s t c) (hs : Filed s) (ha : AtMostOnce s) :
    AtMostOnce t ↔ ReplayChecked s (.call env c) := by
  have hle (d : BytesN 32) : executed s d ≤ 1 := (ha d).1
  have ht : AtMostOnce t ↔ ∀ d, executed t d ≤ 1 := by
    refine forall_congr' fun d => and_iff_left_of_imp fun hd => ?_
    have hpaid := (filed_effect h hs).paid d
    omega
  rw [ht, replayChecked_iff]
  obtain ⟨hnone, hex⟩ | ⟨p, hc, hex⟩ := executed_effect h hs
  · refine iff_of_true (fun e => ?_) (fun p hp => absurd hp (hnone p))
    rw [hex]
    exact hle e
  · have hzero : (∀ e, executed t e ≤ 1) ↔ executed s p.depositId = 0 := by
      refine ⟨?_, ?_⟩
      · intro h
        have h1 := h p.depositId
        have h0 := executed_nonneg s p.depositId
        rw [hex, if_pos rfl] at h1
        omega
      · intro h e
        rw [hex]
        split
        next he => rw [← he, h]; rfl
        next => simpa using hle e
    rw [hzero, executed_eq_zero_iff]
    refine ⟨?_, ?_⟩
    · intro h q hq
      cases completes_unique hc hq
      exact h
    · exact fun h => h p hc

theorem carrying_insert {s t : Storage Address W} {k : Nat} {p : Proposal Address}
    (hp : t.proposal = s.proposal.insert k p) (d : BytesN 32) :
    carrying t d = carrying s d -
      ((s.proposal.lookup k).map (fun q => if q.depositId = d then 1 else 0)).getD 0 +
        if p.depositId = d then 1 else 0 := by
  rw [carrying, carrying, hp, total_insert]

/-- Every deposit is carried by one proposal at most, once no deposit is
proposed again while it is pending: an executed one is refused by its nonce. -/
theorem carrying_effect {env : Env Address contract} {s t : Storage Address W}
    {c : Call Address} (h : Effect s t c) (hs : Filed s)
    (hc : NotReproposed s (.call env c)) (hle : ∀ d, carrying s d ≤ 1) (d : BytesN 32) :
    carrying t d ≤ 1 := by
  cases h with
  | keep _ hp => simpa only [carrying, hp] using hle d
  | propose proposer kind target amount e createdAt hk hd hp =>
    rw [carrying_insert hp, lookup_proposalCount hs]
    simp only [Option.map_none, Option.getD_none, sub_zero]
    split
    next he =>
      subst he
      rw [carrying_eq_zero fun k q hq => ?_]
      · rfl
      · obtain hst | hst := hs.live k q hq
        · exact hc k q hq hst
        · rintro rfl
          simp [hs.used k q hq hst] at hd
    next => simpa using hle d
  | vote signer id p hl hst hq hp =>
    rw [carrying_insert hp, hl]
    simpa using hle d
  | execute signer id p executedAt hl hst hq hp =>
    rw [carrying_insert hp, hl]
    simpa using hle d

theorem filed_step {s t : Storage Address W} {i : Input Address W contract (Call Address)}
    (h : step T s i = .ok t) (hs : Filed s) : Filed t := by
  cases i with
  | call env c => exact filed_effect (invoke_effect h) hs
  | world w =>
    cases pure_eq_ok.mp h
    exact ⟨hs.below, hs.kind, hs.live, hs.used, hs.paid⟩

theorem atMostOnce_step {s t : Storage Address W} {i : Input Address W contract (Call Address)}
    (h : step T s i = .ok t) (hs : Filed s) (ha : AtMostOnce s) :
    AtMostOnce t ↔ ReplayChecked s i := by
  cases i with
  | call env c => exact atMostOnce_effect (invoke_effect h) hs ha
  | world w =>
    cases pure_eq_ok.mp h
    exact iff_of_true ha trivial

theorem carrying_step {s t : Storage Address W} {i : Input Address W contract (Call Address)}
    (h : step T s i = .ok t) (hs : Filed s) (hc : NotReproposed s i)
    (hle : ∀ d, carrying s d ≤ 1) (d : BytesN 32) : carrying t d ≤ 1 := by
  cases i with
  | call env c => exact carrying_effect (invoke_effect h) hs hc hle d
  | world w =>
    cases pure_eq_ok.mp h
    exact hle d

theorem atMostOnce_of_carrying {s : Storage Address W} (hs : Filed s)
    (hle : ∀ d, carrying s d ≤ 1) : AtMostOnce s := by
  intro d
  have h := executed_le_carrying s d
  have hd := hle d
  have hpaid := hs.paid d
  omega

theorem initialise_ok {env : Env Address contract} {admin wpiToken usdcToken : Address}
    {signers : List Address} {threshold volumeWindowLedgers maxProposalAge : Nat}
    {volumeCap : Int} {w : W} {s : Storage Address W}
    (h : initialise env (.fresh w) admin signers threshold volumeCap volumeWindowLedgers
      maxProposalAge wpiToken usdcToken = .ok s) :
    s.proposal = ∅ ∧ ∀ d, payouts s d = 0 := by
  simp only [initialise, bind_eq_ok, pure_eq_ok] at h
  obtain ⟨_, -, _, -, _, -, rfl⟩ := h
  exact ⟨rfl, fun d => payouts_publish _ _ d⟩

theorem filed_initialise {env : Env Address contract} {admin wpiToken usdcToken : Address}
    {signers : List Address} {threshold volumeWindowLedgers maxProposalAge : Nat}
    {volumeCap : Int} {w : W} {s : Storage Address W}
    (h : initialise env (.fresh w) admin signers threshold volumeCap volumeWindowLedgers
      maxProposalAge wpiToken usdcToken = .ok s) : Filed s := by
  obtain ⟨hp, hpaid⟩ := initialise_ok h
  have hexecuted (d : BytesN 32) : executed s d = 0 := by rw [executed, hp, total_empty]
  constructor
  case paid => intro d; rw [hpaid, hexecuted]; rfl
  all_goals simp [hp]

theorem filed_run {s : Storage Address W} (hs : Filed s)
    (is : List (Input Address W contract (Call Address))) : Filed (run (step T) s is) :=
  throughout_run (throughout_of_along (fun _ _ _ h _ ht => filed_step ht h) hs (along_true s is))

/-- No deposit is paid out twice in a run exactly when no quorum of the run
completes for a deposit that was executed before. That is so in every run which
never proposes a deposit while another proposal for it is pending. -/
theorem atMostOnce_iff_replayChecked {env : Env Address contract}
    {admin wpiToken usdcToken : Address} {signers : List Address}
    {threshold volumeWindowLedgers maxProposalAge : Nat} {volumeCap : Int} {w : W}
    {s : Storage Address W}
    (h : initialise env (.fresh w) admin signers threshold volumeCap volumeWindowLedgers
      maxProposalAge wpiToken usdcToken = .ok s)
    (is : List (Input Address W contract (Call Address))) :
    (Throughout (step T) AtMostOnce s is ↔ Along (step T) ReplayChecked s is) ∧
      (Along (step T) NotReproposed s is → Throughout (step T) AtMostOnce s is) := by
  obtain ⟨hp, -⟩ := initialise_ok h
  have hfiled := filed_initialise h
  have hcarrying (d : BytesN 32) : carrying s d = 0 := by rw [carrying, hp, total_empty]
  have hle (d : BytesN 32) : carrying s d ≤ 1 := by rw [hcarrying]; exact Int.one_nonneg
  refine ⟨?_, ?_⟩
  · exact throughout_iff_along (J := Filed) (E := fun _ _ => True)
      (fun _ _ _ hs ha _ hi => ⟨atMostOnce_step hi hs ha, fun _ => filed_step hi hs⟩)
      hfiled (atMostOnce_of_carrying hfiled hle) (along_true s is)
  · intro hc
    refine throughout_mono (fun u hu => atMostOnce_of_carrying hu.1 hu.2)
      (throughout_of_along (P := fun u => Filed u ∧ ∀ d, carrying u d ≤ 1) ?_ ⟨hfiled, hle⟩ hc)
    exact fun u i t hu hi ht => ⟨filed_step ht hu.1, carrying_step ht hu.1 hi hu.2⟩

/-- Two signers, threshold two, and the mint token at address 9. -/
def sample : Storage Nat (Nat → Nat → Nat) where
  admin := some 1
  wpiToken := some 9
  usdcToken := some 8
  signer := [2, 3].foldl (fun t a => t.insert a true) ∅
  signerCount := 2
  threshold := 2
  proposal := ∅
  proposalCount := 0
  nonce := ∅
  volumeWindowStart := 0
  volumeInWindow := 0
  volumeCap := 0
  volumeWindowLedgers := 10
  paused := false
  maxProposalAge := 100
  events := [.init 1 2 2]
  world := fun _ _ => 0

theorem initialise_sample :
    initialise (Env.signed 0 0) (.fresh fun _ _ => 0) 1 [2, 3] 2 0 10 100 9 8 =
      .ok sample := rfl

def sampleDeposit : BytesN 32 := Vector.replicate 32 7

theorem atMostOnce_iff_replayChecked_sample :
    Throughout (step (bookAsset Nat)) AtMostOnce sample
      [.call (Env.signed 0 1) (.propose 2 .mintWpi 5 40 sampleDeposit),
        .call (Env.signed 0 2) (.approve 3 0)] := by
  refine (atMostOnce_iff_replayChecked initialise_sample _).2 ⟨fun t _ => ?_, fun _ _ => ?_, ?_⟩
  · intro k q hq
    cases hq
  · trivial
  · trivial

/-- Two proposals for one deposit, both filed before either is executed, mint
twice. -/
theorem one_deposit_mints_twice :
    ∃ s : Storage Nat (Nat → Nat → Nat),
      initialise (Env.signed 0 0) (.fresh fun _ _ => 0) 1 [2, 3] 2 0 10 100 9 8 = .ok s ∧
      ¬ Throughout (step (bookAsset Nat)) AtMostOnce s
        [.call (Env.signed 0 1) (.propose 2 .mintWpi 5 40 sampleDeposit),
          .call (Env.signed 0 1) (.propose 2 .mintWpi 5 40 sampleDeposit),
          .call (Env.signed 0 2) (.approve 3 0),
          .call (Env.signed 0 3) (.approve 3 1)] := by
  refine ⟨sample, rfl, fun h => ?_⟩
  have htwice := (throughout_run h sampleDeposit).2
  revert htwice
  decide

end Suban.BridgeMultisig.Replay
