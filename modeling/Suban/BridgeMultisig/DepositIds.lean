import Suban.BridgeMultisig.Volume

namespace Suban.BridgeMultisig.DepositIds

open Suban.Basis.Calls Suban.Basis.Tables Suban.Basis.Runs Suban.Soroban.Host
open Suban.BridgeMultisig.Contract Suban.BridgeMultisig.Steps Suban.BridgeMultisig.Replay
open Suban.BridgeMultisig.Volume

variable {Address W : Type} [DecidableEq Address] {contract : Address}
variable {T : StellarAsset Address W} {env : Env Address contract} {s t : Storage Address W}

def Executed (s : Storage Address W) (d : BytesN 32) : Prop :=
  ∃ k p, s.proposal.lookup k = some p ∧ p.status = .executed ∧ p.depositId = d

/-- A deposit is processed once it was executed and not before, and no proposal
of it is refused as processed before. -/
structure ToldApart (contract : Address) (s : Storage Address W) (d : BytesN 32) : Prop where
  processed : s.isDepositProcessed d = true ↔ Executed s d
  refused : ∀ (env : Env Address contract) proposer kind target amount,
    propose env s proposer kind target amount d = .error (.error .depositAlreadyProcessed) →
      Executed s d

def firstEight (d : BytesN 32) : List UInt8 := d.toList.take 8

/-- The used nonces are those of the executed deposits. -/
def Marked (s : Storage Address W) : Prop :=
  ∀ nonce, (s.nonce.lookup nonce).isSome = true ↔
    ∃ e, Executed s e ∧ depositIdToNonce e = nonce

/-- Bytes are read off the number they make, given how many there are. -/
theorem foldl_bytes_inj {a b : Nat} {xs ys : List UInt8} (hlen : xs.length = ys.length)
    (h : xs.foldl (fun acc byte => 256 * acc + byte.toNat) a =
      ys.foldl (fun acc byte => 256 * acc + byte.toNat) b) : a = b ∧ xs = ys := by
  induction xs generalizing a b ys with
  | nil =>
    cases List.eq_nil_of_length_eq_zero hlen.symm
    exact ⟨h, rfl⟩
  | cons x xs ih =>
    cases ys with
    | nil => cases hlen
    | cons y ys =>
      obtain ⟨hacc, rfl⟩ := ih (Nat.succ.inj hlen) h
      have hx := x.toNat_lt
      have hy := y.toNat_lt
      have hacc : 256 * a + x.toNat = 256 * b + y.toNat := hacc
      have hbyte : x.toNat = y.toNat := by omega
      exact ⟨by omega, by rw [UInt8.toNat_inj.mp hbyte]⟩

/-- A nonce is as good as the first eight bytes, and says nothing of the rest. -/
theorem depositIdToNonce_eq_iff {d e : BytesN 32} :
    depositIdToNonce d = depositIdToNonce e ↔ firstEight d = firstEight e := by
  refine ⟨fun h => (foldl_bytes_inj ?_ h).2, fun h => ?_⟩
  · simp
  · unfold depositIdToNonce
    rw [← firstEight, h, firstEight]

theorem executed_insert_iff {k : Nat} {q : Proposal Address}
    (hp : t.proposal = s.proposal.insert k q)
    (hk : ∀ p, s.proposal.lookup k = some p → p.status = .pending) (d : BytesN 32) :
    Executed t d ↔ Executed s d ∨ q.status = .executed ∧ q.depositId = d := by
  unfold Executed
  rw [hp]
  refine ⟨?_, ?_⟩
  · rintro ⟨j, p, hl, hx, hd⟩
    obtain ⟨-, rfl⟩ | ⟨-, hl⟩ := lookup_insert_eq_some.mp hl
    · exact .inr ⟨hx, hd⟩
    · exact .inl ⟨j, p, hl, hx, hd⟩
  · rintro (⟨j, p, hl, hx, hd⟩ | hq)
    · refine ⟨j, p, lookup_insert_eq_some.mpr (.inr ⟨?_, hl⟩), hx, hd⟩
      rintro rfl
      cases hx.symm.trans (hk p hl)
    · exact ⟨k, q, AList.lookup_insert _, hq⟩

theorem marked_effect {c : Call Address} (h : Effect s t c) (hf : Filed s) (hs : Marked s) :
    Marked t := by
  cases h with
  | keep ha hp hc hn ho => simpa only [Marked, Executed, hp, hn] using hs
  | propose proposer kind target amount d createdAt hk hd hp hc hn ho =>
    have hnew := executed_insert_iff hp (by simp [lookup_proposalCount hf])
    intro nonce
    simp only [hn, hs nonce, hnew, reduceCtorEq, false_and, or_false]
  | vote signer id p hl hst hq hp hc hn ho =>
    have hnew := executed_insert_iff hp (by simp [hl, hst])
    intro nonce
    simp only [hn, hs nonce, hnew, hst, reduceCtorEq, false_and, or_false]
  | execute signer id p executedAt hl hst hq hp hc ho =>
    have hnew := executed_insert_iff hp (by simp [hl, hst])
    intro nonce
    rw [(ho (hf.kind id p hl)).1, isSome_lookup_insert, hs nonce]
    simp only [hnew, true_and]
    refine ⟨?_, ?_⟩
    · rintro (rfl | ⟨e, he, hn⟩)
      · exact ⟨p.depositId, .inr rfl, rfl⟩
      · exact ⟨e, .inl he, hn⟩
    · rintro ⟨e, he | rfl, hn⟩
      · exact .inr ⟨e, he, hn⟩
      · exact .inl hn.symm

theorem marked_step {i : Input Address W contract (Call Address)} (h : step T s i = .ok t)
    (hf : Filed s) (hs : Marked s) : Marked t := by
  cases i with
  | call env c => exact marked_effect (invoke_effect h) hf hs
  | world w =>
    cases pure_eq_ok.mp h
    exact hs

theorem marked_initialise {admin wpiToken usdcToken : Address} {signers : List Address}
    {threshold volumeWindowLedgers maxProposalAge : Nat} {volumeCap : Int} {w : W}
    (h : initialise env (.fresh w) admin signers threshold volumeCap volumeWindowLedgers
      maxProposalAge wpiToken usdcToken = .ok s) : Marked s := by
  simp only [initialise, bind_eq_ok, pure_eq_ok] at h
  obtain ⟨_, -, _, -, _, -, rfl⟩ := h
  intro nonce
  refine iff_of_false (by simp [Storage.publish, Storage.fresh]) ?_
  rintro ⟨e, ⟨k, p, hl, -⟩, -⟩
  cases hl

theorem marked_run (hf : Filed s) (hs : Marked s)
    (is : List (Input Address W contract (Call Address))) : Marked (run (step T) s is) := by
  have hall : Throughout (step T) (fun u => Filed u ∧ Marked u) s is :=
    throughout_of_along (fun u i t hu _ ht => ⟨filed_step ht hu.1, marked_step ht hu.1 hu.2⟩)
      ⟨hf, hs⟩ (along_true s is)
  exact (throughout_run hall).2

theorem isDepositProcessed_iff (hs : Marked s) (d : BytesN 32) :
    s.isDepositProcessed d = true ↔ ∃ e, Executed s e ∧ firstEight e = firstEight d := by
  rw [Storage.isDepositProcessed, hs]
  simp only [depositIdToNonce_eq_iff]

theorem processed_of_refused {proposer target : Address} {kind : ProposalKind} {amount : Int}
    {d : BytesN 32} (h : propose env s proposer kind target amount d =
      .error (.error .depositAlreadyProcessed)) : s.isDepositProcessed d = true := by
  by_contra hd
  have hvolume : volumeBreaker s amount ≠ .error (.error .depositAlreadyProcessed) := by
    unfold volumeBreaker
    split
    · exact bind_ne_error (checked_ne_error _ _) fun _ _ => rejectIf_ne_error (by decide)
    · exact pure_ne_error _ _
  simp only [propose, bind_eq_error, requireAuth, panicIf_ne_error, rejectIf_eq_error,
    checkedUInt_ne_error, pure_ne_error, hvolume, hd, reduceCtorEq, and_false, false_and, false_or,
    exists_false] at h

/-- In any run an id is told apart exactly when no other id with the same first
eight bytes was executed, or it was executed itself. -/
theorem toldApart_iff {admin wpiToken usdcToken : Address} {signers : List Address}
    {threshold volumeWindowLedgers maxProposalAge : Nat} {volumeCap : Int} {w : W}
    (h : initialise env (.fresh w) admin signers threshold volumeCap volumeWindowLedgers
      maxProposalAge wpiToken usdcToken = .ok s)
    (is : List (Input Address W contract (Call Address))) (d : BytesN 32) :
    ToldApart contract (run (step T) s is) d ↔
      ∀ e, Executed (run (step T) s is) e → firstEight e = firstEight d →
        Executed (run (step T) s is) d := by
  have hprocessed := isDepositProcessed_iff
    (marked_run (T := T) (filed_initialise h) (marked_initialise h) is) d
  refine ⟨fun hd e he hsame => hd.processed.mp (hprocessed.mpr ⟨e, he, hsame⟩), fun hd => ?_⟩
  have himp : (run (step T) s is).isDepositProcessed d = true → Executed (run (step T) s is) d := by
    intro hp
    obtain ⟨e, he, hsame⟩ := hprocessed.mp hp
    exact hd e he hsame
  refine ⟨⟨himp, fun hx => hprocessed.mpr ⟨d, hx, rfl⟩⟩, ?_⟩
  exact fun env proposer kind target amount hrefused => himp (processed_of_refused hrefused)

def executedOnce : Storage Nat (Nat → Nat → Nat) :=
  run (step (bookAsset Nat)) sample
    [.call (Env.signed 0 1) (.propose 2 .mintWpi 5 40 sampleDeposit),
      .call (Env.signed 0 2) (.approve 3 0)]

theorem executed_executedOnce {d : BytesN 32} (h : Executed executedOnce d) :
    d = sampleDeposit := by
  obtain ⟨k, p, hl, -, rfl⟩ := h
  have hall : ∀ e ∈ executedOnce.proposal.entries, e.2.depositId = sampleDeposit := by
    decide +kernel
  exact hall ⟨k, p⟩ (AList.mem_lookup_iff.mp hl)

theorem toldApart_iff_sample : ToldApart 0 executedOnce sampleOther := by
  refine (toldApart_iff (T := bookAsset Nat) initialise_sample _ sampleOther).mpr ?_
  intro e he hsame
  rw [executed_executedOnce he] at hsame
  exact absurd hsame (by decide)

/-- An id that differs from that of the executed deposit in its last byte. -/
def sampleAlike : BytesN 32 := sampleDeposit.set 31 8

theorem other_deposit_processed :
    ∃ s : Storage Nat (Nat → Nat → Nat),
      initialise (Env.signed 0 0) (.fresh fun _ _ => 0) 1 [2, 3] 2 0 10 100 9 8 = .ok s ∧
      run (step (bookAsset Nat)) s
        [.call (Env.signed 0 1) (.propose 2 .mintWpi 5 40 sampleDeposit),
          .call (Env.signed 0 2) (.approve 3 0)] = executedOnce ∧
      ¬ Executed executedOnce sampleAlike ∧
      executedOnce.isDepositProcessed sampleAlike = true ∧
      propose (Env.signed 0 3) executedOnce 2 .mintWpi 5 40 sampleAlike =
        .error (.error .depositAlreadyProcessed) := by
  refine ⟨sample, rfl, rfl, fun h => ?_, by decide +kernel, rfl⟩
  exact absurd (executed_executedOnce h) (by decide)

end Suban.BridgeMultisig.DepositIds
