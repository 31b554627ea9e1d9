import Suban.BridgeMultisig.Volume

namespace Suban.BridgeMultisig.Recovery

open Suban.Basis.Calls Suban.Basis.Tables Suban.Basis.Runs Suban.Soroban.Host
open Suban.BridgeMultisig.Contract Suban.BridgeMultisig.Transitions Suban.BridgeMultisig.Replay
open Suban.BridgeMultisig.Volume

variable {Address W : Type} [DecidableEq Address] {contract : Address}
variable {T : StellarAsset Address W} {env : Env Address contract} {s t : Storage Address W}
variable {proposer target : Address} {kind : ProposalKind} {amount : Int} {d : BytesN 32}

/-- A proposal that passes every check but that of its volume. -/
structure Proposable (env : Env Address contract) (s : Storage Address W) (proposer : Address)
    (kind : ProposalKind) (amount : Int) (d : BytesN 32) : Prop where
  auth : env.auths proposer = true
  unpaused : s.paused = false
  isSigner : s.isSigner proposer = true
  positive : 0 < amount
  kind : kind = .mintWpi ∨ kind = .releaseUsdc
  unprocessed : s.isDepositProcessed d = false
  count : s.proposalCount + 1 < 2 ^ 32

/-- The recorded volume is a sum of executed amounts, none of them negative. -/
structure Recorded (s : Storage Address W) : Prop where
  volume : 0 ≤ s.volumeInWindow
  amount : ∀ k p, s.proposal.lookup k = some p → 0 < p.amount

theorem recorded_transition {c : Call Address} (h : Transition T env s c t) (hs : Recorded s) :
    Recorded t := by
  cases h with
  | propose proposer kind target amount d hauth hsigner hpos =>
    exact ⟨hs.volume, forall_insert hpos hs.amount⟩
  | vote signer id p hv hq =>
    exact ⟨hs.volume, forall_insert (hs.amount id p hv.lookup) hs.amount⟩
  | execute signer id p w hv hq hk hw =>
    have hp := hs.amount id p hv.lookup
    refine ⟨add_nonneg ?_ hp.le, forall_insert hp hs.amount⟩
    split
    · exact le_rfl
    · exact hs.volume
  | settle signer id p hv hq hk =>
    exact ⟨hs.volume, forall_insert (hs.amount id p hv.lookup) hs.amount⟩
  | _ => exact ⟨hs.volume, hs.amount⟩

theorem recorded_step {i : Input Address W contract (Call Address)} (h : step T s i = .ok t)
    (hs : Recorded s) : Recorded t := by
  cases i with
  | call env c => exact recorded_transition (invoke_transition h) hs
  | world w =>
    cases pure_eq_ok.mp h
    exact ⟨hs.volume, hs.amount⟩

theorem recorded_initialise {admin wpiToken usdcToken : Address} {signers : List Address}
    {threshold volumeWindowLedgers maxProposalAge : Nat} {volumeCap : Int} {w : W}
    (h : initialise env (.fresh w) admin signers threshold volumeCap volumeWindowLedgers
      maxProposalAge wpiToken usdcToken = .ok s) : Recorded s := by
  simp only [initialise, bind_eq_ok, pure_eq_ok] at h
  obtain ⟨_, -, _, -, _, -, rfl⟩ := h
  refine ⟨le_rfl, fun k p hp => ?_⟩
  cases hp

theorem recorded_run {s : Storage Address W} (hs : Recorded s)
    (is : List (Input Address W contract (Call Address))) : Recorded (run (step T) s is) :=
  throughout_run (throughout_of_along (fun _ _ _ h _ ht => recorded_step ht h) hs (along_true s is))

theorem checkVolume_refused {cap : Int} :
    checkVolume s amount cap = .error (.error .volumeCapExceeded) ↔
      (minI128 ≤ s.volumeInWindow + amount ∧ s.volumeInWindow + amount ≤ maxI128) ∧
        cap < s.volumeInWindow + amount := by
  simp only [checkVolume, bind_eq_error, checked_ne_error, checked_eq_ok, rejectIf_eq_error,
    false_or, and_true]
  refine ⟨?_, ?_⟩
  · rintro ⟨_, ⟨hr, rfl⟩, hlt⟩
    exact ⟨hr, hlt⟩
  · rintro ⟨hr, hlt⟩
    exact ⟨_, ⟨hr, rfl⟩, hlt⟩

theorem propose_refused_iff (h : Proposable env s proposer kind amount d) :
    propose env s proposer kind target amount d = .error (.error .volumeCapExceeded) ↔
      volumeBreaker s amount = .error (.error .volumeCapExceeded) := by
  have hkind : ¬ (kind ≠ .mintWpi ∧ kind ≠ .releaseUsdc) := by
    rintro ⟨hm, hr⟩
    exact h.kind.elim hm hr
  simp only [propose, bind_eq_error, requireAuth, panicIf_ne_error, panicIf_eq_ok,
    rejectIf_eq_error, rejectIf_eq_ok, checkedUInt_ne_error, pure_ne_error, h.auth, h.unpaused,
    h.isSigner, not_le.mpr h.positive, hkind, h.unprocessed]
  simp

/-- Whatever happened before, and whether the window is over or not, a proposal
that passes every other check is let past the breaker exactly when the volume
recorded last leaves room for it, or is so large that the sum overflows. -/
theorem not_refused_iff_room {env' : Env Address contract} {admin wpiToken usdcToken : Address}
    {signers : List Address} {threshold volumeWindowLedgers maxProposalAge : Nat}
    {volumeCap : Int} {w : W}
    (h : initialise env (.fresh w) admin signers threshold volumeCap volumeWindowLedgers
      maxProposalAge wpiToken usdcToken = .ok s)
    (is : List (Input Address W contract (Call Address)))
    (hcap : 0 < (run (step T) s is).volumeCap)
    (hp : Proposable env' (run (step T) s is) proposer kind amount d) :
    propose env' (run (step T) s is) proposer kind target amount d ≠
        .error (.error .volumeCapExceeded) ↔
      (run (step T) s is).volumeInWindow + amount ≤ (run (step T) s is).volumeCap ∨
        maxI128 < (run (step T) s is).volumeInWindow + amount := by
  have hvolume := (recorded_run (T := T) (recorded_initialise h) is).volume
  have hpos := hp.positive
  have hmin : minI128 ≤ 0 := by decide
  rw [Ne, propose_refused_iff hp, volumeBreaker, if_pos hcap, checkVolume_refused]
  omega

/-- Sixty of a cap of a hundred are executed in the first window. -/
def spent : Storage Nat (Nat → Nat → Nat) :=
  run (step (bookAsset Nat)) sampleCapped
    [.call (Env.signed 0 1) (.propose 2 .mintWpi 5 60 sampleDeposit),
      .call (Env.signed 0 2) (.approve 3 0)]

theorem proposable_spent {amount : Int} (h : 0 < amount) :
    Proposable (Env.signed 0 50) spent 2 .mintWpi amount sampleOther :=
  ⟨rfl, rfl, rfl, h, .inl rfl, by decide +kernel, by decide +kernel⟩

theorem not_refused_iff_room_sample :
    propose (Env.signed 0 50) spent 2 .mintWpi 5 40 sampleOther ≠
      .error (.error .volumeCapExceeded) :=
  (not_refused_iff_room initialise_sampleCapped _ (by decide +kernel)
    (proposable_spent (by decide))).mpr (.inl (by decide +kernel))

/-- Forty ledgers after that window another sixty are refused, and no ledger
would be late enough. -/
theorem refused_after_window :
    ∃ s : Storage Nat (Nat → Nat → Nat),
      initialise (Env.signed 0 0) (.fresh fun _ _ => 0) 1 [2, 3] 2 100 10 100 9 8 = .ok s ∧
      run (step (bookAsset Nat)) s
        [.call (Env.signed 0 1) (.propose 2 .mintWpi 5 60 sampleDeposit),
          .call (Env.signed 0 2) (.approve 3 0)] = spent ∧
      spent.volumeCap = 100 ∧ WindowOver (Env.signed 0 50) spent ∧
      Proposable (Env.signed 0 50) spent 2 .mintWpi 60 sampleOther ∧
      propose (Env.signed 0 50) spent 2 .mintWpi 5 60 sampleOther =
        .error (.error .volumeCapExceeded) :=
  ⟨sampleCapped, rfl, rfl, rfl, by decide +kernel, proposable_spent (by decide), rfl⟩

end Suban.BridgeMultisig.Recovery
