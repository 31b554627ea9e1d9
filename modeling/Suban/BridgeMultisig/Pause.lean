import Suban.BridgeMultisig.Replay

namespace Suban.BridgeMultisig.Pause

open Suban.Basis.Calls Suban.Basis.Tables Suban.Basis.Runs Suban.Soroban.Host
open Suban.BridgeMultisig.Contract Suban.BridgeMultisig.Transitions Suban.BridgeMultisig.Steps
open Suban.BridgeMultisig.Replay

variable {Address W : Type} [DecidableEq Address] {contract : Address}
variable {T : StellarAsset Address W} {env : Env Address contract} {s t : Storage Address W}

/-- Since the state `s` no proposal was executed and nothing was paid out. -/
def NothingExecuted (s t : Storage Address W) : Prop :=
  ∀ d, executed t d = executed s d ∧ payouts t d = payouts s d

def NotUnpaused (_ : Storage Address W) : Input Address W contract (Call Address) → Prop
  | .call _ (.unpause _) => False
  | _ => True

def QuorumOpen (s : Storage Address W) : Input Address W contract (Call Address) → Prop
  | .call _ c => ∀ p, ¬ Completes s p c
  | .world _ => True

theorem paused_transition {c : Call Address} (h : Transition T env s c t)
    (hc : NotUnpaused s (.call env c)) (hs : s.paused = true) : t.paused = true := by
  cases h with
  | unpause => exact hc.elim
  | pause => rfl
  | _ => exact hs

theorem paused_step {i : Input Address W contract (Call Address)} (h : step T s i = .ok t)
    (hi : NotUnpaused s i) (hs : s.paused = true) : t.paused = true := by
  cases i with
  | call env c => exact paused_transition (invoke_transition h) hi hs
  | world w =>
    cases pure_eq_ok.mp h
    exact hs

theorem nothingExecuted_iff {u : Storage Address W} (hs : Filed s) (hu : Filed u) :
    NothingExecuted s u ↔ ∀ d, executed u d = executed s d := by
  refine forall_congr' fun d => and_iff_left_of_imp fun h => ?_
  have hpaid := hs.paid d
  rw [← h, ← hu.paid d] at hpaid
  exact (Int.ofNat_inj.mp hpaid).symm

theorem nothingExecuted_effect {u : Storage Address W} {c : Call Address} (h : Effect u t c)
    (hs : Filed s) (hu : Filed u) (hn : NothingExecuted s u) :
    NothingExecuted s t ↔ QuorumOpen u (.call env c) := by
  rw [nothingExecuted_iff hs (filed_effect h hu)]
  obtain ⟨hnone, hex⟩ | ⟨p, hc, hex⟩ := executed_effect h hu
  · refine iff_of_true (fun d => ?_) hnone
    rw [hex]
    exact (hn d).1
  · refine iff_of_false (fun hall => ?_) (fun hopen => hopen p hc)
    have hd := hall p.depositId
    rw [hex, if_pos rfl, (hn p.depositId).1] at hd
    omega

theorem nothingExecuted_step {u : Storage Address W} {i : Input Address W contract (Call Address)}
    (h : step T u i = .ok t) (hs : Filed s) (hu : Filed u) (hn : NothingExecuted s u) :
    NothingExecuted s t ↔ QuorumOpen u i := by
  cases i with
  | call env c => exact nothingExecuted_effect (invoke_effect h) hs hu hn
  | world w =>
    cases pure_eq_ok.mp h
    exact iff_of_true hn trivial

/-- From a pause on, as long as nobody unpauses the bridge, it stays paused. It
executes nothing exactly when no vote completes a quorum in that time. -/
theorem nothingExecuted_iff_quorumOpen {admin wpiToken usdcToken : Address}
    {signers : List Address} {threshold volumeWindowLedgers maxProposalAge : Nat}
    {volumeCap : Int} {w : W} {opened : Storage Address W}
    (h : initialise env (.fresh w) admin signers threshold volumeCap volumeWindowLedgers
      maxProposalAge wpiToken usdcToken = .ok opened)
    (before : List (Input Address W contract (Call Address)))
    {envp : Env Address contract} {pauser : Address}
    (hpause : step T (run (step T) opened before) (.call envp (.pause pauser)) = .ok s)
    (is : List (Input Address W contract (Call Address)))
    (his : Along (step T) NotUnpaused s is) :
    Throughout (step T) (fun u => u.paused = true) s is ∧
      (Throughout (step T) (NothingExecuted s) s is ↔ Along (step T) QuorumOpen s is) := by
  have hfiled : Filed s := filed_step hpause (filed_run (filed_initialise h) before)
  have hpaused : s.paused = true := by
    have hinvoke : invoke T envp (run (step T) opened before) (.pause pauser) = .ok s := hpause
    cases invoke_transition hinvoke
    rfl
  refine ⟨?_, ?_⟩
  · exact throughout_of_along (fun _ _ _ hu hi ht => paused_step ht hi hu) hpaused his
  · exact throughout_iff_along (J := Filed) (E := fun _ _ => True)
      (fun _ _ _ hu hn _ ht => ⟨nothingExecuted_step ht hfiled hu hn, fun _ => filed_step ht hu⟩)
      hfiled (fun _ => ⟨rfl, rfl⟩) (along_true s is)

def sampleProposed : Input Nat (Nat → Nat → Nat) 0 (Call Nat) :=
  .call (Env.signed 0 1) (.propose 2 .mintWpi 5 40 sampleDeposit)

def samplePaused : Storage Nat (Nat → Nat → Nat) :=
  run (step (bookAsset Nat)) sample [sampleProposed, .call (Env.signed 0 2) (.pause 1)]

/-- A proposal that was executed after the bridge was unpaused, and another one. -/
def sampleBefore : List (Input Nat (Nat → Nat → Nat) 0 (Call Nat)) :=
  [sampleProposed, .call (Env.signed 0 2) (.pause 1), .call (Env.signed 0 3) (.unpause 1),
    .call (Env.signed 0 4) (.approve 3 0),
    .call (Env.signed 0 5) (.propose 2 .mintWpi 5 60 (Vector.replicate 32 8))]

def samplePausedAgain : Storage Nat (Nat → Nat → Nat) :=
  run (step (bookAsset Nat)) sample (sampleBefore ++ [.call (Env.signed 0 6) (.pause 1)])

example : executed samplePausedAgain sampleDeposit = 1 := by decide +kernel

theorem nothingExecuted_iff_quorumOpen_sample :
    Throughout (step (bookAsset Nat)) (NothingExecuted samplePausedAgain) samplePausedAgain
      [.call (Env.signed 0 7) (.addSigner 1 4), .call (Env.signed 0 8) (.setThreshold 1 3),
        .call (Env.signed 0 9) (.approve 3 1)] := by
  have hpause : step (bookAsset Nat) (run (step (bookAsset Nat)) sample sampleBefore)
      (.call (Env.signed 0 6) (.pause 1)) = .ok samplePausedAgain := rfl
  refine (nothingExecuted_iff_quorumOpen initialise_sample sampleBefore hpause _ ?_).2.mpr ?_
  · exact ⟨fun _ _ => trivial, fun _ _ => trivial, fun _ _ => trivial, trivial⟩
  · refine ⟨fun _ _ _ => id, fun _ _ _ => id, fun _ _ p hp => ?_, trivial⟩
    -- two votes of the three that are asked for by then
    obtain ⟨hlookup, hquorum⟩ := hp
    have hone : ((run (step (bookAsset Nat)) samplePausedAgain
        [.call (Env.signed 0 7) (.addSigner 1 4),
          .call (Env.signed 0 8) (.setThreshold 1 3)]).proposal.lookup 1).map
        (fun p => p.approvals.length) = some 1 := by decide +kernel
    have hthree : 3 ≤ p.approvals.length + 1 := hquorum
    have hlength := (congrArg (Option.map fun p => p.approvals.length) hlookup).symm.trans hone
    rw [Option.map_some, Option.some_inj] at hlength
    omega

/-- A vote cast while the bridge is paused mints what was proposed before. -/
theorem paused_bridge_mints :
    ∃ opened s : Storage Nat (Nat → Nat → Nat),
      initialise (Env.signed 0 0) (.fresh fun _ _ => 0) 1 [2, 3] 2 0 10 100 9 8 = .ok opened ∧
      step (bookAsset Nat) (run (step (bookAsset Nat)) opened [sampleProposed])
        (.call (Env.signed 0 2) (.pause 1)) = .ok s ∧
      Along (step (bookAsset Nat)) NotUnpaused s [.call (Env.signed 0 3) (.approve 3 0)] ∧
      ¬ Throughout (step (bookAsset Nat)) (NothingExecuted s) s
        [.call (Env.signed 0 3) (.approve 3 0)] := by
  refine ⟨sample, samplePaused, rfl, rfl, ⟨fun _ _ => trivial, trivial⟩, fun h => ?_⟩
  have hnone := (throughout_run h sampleDeposit).2
  revert hnone
  decide

end Suban.BridgeMultisig.Pause
