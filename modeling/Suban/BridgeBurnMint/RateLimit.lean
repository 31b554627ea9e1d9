import Suban.Basis.Runs
import Suban.Basis.Windows
import Suban.BridgeBurnMint.Minting

namespace Suban.BridgeBurnMint.RateLimit

open Suban.Basis.Calls Suban.Basis.Tables Suban.Basis.Runs Suban.Basis.Windows
open Suban.Soroban.Host Suban.BridgeBurnMint.Contract Suban.BridgeBurnMint.Transitions
open Suban.BridgeBurnMint.Minting

variable {Address W : Type} [DecidableEq Address] {contract : Address}
variable {T : StellarAsset Address W} {env : Env Address contract} {s t : Storage Address W}
variable {cap : Int} {ledgers : Nat}

def ledger : Input Address W contract (Call Address) → Option Nat
  | .call env _ => some env.sequence
  | .world _ => none

omit [DecidableEq Address] in
theorem filterMap_ledger (c : Call Address)
    (is : List (Input Address W contract (Call Address))) :
    (.call env c :: is : List (Input Address W contract (Call Address))).filterMap ledger =
      env.sequence :: is.filterMap ledger := rfl

def entry : Storage Address W × Input Address W contract (Call Address) × Storage Address W →
    Option Entry
  | (_, .call env (.mintPusd _ amount _ _ _ _), t) =>
    some ⟨t.volumeWindowStart, env.sequence, amount⟩
  | _ => none

def mints (T : StellarAsset Address W) (s : Storage Address W)
    (is : List (Input Address W contract (Call Address))) : List Entry :=
  (history (step T) s is).filterMap entry

def Metered (cap : Int) (ledgers : Nat) (s : Storage Address W) : Prop :=
  s.volumeCap = cap ∧ s.volumeWindowLedgers = ledgers

theorem window_step {i : Input Address W contract (Call Address)} (h : step T s i = .ok t)
    (hmint : entry (s, i, t) = none) :
    t.volumeWindowStart = s.volumeWindowStart ∧ t.volumeInWindow = s.volumeInWindow := by
  cases i with
  | world w =>
    cases pure_eq_ok.mp h
    exact ⟨rfl, rfl⟩
  | call env c =>
    cases invoke_transition h with
    | mint => cases hmint
    | _ => exact ⟨rfl, rfl⟩

theorem limited_mint {recipient : Address} {amount : Int} {chain : Symbol} {nonce : Nat}
    {txHash : TxHash} {signers : List Address} {l : List Entry}
    (h : step T s (.call env (.mintPusd recipient amount chain nonce txHash signers)) = .ok t)
    (hmetered : Metered cap ledgers s) (hcap : 0 < cap) (hledgers : 0 < ledgers)
    (hused : s.volumeInWindow ≤ cap) (hsequence : s.volumeWindowStart ≤ env.sequence)
    (hrest : 0 ≤ t.volumeInWindow → t.volumeInWindow ≤ cap → t.volumeWindowStart ≤ env.sequence →
      Limited ledgers cap t.volumeWindowStart t.volumeInWindow l) (h0 : 0 ≤ s.volumeInWindow) :
    Limited ledgers cap s.volumeWindowStart s.volumeInWindow
      (⟨t.volumeWindowStart, env.sequence, amount⟩ :: l) := by
  obtain ⟨rfl, rfl⟩ := hmetered
  have hinvoke : invoke T env s (.mintPusd recipient amount chain nonce txHash signers) = .ok t := h
  cases invoke_transition hinvoke with
  | mint recipient amount chain nonce txHash signers token w hp hpos hvolume =>
    have hset := hcap.ne'
    have hfits := hvolume hset
    simp only [Storage.publish, metered, hset, ne_eq, not_false_eq_true, true_and, if_false,
      meteredVolume] at hfits hrest ⊢
    by_cases hover : WindowOver env s
    · simp only [hover, if_true, zero_add] at hfits hrest ⊢
      exact (hrest hpos.le hfits le_rfl).reopen hledgers hover hpos.le hused
    · simp only [hover, if_false] at hfits hrest ⊢
      exact (hrest (add_nonneg h0 hpos.le) hfits hsequence).count hsequence (not_le.mp hover)
        hpos.le

theorem limited_run {is : List (Input Address W contract (Call Address))}
    (hmetered : Throughout (step T) (Metered cap ledgers) s is) (hcap : 0 < cap)
    (hledgers : 0 < ledgers) (hsorted : (is.filterMap ledger).Pairwise (· ≤ ·))
    (hstart : ∀ n ∈ is.filterMap ledger, s.volumeWindowStart ≤ n) (h0 : 0 ≤ s.volumeInWindow)
    (hused : s.volumeInWindow ≤ cap) :
    Limited ledgers cap s.volumeWindowStart s.volumeInWindow (mints T s is) := by
  induction is generalizing s with
  | nil => exact limited_nil hcap.le hused
  | cons i is ih =>
    have hnow := hmetered.1
    have hrest := hmetered.2
    have htail : (is.filterMap ledger).Pairwise (· ≤ ·) :=
      hsorted.sublist ((List.sublist_cons_self i is).filterMap ledger)
    have hlater : ∀ n ∈ is.filterMap ledger, s.volumeWindowStart ≤ n := fun n hn =>
      hstart n (((List.sublist_cons_self i is).filterMap ledger).mem hn)
    cases hi : step T s i with
    | error e =>
      rw [next_error hi] at hrest
      rw [mints, history_error hi]
      exact ih hrest htail hlater h0 hused
    | ok t =>
      rw [next_ok hi] at hrest
      rw [mints, history_ok hi, List.filterMap_cons]
      cases hentry : entry (s, i, t) with
      | none =>
        obtain ⟨hsame, hvolume⟩ := window_step hi hentry
        have hlimited := ih hrest htail (fun n hn => hsame.trans_le (hlater n hn))
          (h0.trans_eq hvolume.symm) (hvolume.trans_le hused)
        rwa [hsame, hvolume] at hlimited
      | some e =>
        cases i with
        | world w => cases hentry
        | call env c =>
          cases c with
          | mintPusd recipient amount chain nonce txHash signers =>
            cases hentry
            rw [filterMap_ledger, List.pairwise_cons] at hsorted
            rw [filterMap_ledger, List.forall_mem_cons] at hstart
            apply limited_mint hi hnow hcap hledgers hused hstart.1 _ h0
            intro ht0 htused htstart
            exact ih hrest htail (fun n hn => htstart.trans (hsorted.1 n hn)) ht0 htused
          | _ => cases hentry

section Initialised

variable {admin pusdToken : Address} {signers : List Address} {threshold : Nat}
variable {volumeCap : Int} {volumeWindowLedgers : Nat} {w : W}

/-- While the breaker is set to a cap and a width, at ledgers that do not go
back, the mints that are counted in one window come to no more than the cap,
and those of any stretch of that width to no more than twice the cap. -/
theorem mint_rate_limited
    (h : initialise env (.fresh w) admin signers threshold pusdToken volumeCap
      volumeWindowLedgers = .ok s)
    {is : List (Input Address W contract (Call Address))} (hcap : 0 < cap) (hledgers : 1 ≤ ledgers)
    (hmetered : Throughout (step T) (Metered cap ledgers) s is)
    (hsorted : (is.filterMap ledger).Pairwise (· ≤ ·)) :
    (∀ v, volume (fun e => e.start = v) (mints T s is) ≤ cap) ∧
      ∀ n, volume (fun e => n ≤ e.time ∧ e.time < n + ledgers) (mints T s is) ≤ 2 * cap := by
  obtain ⟨-, -, hstart, hused⟩ := initialise_eq_ok h
  have hlimited := limited_run hmetered hcap hledgers hsorted
    (fun n _ => hstart.trans_le (Nat.zero_le n)) hused.ge (hused.trans_le hcap.le)
  rw [hstart, hused] at hlimited
  exact ⟨hlimited.window_le le_rfl, hlimited.sliding_le le_rfl hcap.le⟩

end Initialised

def sampleMints : List (Input Nat (Nat → Nat → Nat) 0 (Call Nat)) :=
  [sampleMint 5 0 (sampleHash 1), sampleMint 12 1 (sampleHash 2)]

theorem mint_rate_limited_sample :
    volume (fun e => 4 ≤ e.time ∧ e.time < 14) (mints (bookAsset Nat) sample sampleMints) ≤
      2000 := by
  have hmetered : Throughout (step (bookAsset Nat)) (Metered 1000 10) sample sampleMints :=
    ⟨⟨rfl, rfl⟩, ⟨by decide +kernel, by decide +kernel⟩, ⟨by decide +kernel, by decide +kernel⟩⟩
  exact (mint_rate_limited initialise_sample (by decide) (by decide) hmetered (by decide)).2 4

end Suban.BridgeBurnMint.RateLimit
