import Suban.Basis.Runs
import Suban.Relayer.Stellar

namespace Suban.Relayer.Completeness

open Suban.Basis.Runs Suban.Relayer.Stellar

variable {limit first : Nat} {s t : Watch}

def burns (c : Chain) : List StellarBurnEvent := c.events.filterMap parseBurnEvent

/-- Each burn after the first ledger, and up to the last one the watcher is
done with, has been emitted as often as it has happened. -/
def ExactlyOnce (first : Nat) (s : Watch) : Prop :=
  ∀ b : StellarBurnEvent, first < b.ledger → b.ledger ≤ s.watcher.lastLedger →
    s.watcher.emitted.count b = (burns s.chain).count b

/-- The page that answers a poll holds the burns up to the ledger that the poll
has read, all of them and no later ones. -/
def PageComplete (limit : Nat) (s : Watch) : Input → Prop
  | .getEvents => ∀ current, s.watcher.polling = some current →
    (∀ e ∈ (s.chain.since (s.watcher.lastLedger + 1)).drop limit,
      e.ledger ≤ current → parseBurnEvent e = none) ∧
    ∀ e ∈ s.chain.getEvents limit (s.watcher.lastLedger + 1),
      current < e.ledger → parseBurnEvent e = none
  | _ => True

/-- What holds between the polls, and in the middle of one. -/
structure Tracked (first : Nat) (s : Watch) : Prop where
  started : first ≤ s.watcher.lastLedger
  behind : s.watcher.lastLedger = first ∨ s.watcher.lastLedger ≤ s.chain.latest
  polling : ∀ current, s.watcher.polling = some current →
    s.watcher.lastLedger < current ∧ current ≤ s.chain.latest
  emitted : ∀ b : StellarBurnEvent, s.watcher.emitted.count b =
    if first < b.ledger ∧ b.ledger ≤ s.watcher.lastLedger then (burns s.chain).count b else 0

theorem Tracked.exactlyOnce (h : Tracked first s) : ExactlyOnce first s := by
  intro b hfirst hlast
  rw [h.emitted, if_pos ⟨hfirst, hlast⟩]

theorem parse_ledger {e : RpcEvent} {b : StellarBurnEvent} (h : parseBurnEvent e = some b) :
    b.ledger = e.ledger := by
  unfold parseBurnEvent at h
  split at h
  · split at h
    · cases h
    · cases h
      rfl
  · cases h

theorem filterMap_parse_filter (p : Nat → Bool) (l : List RpcEvent) :
    (l.filter (fun e => p e.ledger)).filterMap parseBurnEvent =
      (l.filterMap parseBurnEvent).filter (fun b => p b.ledger) := by
  rw [List.filterMap_filter, List.filter_filterMap]
  apply List.filterMap_congr
  intro e _
  cases h : parseBurnEvent e with
  | none => simp
  | some b =>
    rw [Option.filter_some, parse_ledger h]

theorem count_parse_filter (p : Nat → Bool) (l : List RpcEvent) (b : StellarBurnEvent) :
    ((l.filter (fun e => p e.ledger)).filterMap parseBurnEvent).count b =
      if p b.ledger then (l.filterMap parseBurnEvent).count b else 0 := by
  rw [filterMap_parse_filter]
  split
  next hb => exact List.count_filter hb
  next hb =>
    apply List.count_eq_zero.mpr
    intro hmem
    exact hb (List.mem_filter.mp hmem).2

theorem page_burns {current start : Nat} {c : Chain}
    (hdrop : ∀ e ∈ (c.since start).drop limit, e.ledger ≤ current → parseBurnEvent e = none)
    (htake : ∀ e ∈ c.getEvents limit start, current < e.ledger → parseBurnEvent e = none) :
    (c.getEvents limit start).filterMap parseBurnEvent =
      (c.events.filter (fun e => start ≤ e.ledger && e.ledger ≤ current)).filterMap
        parseBurnEvent := by
  have hrest : (((c.since start).drop limit).filter (fun e => e.ledger ≤ current)).filterMap
      parseBurnEvent = [] := by
    rw [List.filterMap_eq_nil_iff]
    intro e he
    obtain ⟨hmem, hle⟩ := List.mem_filter.mp he
    exact hdrop e hmem (of_decide_eq_true hle)
  have hpage : ((c.getEvents limit start).filter (fun e => e.ledger ≤ current)).filterMap
      parseBurnEvent = (c.getEvents limit start).filterMap parseBurnEvent := by
    rw [List.filterMap_filter]
    apply List.filterMap_congr
    intro e he
    by_cases hle : e.ledger ≤ current
    · rw [if_pos (decide_eq_true hle)]
    · rw [htake e he (not_le.mp hle)]
      exact ite_self _
  have hsplit : (c.events.filter (fun e => start ≤ e.ledger && e.ledger ≤ current)) =
      (c.getEvents limit start).filter (fun e => e.ledger ≤ current) ++
        ((c.since start).drop limit).filter (fun e => e.ledger ≤ current) := by
    rw [← List.filter_append, Chain.getEvents, List.take_append_drop, Chain.since,
      List.filter_filter]
    apply List.filter_congr
    intro e _
    exact Bool.and_comm _ _
  rw [hsplit, List.filterMap_append, hpage, hrest, List.append_nil]

theorem count_burns_close {published : List Published} {c : Chain} {b : StellarBurnEvent}
    (h : b.ledger ≤ c.latest) : (burns (c.close published)).count b = (burns c).count b := by
  have hnone : ((c.added published).filterMap parseBurnEvent).count b = 0 := by
    apply List.count_eq_zero.mpr
    intro hmem
    obtain ⟨e, he, hb⟩ := List.mem_filterMap.mp hmem
    have hledger := (parse_ledger hb).trans (c.ledger_added he)
    omega
  rw [burns, Chain.close, List.filterMap_append, List.count_append, hnone, Nat.add_zero]
  rfl

theorem Tracked.close (h : Tracked first s) (published : List Published) :
    Tracked first { s with chain := s.chain.close published } where
  started := h.started
  behind := h.behind.imp id (fun hle => hle.trans (Nat.le_succ _))
  polling current hc := (h.polling current hc).imp id (fun hle => hle.trans (Nat.le_succ _))
  emitted b := by
    rw [h.emitted]
    -- a ledger that the watcher is done with has closed before
    by_cases hb : first < b.ledger ∧ b.ledger ≤ s.watcher.lastLedger
    · have hle : b.ledger ≤ s.chain.latest := by
        obtain hfirst | hlatest := h.behind <;> omega
      rw [if_pos hb, if_pos hb, count_burns_close hle]
    · rw [if_neg hb, if_neg hb]

theorem Tracked.emitBurns {current : Nat} {page : List RpcEvent} (h : Tracked first s)
    (hpolling : s.watcher.polling = some current) (hcomplete : PageComplete limit s .getEvents)
    (hpage : page = s.chain.getEvents limit (s.watcher.lastLedger + 1)) :
    Tracked first { s with watcher := Stellar.emitBurns s.watcher current page } := by
  obtain ⟨hlt, hle⟩ := h.polling current hpolling
  obtain ⟨hdrop, htake⟩ := hcomplete current hpolling
  refine ⟨?_, .inr hle, ?_, ?_⟩
  · exact h.started.trans hlt.le
  · intro _ hnone
    cases hnone
  · intro b
    have hstarted := h.started
    rw [Stellar.emitBurns, List.count_append, h.emitted, hpage, page_burns hdrop htake,
      count_parse_filter (fun l => s.watcher.lastLedger + 1 ≤ l && l ≤ current)]
    simp only [Bool.and_eq_true, decide_eq_true_eq]
    by_cases hold : first < b.ledger ∧ b.ledger ≤ s.watcher.lastLedger
    · rw [if_pos hold, if_neg (by omega), if_pos (by omega), Nat.add_zero]
    · rw [if_neg hold, Nat.zero_add]
      by_cases hnew : s.watcher.lastLedger + 1 ≤ b.ledger ∧ b.ledger ≤ current
      · rw [if_pos hnew, if_pos (by omega)]
        rfl
      · rw [if_neg hnew, if_neg (by omega)]

theorem tracked_step {i : Input} (hs : Tracked first s) (hpage : PageComplete limit s i)
    (h : step limit s i = .ok t) : Tracked first t := by
  cases i with
  | close published =>
    cases h
    exact hs.close published
  | getLatestLedger =>
    simp only [step] at h
    split at h
    next hidle =>
      cases h
      unfold checkForEvents
      split
      next => exact hs
      next hnew =>
        refine ⟨hs.started, hs.behind, ?_, hs.emitted⟩
        intro current hc
        cases hc
        exact ⟨not_le.mp hnew, le_rfl⟩
    next => cases h
  | getEvents =>
    simp only [step] at h
    split at h
    next => cases h
    next current hpolling =>
      cases h
      exact hs.emitBurns hpolling hpage rfl

theorem tracked_start (c : Chain) (fromLedger : Nat) :
    Tracked (start c fromLedger).lastLedger ⟨c, start c fromLedger⟩ where
  started := le_rfl
  behind := .inl rfl
  polling _ h := by cases h
  emitted b := by
    have hnone : ¬ ((start c fromLedger).lastLedger < b.ledger ∧
        b.ledger ≤ (start c fromLedger).lastLedger) := by omega
    exact (if_neg hnone).symm

/-- No burn is missed, and none is emitted twice, in a run whose pages are
complete. -/
theorem exactlyOnce_of_pageComplete (limit : Nat) (c : Chain) (fromLedger : Nat) (is : List Input)
    (h : Along (step limit) (PageComplete limit) ⟨c, start c fromLedger⟩ is) :
    Throughout (step limit) (ExactlyOnce (start c fromLedger).lastLedger)
      ⟨c, start c fromLedger⟩ is :=
  throughout_mono (fun _ hs => hs.exactlyOnce)
    (throughout_of_along (fun _ _ _ hs hi ht => tracked_step hs hi ht)
      (tracked_start c fromLedger) h)

def samplePublished (nonce : Nat) : Published where
  topic := [.text "burn", .text "arc", .text "GA", .integer nonce]
  value := .integer 5000000
  txHash := toString nonce

def samplePoll (published : List Nat) : List Input :=
  [.close (published.map samplePublished), .getLatestLedger, .getEvents]

theorem pageComplete_of_fits (hlatest : s.watcher.polling = some s.chain.latest)
    (hfits : (s.chain.since (s.watcher.lastLedger + 1)).length ≤ limit) :
    PageComplete limit s .getEvents := by
  intro current hc
  cases hlatest.symm.trans hc
  refine ⟨?_, ?_⟩
  · intro e he
    rw [List.drop_eq_nil_of_le hfits] at he
    cases he
  · intro e he hlt
    have hmem := List.mem_of_mem_filter (List.mem_of_mem_take he)
    exact absurd (s.chain.closed e hmem) (not_le.mpr hlt)

theorem exactlyOnce_of_pageComplete_sample :
    Throughout (step 100) (ExactlyOnce 1) ⟨.empty 1, start (.empty 1) 0⟩ (samplePoll [0, 1]) := by
  refine exactlyOnce_of_pageComplete 100 (.empty 1) 0 _ ⟨?_, ?_, ?_, trivial⟩
  · exact fun _ _ => trivial
  · exact fun _ _ => trivial
  · exact fun _ _ => pageComplete_of_fits rfl (by decide +kernel)

/-- Of a hundred and one burns in one ledger the last is never emitted. -/
theorem burn_beyond_page_missed :
    ¬ Throughout (step 100) (ExactlyOnce 1) ⟨.empty 1, start (.empty 1) 0⟩
      (samplePoll (List.range 101)) := by
  intro h
  have hlast := throughout_run h
    ⟨"arc", "GA", "5000000", Basis.Numbers.ofNat 100, "0x100", 2⟩ (by decide) (by decide +kernel)
  exact absurd hlast (by decide +kernel)

end Suban.Relayer.Completeness
