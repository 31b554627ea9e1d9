import Suban.Relayer.Redelivery

namespace Suban.Relayer.Stats

open Suban.Basis.Runs Suban.Basis.Tables Suban.Relayer.Processor Suban.Relayer.Redelivery

variable {β : Type} {parsed : β → BurnEvent} {p q : EventProcessor β}

structure ProcessingStats where
  total : Nat
  completed : Nat
  failed : Nat
  pending : Nat
  deriving DecidableEq

/-- One round of the loop over the values of the map. A pending status is not
counted anywhere. -/
def countEvent (stats : ProcessingStats) (event : ProcessedEvent) : ProcessingStats :=
  match event.status with
  | .completed => { stats with completed := stats.completed + 1 }
  | .failed => { stats with failed := stats.failed + 1 }
  | .processing => { stats with pending := stats.pending + 1 }
  | .pending => stats

def getStats (p : EventProcessor β) : ProcessingStats :=
  (p.processedEvents.entries.map (fun e => e.2)).foldl countEvent
    ⟨size p.processedEvents, 0, 0, 0⟩

def statusOf : Progress → Status
  | .inFlight => .processing
  | .minted => .completed
  | .failed => .failed

def counted (status : Status) (p : EventProcessor β) : Int :=
  total (fun e => if e.status = status then 1 else 0) p.processedEvents

def attempted (status : Status) (p : EventProcessor β) : Nat :=
  p.attempts.countP (fun a => statusOf a.progress = status)

structure Tallied (parsed : β → BurnEvent) (p : EventProcessor β) : Prop where
  recorded : Recorded parsed p
  statuses : ∀ a ∈ p.attempts, ∀ e, p.processedEvents.lookup (attemptId parsed a) = some e →
    e.status = statusOf a.progress
  size_eq : size p.processedEvents = p.attempts.length
  counted_eq : ∀ status, counted status p = attempted status p

theorem foldl_countEvent (events : List ProcessedEvent) (stats : ProcessingStats) :
    events.foldl countEvent stats =
      ⟨stats.total, stats.completed + events.countP (fun e => e.status = .completed),
        stats.failed + events.countP (fun e => e.status = .failed),
        stats.pending + events.countP (fun e => e.status = .processing)⟩ := by
  induction events generalizing stats with
  | nil => rfl
  | cons e events ih =>
    rw [List.foldl_cons, ih]
    cases h : e.status <;> simp [countEvent, h, Nat.add_assoc, Nat.add_comm 1]

theorem counted_eq_countP (status : Status) (p : EventProcessor β) :
    counted status p =
      ((p.processedEvents.entries.map (fun e => e.2)).countP
        (fun e => e.status = status) : Nat) := by
  unfold counted total
  induction p.processedEvents.entries with
  | nil => rfl
  | cons e es ih =>
    rw [List.map_cons, List.sum_cons, ih, List.map_cons, List.countP_cons]
    by_cases h : e.2.status = status
    · simp [h, add_comm]
    · simp [h]

theorem counted_insert {id : String} {e : ProcessedEvent} {old : Option ProcessedEvent}
    (hold : p.processedEvents.lookup id = old)
    (h : q.processedEvents = p.processedEvents.insert id e) (status : Status) :
    counted status q = counted status p -
      (old.map fun o => if o.status = status then (1 : Int) else 0).getD 0 +
        if e.status = status then 1 else 0 := by
  rw [counted, h, total_insert, hold, counted]

theorem tallied_deliver (h : Tallied parsed p) (burn : β) :
    Tallied parsed (deliver parsed p burn) := by
  have hrecorded := recorded_deliver h.recorded burn
  obtain ⟨chain, hdeliver⟩ := deliver_eq parsed p burn
  rw [hdeliver] at hrecorded ⊢
  by_cases hskip : p.isProcessed (eventId (parsed burn)) = true
  · rwa [processBurn, if_pos hskip]
  · have hnone : p.processedEvents.lookup (eventId (parsed burn)) = none := by
      rwa [EventProcessor.isProcessed, Bool.not_eq_true, Option.isSome_eq_false_iff,
        Option.isNone_iff_eq_none] at hskip
    refine ⟨hrecorded, ?_, ?_, ?_⟩ <;> simp only [processBurn, if_neg hskip]
    · intro a ha e he
      obtain ha | ha := List.mem_append.mp ha
      · have hne : attemptId parsed a ≠ eventId (parsed burn) := fun heq =>
          hskip (heq ▸ h.recorded.processed a ha)
        rw [AList.lookup_insert_ne hne] at he
        exact h.statuses a ha e he
      · rw [List.mem_singleton.mp ha, attemptId, AList.lookup_insert] at he
        cases he
        rw [List.mem_singleton.mp ha]
        rfl
    · rw [size_insert_new hnone, h.size_eq, List.length_append, List.length_singleton]
    · intro status
      rw [counted_insert hnone rfl, h.counted_eq, attempted, attempted, List.countP_append,
        List.countP_singleton]
      by_cases hs : Status.processing = status <;> simp [hs, statusOf]

theorem status_settled_eq (processed : ProcessedEvent) (result : Result) :
    (settled processed result).status = statusOf (progressOf result) := by
  cases result <;> rfl

theorem tallied_settle {k : Nat} {result : Result} (hp : Tallied parsed p)
    (h : settle parsed p k result = .ok q) : Tallied parsed q := by
  obtain ⟨burn, processed, hk, hlookup, hmap, hattempts⟩ := settle_ok h
  obtain ⟨hlt, hget⟩ := List.getElem?_eq_some_iff.mp hk
  have hmem : ⟨burn, .inFlight⟩ ∈ p.attempts := List.mem_of_getElem? hk
  have hstatus : processed.status = .processing := hp.statuses _ hmem processed hlookup
  generalize resultFor result (parsed burn) = result' at hmap hattempts
  have hq := recorded_settle hp.recorded h
  refine ⟨hq, ?_, ?_, ?_⟩
  · intro a ha e he
    by_cases hid : attemptId parsed a = eventId (parsed burn)
    · have hnew : (⟨burn, progressOf result'⟩ : Attempt β) ∈ q.attempts := by
        rw [hattempts]
        exact List.mem_set hlt _
      have hsame : a = ⟨burn, progressOf result'⟩ := hq.unique ha hnew hid
      rw [hmap, hid, AList.lookup_insert] at he
      cases he
      rw [status_settled_eq, hsame]
    · rw [hmap, AList.lookup_insert_ne hid] at he
      rw [hattempts] at ha
      obtain ha | rfl := List.mem_or_eq_of_mem_set ha
      · exact hp.statuses a ha e he
      · exact absurd rfl hid
  · rw [hmap, size_insert_old hlookup, hp.size_eq, hattempts, List.length_set]
  · intro status
    have hle := List.boole_getElem_le_countP
      (p := fun a : Attempt β => statusOf a.progress = status) hlt
    rw [hget] at hle
    rw [counted_insert hlookup hmap, hp.counted_eq, attempted, attempted, hattempts,
      List.countP_set hlt, hget, status_settled_eq, Option.map_some, Option.getD_some, hstatus]
    have hflight : statusOf .inFlight = .processing := rfl
    dsimp only at hle ⊢
    rw [hflight] at hle ⊢
    generalize List.countP (fun a : Attempt β => decide (statusOf a.progress = status)) p.attempts
      = n at hle ⊢
    by_cases h0 : Status.processing = status
    · rw [if_pos (decide_eq_true h0)] at hle
      by_cases h1 : statusOf (progressOf result') = status <;> simp [h0, h1, hle]
    · by_cases h1 : statusOf (progressOf result') = status <;> simp [h0, h1]

theorem tallied_step {i : Input β} (hp : Tallied parsed p) (h : step parsed p i = .ok q) :
    Tallied parsed q := by
  cases i with
  | deliver burn =>
    cases h
    exact tallied_deliver hp burn
  | settle k result => exact tallied_settle hp h

theorem tallied_fresh : Tallied parsed EventProcessor.fresh where
  recorded := recorded_fresh
  statuses _ ha := absurd ha List.not_mem_nil
  size_eq := rfl
  counted_eq _ := rfl

def submissions (progress : Progress) (p : EventProcessor β) : Nat :=
  p.attempts.countP (fun a => a.progress = progress)

theorem attempted_statusOf (progress : Progress) (p : EventProcessor β) :
    attempted (statusOf progress) p = submissions progress p := by
  refine List.countP_congr fun a _ => ?_
  cases a.progress <;> cases progress <;> simp [statusOf]

theorem Tallied.getStats_eq (h : Tallied parsed p) :
    getStats p = ⟨p.attempts.length, submissions .minted p, submissions .failed p,
      submissions .inFlight p⟩ := by
  have hcount (progress : Progress) :
      (p.processedEvents.entries.map (fun e => e.2)).countP
        (fun e => e.status = statusOf progress) = submissions progress p := by
    rw [← attempted_statusOf]
    have hint := (counted_eq_countP (statusOf progress) p).symm.trans (h.counted_eq _)
    exact_mod_cast hint
  rw [getStats, foldl_countEvent, h.size_eq]
  simp only [Nat.zero_add]
  rw [← hcount .minted, ← hcount .failed, ← hcount .inFlight]
  rfl

theorem sum_submissions (p : EventProcessor β) :
    submissions .minted p + submissions .failed p + submissions .inFlight p =
      p.attempts.length := by
  unfold submissions
  induction p.attempts with
  | nil => rfl
  | cons a attempts ih =>
    rw [List.countP_cons, List.countP_cons, List.countP_cons, List.length_cons, ← ih]
    cases a.progress <;> simp <;> omega

/-- A burn on Arc never gets a mint on Stellar, which is disabled. -/
def ArcUnminted (parsed : β → BurnEvent) (p : EventProcessor β) : Prop :=
  ∀ a ∈ p.attempts, ∀ event, parsed a.burn = .arc event → a.progress ≠ .minted

theorem arcUnminted_step {i : Input β} (hp : ArcUnminted parsed p)
    (h : step parsed p i = .ok q) : ArcUnminted parsed q := by
  cases i with
  | deliver burn =>
    cases h
    obtain ⟨chain, hdeliver⟩ := deliver_eq parsed p burn
    rw [hdeliver, processBurn]
    split
    · exact hp
    · intro a ha event hevent
      obtain ha | ha := List.mem_append.mp ha
      · exact hp a ha event hevent
      · rw [List.mem_singleton.mp ha]
        intro hprogress
        cases hprogress
  | settle k result =>
    obtain ⟨burn, processed, hk, -, -, hattempts⟩ := settle_ok h
    intro a ha event hevent
    rw [hattempts] at ha
    obtain ha | rfl := List.mem_or_eq_of_mem_set ha
    · exact hp a ha event hevent
    · simp [hevent, resultFor, buildStellarMint, progressOf]

/-- After any deliveries, repeated ones among them, and any ends of submissions,
the statistics are the numbers of the submissions made, completed, failed and
in flight, which is all of them, and no burn on Arc has completed. -/
theorem stats_exact (parsed : β → BurnEvent) (is : List (Input β)) :
    getStats (run (step parsed) .fresh is) =
        ⟨(run (step parsed) .fresh is).attempts.length,
          submissions .minted (run (step parsed) .fresh is),
          submissions .failed (run (step parsed) .fresh is),
          submissions .inFlight (run (step parsed) .fresh is)⟩ ∧
      submissions .minted (run (step parsed) .fresh is) +
          submissions .failed (run (step parsed) .fresh is) +
          submissions .inFlight (run (step parsed) .fresh is) =
        (run (step parsed) .fresh is).attempts.length ∧
      ArcUnminted parsed (run (step parsed) .fresh is) := by
  have htallied : Throughout (step parsed) (Tallied parsed) .fresh is :=
    throughout_of_along (fun _ _ _ hp _ h => tallied_step hp h) tallied_fresh (along_true _ is)
  have harc : Throughout (step parsed) (ArcUnminted parsed) .fresh is :=
    throughout_of_along (fun _ _ _ hp _ h => arcUnminted_step hp h)
      (fun a ha => absurd ha List.not_mem_nil) (along_true _ is)
  refine ⟨(throughout_run htallied).getStats_eq, ?_, throughout_run harc⟩
  exact sum_submissions _

end Suban.Relayer.Stats
