import Suban.Basis.Runs
import Suban.Relayer.Processor

namespace Suban.Relayer.Redelivery

open Suban.Basis.Runs Suban.Basis.Tables Suban.Relayer.Processor

variable {β : Type} {parsed : β → BurnEvent} {p q : EventProcessor β}

/-- A mint of exactly this burn is in flight or has completed. -/
def Underway (p : EventProcessor β) (burn : β) : Prop :=
  ∃ a ∈ p.attempts, a.burn = burn ∧ a.progress ≠ .failed

def Failed (p : EventProcessor β) (burn : β) : Prop :=
  ∃ a ∈ p.attempts, a.burn = burn ∧ a.progress = .failed

def Skips (parsed : β → BurnEvent) (p : EventProcessor β) (burn : β) : Prop :=
  p.isProcessed (eventId (parsed burn)) = true

def Attempts (parsed : β → BurnEvent) (p : EventProcessor β) (burn : β) : Prop :=
  (deliver parsed p burn).attempts = p.attempts ++ [⟨burn, .inFlight⟩]

/-- Only a burn that is underway is skipped, and one whose mint has failed is
attempted again. -/
def SkipsUnderway (parsed : β → BurnEvent) (p : EventProcessor β) : Input β → Prop
  | .deliver burn => (Skips parsed p burn → Underway p burn) ∧
    (Failed p burn → ¬ Underway p burn → Attempts parsed p burn)
  | .settle _ _ => True

/-- Nothing has failed under the id of the burn, and no other burn has been
submitted under it. -/
def Unspoilt (parsed : β → BurnEvent) (p : EventProcessor β) : Input β → Prop
  | .deliver burn =>
    (∀ processed, p.processedEvents.lookup (eventId (parsed burn)) = some processed →
      processed.status ≠ .failed) ∧
    ∀ a ∈ p.attempts, eventId (parsed a.burn) = eventId (parsed burn) → a.burn = burn
  | .settle _ _ => True

def attemptId (parsed : β → BurnEvent) (a : Attempt β) : String := eventId (parsed a.burn)

/-- Each entry of the map stands for one submission. -/
structure Recorded (parsed : β → BurnEvent) (p : EventProcessor β) : Prop where
  nodup : (p.attempts.map (attemptId parsed)).Nodup
  entries : ∀ id processed, p.processedEvents.lookup id = some processed →
    ∃ a ∈ p.attempts, attemptId parsed a = id ∧
      (processed.status = .failed ↔ a.progress = .failed)
  processed : ∀ a ∈ p.attempts, p.isProcessed (attemptId parsed a) = true

theorem Recorded.unique (h : Recorded parsed p) {a b : Attempt β} (ha : a ∈ p.attempts)
    (hb : b ∈ p.attempts) (hid : attemptId parsed a = attemptId parsed b) : a = b :=
  List.inj_on_of_nodup_map h.nodup ha hb hid

theorem isProcessed_insert {id k : String} {processed : ProcessedEvent}
    (h : q.processedEvents = p.processedEvents.insert k processed) :
    q.isProcessed id = true ↔ id = k ∨ p.isProcessed id = true := by
  rw [EventProcessor.isProcessed, h, isSome_lookup_insert]
  rfl

theorem deliver_eq (parsed : β → BurnEvent) (p : EventProcessor β) (burn : β) :
    ∃ chain, deliver parsed p burn = processBurn p burn (eventId (parsed burn)) chain := by
  cases h : parsed burn with
  | stellar event =>
    refine ⟨.stellar, ?_⟩
    rw [deliver, h]
    rfl
  | arc event =>
    refine ⟨.arc, ?_⟩
    rw [deliver, h]
    rfl

theorem attempts_iff_not_skips {burn : β} : Attempts parsed p burn ↔ ¬ Skips parsed p burn := by
  obtain ⟨chain, hdeliver⟩ := deliver_eq parsed p burn
  rw [Attempts, hdeliver, processBurn, Skips]
  split
  next hskip => simp [hskip]
  next hskip => simp [hskip]

theorem recorded_deliver (h : Recorded parsed p) (burn : β) :
    Recorded parsed (deliver parsed p burn) := by
  obtain ⟨chain, hdeliver⟩ := deliver_eq parsed p burn
  rw [hdeliver, processBurn]
  split
  next => exact h
  next hnew =>
    have hfresh : ∀ a ∈ p.attempts, attemptId parsed a ≠ eventId (parsed burn) := fun a ha hid =>
      hnew (hid ▸ h.processed a ha)
    refine ⟨?_, ?_, ?_⟩
    · rw [List.map_append, List.map_singleton, List.nodup_append]
      refine ⟨h.nodup, List.nodup_singleton _, ?_⟩
      intro id hid _ hsame
      obtain ⟨a, ha, rfl⟩ := List.mem_map.mp hid
      rw [List.mem_singleton.mp hsame]
      exact hfresh a ha
    · intro id processed hlookup
      obtain ⟨rfl, rfl⟩ | ⟨-, hold⟩ := lookup_insert_eq_some.mp hlookup
      · exact ⟨⟨burn, .inFlight⟩, by simp, rfl, by simp⟩
      · obtain ⟨a, ha, hid⟩ := h.entries id processed hold
        exact ⟨a, List.mem_append_left _ ha, hid⟩
    · intro a ha
      rw [isProcessed_insert rfl]
      obtain ha | ha := List.mem_append.mp ha
      · exact .inr (h.processed a ha)
      · rw [List.mem_singleton.mp ha]
        exact .inl rfl

theorem settle_ok {k : Nat} {result : Result} (h : settle parsed p k result = .ok q) :
    ∃ burn processed, p.attempts[k]? = some ⟨burn, .inFlight⟩ ∧
      p.processedEvents.lookup (eventId (parsed burn)) = some processed ∧
      q.processedEvents = p.processedEvents.insert (eventId (parsed burn))
        (settled processed (resultFor result (parsed burn))) ∧
      q.attempts = p.attempts.set k ⟨burn, progressOf (resultFor result (parsed burn))⟩ := by
  unfold settle at h
  split at h
  next burn hk =>
    dsimp only at h
    split at h
    next processed hlookup =>
      cases h
      exact ⟨burn, processed, hk, hlookup, rfl, rfl⟩
    next => cases h
  next => cases h

theorem status_settled (processed : ProcessedEvent) (result : Result) :
    (settled processed result).status = .failed ↔ progressOf result = .failed := by
  cases result <;> simp [settled, progressOf]

theorem recorded_settle {k : Nat} {result : Result} (hp : Recorded parsed p)
    (h : settle parsed p k result = .ok q) : Recorded parsed q := by
  obtain ⟨burn, processed, hk, -, hmap, hattempts⟩ := settle_ok h
  generalize resultFor result (parsed burn) = result' at hmap hattempts
  have hlt : k < p.attempts.length := (List.getElem?_eq_some_iff.mp hk).1
  have hold : ⟨burn, .inFlight⟩ ∈ p.attempts := List.mem_of_getElem? hk
  have hnew : ⟨burn, progressOf result'⟩ ∈ q.attempts := by
    rw [hattempts]
    exact List.mem_set hlt _
  have hids : q.attempts.map (attemptId parsed) = p.attempts.map (attemptId parsed) := by
    have hbound : k < (p.attempts.map (attemptId parsed)).length := by
      rw [List.length_map]
      exact hlt
    have hsame : attemptId parsed ⟨burn, progressOf result'⟩ =
        (p.attempts.map (attemptId parsed))[k] := by
      rw [List.getElem_map, (List.getElem?_eq_some_iff.mp hk).2]
      rfl
    rw [hattempts, List.map_set, hsame, List.set_getElem_self]
  refine ⟨hids ▸ hp.nodup, ?_, ?_⟩
  · intro id entry hlookup
    rw [hmap] at hlookup
    obtain ⟨rfl, rfl⟩ | ⟨hne, hentry⟩ := lookup_insert_eq_some.mp hlookup
    · exact ⟨_, hnew, rfl, status_settled processed result'⟩
    · obtain ⟨a, ha, hid, hstatus⟩ := hp.entries id entry hentry
      obtain ⟨j, hj⟩ := List.mem_iff_getElem?.mp ha
      have hkj : k ≠ j := by
        rintro rfl
        cases hk.symm.trans hj
        exact hne hid.symm
      refine ⟨a, ?_, hid, hstatus⟩
      rw [hattempts, List.mem_iff_getElem?]
      exact ⟨j, (List.getElem?_set_ne hkj).trans hj⟩
  · intro a ha
    rw [isProcessed_insert hmap]
    have hmem : attemptId parsed a ∈ p.attempts.map (attemptId parsed) :=
      hids ▸ List.mem_map_of_mem ha
    obtain ⟨b, hb, hid⟩ := List.mem_map.mp hmem
    rw [← hid]
    exact .inr (hp.processed b hb)

theorem recorded_step {i : Input β} (hp : Recorded parsed p) (h : step parsed p i = .ok q) :
    Recorded parsed q := by
  cases i with
  | deliver burn =>
    cases h
    exact recorded_deliver hp burn
  | settle k result => exact recorded_settle hp h

theorem recorded_fresh : Recorded parsed EventProcessor.fresh where
  nodup := List.nodup_nil
  entries _ _ h := by cases h
  processed _ h := by cases h

theorem underway_of_unspoilt {burn : β} (hp : Recorded parsed p)
    (h : Unspoilt parsed p (.deliver burn)) (hskip : Skips parsed p burn) : Underway p burn := by
  obtain ⟨processed, hlookup⟩ := Option.isSome_iff_exists.mp hskip
  obtain ⟨a, ha, hid, hstatus⟩ := hp.entries _ _ hlookup
  exact ⟨a, ha, h.2 a ha hid, fun hfailed => h.1 processed hlookup (hstatus.mpr hfailed)⟩

theorem unspoilt_of_underway {burn : β} (hp : Recorded parsed p)
    (h : Skips parsed p burn → Underway p burn) : Unspoilt parsed p (.deliver burn) := by
  refine ⟨?_, ?_⟩
  · intro processed hlookup hfailed
    obtain ⟨a, ha, hburn, hprogress⟩ := h (Option.isSome_iff_exists.mpr ⟨processed, hlookup⟩)
    obtain ⟨b, hb, hid, hstatus⟩ := hp.entries _ _ hlookup
    have hab : a = b := hp.unique ha hb (by rw [hid, attemptId, hburn])
    exact hprogress (hab ▸ hstatus.mp hfailed)
  · intro a ha hid
    have hskip : Skips parsed p burn := by
      rw [Skips, ← hid]
      exact hp.processed a ha
    obtain ⟨b, hb, hburn, -⟩ := h hskip
    have hab : a = b := hp.unique ha hb (by rw [attemptId, attemptId, hid, hburn])
    rw [hab, hburn]

theorem skipsUnderway_iff {i : Input β} (hp : Recorded parsed p) :
    SkipsUnderway parsed p i ↔ Unspoilt parsed p i := by
  cases i with
  | settle k result => exact Iff.rfl
  | deliver burn =>
    refine ⟨fun h => unspoilt_of_underway hp h.1, fun h => ?_⟩
    have hskips := underway_of_unspoilt hp h
    exact ⟨hskips, fun _ hnot => attempts_iff_not_skips.mpr fun hskip => hnot (hskips hskip)⟩

/-- Along a run every burn that is skipped is underway, and every one that has
failed is attempted again, exactly when no burn comes under an id under which
a mint has failed or another burn was submitted. -/
theorem skipsUnderway_iff_unspoilt (parsed : β → BurnEvent) (is : List (Input β)) :
    Along (step parsed) (SkipsUnderway parsed) .fresh is ↔
      Along (step parsed) (Unspoilt parsed) .fresh is :=
  along_congr (J := Recorded parsed) (E := fun _ _ => True)
    (fun _ _ _ hp _ h => recorded_step hp h) (fun _ _ _ hp _ _ => skipsUnderway_iff hp)
    recorded_fresh (along_true _ is)

def sampleBurn : BurnEvent :=
  .stellar ⟨"arc", "GA", "5000000", Basis.Numbers.ofNat 0, "0xab", 2⟩

def sampleFailed : EventProcessor BurnEvent :=
  run (step id) .fresh [.deliver sampleBurn, .settle 0 (.error "insufficient funds")]

/-- A burn whose mint has failed is skipped when it is delivered again. -/
theorem failed_burn_skipped :
    ¬ Along (step id) (SkipsUnderway id) (.fresh : EventProcessor BurnEvent)
      [.deliver sampleBurn, .settle 0 (.error "insufficient funds"), .deliver sampleBurn] := by
  intro h
  have hskip : sampleFailed.isProcessed (eventId sampleBurn) = true := by decide +kernel
  have hfailed : ∀ a ∈ sampleFailed.attempts, a.progress = .failed := by decide +kernel
  obtain ⟨a, ha, -, hprogress⟩ := (h.2.2.1 _ rfl).1 hskip
  exact hprogress (hfailed a ha)

end Suban.Relayer.Redelivery
