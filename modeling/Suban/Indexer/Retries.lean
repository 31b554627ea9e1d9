import Mathlib.Algebra.Order.Floor.Div
import Suban.Indexer.Deliveries

namespace Suban.Indexer.Retries

open Suban.Basis.Rows Suban.Basis.Runs Suban.Indexer.Database Suban.Indexer.Webhooks
open Suban.Indexer.Deliveries

/-- What happens to one delivery. A time is that of the run. -/
inductive Event where
  | attempted (time : Nat)
  | failed (time : Nat)
  | delivered
  | unsubscribed
  deriving DecidableEq

def Event.isFailure : Event → Bool
  | .failed _ => true
  | _ => false

/-- The delivery that a step is about, and what happens to it. A response that
is not ok fails once its text is there. -/
def event (s : Dispatcher) : Input → Option (Nat × Event)
  | .turn n =>
    match s.runs[n]? with
    | some ⟨now, .between, d :: _, _⟩ =>
      if (getSubscription s.host d.subscriptionId).any WebhookSubscription.active then
        some (d.id, .attempted now)
      else some (d.id, .unsubscribed)
    | _ => none
  | .respond n outcome =>
    match s.runs[n]? with
    | some ⟨now, .posting d, _, _⟩ =>
      match outcome with
      | .response status =>
        if 200 ≤ status ∧ status ≤ 299 then some (d.id, .delivered) else none
      | .aborted | .rejected _ => some (d.id, .failed now)
    | _ => none
  | .readText n _ =>
    match s.runs[n]? with
    | some ⟨now, .reading d _, _, _⟩ => some (d.id, .failed now)
    | _ => none
  | .dispatchOnce _ | .other _ => none

def events (steps : List (Dispatcher × Input × Dispatcher)) : List (Nat × Event) :=
  steps.filterMap fun x => event x.1 x.2.1

/-- What has happened to a delivery, from the oldest to the newest. -/
def story (past : List (Nat × Event)) (id : Nat) : List Event :=
  (past.filter (·.1 = id)).map Prod.snd

def failures (story : List Event) : Nat := story.countP Event.isFailure

section Schedule

variable (config : WebhookConfig) (limit : Nat) (story : List Event)

/-- The seconds to wait after so many failures. -/
def backoff (k : Nat) : Nat :=
  min config.maxBackoffMs (config.baseBackoffMs * 2 ^ (k - 1)) ⌈/⌉ 1000

def GivenUp : Prop := failures story = limit ∨ .unsubscribed ∈ story

def Closed : Prop := .delivered ∈ story ∨ GivenUp limit story

/-- Every failure in the story has been waited for at the time. -/
def Waited (time : Nat) : Prop :=
  ∀ i failed, story[i]? = some (.failed failed) →
    failed + backoff config (failures (story.take i) + 1) ≤ time

/-- The life of a delivery: it fails so many times at most, waits after each
failure, and ends when it is delivered or given up. -/
structure Lawful : Prop where
  capped : failures story ≤ limit
  spaced : ∀ i time, story[i]? = some (.attempted time) → Waited config (story.take i) time
  quiet : ∀ i e, story[i]? = some e → ¬ Closed limit (story.take i)

end Schedule

/-- A run starts only when the ones before it are over, at any time. -/
def Separate (s : Dispatcher) : Input → Prop
  | .dispatchOnce _ => ∀ r ∈ s.runs, r.place.delivery = none ∧ r.ahead = []
  | _ => True

instance (s : Dispatcher) (i : Input) : Decidable (Separate s i) :=
  match i with
  | .dispatchOnce _ =>
    inferInstanceAs (Decidable (∀ r ∈ s.runs, r.place.delivery = none ∧ r.ahead = []))
  | .turn _ | .respond _ _ | .readText _ _ | .other _ => isTrue trivial

section Stories

variable {config : WebhookConfig} {limit time : Nat} {past : List Event} {e : Event}

theorem failures_append :
    failures (past ++ [e]) = failures past + if e.isFailure then 1 else 0 := by
  rw [failures, List.countP_append, List.countP_singleton, failures]

theorem failures_append_other (h : e.isFailure = false) :
    failures (past ++ [e]) = failures past := by
  rw [failures_append, h]
  rfl

theorem failures_append_failed (time : Nat) :
    failures (past ++ [.failed time]) = failures past + 1 := failures_append

theorem getElem?_append_singleton {i : Nat} {e' : Event} :
    (past ++ [e])[i]? = some e' ↔ past[i]? = some e' ∨ i = past.length ∧ e = e' := by
  obtain hlt | rfl | hgt := Nat.lt_trichotomy i past.length
  · simp [List.getElem?_append_left hlt, hlt.ne]
  · simp
  · have hlong : (past ++ [e]).length ≤ i := by
      rw [List.length_append, List.length_singleton]
      exact hgt
    simp [List.getElem?_eq_none hlong, List.getElem?_eq_none hgt.le, hgt.ne']

theorem take_append_singleton {i : Nat} {e' : Event} (h : past[i]? = some e') :
    (past ++ [e]).take i = past.take i := by
  have hlt := (List.getElem?_eq_some_iff.mp h).1
  exact List.take_append_of_le_length hlt.le

theorem Waited.mono (h : Waited config past time) {later : Nat} (hle : time ≤ later) :
    Waited config past later :=
  fun i failed hi => Nat.le_trans (h i failed hi) hle

theorem Waited.snoc (h : Waited config past time)
    (he : ∀ failed, e = .failed failed → failed + backoff config (failures past + 1) ≤ time) :
    Waited config (past ++ [e]) time := by
  intro i failed hi
  obtain hold | ⟨rfl, rfl⟩ := getElem?_append_singleton.mp hi
  · rw [take_append_singleton hold]
    exact h i failed hold
  · rw [List.take_left]
    exact he failed rfl

theorem Lawful.snoc (h : Lawful config limit past) (hopen : ¬ Closed limit past)
    (he : ∀ time, e = .attempted time → Waited config past time) :
    Lawful config limit (past ++ [e]) where
  capped := by
    have hne : failures past ≠ limit := fun heq => hopen (.inr (.inl heq))
    have hle := h.capped
    rw [failures_append]
    split <;> omega
  spaced i time hi := by
    obtain hold | ⟨rfl, rfl⟩ := getElem?_append_singleton.mp hi
    · rw [take_append_singleton hold]
      exact h.spaced i time hold
    · rw [List.take_left]
      exact he time rfl
  quiet i e' hi := by
    obtain hold | ⟨rfl, -⟩ := getElem?_append_singleton.mp hi
    · rw [take_append_singleton hold]
      exact h.quiet i e' hold
    · rw [List.take_left]
      exact hopen

theorem Lawful.nil : Lawful config limit [] := by
  refine ⟨Nat.zero_le limit, ?_, ?_⟩ <;> simp

end Stories

section Past

variable {past : List (Nat × Event)} {id : Nat} {e : Event}

theorem story_append_same : story (past ++ [(id, e)]) id = story past id ++ [e] := by
  simp [story]

theorem story_append_other {other : Nat} (h : other ≠ id) :
    story (past ++ [(id, e)]) other = story past other := by
  simp [story, h.symm]

end Past

structure Tells (config : WebhookConfig) (limit : Nat) (story : List Event)
    (d : WebhookDelivery) : Prop where
  attempts : d.attempts = failures story
  failed : d.status = .failed ↔ GivenUp limit story
  delivered : d.status = .delivered ↔ .delivered ∈ story
  waited : d.status = .pending → Waited config story d.nextAttemptAt

structure Held (config : WebhookConfig) (limit : Nat) (story : List Event) (now : Nat)
    (d : WebhookDelivery) : Prop where
  attempts : d.attempts = failures story
  quiet : ¬ Closed limit story
  waited : Waited config story now

def leftOf (r : Dispatch) : List (Nat × WebhookDelivery) :=
  (r.place.delivery.toList ++ r.ahead).map (r.now, ·)

def left (s : Dispatcher) : List (Nat × WebhookDelivery) := s.runs.flatMap leftOf

structure Kept (config : WebhookConfig) (limit : Nat) (s : Dispatcher)
    (past : List (Nat × Event)) : Prop where
  distinct : (s.host.webhookDeliveries.map WebhookDelivery.id).Nodup
  known : ∀ d ∈ s.host.webhookDeliveries, d.id < s.host.deliveryIds
  unheard : ∀ id, s.host.deliveryIds ≤ id → story past id = []
  tells : ∀ d ∈ s.host.webhookDeliveries, Tells config limit (story past d.id) d
  apart : ((left s).map fun x => x.2.id).Nodup
  held : ∀ x ∈ left s, x.2.id < s.host.deliveryIds ∧
    Held config limit (story past x.2.id) x.1 x.2
  lawful : ∀ id, Lawful config limit (story past id)

inductive Settles (config : WebhookConfig) (now : Nat) (d : WebhookDelivery) :
    Event → (WebhookDelivery → WebhookDelivery) → Prop where
  | delivered : Settles config now d .delivered fun r =>
      { r with status := .delivered, lastError := none }
  | unsubscribed (error : String) : Settles config now d .unsubscribed fun r =>
      { r with status := .failed, attempts := d.attempts, lastError := some error }
  | last (error : String) (h : config.maxAttempts ≤ d.attempts + 1) :
    Settles config now d (.failed now) fun r =>
      { r with status := .failed, attempts := d.attempts + 1, lastError := some error }
  | retry (error : String) (h : d.attempts + 1 < config.maxAttempts) :
    Settles config now d (.failed now) fun r =>
      { r with
        attempts := d.attempts + 1
        nextAttemptAt := now + backoff config (d.attempts + 1)
        lastError := some error }

/-- What a step can do, told by what happens to which delivery. -/
inductive Moves (config : WebhookConfig) (s t : Dispatcher) : Option (Nat × Event) → Prop where
  | snapshot (now : Nat) (hhost : t.host = s.host) (hbefore : left s = [])
    (hleft : left t = (due s.host now 50).map (now, ·)) : Moves config s t none
  | wait (hhost : t.host = s.host) (hleft : left t = left s) : Moves config s t none
  | post (now : Nat) (d : WebhookDelivery) (hhost : t.host = s.host) (hleft : left t = left s)
    (hd : (now, d) ∈ left s) : Moves config s t (some (d.id, .attempted now))
  | settle (now : Nat) (d : WebhookDelivery) (e : Event)
    (change : WebhookDelivery → WebhookDelivery) (h : Settles config now d e change)
    (hhost : t.host = setDelivery s.host d.id change)
    (hleft : (left s).Perm ((now, d) :: left t)) : Moves config s t (some (d.id, e))
  | other (c : Statement) (h : other s c = .ok t) : Moves config s t none

section Steps

variable {config : WebhookConfig} {limit : Nat} {s t : Dispatcher} {i : Input} {n : Nat}
variable {r : Dispatch} {d : WebhookDelivery}

theorem left_set (hr : s.runs[n]? = some r) : ∃ before after,
    left s = before ++ leftOf r ++ after ∧
      ∀ r', (s.runs.set n r').flatMap leftOf = before ++ leftOf r' ++ after := by
  obtain ⟨hn, hget⟩ := List.getElem?_eq_some_iff.mp hr
  have hsplit (r' : Dispatch) : s.runs.set n r' = s.runs.take n ++ r' :: s.runs.drop (n + 1) :=
    List.set_eq_take_append_cons_drop.trans (if_pos hn)
  have hflat (r' : Dispatch) : (s.runs.set n r').flatMap leftOf =
      (s.runs.take n).flatMap leftOf ++ leftOf r' ++ (s.runs.drop (n + 1)).flatMap leftOf := by
    rw [hsplit r', List.flatMap_append, List.flatMap_cons, List.append_assoc]
  have hself : s.runs.set n r = s.runs := hget ▸ List.set_getElem_self hn
  refine ⟨_, _, ?_, hflat⟩
  rw [left, ← hflat r, hself]

theorem left_of_same {r' : Dispatch} (hr : s.runs[n]? = some r) (hruns : t.runs = s.runs.set n r')
    (hleft : leftOf r' = leftOf r) : left t = left s := by
  obtain ⟨before, after, hs, ht⟩ := left_set hr
  rw [left, hruns, ht, hs, hleft]

theorem left_of_settled {r' : Dispatch} (hr : s.runs[n]? = some r)
    (hruns : t.runs = s.runs.set n r') (hleft : leftOf r = (r.now, d) :: leftOf r') :
    (left s).Perm ((r.now, d) :: left t) := by
  obtain ⟨before, after, hs, ht⟩ := left_set hr
  have hafter : left t = before ++ leftOf r' ++ after := by rw [left, hruns, ht]
  rw [hs, hafter, hleft, List.append_assoc, List.append_assoc, List.cons_append]
  exact List.perm_middle

theorem moves_fail (hr : s.runs[n]? = some r) (hd : r.place.delivery = some d)
    (message : String) :
    Moves config s (fail config s n r d message) (some (d.id, .failed r.now)) := by
  have hleft : (left s).Perm ((r.now, d) :: left (fail config s n r d message)) :=
    left_of_settled hr rfl (by simp [leftOf, hd, Place.delivery.eq_1])
  obtain hlt | hge := Nat.lt_or_ge (d.attempts + 1) config.maxAttempts
  · refine .settle r.now d _ _ (.retry (String.ofList (message.toList.take 1000)) hlt) ?_ hleft
    have hceil : backoff config (d.attempts + 1) =
        (min config.maxBackoffMs (config.baseBackoffMs * 2 ^ (d.attempts + 1 - 1)) + 999) / 1000 :=
      Nat.ceilDiv_eq_add_pred_div _ _
    rw [hceil]
    exact if_neg (Nat.not_le.mpr hlt)
  · exact .settle r.now d _ _ (.last (String.ofList (message.toList.take 1000)) hge)
      (if_pos hge) hleft

theorem moves_turn (hr : s.runs[n]? = some r) (hbetween : r.place = .between)
    {ahead : List WebhookDelivery} (hahead : r.ahead = d :: ahead) :
    Moves config s (turn s n r d ahead)
      (if (getSubscription s.host d.subscriptionId).any WebhookSubscription.active then
        some (d.id, .attempted r.now) else some (d.id, .unsubscribed)) := by
  have hleft : leftOf r = (r.now, d) :: ahead.map (r.now, ·) := by
    simp [leftOf, hbetween, hahead, Place.delivery.eq_1]
  have hin : (r.now, d) ∈ left s :=
    List.mem_flatMap.mpr ⟨r, List.mem_of_getElem? hr, hleft ▸ List.mem_cons_self⟩
  unfold turn
  split
  next =>
    refine .post r.now d rfl (left_of_same hr rfl ?_) hin
    rw [hleft]
    rfl
  next =>
    refine .settle r.now d _ _ (.unsubscribed _) rfl (left_of_settled hr rfl ?_)
    rw [hleft, leftOf, hbetween]
    rfl

theorem moves_respond (hr : s.runs[n]? = some r) (hd : r.place = .posting d) (outcome : Outcome) :
    Moves config s (respond config s n r d outcome) (match outcome with
      | .response status =>
        if 200 ≤ status ∧ status ≤ 299 then some (d.id, .delivered) else none
      | .aborted | .rejected _ => some (d.id, .failed r.now)) := by
  have hdelivery : r.place.delivery = some d := by rw [hd, Place.delivery]
  cases outcome with
  | aborted => exact moves_fail hr hdelivery _
  | rejected message => exact moves_fail hr hdelivery _
  | response status =>
    dsimp only [respond]
    split
    next =>
      refine .settle r.now d _ _ .delivered rfl (left_of_settled hr rfl ?_)
      rw [leftOf, hdelivery]
      rfl
    next =>
      refine .wait rfl (left_of_same hr rfl ?_)
      rw [leftOf, leftOf, hdelivery]
      rfl

theorem moves_step (hi : Separate s i) (ht : step config s i = .ok t) :
    Moves config s t (event s i) := by
  cases i with
  | dispatchOnce now =>
    cases ht
    have hbefore : left s = [] := by
      refine List.flatMap_eq_nil_iff.mpr fun r hr => ?_
      obtain ⟨hplace, hahead⟩ := hi r hr
      rw [leftOf, hplace, hahead]
      rfl
    refine .snapshot now rfl hbefore ?_
    rw [left, List.flatMap_append, ← left, hbefore]
    simp [leftOf, Place.delivery]
  | turn n =>
    simp only [step] at ht
    split at ht
    next hr =>
      cases ht
      simp only [event, hr]
      exact moves_turn hr rfl rfl
    next => cases ht
  | respond n outcome =>
    simp only [step] at ht
    split at ht
    next hr =>
      cases ht
      simp only [event, hr]
      exact moves_respond hr rfl outcome
    next => cases ht
  | readText n text =>
    simp only [step] at ht
    split at ht
    next hr =>
      cases ht
      simp only [event, hr]
      exact moves_fail hr rfl _
    next => cases ht
  | other c => exact .other c ht

end Steps

section Keeping

variable {config : WebhookConfig} {s t : Dispatcher} {past : List (Nat × Event)}
variable {soFar : List Event} {d : WebhookDelivery} {e : Event}

theorem Tells.held {limit : Nat} (h : Tells config limit soFar d) (hpending : d.status = .pending)
    {now : Nat} (hdue : d.nextAttemptAt ≤ now) : Held config limit soFar now d where
  attempts := h.attempts
  quiet := by
    rintro (hdelivered | hgiven)
    · have hstatus := h.delivered.mpr hdelivered
      rw [hpending] at hstatus
      cases hstatus
    · have hstatus := h.failed.mpr hgiven
      rw [hpending] at hstatus
      cases hstatus
  waited := (h.waited hpending).mono hdue

theorem Tells.pending {limit : Nat} (h : Tells config limit soFar d)
    (hopen : ¬ Closed limit soFar) : d.status = .pending := by
  cases hstatus : d.status with
  | pending => rfl
  | delivered => exact absurd (.inl (h.delivered.mp hstatus)) hopen
  | failed => exact absurd (.inr (h.failed.mp hstatus)) hopen

theorem Tells.attempt {limit time : Nat} (h : Tells config limit soFar d) :
    Tells config limit (soFar ++ [.attempted time]) d where
  attempts := by rw [failures_append_other rfl, h.attempts]
  failed := by
    rw [h.failed, GivenUp, GivenUp, failures_append_other rfl]
    simp
  delivered := by
    rw [h.delivered]
    simp
  waited hpending := (h.waited hpending).snoc fun _ hfail => by cases hfail

theorem Held.attempt {limit now time : Nat} (h : Held config limit soFar now d) :
    Held config limit (soFar ++ [.attempted time]) now d where
  attempts := by rw [failures_append_other rfl, h.attempts]
  quiet := by
    rw [Closed, GivenUp, failures_append_other rfl]
    simpa [Closed, GivenUp] using h.quiet
  waited := h.waited.snoc fun _ hfail => by cases hfail

def tries (config : WebhookConfig) : Nat := max 1 config.maxAttempts

theorem Tells.settle {r : WebhookDelivery} {now : Nat} {change : WebhookDelivery → WebhookDelivery}
    (hr : Tells config (tries config) soFar r) (hd : Held config (tries config) soFar now d)
    (hle : failures soFar ≤ tries config) (h : Settles config now d e change) :
    Tells config (tries config) (soFar ++ [e]) (change r) := by
  have hpending := hr.pending hd.quiet
  have hdelivered : .delivered ∉ soFar := fun hin => hd.quiet (.inl hin)
  have hunsubscribed : .unsubscribed ∉ soFar := fun hin => hd.quiet (.inr (.inr hin))
  have hne : failures soFar ≠ tries config := fun heq => hd.quiet (.inr (.inl heq))
  have hattempts := hd.attempts
  cases h with
  | delivered =>
    have hcount : failures (soFar ++ [.delivered]) = failures soFar := failures_append_other rfl
    refine ⟨?_, ?_, ?_, ?_⟩
    · rw [hcount]
      exact hr.attempts
    · simp [GivenUp, hcount, hne, hunsubscribed]
    · simp
    · simp
  | unsubscribed error =>
    refine ⟨?_, ?_, ?_, ?_⟩
    · rw [failures_append_other rfl]
      exact hattempts
    · simp [GivenUp]
    · simp [hdelivered]
    · simp
  | last error hlast =>
    have hcount : failures (soFar ++ [.failed now]) = d.attempts + 1 := by
      rw [failures_append_failed, hattempts]
    refine ⟨hcount.symm, ?_, ?_, ?_⟩
    · have htries : d.attempts + 1 = tries config := by
        rw [tries] at hle hne ⊢
        omega
      simp [GivenUp, hcount, htries]
    · simp [hdelivered]
    · simp
  | retry error hlt =>
    have hcount : failures (soFar ++ [.failed now]) = d.attempts + 1 := by
      rw [failures_append_failed, hattempts]
    refine ⟨hcount.symm, ?_, ?_, fun _ => ?_⟩
    · have htries : d.attempts + 1 ≠ tries config := by
        rw [tries]
        omega
      simp [GivenUp, hcount, htries, hpending, hunsubscribed]
    · simp [hdelivered, hpending]
    · refine (hd.waited.mono (Nat.le_add_right _ _)).snoc fun failed hfailed => ?_
      cases hfailed
      rw [hattempts]

theorem distinct_due (h : (s.host.webhookDeliveries.map WebhookDelivery.id).Nodup)
    (now limit : Nat) : ((due s.host now limit).map WebhookDelivery.id).Nodup := by
  have hpending : ((s.host.webhookDeliveries.filter fun d =>
      d.status = .pending ∧ d.nextAttemptAt ≤ now).map WebhookDelivery.id).Nodup :=
    h.sublist (List.filter_sublist.map _)
  have hsorted := ((List.mergeSort_perm _ fun a b : WebhookDelivery =>
    decide (a.nextAttemptAt ≤ b.nextAttemptAt)).map WebhookDelivery.id).nodup_iff.mpr hpending
  exact hsorted.sublist ((List.take_sublist _ _).map _)

theorem of_mem_due {h : Host} {now limit : Nat} (hd : d ∈ due h now limit) :
    d ∈ h.webhookDeliveries ∧ d.status = .pending ∧ d.nextAttemptAt ≤ now := by
  have hin := List.mem_mergeSort.mp (List.mem_of_mem_take hd)
  simpa using hin

theorem Kept.snapshot (h : Kept config (tries config) s past) {now : Nat}
    (hhost : t.host = s.host) (hleft : left t = (due s.host now 50).map (now, ·)) :
    Kept config (tries config) t past where
  distinct := hhost ▸ h.distinct
  known := hhost ▸ h.known
  unheard := hhost ▸ h.unheard
  tells := hhost ▸ h.tells
  apart := by
    rw [hleft, List.map_map]
    exact distinct_due h.distinct now 50
  held x hx := by
    rw [hleft] at hx
    obtain ⟨d, hd, rfl⟩ := List.mem_map.mp hx
    obtain ⟨hin, hpending, hdue⟩ := of_mem_due hd
    exact ⟨hhost ▸ h.known d hin, (h.tells d hin).held hpending hdue⟩
  lawful := h.lawful

theorem Kept.wait {limit : Nat} (h : Kept config limit s past) (hhost : t.host = s.host)
    (hleft : left t = left s) : Kept config limit t past :=
  ⟨hhost ▸ h.distinct, hhost ▸ h.known, hhost ▸ h.unheard, hhost ▸ h.tells, hleft ▸ h.apart,
    hleft ▸ hhost ▸ h.held, h.lawful⟩

theorem forall_story {P : Nat → List Event → Prop} {id : Nat}
    (h : ∀ other, P other (story past other)) (hone : P id (story past id ++ [e])) (other : Nat) :
    P other (story (past ++ [(id, e)]) other) := by
  by_cases heq : other = id
  · subst heq
    rwa [story_append_same]
  · rw [story_append_other heq]
    exact h other

theorem Kept.unheard_append {limit : Nat} (h : Kept config limit s past) {id : Nat}
    (hid : id < s.host.deliveryIds) (other : Nat) (hother : s.host.deliveryIds ≤ other) :
    story (past ++ [(id, e)]) other = [] := by
  rw [story_append_other (hid.trans_le hother).ne']
  exact h.unheard other hother

theorem Kept.post {limit now : Nat} (h : Kept config limit s past) (hhost : t.host = s.host)
    (hleft : left t = left s) (hd : (now, d) ∈ left s) :
    Kept config limit t (past ++ [(d.id, .attempted now)]) := by
  obtain ⟨hknown, hheld⟩ := h.held _ hd
  refine ⟨hhost ▸ h.distinct, hhost ▸ h.known, hhost ▸ h.unheard_append hknown, fun r hr => ?_,
    hleft ▸ h.apart, fun x hx => ?_, ?_⟩
  · rw [hhost] at hr
    by_cases hid : r.id = d.id
    · rw [hid, story_append_same, ← hid]
      exact (h.tells r hr).attempt
    · rw [story_append_other hid]
      exact h.tells r hr
  · rw [hleft] at hx
    obtain ⟨hxknown, hxheld⟩ := h.held x hx
    refine ⟨hhost ▸ hxknown, ?_⟩
    by_cases hid : x.2.id = d.id
    · rw [hid, story_append_same, ← hid]
      exact hxheld.attempt
    · rw [story_append_other hid]
      exact hxheld
  · refine forall_story h.lawful ((h.lawful d.id).snoc hheld.quiet fun time htime => ?_)
    cases htime
    exact hheld.waited

theorem Settles.id_eq {now : Nat} {change : WebhookDelivery → WebhookDelivery}
    (h : Settles config now d e change) (r : WebhookDelivery) : (change r).id = r.id := by
  cases h <;> rfl

theorem Settles.not_attempted {now time : Nat} {change : WebhookDelivery → WebhookDelivery}
    (h : Settles config now d e change) : e ≠ .attempted time := by
  rintro rfl
  cases h

theorem map_id_setDelivery {h : Host} {id : Nat} {change : WebhookDelivery → WebhookDelivery}
    (hchange : ∀ r, (change r).id = r.id) :
    (setDelivery h id change).webhookDeliveries.map WebhookDelivery.id =
      h.webhookDeliveries.map WebhookDelivery.id := by
  rw [setDelivery, List.map_map]
  refine List.map_congr_left fun r _ => ?_
  rw [Function.comp_apply]
  split
  next => exact hchange r
  next => rfl

theorem Kept.settle {now : Nat} {change : WebhookDelivery → WebhookDelivery}
    (h : Kept config (tries config) s past) (hsettles : Settles config now d e change)
    (hhost : t.host = setDelivery s.host d.id change)
    (hleft : (left s).Perm ((now, d) :: left t)) :
    Kept config (tries config) t (past ++ [(d.id, e)]) := by
  have hids : t.host.deliveryIds = s.host.deliveryIds := by
    rw [hhost]
    rfl
  have hmap : t.host.webhookDeliveries.map WebhookDelivery.id =
      s.host.webhookDeliveries.map WebhookDelivery.id := by
    rw [hhost, map_id_setDelivery hsettles.id_eq]
  obtain ⟨hknown, hheld⟩ := h.held (now, d) (hleft.mem_iff.mpr List.mem_cons_self)
  obtain ⟨hgone, hapart⟩ := List.nodup_cons.mp ((hleft.map _).nodup_iff.mp h.apart)
  refine ⟨hmap ▸ h.distinct, fun r hr => ?_, hids ▸ h.unheard_append hknown, fun r hr => ?_,
    hapart, fun x hx => ?_, ?_⟩
  · have hin : r.id ∈ s.host.webhookDeliveries.map WebhookDelivery.id :=
      hmap ▸ List.mem_map_of_mem hr
    obtain ⟨r', hr', hid⟩ := List.mem_map.mp hin
    rw [hids, ← hid]
    exact h.known r' hr'
  · rw [hhost] at hr
    obtain ⟨hin, hid⟩ | ⟨r', hr', hid, rfl⟩ := mem_setDelivery.mp hr
    · rw [story_append_other hid]
      exact h.tells r hin
    · have htells := h.tells r' hr'
      rw [hid] at htells
      rw [hsettles.id_eq, hid, story_append_same]
      exact htells.settle hheld (h.lawful d.id).capped hsettles
  · have hid : x.2.id ≠ d.id := fun heq => hgone (List.mem_map.mpr ⟨x, hx, heq⟩)
    obtain ⟨hxknown, hxheld⟩ := h.held x (hleft.mem_iff.mpr (List.mem_cons_of_mem _ hx))
    rw [story_append_other hid]
    exact ⟨hids ▸ hxknown, hxheld⟩
  · refine forall_story h.lawful ((h.lawful d.id).snoc hheld.quiet fun time htime => ?_)
    exact absurd htime hsettles.not_attempted

theorem Tells.new {limit : Nat} (hlimit : 0 < limit) (hpending : d.status = .pending)
    (hattempts : d.attempts = 0) : Tells config limit [] d where
  attempts := hattempts
  failed := by simp [hpending, GivenUp, failures, hlimit.ne]
  delivered := by simp [hpending]
  waited _ := by simp [Waited]

theorem Kept.other {limit : Nat} (h : Kept config limit s past) (hlimit : 0 < limit)
    {c : Statement} (ht : other s c = .ok t) : Kept config limit t past := by
  obtain ⟨hruns, -, hids, kept, added, hkept, hrows, hnodup, hadded⟩ := rows_other ht
  have hleft : left t = left s := by rw [left, left, hruns]
  have hold : ∀ r ∈ kept, r ∈ s.host.webhookDeliveries := fun r hr => hkept.subset hr
  refine ⟨?_, fun r hr => ?_, fun id hid => h.unheard id (hids.trans hid), fun r hr => ?_,
    hleft ▸ h.apart, fun x hx => ?_, h.lawful⟩
  · rw [hrows, List.map_append]
    refine List.nodup_append.mpr ⟨h.distinct.sublist (hkept.map _), hnodup, ?_⟩
    rintro id hid other hother rfl
    obtain ⟨r, hr, rfl⟩ := List.mem_map.mp hid
    obtain ⟨a, ha, heq⟩ := List.mem_map.mp hother
    have hlt := h.known r (hold r hr)
    have hle := (hadded a ha).2.2.1
    omega
  · rw [hrows] at hr
    obtain hr | hr := List.mem_append.mp hr
    · exact (h.known r (hold r hr)).trans_le hids
    · exact (hadded r hr).2.2.2
  · rw [hrows] at hr
    obtain hr | hr := List.mem_append.mp hr
    · exact h.tells r (hold r hr)
    · obtain ⟨hpending, hattempts, hle, -⟩ := hadded r hr
      rw [h.unheard r.id hle]
      exact .new hlimit hpending hattempts
  · obtain ⟨hknown, hheld⟩ := h.held x (hleft ▸ hx)
    exact ⟨hknown.trans_le hids, hheld⟩

theorem tries_pos : 0 < tries config := Nat.one_pos.trans_le (Nat.le_max_left _ _)

theorem kept_moves {o : Option (Nat × Event)} (h : Kept config (tries config) s past)
    (hmoves : Moves config s t o) : Kept config (tries config) t (past ++ o.toList) := by
  cases hmoves with
  | snapshot now hhost hbefore hleft =>
    rw [Option.toList_none, List.append_nil]
    exact h.snapshot hhost hleft
  | wait hhost hleft =>
    rw [Option.toList_none, List.append_nil]
    exact h.wait hhost hleft
  | post now d hhost hleft hd => exact h.post hhost hleft hd
  | settle now d e change hsettles hhost hleft => exact h.settle hsettles hhost hleft
  | other c hc =>
    rw [Option.toList_none, List.append_nil]
    exact h.other tries_pos hc

theorem kept_start : Kept config (tries config) .start [] := by
  refine ⟨.nil, ?_, fun _ _ => rfl, ?_, .nil, ?_, fun _ => .nil⟩ <;>
    simp [Dispatcher.start, Host.fresh, left]

def Remains (d : WebhookDelivery) (s : Dispatcher) : Prop :=
  d.id < s.host.deliveryIds ∧ ∀ r ∈ s.host.webhookDeliveries, r.id = d.id → r = d

theorem final_moves {o : Option (Nat × Event)} (h : Kept config (tries config) s past)
    (hmoves : Moves config s t o) (hfinal : d.status ≠ .pending) (hd : Remains d s) :
    Remains d t := by
  cases hmoves with
  | snapshot now hhost hbefore hleft =>
    rw [Remains, hhost]
    exact hd
  | wait hhost hleft =>
    rw [Remains, hhost]
    exact hd
  | post now d' hhost hleft hd' =>
    rw [Remains, hhost]
    exact hd
  | settle now d' e change hsettles hhost hleft =>
    have hids : t.host.deliveryIds = s.host.deliveryIds := by
      rw [hhost]
      rfl
    refine ⟨hids ▸ hd.1, fun r hr hid => ?_⟩
    rw [hhost] at hr
    obtain ⟨hin, -⟩ | ⟨r', hr', hid', rfl⟩ := mem_setDelivery.mp hr
    · exact hd.2 r hin hid
    · rw [hsettles.id_eq] at hid
      have hheld := (h.held (now, d') (hleft.mem_iff.mpr List.mem_cons_self)).2
      have hpending := (h.tells r' hr').pending (by
        rw [hid']
        exact hheld.quiet)
      rw [hd.2 r' hr' hid] at hpending
      exact absurd hpending hfinal
  | other c hc =>
    obtain ⟨-, -, hids, kept, added, hkept, hrows, -, hadded⟩ := rows_other hc
    refine ⟨hd.1.trans_le hids, fun r hr hid => ?_⟩
    rw [hrows] at hr
    obtain hr | hr := List.mem_append.mp hr
    · exact hd.2 r (hkept.subset hr) hid
    · have hle := (hadded r hr).2.2.1
      have hlt := hd.1
      omega

end Keeping

section Runs

variable (config : WebhookConfig) (limit : Nat) (is : List Input)

def deliveries : List WebhookDelivery := (run (step config) .start is).host.webhookDeliveries

def storyOf (id : Nat) : List Event := story (events (history (step config) .start is)) id

/-- How deliveries are retried in a run. -/
structure Schedule : Prop where
  attempts : ∀ d ∈ deliveries config is, d.attempts = failures (storyOf config is d.id)
  failed : ∀ d ∈ deliveries config is,
    d.status = .failed ↔ GivenUp limit (storyOf config is d.id)
  lawful : ∀ id, Lawful config limit (storyOf config is id)
  final : ∀ earlier, earlier <+: is → ∀ d ∈ deliveries config earlier, d.status ≠ .pending →
    ∀ d' ∈ deliveries config is, d'.id = d.id → d' = d

variable {config is}

theorem kept_run (h : Along (step config) Separate .start is) :
    Kept config (tries config) (run (step config) .start is)
      (events (history (step config) .start is)) := by
  have hstep : ∀ s i t past, Kept config (tries config) s (events past) → Separate s i →
      step config s i = .ok t → Kept config (tries config) t (events (past ++ [(s, i, t)])) := by
    intro s i t past hs hi ht
    have hnext := kept_moves hs (moves_step hi ht)
    rw [events, List.filterMap_append, ← events]
    cases hevent : event s i with
    | none => simpa [hevent] using hnext
    | some e => simpa [hevent] using hnext
  have hstart : Kept config (tries config) .start (events []) := kept_start
  exact history_of_along hstep hstart h

theorem final_run {earlier later : List Input}
    (h : Along (step config) Separate .start (earlier ++ later)) {d d' : WebhookDelivery}
    (hd : d ∈ deliveries config earlier) (hfinal : d.status ≠ .pending)
    (hd' : d' ∈ deliveries config (earlier ++ later)) (hid : d'.id = d.id) : d' = d := by
  obtain ⟨hbefore, hafter⟩ := along_append.mp h
  have hkept := kept_run hbefore
  have hstart : Remains d (run (step config) .start earlier) :=
    ⟨hkept.known d hd, fun r hr heq => List.inj_on_of_nodup_map hkept.distinct hr hd heq⟩
  have hstep : ∀ s i t, (∃ past, Kept config (tries config) s past) ∧ Remains d s →
      Separate s i → step config s i = .ok t →
      (∃ past, Kept config (tries config) t past) ∧ Remains d t := by
    rintro s i t ⟨⟨past, hs⟩, hrow⟩ hi ht
    have hmoves := moves_step hi ht
    exact ⟨⟨_, kept_moves hs hmoves⟩, final_moves hs hmoves hfinal hrow⟩
  have hrun := throughout_run (throughout_of_along hstep ⟨⟨_, hkept⟩, hstart⟩ hafter)
  refine hrun.2.2 d' ?_ hid
  rw [deliveries, run, List.foldl_append] at hd'
  exact hd'

/-- Deliveries are retried on schedule where the runs of the dispatcher do not
overlap. At least one POST is made. -/
theorem schedule_kept (h : Along (step config) Separate .start is) :
    Schedule config (max 1 config.maxAttempts) is where
  attempts d hd := ((kept_run h).tells d hd).attempts
  failed d hd := ((kept_run h).tells d hd).failed
  lawful := (kept_run h).lawful
  final := by
    rintro earlier ⟨later, rfl⟩ d hd hfinal d' hd' hid
    exact final_run h hd hfinal hd' hid

end Runs

section Sample

/-- A delivery is refused, and waits for a second before it is posted again. -/
def retriedRun : List Input :=
  sampleSetup ++ [.dispatchOnce 0, .turn 0, .respond 0 (.response 500), .readText 0 "",
    .dispatchOnce 1, .turn 1, .respond 1 .aborted]

theorem schedule_kept_sample :
    Schedule ⟨2, 1000, 300000⟩ (max 1 2) retriedRun ∧
      storyOf ⟨2, 1000, 300000⟩ retriedRun 0 =
        [.attempted 0, .failed 0, .attempted 1, .failed 1] :=
  ⟨schedule_kept ⟨fun _ _ => trivial, fun _ _ => trivial, fun _ _ => by decide +kernel,
    fun _ _ => trivial, fun _ _ => trivial, fun _ _ => trivial, fun _ _ => by decide +kernel,
    fun _ _ => trivial, fun _ _ => trivial, trivial⟩, by decide +kernel⟩

def refusedRun : List Input :=
  sampleSetup ++ [.dispatchOnce 0, .turn 0, .respond 0 .aborted]

/-- One attempt is made and counted where none is allowed. -/
theorem one_attempt_too_many :
    Along (step ⟨0, 1000, 300000⟩) Separate .start refusedRun ∧
      (deliveries ⟨0, 1000, 300000⟩ refusedRun).map (fun d => (d.attempts, d.status)) =
        [(1, .failed)] ∧
      ¬ Schedule ⟨0, 1000, 300000⟩ 0 refusedRun := by
  refine ⟨⟨fun _ _ => trivial, fun _ _ => trivial, fun _ _ => by decide +kernel,
    fun _ _ => trivial, fun _ _ => trivial, trivial⟩, by decide +kernel, fun h => ?_⟩
  have hcapped := (h.lawful 0).capped
  exact absurd hcapped (by decide +kernel)

end Sample

end Suban.Indexer.Retries
