import Suban.Indexer.Completeness

namespace Suban.Indexer.Outbox

open Suban.Basis.Rows Suban.Basis.Runs Suban.Basis.Routines
open Suban.Indexer.Database Suban.Indexer.Events Suban.Indexer.Values
open Suban.Indexer.Completeness (samplePlatform sampleConfig sampleServer)

variable {X : Type} {P : Platform X} {config : IndexerConfig}

/-- The indexer's tables, with the deliveries that they owe, and the event that
is being enqueued. -/
structure Owing where
  host : Host
  owed : List (String × String)
  enqueuing : Option EventRow

def deliveriesOf (host : Host) (row : EventRow) : List (String × String) :=
  (host.activeSubscriptions.filter (subscribes row)).map fun s => (s.id, row.eventId)

/-- Deliveries are owed from the moment the row of an event is added, for as
long as their subscriptions are there. -/
def noteOwed (c : Statement) (s : Owing) : List (String × String) :=
  match c with
  | .insertEvent row =>
    if HasKey EventRow.eventId s.host.events row.eventId then s.owed
    else s.owed ++ deliveriesOf s.host row
  | .deleteSubscription id => s.owed.filter (·.1 ≠ id)
  | _ => s.owed

/-- An event is being enqueued from the moment its row is added, for as long as
the clock and the active subscriptions are only read. -/
def noteEnqueuing (c : Statement) (s : Owing) : Option EventRow :=
  match c with
  | .insertEvent row =>
    if HasKey EventRow.eventId s.host.events row.eventId then none else some row
  | .now | .activeSubscriptions => s.enqueuing
  | _ => none

def outbox (X : Type) : Store Answer (Reply X) Owing where
  exec c s := ((exec c s.host).1, ⟨(exec c s.host).2, noteOwed c s, noteEnqueuing c s⟩)
  hear _ _ s := s

def Delivered (host : Host) (delivery : String × String) : Prop :=
  HasKey WebhookDelivery.key host.webhookDeliveries delivery

/-- The event is one that the process goes on to enqueue. -/
def Enqueues (p : Process Answer (Reply X) Owing) (eventId : String) : Prop :=
  (∃ c k, p.routine = .issue c k) ∧ ∃ row, p.store.enqueuing = some row ∧ row.eventId = eventId

/-- Every delivery that is owed is there, or will be with the next statements. -/
def Consistent (p : Process Answer (Reply X) Owing) : Prop :=
  ∀ o ∈ p.store.owed, Delivered p.store.host o ∨ Enqueues p o.2

/-- Only events have deliveries, and only the one that is being enqueued may
lack them. -/
structure Tracked (s : Owing) : Prop where
  events : ∀ d ∈ s.host.webhookDeliveries, HasKey EventRow.eventId s.host.events d.eventId
  owedEvents : ∀ o ∈ s.owed, HasKey EventRow.eventId s.host.events o.2
  delivered : ∀ o ∈ s.owed, Delivered s.host o ∨
    ∃ row, s.enqueuing = some row ∧ row.eventId = o.2
  fresh : ∀ row, s.enqueuing = some row →
    ∀ d ∈ s.host.webhookDeliveries, d.eventId ≠ row.eventId
  owed : ∀ row, s.enqueuing = some row →
    ∀ o, o.2 = row.eventId → (o ∈ s.owed ↔ o ∈ deliveriesOf s.host row)

structure Settled (s : Owing) : Prop extends Tracked s where
  settled : ∀ o ∈ s.owed, Delivered s.host o

/-- Nothing is owed for the event that is being enqueued. -/
def NoneOwed (_ : Statement) (s : Owing) : Prop :=
  ∀ row, s.enqueuing = some row → deliveriesOf s.host row = []

def Elsewhere : Statement → Prop
  | .insertEvent _ | .insertDeliveries _ _ _ _ => False
  | _ => True

def outline (X : Type) : Outline Statement (Reply X) Owing where
  atRest := Settled
  before _ := Tracked
  valid _ _ := True
  allowed := Elsewhere

variable {s t : Owing}

theorem settled_iff_noneOwed (hs : Tracked s) (c : Statement) : Settled s ↔ NoneOwed c s := by
  constructor
  · intro h row hrow
    refine List.eq_nil_iff_forall_not_mem.mpr fun o ho => ?_
    obtain ⟨sub, -, rfl⟩ := List.mem_map.mp ho
    obtain ⟨d, hd, hkey⟩ := h.settled _ ((hs.owed row hrow _ rfl).mpr ho)
    exact hs.fresh row hrow d hd (congrArg Prod.snd hkey)
  · intro h
    refine ⟨hs, fun o ho => (hs.delivered o ho).resolve_right ?_⟩
    rintro ⟨row, hrow, hid⟩
    have howed := (hs.owed row hrow o hid.symm).mp ho
    rw [h row hrow] at howed
    cases howed

theorem Settled.keeps (hs : Settled s) (hnone : t.enqueuing = none)
    (hevents : s.host.events ⊆ t.host.events)
    (hdeliveries : ∀ d ∈ t.host.webhookDeliveries,
      ∃ d' ∈ s.host.webhookDeliveries, d'.eventId = d.eventId)
    (howed : ∀ o ∈ t.owed, o ∈ s.owed ∧ (Delivered s.host o → Delivered t.host o)) :
    Settled t := by
  have hsettled : ∀ o ∈ t.owed, Delivered t.host o := fun o ho =>
    (howed o ho).2 (hs.settled o (howed o ho).1)
  refine ⟨⟨?_, fun o ho => (hs.owedEvents o (howed o ho).1).mono hevents,
    fun o ho => .inl (hsettled o ho), by simp [hnone], by simp [hnone]⟩, hsettled⟩
  intro d hd
  obtain ⟨d', hd', hid⟩ := hdeliveries d hd
  exact hid ▸ (hs.events d' hd').mono hevents

theorem settled_elsewhere {c : Statement} (hc : Elsewhere c) (hs : Settled s) :
    Settled ((outbox X).exec c s).2 := by
  cases c with
  | insertEvent | insertDeliveries => exact hc.elim
  | now | activeSubscriptions => exact hs
  | deleteSubscription id =>
    refine hs.keeps rfl (List.Subset.refl _) ?_ ?_
    · exact fun d hd => ⟨d, (List.mem_filter.mp hd).1, rfl⟩
    · intro o ho
      obtain ⟨hmem, hne⟩ := List.mem_filter.mp ho
      refine ⟨hmem, fun ⟨d, hd, hkey⟩ => ⟨d, List.mem_filter.mpr ⟨hd, ?_⟩, hkey⟩⟩
      rw [← hkey] at hne
      exact hne
  | updateDelivery id status attempts nextAttemptAt lastError =>
    have hkey (d : WebhookDelivery) : (if d.id = id then { d with
        status := status
        attempts := attempts
        nextAttemptAt := nextAttemptAt
        lastError := lastError } else d).key = d.key := by
      split <;> rfl
    refine hs.keeps rfl (List.Subset.refl _) ?_ ?_
    · intro d hd
      obtain ⟨d', hd', rfl⟩ := List.mem_map.mp hd
      exact ⟨d', hd', (congrArg Prod.snd (hkey d')).symm⟩
    · intro o ho
      refine ⟨ho, fun ⟨d, hd, hd'⟩ => ⟨_, List.mem_map_of_mem hd, (hkey d).trans hd'⟩⟩
  | _ => exact hs.keeps rfl (List.Subset.refl _) (fun d hd => ⟨d, hd, rfl⟩) fun o ho => ⟨ho, id⟩

abbrev Anything (_ _ : Owing) : Prop := True

theorem frame : Frame (outbox X) (outline X) Anything where
  refl _ := trivial
  trans _ _ := trivial
  rest _ _ hs := hs.toTracked
  others _ _ hc hs := ⟨settled_elsewhere hc hs, trivial⟩

theorem keeps_elsewhere {c : Statement} (hc : Elsewhere c) :
    Keeps (outbox X) (outline X) Anything (query c) := frame.perform hc

theorem keeps_ask (q : Request) : Keeps (outbox X) (outline X) Anything (ask q) :=
  fun _ hs => ⟨hs, fun _ ht _ _ => frame.interfere ht hs⟩

theorem settled_insertDeliveries {row : EventRow} (hs : Tracked s) (hrow : s.enqueuing = some row)
    (hstored : HasKey EventRow.eventId s.host.events row.eventId) (payload : String) (now : Nat) :
    Settled ((outbox X).exec (.insertDeliveries row.eventId payload now
      ((s.host.activeSubscriptions.filter (subscribes row)).map WebhookSubscription.id)) s).2 := by
  set ids := (s.host.activeSubscriptions.filter (subscribes row)).map WebhookSubscription.id
  have hsettled : ∀ o ∈ s.owed,
      Delivered (s.host.insertDeliveries row.eventId payload now ids) o := by
    intro o ho
    obtain hold | ⟨row', hrow', hid⟩ := hs.delivered o ho
    · exact hold.mono subset_insertAll
    · cases hrow.symm.trans hrow'
      obtain ⟨sub, hsub, rfl⟩ := List.mem_map.mp ((hs.owed row hrow o hid.symm).mp ho)
      obtain ⟨i, hi, hget⟩ := List.getElem_of_mem
        (show sub.id ∈ ids from List.mem_map_of_mem hsub)
      rw [← hget]
      exact hasKey_insertAll (List.mem_mapIdx.mpr ⟨i, hi, rfl⟩)
  refine ⟨⟨fun d hd => ?_, hs.owedEvents, fun o ho => .inl (hsettled o ho), ?_, ?_⟩, hsettled⟩
  · obtain hold | hnew := of_mem_insertAll hd
    · exact hs.events d hold
    · obtain ⟨i, hi, rfl⟩ := List.mem_mapIdx.mp hnew
      exact hstored
  all_goals simp [outbox, noteEnqueuing]

theorem safe_enqueue {row : EventRow} (data : Value X) (hs : Tracked s)
    (hrow : s.enqueuing = some row)
    (hstored : HasKey EventRow.eventId s.host.events row.eventId) :
    Safe (outbox X) (outline X) (fun _ => Settled) (enqueue P row data) s := by
  refine safe_perform hs (safe_perform hs ?_)
  change Safe _ _ _ (if s.host.activeSubscriptions = [] then _ else _) s
  split
  next hnil =>
    refine (settled_iff_noneOwed hs .now).mpr fun row' _ => ?_
    rw [deliveriesOf, hnil]
    rfl
  next => exact ⟨hs, settled_insertDeliveries hs hrow hstored _ _⟩

theorem tracked_insertEvent {row : EventRow} (hs : Settled s)
    (hnew : ¬ HasKey EventRow.eventId s.host.events row.eventId) :
    Tracked ((outbox X).exec (.insertEvent row) s).2 := by
  have hgrown : s.host.events ⊆ insertOrIgnore EventRow.eventId row s.host.events :=
    subset_insertOrIgnore
  have howed : ((outbox X).exec (.insertEvent row) s).2.owed =
      s.owed ++ deliveriesOf s.host row := if_neg hnew
  have henqueuing : ((outbox X).exec (.insertEvent row) s).2.enqueuing = some row := if_neg hnew
  have hids {o : String × String} (ho : o ∈ deliveriesOf s.host row) : row.eventId = o.2 := by
    obtain ⟨sub, -, rfl⟩ := List.mem_map.mp ho
    rfl
  refine ⟨fun d hd => (hs.events d hd).mono hgrown, ?_, ?_, ?_, ?_⟩
  · intro o ho
    rw [howed] at ho
    obtain hold | hadded := List.mem_append.mp ho
    · exact (hs.owedEvents o hold).mono hgrown
    · exact hids hadded ▸ hasKey_insertOrIgnore
  · intro o ho
    rw [howed] at ho
    refine (List.mem_append.mp ho).imp (hs.settled o) fun hadded => ?_
    exact ⟨row, henqueuing, hids hadded⟩
  · intro row' hrow' d hd heq
    cases henqueuing.symm.trans hrow'
    exact hnew (heq ▸ hs.events d hd)
  · intro row' hrow' o hid
    cases henqueuing.symm.trans hrow'
    rw [howed, List.mem_append]
    refine or_iff_right fun hold => hnew ?_
    exact hid ▸ hs.owedEvents o hold

theorem settled_insertEvent {row : EventRow} (hs : Settled s)
    (hold : HasKey EventRow.eventId s.host.events row.eventId) :
    Settled ((outbox X).exec (.insertEvent row) s).2 := by
  have howed : ((outbox X).exec (.insertEvent row) s).2.owed = s.owed := if_pos hold
  refine hs.keeps (if_pos hold) subset_insertOrIgnore (fun d hd => ⟨d, hd, rfl⟩) fun o ho => ?_
  rw [howed] at ho
  exact ⟨ho, id⟩

theorem keeps_insertEvent (row : EventRow) (data : Value X) :
    Keeps (outbox X) (outline X) Anything (do
      let inserted ← query (.insertEvent row)
      enqueueInserted P inserted row data) := by
  intro s hs
  refine safe_mono (fun _ _ ht => ⟨ht, trivial⟩) (safe_perform hs.toTracked ?_)
  by_cases hold : HasKey EventRow.eventId s.host.events row.eventId
  · have hanswer : ((outbox X).exec (.insertEvent row) s).1 = 0 := if_pos hold
    rw [hanswer]
    exact settled_insertEvent hs hold
  · have hanswer : ((outbox X).exec (.insertEvent row) s).1 = 1 := if_neg hold
    rw [hanswer]
    exact safe_enqueue data (tracked_insertEvent hs hold) (if_neg hold) hasKey_insertOrIgnore

theorem keeps_storeEvents (contract : ContractConfig) (events : List (SorobanEvent X))
    (index maxLedger : Nat) :
    Keeps (outbox X) (outline X) Anything (storeEvents P contract events index maxLedger) := by
  induction events generalizing index maxLedger with
  | nil => exact frame.done maxLedger
  | cons e events ih =>
    refine frame.bind (keeps_elsewhere (c := .now) trivial) fun now => ?_
    have hrow := frame.bind (keeps_insertEvent (P := P) (eventRow P contract e index now)
      (eventData P e)) fun _ => ih (index + 1) (max maxLedger e.ledgerNumber)
    exact hrow

theorem keeps_pollPages (contract : ContractConfig) (latest pages src : Nat) :
    Keeps (outbox X) (outline X) Anything (pollPages P contract latest pages src) := by
  induction pages generalizing src with
  | zero => exact frame.done ()
  | succ pages ih =>
    unfold pollPages
    split
    · refine frame.bind (keeps_ask _) fun response => ?_
      split
      · exact frame.done ()
      · refine frame.bind (keeps_storeEvents contract response.events 0 src) fun maxLedger => ?_
        refine frame.bind (keeps_elsewhere (c := .setCheckpoint _ _ _) trivial) fun _ => ?_
        split
        · exact frame.done ()
        · exact ih maxLedger
    · exact frame.done ()

theorem keeps_bootstrap (stream : String) (latest n : Nat) :
    Keeps (outbox X) (outline X) Anything (bootstrap stream latest n) := by
  refine frame.bind (keeps_elsewhere (c := .getCheckpoint stream) trivial) fun checkpoint => ?_
  split
  · refine frame.bind (keeps_elsewhere (c := .setCheckpoint _ _ _) trivial) fun _ => ?_
    exact frame.done _
  · exact frame.done checkpoint

theorem keeps_pollContracts (latest : Nat) (contracts : List ContractConfig) :
    Keeps (outbox X) (outline X) Anything (pollContracts P config latest contracts) := by
  induction contracts with
  | nil => exact frame.done ()
  | cons contract contracts ih =>
    refine frame.bind (frame.bind (keeps_bootstrap _ _ _) fun checkpoint => ?_) fun _ => ih
    split
    · exact frame.done ()
    · exact keeps_pollPages contract latest 20 checkpoint

theorem keeps_pollContractEvents :
    Keeps (outbox X) (outline X) Anything (pollContractEvents P config) := by
  unfold pollContractEvents
  split
  · exact frame.done ()
  · refine frame.bind (keeps_ask _) fun latest => ?_
    have hobserve := keeps_observeLedger (frame (X := X)) (fun _ => trivial) (fun _ _ => trivial)
    exact frame.bind (hobserve latest) fun _ => keeps_pollContracts latest _

theorem pollContractEvents_ne_issue (c : Statement) (k : Answer c → EventRoutine X Unit) :
    pollContractEvents P config ≠ .issue c k := by
  unfold pollContractEvents
  split <;> intro h <;> cases h

def opening (P : Platform X) (config : IndexerConfig) : Process Answer (Reply X) Owing where
  store := ⟨.fresh, [], none⟩
  routine := pollContractEvents P config

/-- Whatever the replies, and wherever the process is stopped, the outbox is
consistent as long as the process is not stopped between the row of an event
and the deliveries that it owes. -/
theorem consistent_iff_noneOwed (is : List (Input Statement (Reply X)))
    (hkeep : Along (step (outbox X) (pollContractEvents P config)) (OthersKeep Elsewhere)
      (opening P config) is) :
    Throughout (step (outbox X) (pollContractEvents P config)) Consistent (opening P config) is ↔
      Along (step (outbox X) (pollContractEvents P config)) (StopsWhere NoneOwed)
        (opening P config) is := by
  refine throughout_iff_stopsWhere (L := outline X)
    (fun s hs => keeps_pollContractEvents.safe hs fun _ _ ht _ => ht) ?_ ?_
    (fun c s hc hs => settled_elsewhere hc hs) (fun c s hs => settled_iff_noneOwed hs c) ?_ ?_ hkeep
  · rintro ⟨s, r⟩ hp o ho
    cases r with
    | issue c k =>
      exact (Tracked.delivered hp o ho).imp_right fun h => ⟨⟨c, k, rfl⟩, h⟩
    | done | await => exact .inl (Settled.settled hp o ho)
  · intro c s hs hconsistent
    refine ⟨hs, fun o ho => (hconsistent o ho).resolve_right ?_⟩
    rintro ⟨⟨c', k, hissue⟩, -⟩
    exact pollContractEvents_ne_issue c' k hissue
  · refine ⟨⟨?_, ?_, ?_, ?_, ?_⟩, ?_⟩ <;> simp [Host.fresh]
  · refine along_of_forall (fun i _ p => ?_) _
    cases i <;> simp [Replies, outline]

def sampleSubscription : WebhookSubscription := ⟨"s", "http://localhost", "secret", ["*"], [], true⟩

/-- A poll that is stopped after the row of an event, and a second poll. -/
def sampleInputs : List (Input Statement (Reply Unit)) :=
  [.other (.createSubscription sampleSubscription), .reply (sampleServer 1), .tick, .tick, .tick,
    .tick, .reply (sampleServer 1), .tick, .tick, .restart, .reply (sampleServer 1), .tick, .tick,
    .reply (sampleServer 1), .tick, .tick, .tick]

theorem othersKeep_sample (p : Process Answer (Reply Unit) Owing) :
    Along (step (outbox Unit) (pollContractEvents samplePlatform sampleConfig))
      (OthersKeep Elsewhere) p sampleInputs := by
  refine along_of_forall ?_ p
  simp [sampleInputs, OthersKeep, Elsewhere]

theorem consistent_iff_noneOwed_sample :
    Throughout (step (outbox Unit) (pollContractEvents samplePlatform sampleConfig)) Consistent
        (opening samplePlatform sampleConfig) sampleInputs ↔
      Along (step (outbox Unit) (pollContractEvents samplePlatform sampleConfig))
        (StopsWhere NoneOwed) (opening samplePlatform sampleConfig) sampleInputs :=
  consistent_iff_noneOwed sampleInputs (othersKeep_sample _)

/-- Even after the second poll the event has no delivery. -/
theorem delivery_is_lost :
    (run (step (outbox Unit) (pollContractEvents samplePlatform sampleConfig))
      (opening samplePlatform sampleConfig) sampleInputs).routine = .done () ∧
    ¬ Throughout (step (outbox Unit) (pollContractEvents samplePlatform sampleConfig)) Consistent
      (opening samplePlatform sampleConfig) sampleInputs := by
  have hend : (run (step (outbox Unit) (pollContractEvents samplePlatform sampleConfig))
      (opening samplePlatform sampleConfig) sampleInputs).routine = .done () := by
    rfl
  refine ⟨hend, fun h => ?_⟩
  have howed : (run (step (outbox Unit) (pollContractEvents samplePlatform sampleConfig))
      (opening samplePlatform sampleConfig) sampleInputs).store.owed = [("s", "c:0")] := by
    decide +kernel
  have hnone : (run (step (outbox Unit) (pollContractEvents samplePlatform sampleConfig))
      (opening samplePlatform sampleConfig) sampleInputs).store.host.webhookDeliveries = [] := by
    rfl
  obtain hlost | hnext := throughout_run h ("s", "c:0") (howed ▸ List.mem_singleton_self _)
  · obtain ⟨d, hd, -⟩ := hlost
    rw [hnone] at hd
    cases hd
  · obtain ⟨⟨c, k, hissue⟩, -⟩ := hnext
    cases hend.symm.trans hissue

end Suban.Indexer.Outbox
