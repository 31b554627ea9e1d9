import Suban.Indexer.Completeness

namespace Suban.Indexer.Replay

open Suban.Basis.Rows Suban.Basis.Runs Suban.Basis.Routines
open Suban.Indexer.Database Suban.Indexer.Events Suban.Indexer.Values
open Suban.Indexer.Completeness (Faithful Uncut Ordered since highest highest_lt
  le_highest_of_mem samplePlatform sampleConfig sampleContract)

structure Occurrence (X : Type) where
  contractId : String
  event : SorobanEvent X
  number : Nat

/-- The ledgers that a page of a contract's events has gone over. -/
structure Span where
  contractId : String
  first : Nat
  last : Nat
  deriving DecidableEq

/-- The indexer's tables, with the ledgers that its pages have gone over. -/
structure Walked where
  host : Host
  spans : List Span

variable {X : Type} {P : Platform X} {config : IndexerConfig}
variable {H : String → List (SorobanEvent X)} {place : Occurrence X → Nat}

def noteSpan : (q : Request) → Reply X q → List Span → List Span
  | .getLatestLedger, _, spans => spans
  | .getEvents startLedger contractId _, response, spans =>
    ⟨contractId, startLedger, highest response.events (startLedger - 1)⟩ :: spans

def walking (X : Type) : Store Answer (Reply X) Walked where
  exec c s := ((exec c s.host).1, ⟨(exec c s.host).2, s.spans⟩)
  hear q x s := ⟨s.host, noteSpan q x s.spans⟩

def history (H : String → List (SorobanEvent X)) (contractId : String) : List (Occurrence X) :=
  (H contractId).mapIdx fun number event => ⟨contractId, event, number⟩

def ahead (H : String → List (SorobanEvent X)) (contractId : String) (startLedger : Nat) :
    List (Occurrence X) :=
  (history H contractId).filter fun o => startLedger ≤ o.event.ledgerNumber

/-- An event without an id of its own is at its place in the page. -/
def Placed (H : String → List (SorobanEvent X)) (place : Occurrence X → Nat) :
    (q : Request) → Reply X q → Prop
  | .getLatestLedger, _ => True
  | .getEvents startLedger contractId _, response =>
    ∀ index o, ((ahead H contractId startLedger).take response.events.length)[index]? = some o →
      truthy o.event.id = none → index = place o

def eventId (P : Platform X) (place : Occurrence X → Nat) (o : Occurrence X) : String :=
  deterministicEventId P o.contractId o.event (place o)

def Happens (config : IndexerConfig) (H : String → List (SorobanEvent X)) (o : Occurrence X) :
    Prop :=
  ∃ contract ∈ config.contracts, o ∈ history H contract.contractId

def Distinct (P : Platform X) (config : IndexerConfig) (H : String → List (SorobanEvent X))
    (place : Occurrence X → Nat) : Prop :=
  ∀ o o', Happens config H o → Happens config H o' →
    eventId P place o = eventId P place o' → o = o'

/-- A page has gone over the ledger of the event. -/
def Passed (s : Walked) (o : Occurrence X) : Prop :=
  ∃ p ∈ s.spans, p.contractId = o.contractId ∧ p.first ≤ o.event.ledgerNumber ∧
    o.event.ledgerNumber ≤ p.last

def RowOf (P : Platform X) (config : IndexerConfig) (H : String → List (SorobanEvent X))
    (row : EventRow) (o : Occurrence X) : Prop :=
  ∃ contract ∈ config.contracts, o ∈ history H contract.contractId ∧
    ∃ index now, row = eventRow P contract o.event index now

def StoredOnce (P : Platform X) (config : IndexerConfig) (H : String → List (SorobanEvent X))
    (rows : List EventRow) : Prop :=
  ∃ os : List (Occurrence X), os.Nodup ∧ List.Forall₂ (RowOf P config H) rows os

/-- What identifies a row and what it holds of the event. -/
def content (row : EventRow) : String × String × String × String × Nat × Option String :=
  (row.eventId, row.contractId, row.eventType, row.txHash, row.ledger, row.data)

/-- Rows are made from events in ledgers that the pages have gone over. -/
structure Sound (P : Platform X) (config : IndexerConfig) (H : String → List (SorobanEvent X))
    (place : Occurrence X → Nat) (s : Walked) : Prop where
  unique : (s.host.events.map EventRow.eventId).Nodup
  sourced : ∀ row ∈ s.host.events, ∃ o, Passed s o ∧ ∃ contract ∈ config.contracts,
    o ∈ history H contract.contractId ∧ ∃ now, row = eventRow P contract o.event (place o) now

/-- All events in ledgers that the pages have gone over have a row. -/
def Stored (P : Platform X) (config : IndexerConfig) (H : String → List (SorobanEvent X))
    (place : Occurrence X → Nat) (s : Walked) : Prop :=
  ∀ o, Happens config H o → Passed s o →
    HasKey EventRow.eventId s.host.events (eventId P place o)

structure Settled (P : Platform X) (config : IndexerConfig) (H : String → List (SorobanEvent X))
    (place : Occurrence X → Nat) (s : Walked) : Prop extends Sound P config H place s where
  stored : Stored P config H place s

/-- The other parts of the process store no events. They may move the
checkpoints. -/
def Elsewhere : Statement → Prop
  | .insertEvent _ => False
  | _ => True

def outline (P : Platform X) (config : IndexerConfig) (H : String → List (SorobanEvent X))
    (place : Occurrence X → Nat) : Outline Statement (Reply X) Walked where
  atRest := Settled P config H place
  before _ := Sound P config H place
  valid q x := (Faithful H q x ∧ Uncut H q x) ∧ Placed H place q x
  allowed := Elsewhere

section Histories

variable {contractId : String} {startLedger : Nat} {o : Occurrence X}

theorem map_history (H : String → List (SorobanEvent X)) (contractId : String) :
    (history H contractId).map Occurrence.event = H contractId := by
  refine List.ext_getElem (by simp [history]) fun i _ _ => ?_
  simp [history]

theorem map_ahead (H : String → List (SorobanEvent X)) (contractId : String) (startLedger : Nat) :
    (ahead H contractId startLedger).map Occurrence.event = since (H contractId) startLedger := by
  unfold ahead since
  rw [← map_history H contractId, List.filter_map]
  simp [Function.comp_def]

theorem contractId_of_mem (h : o ∈ history H contractId) : o.contractId = contractId := by
  obtain ⟨i, hi, rfl⟩ := List.mem_mapIdx.mp h
  rfl

theorem map_page {limit : Nat} {response : EventsResponse X}
    (h : Faithful H (.getEvents startLedger contractId limit) response) :
    ((ahead H contractId startLedger).take response.events.length).map Occurrence.event =
      response.events := by
  rw [List.map_take, map_ahead]
  exact (List.prefix_iff_eq_take.mp h.1).symm

theorem of_mem_page {n : Nat} (h : o ∈ (ahead H contractId startLedger).take n) :
    o ∈ history H contractId ∧ startLedger ≤ o.event.ledgerNumber := by
  have hmem := List.mem_filter.mp (List.mem_of_mem_take h)
  exact ⟨hmem.1, of_decide_eq_true hmem.2⟩

theorem mem_page {src limit : Nat} {response : EventsResponse X} (hH : Ordered H)
    (hfaithful : Faithful H (.getEvents (src + 1) contractId limit) response)
    (huncut : Uncut H (.getEvents (src + 1) contractId limit) response)
    (ho : o ∈ history H contractId) (hlt : src < o.event.ledgerNumber)
    (hle : o.event.ledgerNumber ≤ highest response.events src) :
    o ∈ (ahead H contractId (src + 1)).take response.events.length := by
  have hne : response.events ≠ [] := by
    rintro hempty
    rw [hempty] at hle
    exact hle.not_gt hlt
  have hmem : o ∈ ahead H contractId (src + 1) := List.mem_filter.mpr ⟨ho, decide_eq_true hlt⟩
  rw [← List.take_append_drop response.events.length (ahead H contractId (src + 1))] at hmem
  refine (List.mem_append.mp hmem).resolve_right fun hlate => hle.not_gt ?_
  refine highest_lt hH hfaithful huncut hne ?_
  rw [← map_ahead, ← List.map_drop]
  exact List.mem_map_of_mem hlate

end Histories

structure Unmoved (s t : Walked) : Prop where
  events : t.host.events = s.host.events
  spans : t.spans = s.spans

variable {s t u : Walked} {o : Occurrence X}

theorem Unmoved.refl (s : Walked) : Unmoved s s := ⟨rfl, rfl⟩

theorem Unmoved.trans (h : Unmoved s t) (h' : Unmoved t u) : Unmoved s u :=
  ⟨h'.events.trans h.events, h'.spans.trans h.spans⟩

theorem unmoved_elsewhere {c : Statement} (hc : Elsewhere c) (s : Walked) :
    Unmoved s ((walking X).exec c s).2 := by
  cases c with
  | insertEvent => exact hc.elim
  | _ => exact ⟨rfl, rfl⟩

theorem Passed.mono (h : Passed s o) (hspans : s.spans ⊆ t.spans) : Passed t o :=
  h.imp fun _ hp => ⟨hspans hp.1, hp.2⟩

theorem Sound.mono (h : Sound P config H place s) (hevents : t.host.events = s.host.events)
    (hspans : s.spans ⊆ t.spans) : Sound P config H place t where
  unique := hevents ▸ h.unique
  sourced row hrow := by
    obtain ⟨o, hpassed, hrest⟩ := h.sourced row (hevents ▸ hrow)
    exact ⟨o, hpassed.mono hspans, hrest⟩

theorem Sound.unmoved (h : Sound P config H place s) (hst : Unmoved s t) :
    Sound P config H place t := h.mono hst.events (hst.spans ▸ List.Subset.refl _)

theorem Settled.unmoved (h : Settled P config H place s) (hst : Unmoved s t) :
    Settled P config H place t where
  toSound := h.toSound.unmoved hst
  stored o ho hpassed := by
    rw [hst.events]
    exact h.stored o ho (hpassed.mono (hst.spans ▸ List.Subset.refl _))

theorem frame : Frame (walking X) (outline P config H place) Unmoved where
  refl := Unmoved.refl
  trans := Unmoved.trans
  rest _ _ hs := hs.toSound
  others _ s hc hs := ⟨hs.unmoved (unmoved_elsewhere hc s), unmoved_elsewhere hc s⟩

theorem keeps_elsewhere {c : Statement} (hc : Elsewhere c) :
    Keeps (walking X) (outline P config H place) Unmoved (query c) := frame.perform hc

theorem keeps_bootstrap (stream : String) (latest n : Nat) :
    Keeps (walking X) (outline P config H place) Unmoved (bootstrap stream latest n) := by
  unfold bootstrap
  refine frame.bind (keeps_elsewhere (c := .getCheckpoint stream) trivial) fun checkpoint => ?_
  split
  · exact frame.bind (keeps_elsewhere (c := .setCheckpoint _ _ _) trivial) fun _ => frame.done _
  · exact frame.done _

theorem eventRow_placed {index n : Nat} (contract : ContractConfig) (e : SorobanEvent X) (now : Nat)
    (h : truthy e.id = none → index = n) :
    eventRow P contract e index now = eventRow P contract e n now := by
  cases hid : truthy e.id with
  | none => rw [h hid]
  | some id => simp only [eventRow, deterministicEventId, hid]

theorem eventId_of_mem {contract : ContractConfig} (ho : o ∈ history H contract.contractId)
    (now : Nat) : eventId P place o = (eventRow P contract o.event (place o) now).eventId := by
  rw [eventId, contractId_of_mem ho]
  rfl

theorem sound_insertEvent {contract : ContractConfig} (hc : contract ∈ config.contracts)
    (ho : o ∈ history H contract.contractId) (hpassed : Passed s o) (now : Nat)
    (hs : Sound P config H place s) :
    Sound P config H place ((walking X).exec
      (.insertEvent (eventRow P contract o.event (place o) now)) s).2 where
  unique := nodup_insertOrIgnore hs.unique
  sourced row hrow := by
    obtain hrow | rfl := of_mem_insertOrIgnore hrow
    · exact hs.sourced row hrow
    · exact ⟨o, hpassed, contract, hc, ho, now, rfl⟩

section Rules

variable {β : Type} {post : β → Walked → Prop}

/-- In the middle of a page as well, a statement that stores no event does
nothing to what is known. -/
theorem safe_elsewhere {c : Statement} (hc : Elsewhere c) {f : Answer c → EventRoutine X β}
    (hs : Sound P config H place s)
    (h : ∀ a t, Sound P config H place t → Unmoved s t →
      Safe (walking X) (outline P config H place) post (f a) t) :
    Safe (walking X) (outline P config H place) post (query c >>= f) s :=
  safe_perform hs (h _ _ (hs.unmoved (unmoved_elsewhere hc s)) (unmoved_elsewhere hc s))

theorem safe_enqueueInserted (inserted : Nat) (row : EventRow) (data : Value X)
    {post : Unit → Walked → Prop} (hs : Sound P config H place s)
    (h : ∀ t, Sound P config H place t → Unmoved s t → post () t) :
    Safe (walking X) (outline P config H place) post (enqueueInserted P inserted row data) s := by
  unfold enqueueInserted enqueue
  split
  · refine safe_elsewhere (c := .now) trivial hs fun now t ht hst => ?_
    refine safe_elsewhere (c := .activeSubscriptions) trivial ht fun subs u hu htu => ?_
    split
    · exact h u hu (hst.trans htu)
    · exact ⟨hu, h _ (hu.unmoved ⟨rfl, rfl⟩) ((hst.trans htu).trans ⟨rfl, rfl⟩)⟩
  · exact h s hs (.refl s)

theorem safe_storeEvents {contract : ContractConfig} (hc : contract ∈ config.contracts)
    {post : Nat → Walked → Prop} (os : List (Occurrence X))
    (hos : ∀ o ∈ os, o ∈ history H contract.contractId ∧ Passed s o) (index src : Nat)
    (hplaced : ∀ i o, os[i]? = some o → truthy o.event.id = none → index + i = place o)
    (hs : Sound P config H place s)
    (h : ∀ t, Sound P config H place t → t.spans = s.spans →
      s.host.events ⊆ t.host.events →
      (∀ o ∈ os, HasKey EventRow.eventId t.host.events (eventId P place o)) →
      post (highest (os.map Occurrence.event) src) t) :
    Safe (walking X) (outline P config H place) post
      (storeEvents P contract (os.map Occurrence.event) index src) s := by
  induction os generalizing index src s with
  | nil => exact h s hs rfl (List.Subset.refl _) (by simp)
  | cons o os ih =>
    obtain ⟨⟨ho, hpassed⟩, hrest⟩ := List.forall_mem_cons.mp hos
    refine safe_elsewhere (c := .now) trivial hs fun now t ht hst => ?_
    have hpassed' : Passed t o := hpassed.mono (hst.spans ▸ List.Subset.refl _)
    have hrow : eventRow P contract o.event index now = eventRow P contract o.event (place o) now :=
      eventRow_placed contract o.event now (hplaced 0 o rfl)
    rw [hrow]
    have hu := sound_insertEvent hc ho hpassed' now ht
    refine safe_perform ht (safe_bind (safe_enqueueInserted _ _ _ hu fun v hv huv => ?_))
    have hspans : v.spans = s.spans := huv.spans.trans hst.spans
    have hsub : s.host.events ⊆ v.host.events := by
      rw [huv.events, ← hst.events]
      exact subset_insertOrIgnore
    have hkey : HasKey EventRow.eventId v.host.events (eventId P place o) := by
      rw [huv.events, eventId_of_mem ho now]
      exact hasKey_insertOrIgnore
    refine ih (fun a ha => ?_) (index + 1) (max src o.event.ledgerNumber) (fun i a hi hid => ?_) hv
      fun w hw hvw hsubw hall => ?_
    · exact ⟨(hrest a ha).1, (hrest a ha).2.mono (hspans ▸ List.Subset.refl _)⟩
    · rw [← hplaced (i + 1) a hi hid, Nat.add_right_comm, Nat.add_assoc]
    · refine h w hw (hvw.trans hspans) (List.Subset.trans hsub hsubw) ?_
      exact List.forall_mem_cons.mpr ⟨hkey.mono hsubw, hall⟩

theorem stored_page {contractId : String} {src limit : Nat} {response : EventsResponse X}
    (hH : Ordered H)
    (hvalid : (outline P config H place).valid (.getEvents (src + 1) contractId limit) response)
    (hs : Settled P config H place s)
    (hspans : t.spans = noteSpan (.getEvents (src + 1) contractId limit) response s.spans)
    (hevents : s.host.events ⊆ t.host.events)
    (hall : ∀ o ∈ (ahead H contractId (src + 1)).take response.events.length,
      HasKey EventRow.eventId t.host.events (eventId P place o)) :
    Stored P config H place t := by
  rintro o ho ⟨p, hp, hid, hfirst, hlast⟩
  rw [hspans] at hp
  obtain rfl | hp := List.mem_cons.mp hp
  · obtain ⟨contract, hc, hmem⟩ := ho
    rw [← hid.trans (contractId_of_mem hmem)] at hmem
    exact hall o (mem_page hH hvalid.1.1 hvalid.1.2 hmem hfirst hlast)
  · exact (hs.stored o ho ⟨p, hp, hid, hfirst, hlast⟩).mono hevents

theorem safe_pollPages (hH : Ordered H) {contract : ContractConfig}
    (hc : contract ∈ config.contracts) (latest pages src : Nat) (hs : Settled P config H place s) :
    Safe (walking X) (outline P config H place) (fun _ => Settled P config H place)
      (pollPages P contract latest pages src) s := by
  induction pages generalizing src s with
  | zero => exact hs
  | succ pages ih =>
    unfold pollPages
    split
    · refine frame.safe_request hs fun t ht _ response hvalid => ?_
      have hpage := map_page hvalid.1.1
      have hheard : Sound P config H place ((walking X).hear
          (.getEvents (src + 1) contract.contractId 200) response t) :=
        ht.toSound.mono rfl (List.subset_cons_self _ _)
      split
      next hempty =>
        have hnil : response.events = [] := by simpa using hempty
        refine ⟨hheard, stored_page hH hvalid ht rfl (List.Subset.refl _) ?_⟩
        simp [hnil]
      next =>
        rw [← hpage]
        refine safe_bind (safe_storeEvents hc _ (fun o ho => ?_) 0 src (fun i o hi hid => ?_) hheard
          fun u hu hspans hsub hall => ?_)
        · obtain ⟨hmem, hfirst⟩ := of_mem_page ho
          have hevent : o.event ∈ response.events := hpage ▸ List.mem_map_of_mem ho
          exact ⟨hmem, _, List.mem_cons_self, (contractId_of_mem hmem).symm, hfirst,
            le_highest_of_mem hevent src⟩
        · rw [Nat.zero_add]
          exact hvalid.2 i o hi hid
        · rw [hpage]
          have hsettled : Settled P config H place u :=
            ⟨hu, stored_page hH hvalid ht hspans hsub hall⟩
          refine (keeps_elsewhere (c := .setCheckpoint _ _ _) trivial).safe_bind hsettled
            fun _ v hv _ => ?_
          split
          · exact hv
          · exact ih _ hv
    · exact hs

theorem safe_pollContracts (hH : Ordered H) (latest : Nat) {contracts : List ContractConfig}
    (hc : contracts ⊆ config.contracts) (hs : Settled P config H place s) :
    Safe (walking X) (outline P config H place) (fun _ => Settled P config H place)
      (pollContracts P config latest contracts) s := by
  induction contracts generalizing s with
  | nil => exact hs
  | cons contract contracts ih =>
    obtain ⟨hmem, hrest⟩ := List.cons_subset.mp hc
    refine safe_bind ((keeps_bootstrap _ _ _).safe_bind hs fun checkpoint t ht _ => ?_)
    split
    · exact ih hrest ht
    · exact safe_mono (fun _ u hu => ih hrest hu) (safe_pollPages hH hmem latest 20 _ ht)

theorem safe_pollContractEvents (hH : Ordered H) (hs : Settled P config H place s) :
    Safe (walking X) (outline P config H place) (fun _ => Settled P config H place)
      (pollContractEvents P config) s := by
  unfold pollContractEvents
  split
  · exact hs
  · refine frame.safe_request hs fun t ht _ latest _ => ?_
    refine (keeps_observeLedger frame (fun _ => trivial) (fun _ _ => trivial) latest).safe_bind ht
      fun _ u hu _ => ?_
    exact safe_pollContracts hH latest (List.Subset.refl _) hu

end Rules

def contentOf (P : Platform X) (place : Occurrence X → Nat) (o : Occurrence X) :
    String × String × String × String × Nat × Option String :=
  content (eventRow P ⟨"", o.contractId⟩ o.event (place o) 0)

theorem content_eventRow {contract : ContractConfig} (ho : o ∈ history H contract.contractId)
    (now : Nat) : content (eventRow P contract o.event (place o) now) = contentOf P place o := by
  rw [contentOf, contractId_of_mem ho]
  rfl

/-- Once they are settled, the tables hold one row for every event in the
ledgers gone over. -/
theorem mem_content_iff (hdistinct : Distinct P config H place) (hs : Settled P config H place s)
    {x : String × String × String × String × Nat × Option String} :
    x ∈ s.host.events.map content ↔
      ∃ o, Happens config H o ∧ Passed s o ∧ contentOf P place o = x := by
  constructor
  · intro hx
    obtain ⟨row, hrow, rfl⟩ := List.mem_map.mp hx
    obtain ⟨o, hpassed, contract, hc, ho, now, rfl⟩ := hs.sourced row hrow
    exact ⟨o, ⟨contract, hc, ho⟩, hpassed, (content_eventRow ho now).symm⟩
  · rintro ⟨o, ho, hpassed, rfl⟩
    obtain ⟨row, hrow, hid⟩ := hs.stored o ho hpassed
    obtain ⟨o', -, contract, hc, ho', now, rfl⟩ := hs.sourced row hrow
    rw [← eventId_of_mem ho' now] at hid
    obtain rfl := hdistinct o' o ⟨contract, hc, ho'⟩ ho hid
    exact List.mem_map.mpr ⟨_, hrow, content_eventRow ho' now⟩

theorem storedOnce_of_sound (hs : Sound P config H place s) :
    StoredOnce P config H s.host.events := by
  obtain ⟨os, hnodup, hrows⟩ := exists_sources (eventId P place)
    (R := fun row o => ∃ contract ∈ config.contracts, o ∈ history H contract.contractId ∧
      ∃ now, row = eventRow P contract o.event (place o) now)
    (by
      rintro row o ⟨contract, -, ho, now, rfl⟩
      exact (eventId_of_mem ho now).symm)
    (fun row hrow => (hs.sourced row hrow).imp fun _ h => h.2) hs.unique
  refine ⟨os, hnodup, hrows.imp ?_⟩
  rintro row o ⟨contract, hc, ho, now, rfl⟩
  exact ⟨contract, hc, ho, _, now, rfl⟩

section Runs

variable {is js : List (Input Statement (Reply X))}

def opening (P : Platform X) (config : IndexerConfig) : Process Answer (Reply X) Walked where
  store := ⟨.fresh, []⟩
  routine := pollContractEvents P config

def after (P : Platform X) (config : IndexerConfig) (is : List (Input Statement (Reply X))) :
    Process Answer (Reply X) Walked :=
  run (step (walking X) (pollContractEvents P config)) (opening P config) is

def Waits (p : Process Answer (Reply X) Walked) : Prop := ∀ c k, p.routine ≠ .issue c k

/-- Polls of a server that gives the events in their order, resets of the
streams, and whatever else happens. -/
structure Ingests (P : Platform X) (config : IndexerConfig) (H : String → List (SorobanEvent X))
    (is : List (Input Statement (Reply X))) : Prop where
  faithful : Along (step (walking X) (pollContractEvents P config)) (Replies (Faithful H))
    (opening P config) is
  others : Along (step (walking X) (pollContractEvents P config)) (OthersKeep Elsewhere)
    (opening P config) is

/-- No page ends in the middle of a ledger or moves an event without an id, and
the process is not stopped in the middle of a page. -/
structure Steady (P : Platform X) (config : IndexerConfig) (H : String → List (SorobanEvent X))
    (place : Occurrence X → Nat) (is : List (Input Statement (Reply X))) : Prop where
  uncut : Along (step (walking X) (pollContractEvents P config)) (Replies (Uncut H))
    (opening P config) is
  placed : Along (step (walking X) (pollContractEvents P config)) (Replies (Placed H place))
    (opening P config) is
  stops : Along (step (walking X) (pollContractEvents P config))
    (StopsWhere fun _ => Stored P config H place) (opening P config) is

theorem settled_fresh : Settled P config H place (opening P config).store where
  unique := List.nodup_nil
  sourced _ hrow := by cases hrow
  stored := by
    rintro o - ⟨p, hp, -⟩
    cases hp

theorem waits_opening (s : Walked) : Waits ⟨s, pollContractEvents P config⟩ := by
  unfold pollContractEvents
  rintro c k h
  dsimp only at h
  split at h <;> cases h

theorem settled_after (hH : Ordered H) (his : Ingests P config H is)
    (hsteady : Steady P config H place is) (hwaits : Waits (after P config is)) :
    Settled P config H place (after P config is).store := by
  have hvalid := along_and.mpr ⟨along_and.mpr ⟨his.faithful, hsteady.uncut⟩, hsteady.placed⟩
  simp only [← replies_and] at hvalid
  have hplain (p : Process Answer (Reply X) Walked) (h : Outlined (outline P config H place) p)
      (hw : Waits p) : Settled P config H place p.store := by
    unfold Outlined at h
    split at h
    next c k heq => exact absurd heq (hw c k)
    · exact h
  have hall := (throughout_iff_stopsWhere (L := outline P config H place)
    (K := fun p => Waits p → Settled P config H place p.store)
    (fun s hs => safe_pollContractEvents hH hs) hplain
    (fun _ s _ h => h (waits_opening s)) (fun c s hc hs => hs.unmoved (unmoved_elsewhere hc s))
    (fun _ _ hs => ⟨fun h => h.stored, fun h => ⟨hs, h⟩⟩) settled_fresh hvalid his.others).mpr
    hsteady.stops
  exact throughout_run hall hwaits

/-- Two ingestions that have gone over the same ledgers with events, one of them
perhaps without any reset, have stored the same, and no event twice. -/
theorem rows_agree_of_steady (hH : Ordered H) (hdistinct : Distinct P config H place)
    (his : Ingests P config H is) (hjs : Ingests P config H js)
    (hsteady : Steady P config H place is) (hsteady' : Steady P config H place js)
    (hwaits : Waits (after P config is)) (hwaits' : Waits (after P config js))
    (hpassed : ∀ o, Happens config H o →
      (Passed (after P config is).store o ↔ Passed (after P config js).store o)) :
    (∀ x, x ∈ (after P config is).store.host.events.map content ↔
      x ∈ (after P config js).store.host.events.map content) ∧
      StoredOnce P config H (after P config is).store.host.events := by
  have hs := settled_after hH his hsteady hwaits
  have ht := settled_after hH hjs hsteady' hwaits'
  refine ⟨fun x => ?_, storedOnce_of_sound hs.toSound⟩
  rw [mem_content_iff hdistinct hs, mem_content_iff hdistinct ht]
  refine exists_congr fun o => and_congr_right fun ho => ?_
  rw [hpassed o ho]

end Runs

/-- Two events without an id of their own, in ledgers 2 and 3. -/
def namelessEvent (ledger : Nat) : SorobanEvent Unit :=
  ⟨none, some ledger, none, none, none, none, none, none⟩

def namelessHistory (contractId : String) : List (SorobanEvent Unit) :=
  if contractId = "c" then [namelessEvent 2, namelessEvent 3] else []

/-- A server that gives the events to requests that start at a ledger up to `n`. -/
def namelessServer (n : Nat) : (q : Request) → Reply Unit q
  | .getLatestLedger => (3 : Nat)
  | .getEvents startLedger contractId limit =>
    if limit = 200 ∧ startLedger ≤ n then ⟨since (namelessHistory contractId) startLedger, none⟩
    else ⟨[], none⟩

def firstPoll (n : Nat) : List (Input Statement (Reply Unit)) :=
  [.reply (namelessServer n)] ++ List.replicate 4 .tick ++ [.reply (namelessServer n)] ++
    List.replicate 9 .tick

def pollTwice (n fromLedger : Nat) : List (Input Statement (Reply Unit)) :=
  firstPoll n ++ [.other (.setCheckpoint (stream "c") fromLedger none), .tick,
    .reply (namelessServer n)] ++ List.replicate 2 .tick ++ [.reply (namelessServer n)] ++
    List.replicate 5 .tick

theorem happens_of_rowOf {row : EventRow} (h : RowOf P config H row o) : Happens config H o :=
  h.imp fun _ h => ⟨h.1, h.2.1⟩

section Samples

variable {n fromLedger : Nat} {is : List (Input Statement (Reply Unit))}

/-- The process polls the server, and otherwise only its stream is reset. -/
def Replays (n : Nat) (i : Input Statement (Reply Unit)) : Prop :=
  i = .tick ∨ i = .reply (namelessServer n) ∨
    ∃ fromLedger, i = .other (.setCheckpoint (stream "c") fromLedger none)

theorem replays_firstPoll : ∀ i ∈ firstPoll n, Replays n i := by
  simp [firstPoll, Replays]

theorem replays_pollTwice : ∀ i ∈ pollTwice n fromLedger, Replays n i := by
  simp [pollTwice, firstPoll, Replays]

theorem along_replies_sample {V : ∀ q, Reply Unit q → Prop} (hV : ∀ q, V q (namelessServer n q))
    (h : ∀ i ∈ is, Replays n i) :
    Along (step (walking Unit) (pollContractEvents samplePlatform sampleConfig)) (Replies V)
      (opening samplePlatform sampleConfig) is := by
  refine along_of_forall (fun i hi p => ?_) _
  obtain rfl | rfl | ⟨fromLedger, rfl⟩ := h i hi
  · trivial
  · exact fun q _ _ => hV q
  · trivial

theorem two_le_ledger {contractId : String} {o : Occurrence Unit}
    (h : o ∈ history namelessHistory contractId) : 2 ≤ o.event.ledgerNumber := by
  have hevent : o.event ∈ namelessHistory contractId :=
    map_history namelessHistory contractId ▸ List.mem_map_of_mem h
  unfold namelessHistory at hevent
  split at hevent
  · obtain heq | heq := List.mem_pair.mp hevent <;> rw [heq] <;> decide
  · cases hevent

theorem valid_nameless (q : Request) : Faithful namelessHistory q (namelessServer n q) ∧
    Uncut namelessHistory q (namelessServer n q) := by
  cases q with
  | getLatestLedger => exact ⟨trivial, trivial⟩
  | getEvents startLedger contractId limit =>
    rw [namelessServer]
    split
    next h =>
      refine ⟨⟨List.prefix_refl _, ?_⟩, by simp [Uncut]⟩
      refine (List.length_filter_le _ _).trans ?_
      unfold namelessHistory
      split <;> simp [h.1]
    · exact ⟨⟨List.nil_prefix, Nat.zero_le _⟩, by simp [Uncut]⟩

theorem placed_nameless (q : Request) :
    Placed namelessHistory Occurrence.number q (namelessServer 2 q) := by
  cases q with
  | getLatestLedger => trivial
  | getEvents startLedger contractId limit =>
    rw [namelessServer]
    split
    next h =>
      intro index o ho _
      have hall : ahead namelessHistory contractId startLedger =
          history namelessHistory contractId :=
        List.filter_eq_self.mpr fun a ha => decide_eq_true (h.2.trans (two_le_ledger ha))
      rw [hall, List.getElem?_take, history, List.getElem?_mapIdx] at ho
      split at ho
      · obtain ⟨e, -, rfl⟩ := Option.map_eq_some_iff.mp ho
        rfl
      · cases ho
    · simp [Placed]

theorem ingests_nameless (h : ∀ i ∈ is, Replays n i) :
    Ingests samplePlatform sampleConfig namelessHistory is where
  faithful := along_replies_sample (fun q => (valid_nameless q).1) h
  others := by
    refine along_of_forall (fun i hi p => ?_) _
    obtain rfl | rfl | ⟨fromLedger, rfl⟩ := h i hi <;> trivial

theorem mem_nameless {o : Occurrence Unit} (h : Happens sampleConfig namelessHistory o) :
    o ∈ [(⟨"c", namelessEvent 2, 0⟩ : Occurrence Unit), ⟨"c", namelessEvent 3, 1⟩] := by
  obtain ⟨contract, hc, ho⟩ := h
  obtain rfl := List.mem_singleton.mp hc
  exact ho

theorem ordered_nameless : Ordered namelessHistory := by
  intro contractId
  unfold namelessHistory
  split
  · exact List.pairwise_pair.mpr (by decide)
  · exact List.Pairwise.nil

theorem distinct_nameless :
    Distinct samplePlatform sampleConfig namelessHistory Occurrence.number := by
  intro o o' ho ho' hid
  have hne : eventId samplePlatform Occurrence.number ⟨"c", namelessEvent 2, 0⟩ ≠
      eventId samplePlatform Occurrence.number ⟨"c", namelessEvent 3, 1⟩ := by decide +kernel
  obtain rfl | rfl := List.mem_pair.mp (mem_nameless ho) <;>
    obtain rfl | rfl := List.mem_pair.mp (mem_nameless ho')
  · rfl
  · exact absurd hid hne
  · exact absurd hid.symm hne
  · rfl

theorem steady_nameless (h : ∀ i ∈ is, Replays 2 i) :
    Steady samplePlatform sampleConfig namelessHistory Occurrence.number is where
  uncut := along_replies_sample (fun q => (valid_nameless q).2) h
  placed := along_replies_sample placed_nameless h
  stops := by
    refine along_of_forall (fun i hi p => ?_) _
    obtain rfl | rfl | ⟨fromLedger, rfl⟩ := h i hi <;> trivial

theorem passed_nameless {s : Walked} (hspan : ⟨"c", 2, 3⟩ ∈ s.spans) {o : Occurrence Unit}
    (h : Happens sampleConfig namelessHistory o) : Passed s o := by
  refine ⟨_, hspan, ?_⟩
  obtain rfl | rfl := List.mem_pair.mp (mem_nameless h)
  · exact ⟨rfl, le_rfl, Nat.le_succ 2⟩
  · exact ⟨rfl, Nat.le_succ 2, le_rfl⟩

end Samples

/-- After a reset to ledger 2 the second event is the first one of its page, and
is stored under another id. -/
theorem event_is_stored_twice : ∃ is js : List (Input Statement (Reply Unit)),
    (Ingests samplePlatform sampleConfig namelessHistory is ∧
      Ingests samplePlatform sampleConfig namelessHistory js) ∧
    (Waits (after samplePlatform sampleConfig is) ∧ Waits (after samplePlatform sampleConfig js)) ∧
    (∀ o, Happens sampleConfig namelessHistory o →
      (Passed (after samplePlatform sampleConfig is).store o ↔
        Passed (after samplePlatform sampleConfig js).store o)) ∧
    ¬ (∀ x, x ∈ (after samplePlatform sampleConfig is).store.host.events.map content ↔
      x ∈ (after samplePlatform sampleConfig js).store.host.events.map content) ∧
    ¬ StoredOnce samplePlatform sampleConfig namelessHistory
      (after samplePlatform sampleConfig is).store.host.events := by
  refine ⟨pollTwice 3 2, firstPoll 3, ⟨ingests_nameless replays_pollTwice,
    ingests_nameless replays_firstPoll⟩, ⟨?_, ?_⟩, fun o ho => ?_, fun h => ?_, ?_⟩
  · intro c k h
    cases h
  · intro c k h
    cases h
  · exact iff_of_true (passed_nameless (by decide +kernel) ho)
      (passed_nameless (by decide +kernel) ho)
  · have hnew : ∃ x ∈ (after samplePlatform sampleConfig (pollTwice 3 2)).store.host.events.map
        content, x ∉ (after samplePlatform sampleConfig (firstPoll 3)).store.host.events.map
          content := by decide +kernel
    obtain ⟨x, hx, hnot⟩ := hnew
    exact hnot ((h x).mp hx)
  · rintro ⟨os, hnodup, hrows⟩
    have hthree :
        (after samplePlatform sampleConfig (pollTwice 3 2)).store.host.events.length = 3 := by
      decide +kernel
    have hevents : os ⊆ [⟨"c", namelessEvent 2, 0⟩, ⟨"c", namelessEvent 3, 1⟩] := by
      have hall := (List.forall₂_and_left os _).mp (List.Forall₂.flip (hrows.imp
        fun row o h => (⟨happens_of_rowOf h, h⟩ : Happens _ _ o ∧ flip (RowOf _ _ _) o row)))
      exact fun o ho => mem_nameless (hall.1 o ho)
    have hle := (List.subperm_of_subset hnodup hevents).length_le
    rw [← hrows.length_eq, hthree] at hle
    exact absurd hle (by decide)

theorem rows_agree_of_steady_sample :
    (∀ x, x ∈ (after samplePlatform sampleConfig (pollTwice 2 1)).store.host.events.map content ↔
      x ∈ (after samplePlatform sampleConfig (firstPoll 2)).store.host.events.map content) ∧
      StoredOnce samplePlatform sampleConfig namelessHistory
        (after samplePlatform sampleConfig (pollTwice 2 1)).store.host.events := by
  have hfirst := replays_firstPoll (n := 2)
  have htwice : ∀ i ∈ pollTwice 2 1, Replays 2 i := replays_pollTwice
  refine rows_agree_of_steady ordered_nameless distinct_nameless (ingests_nameless htwice)
    (ingests_nameless hfirst) (steady_nameless htwice) (steady_nameless hfirst) ?_ ?_
    fun o ho => ?_
  · intro c k h
    cases h
  · intro c k h
    cases h
  · exact iff_of_true (passed_nameless (by decide +kernel) ho)
      (passed_nameless (by decide +kernel) ho)

end Suban.Indexer.Replay
