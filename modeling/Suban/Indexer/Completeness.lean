import Suban.Indexer.Events

namespace Suban.Indexer.Completeness

open Suban.Basis.Numbers Suban.Basis.Rows Suban.Basis.Runs Suban.Basis.Routines
open Suban.Basis.Tables
open Suban.Indexer.Database Suban.Indexer.Events Suban.Indexer.Values

variable {X : Type} {P : Platform X} {config : IndexerConfig}
variable {H : String → List (SorobanEvent X)}

/-- The indexer's tables, with the first checkpoint of every stream. -/
structure Tracked where
  host : Host
  first : Table String Nat

def noteFirst (c : Statement) (first : Table String Nat) : Table String Nat :=
  match c with
  | .setCheckpoint stream lastLedger _ =>
    if (first.lookup stream).isSome then first else first.insert stream lastLedger
  | _ => first

def tracking (X : Type) : Store Answer (Reply X) Tracked where
  exec c s := ((exec c s.host).1, ⟨(exec c s.host).2, noteFirst c s.first⟩)
  hear _ _ s := s

def since (events : List (SorobanEvent X)) (startLedger : Nat) : List (SorobanEvent X) :=
  events.filter (fun e => startLedger ≤ e.ledgerNumber)

/-- The server gives the events of a contract from a ledger on, in their order,
and no more than the limit at once. -/
def Faithful (H : String → List (SorobanEvent X)) : (q : Request) → Reply X q → Prop
  | .getLatestLedger, _ => True
  | .getEvents startLedger contractId limit, response =>
    response.events <+: since (H contractId) startLedger ∧ response.events.length ≤ limit

/-- A page does not end in the middle of a ledger. -/
def Uncut (H : String → List (SorobanEvent X)) : (q : Request) → Reply X q → Prop
  | .getLatestLedger, _ => True
  | .getEvents startLedger contractId _, response =>
    ∀ last, response.events.getLast? = some last →
      ∀ e ∈ (since (H contractId) startLedger).drop response.events.length,
        e.ledgerNumber ≠ last.ledgerNumber

/-- The events of a contract happen in the order of their ledgers. -/
def Ordered (H : String → List (SorobanEvent X)) : Prop :=
  ∀ contractId, (H contractId).Pairwise (fun a b => a.ledgerNumber ≤ b.ledgerNumber)

def Indexed (P : Platform X) (host : Host) (contractId : String) (e : SorobanEvent X) : Prop :=
  ∃ index, HasKey EventRow.eventId host.events (deterministicEventId P contractId e index)

/-- Every event up to the checkpoint of its stream is stored, from the first
checkpoint on, and only events are stored. -/
structure Complete (P : Platform X) (config : IndexerConfig) (H : String → List (SorobanEvent X))
    (s : Tracked) : Prop where
  indexed : ∀ contractId first, s.first.lookup (stream contractId) = some first →
    ∀ e ∈ H contractId, first < e.ledgerNumber →
      e.ledgerNumber ≤ s.host.getCheckpoint (stream contractId) → Indexed P s.host contractId e
  sourced : ∀ row ∈ s.host.events, ∃ contract ∈ config.contracts, ∃ e ∈ H contract.contractId,
    ∃ index now, row = eventRow P contract e index now

structure Ingested (P : Platform X) (config : IndexerConfig) (H : String → List (SorobanEvent X))
    (s : Tracked) : Prop extends Complete P config H s where
  started : ∀ contractId first, s.first.lookup (stream contractId) = some first →
    1 ≤ s.host.getCheckpoint (stream contractId)

/-- The other parts of the process leave the events and their checkpoints
alone. -/
def Elsewhere : Statement → Prop
  | .insertEvent _ => False
  | .setCheckpoint other _ _ => ∀ contractId, other ≠ stream contractId
  | _ => True

def outline (P : Platform X) (config : IndexerConfig) (H : String → List (SorobanEvent X)) :
    Outline Statement (Reply X) Tracked where
  atRest := Ingested P config H
  before _ := Ingested P config H
  valid q x := Faithful H q x ∧ Uncut H q x
  allowed := Elsewhere

structure Grown (s t : Tracked) : Prop where
  events : s.host.events ⊆ t.host.events
  checkpoint : ∀ contractId,
    t.host.getCheckpoint (stream contractId) = s.host.getCheckpoint (stream contractId)
  first : ∀ contractId, t.first.lookup (stream contractId) = s.first.lookup (stream contractId)

variable {s t u : Tracked}

theorem Grown.refl (s : Tracked) : Grown s s := ⟨List.Subset.refl _, fun _ => rfl, fun _ => rfl⟩

theorem Grown.trans (h : Grown s t) (h' : Grown t u) : Grown s u where
  events := List.Subset.trans h.events h'.events
  checkpoint contractId := (h'.checkpoint contractId).trans (h.checkpoint contractId)
  first contractId := (h'.first contractId).trans (h.first contractId)

theorem Indexed.mono {contractId : String} {e : SorobanEvent X}
    (h : Indexed P s.host contractId e) (hg : Grown s t) : Indexed P t.host contractId e :=
  h.imp fun _ hkey => hkey.mono hg.events

theorem Ingested.grown (hs : Ingested P config H s) (hg : Grown s t)
    (hrows : ∀ row ∈ t.host.events, row ∈ s.host.events ∨ ∃ contract ∈ config.contracts,
      ∃ e ∈ H contract.contractId, ∃ index now, row = eventRow P contract e index now) :
    Ingested P config H t where
  indexed contractId first hfirst e he hlt hle := by
    rw [hg.first] at hfirst
    rw [hg.checkpoint] at hle
    exact (hs.indexed contractId first hfirst e he hlt hle).mono hg
  sourced row hrow := (hrows row hrow).elim (hs.sourced row) id
  started contractId first hfirst := by
    rw [hg.first] at hfirst
    rw [hg.checkpoint]
    exact hs.started contractId first hfirst

theorem grown_elsewhere {c : Statement} (hc : Elsewhere c) (s : Tracked) :
    Grown s ((tracking X).exec c s).2 ∧ ((tracking X).exec c s).2.host.events = s.host.events := by
  cases c with
  | insertEvent => exact hc.elim
  | setCheckpoint other lastLedger cursor =>
    refine ⟨⟨List.Subset.refl _, fun contractId => ?_, fun contractId => ?_⟩, rfl⟩
    · exact (getCheckpoint_setCheckpoint _ _ _ _ _).trans (if_neg (hc contractId).symm)
    · simp only [tracking, noteFirst]
      split
      · rfl
      · exact AList.lookup_insert_ne (hc contractId).symm
  | _ => exact ⟨⟨List.Subset.refl _, fun _ => rfl, fun _ => rfl⟩, rfl⟩

theorem ingested_elsewhere {c : Statement} (hc : Elsewhere c) (hs : Ingested P config H s) :
    Ingested P config H ((tracking X).exec c s).2 := by
  obtain ⟨hg, hrows⟩ := grown_elsewhere (X := X) hc s
  exact hs.grown hg fun row hrow => .inl (hrows ▸ hrow)

theorem frame : Frame (tracking X) (outline P config H) Grown where
  refl := Grown.refl
  trans := Grown.trans
  rest _ _ := id
  others _ s hc hs := ⟨ingested_elsewhere hc hs, (grown_elsewhere hc s).1⟩

theorem keeps_elsewhere {c : Statement} (hc : Elsewhere c) :
    Keeps (tracking X) (outline P config H) Grown (query c) := frame.perform hc

theorem keeps_enqueueInserted (inserted : Nat) (row : EventRow) (data : Value X) :
    Keeps (tracking X) (outline P config H) Grown (enqueueInserted P inserted row data) := by
  unfold enqueueInserted enqueue
  split
  · refine frame.bind (keeps_elsewhere (c := .now) trivial) fun now => ?_
    refine frame.bind (keeps_elsewhere (c := .activeSubscriptions) trivial) fun subscriptions => ?_
    split
    · exact frame.done ()
    · exact keeps_elsewhere (c := .insertDeliveries _ _ _ _) trivial
  · exact frame.done ()

section Rules

variable {β : Type} {post : β → Tracked → Prop}

theorem safe_insertEvent {contract : ContractConfig} (hc : contract ∈ config.contracts)
    {e : SorobanEvent X} (he : e ∈ H contract.contractId) (index now : Nat)
    {f : Nat → EventRoutine X β} (hs : Ingested P config H s)
    (h : ∀ a t, Ingested P config H t → Grown s t → Indexed P t.host contract.contractId e →
      Safe (tracking X) (outline P config H) post (f a) t) :
    Safe (tracking X) (outline P config H) post
      (query (.insertEvent (eventRow P contract e index now)) >>= f) s := by
  have hg : Grown s ((tracking X).exec (.insertEvent (eventRow P contract e index now)) s).2 :=
    ⟨subset_insertOrIgnore, fun _ => rfl, fun _ => rfl⟩
  refine safe_perform hs (h _ _ (hs.grown hg fun row hrow => ?_) hg ⟨index, ?_⟩)
  · refine (of_mem_insertOrIgnore hrow).imp_right ?_
    rintro rfl
    exact ⟨contract, hc, e, he, index, now, rfl⟩
  · exact hasKey_insertOrIgnore (a := eventRow P contract e index now)

/-- The highest ledger of a page, or the one that it starts after. -/
def highest (events : List (SorobanEvent X)) (src : Nat) : Nat :=
  events.foldl (fun m e => max m e.ledgerNumber) src

theorem safe_storeEvents {contract : ContractConfig} (hc : contract ∈ config.contracts)
    {post : Nat → Tracked → Prop} (events : List (SorobanEvent X))
    (hevents : ∀ e ∈ events, e ∈ H contract.contractId) (index src : Nat)
    (hs : Ingested P config H s)
    (h : ∀ t, Ingested P config H t → Grown s t →
      (∀ e ∈ events, Indexed P t.host contract.contractId e) → post (highest events src) t) :
    Safe (tracking X) (outline P config H) post (storeEvents P contract events index src) s := by
  induction events generalizing index src s with
  | nil => exact h s hs (.refl s) (by simp)
  | cons e events ih =>
    obtain ⟨he, hrest⟩ := List.forall_mem_cons.mp hevents
    refine (keeps_elsewhere (c := .now) trivial).safe_bind hs fun now t ht hst => ?_
    refine safe_insertEvent hc he index now ht fun inserted u hu htu hindexed => ?_
    refine (keeps_enqueueInserted _ _ _).safe_bind hu fun _ v hv huv => ?_
    refine ih hrest (index + 1) (max src e.ledgerNumber) hv fun w hw hvw hall => ?_
    refine h w hw (((hst.trans htu).trans huv).trans hvw) (List.forall_mem_cons.mpr ⟨?_, hall⟩)
    exact hindexed.mono (huv.trans hvw)

end Rules

theorem stream_inj {a b : String} (h : stream a = stream b) : a = b := by
  have htext := congrArg String.toList h
  simp only [stream, String.toList_append, List.append_cancel_left_eq] at htext
  exact String.toList_inj.mp htext

theorem highest_le {events : List (SorobanEvent X)} {src n : Nat} (hsrc : src ≤ n)
    (h : ∀ e ∈ events, e.ledgerNumber ≤ n) : highest events src ≤ n := by
  induction events generalizing src with
  | nil => exact hsrc
  | cons e events ih =>
    obtain ⟨he, hrest⟩ := List.forall_mem_cons.mp h
    exact ih (max_le hsrc he) hrest

theorem le_highest (events : List (SorobanEvent X)) (src : Nat) : src ≤ highest events src := by
  induction events generalizing src with
  | nil => exact le_rfl
  | cons e events ih => exact (le_max_left src e.ledgerNumber).trans (ih _)

theorem le_highest_of_mem {events : List (SorobanEvent X)} {e : SorobanEvent X} (he : e ∈ events)
    (src : Nat) : e.ledgerNumber ≤ highest events src := by
  induction events generalizing src with
  | nil => cases he
  | cons a events ih =>
    obtain rfl | he := List.mem_cons.mp he
    · exact (le_max_right src e.ledgerNumber).trans (le_highest _ _)
    · exact ih he _

/-- What comes after a page that is not cut is past the highest ledger of the
page. -/
theorem highest_lt {contractId : String} {src limit : Nat} {response : EventsResponse X}
    {e : SorobanEvent X} (hH : Ordered H)
    (hfaithful : Faithful H (.getEvents (src + 1) contractId limit) response)
    (huncut : Uncut H (.getEvents (src + 1) contractId limit) response)
    (hne : response.events ≠ [])
    (he : e ∈ (since (H contractId) (src + 1)).drop response.events.length) :
    highest response.events src < e.ledgerNumber := by
  obtain ⟨rest, hrest⟩ := hfaithful.1
  have hsorted : (response.events ++ rest).Pairwise
      (fun a b => a.ledgerNumber ≤ b.ledgerNumber) := by
    rw [hrest]
    exact (hH contractId).filter _
  obtain ⟨hpage, -, hacross⟩ := List.pairwise_append.mp hsorted
  have hmem_last := List.getLast_mem hne
  have hmax : highest response.events src ≤ (response.events.getLast hne).ledgerNumber := by
    refine highest_le ?_ fun a ha => hpage.rel_getLast_of_rel_getLast_getLast ha le_rfl
    have hstart : response.events.getLast hne ∈ since (H contractId) (src + 1) :=
      hrest ▸ List.mem_append_left rest hmem_last
    exact (Nat.le_succ src).trans (of_decide_eq_true (List.mem_filter.mp hstart).2)
  have hlate : e ∈ rest := by
    rw [← hrest, List.drop_left] at he
    exact he
  -- an event after the page in its highest ledger would be of the page's last ledger
  exact hmax.trans_lt ((hacross _ hmem_last e hlate).lt_of_ne
    (huncut _ (List.getLast?_eq_some_getLast hne) e he).symm)

theorem mem_page {contractId : String} {src limit : Nat} {response : EventsResponse X}
    {e : SorobanEvent X} (hH : Ordered H)
    (hfaithful : Faithful H (.getEvents (src + 1) contractId limit) response)
    (huncut : Uncut H (.getEvents (src + 1) contractId limit) response)
    (hne : response.events ≠ []) (he : e ∈ H contractId) (hlt : src < e.ledgerNumber)
    (hle : e.ledgerNumber ≤ highest response.events src) : e ∈ response.events := by
  have hmem : e ∈ since (H contractId) (src + 1) :=
    List.mem_filter.mpr ⟨he, decide_eq_true hlt⟩
  rw [← List.take_append_drop response.events.length (since (H contractId) (src + 1)),
    ← List.prefix_iff_eq_take.mp hfaithful.1] at hmem
  exact (List.mem_append.mp hmem).resolve_right fun hlate =>
    (highest_lt hH hfaithful huncut hne hlate).not_ge hle

/-- The checkpoint moves over ledgers whose events are all stored. -/
theorem ingested_setCheckpoint {contractId : String} {src dst : Nat}
    (hs : Ingested P config H s) (hsrc : s.host.getCheckpoint (stream contractId) = src)
    (hpos : 1 ≤ dst)
    (hall : ∀ first, s.first.lookup (stream contractId) = some first →
      ∀ e ∈ H contractId, src < e.ledgerNumber → e.ledgerNumber ≤ dst →
        Indexed P s.host contractId e) :
    Ingested P config H ((tracking X).exec (.setCheckpoint (stream contractId) dst none) s).2 := by
  have hother {other : String} (hne : other ≠ contractId) : stream other ≠ stream contractId :=
    fun h => hne (stream_inj h)
  have hcheckpoint (other : String) :
      ((tracking X).exec (.setCheckpoint (stream contractId) dst none) s).2.host.getCheckpoint
        (stream other) = if other = contractId then dst
          else s.host.getCheckpoint (stream other) := by
    refine (getCheckpoint_setCheckpoint _ _ _ _ _).trans ?_
    by_cases hne : other = contractId
    · rw [if_pos hne, if_pos (congrArg stream hne)]
    · rw [if_neg hne, if_neg (hother hne)]
  have hfirst (other : String) (first : Nat)
      (h : ((tracking X).exec (.setCheckpoint (stream contractId) dst none) s).2.first.lookup
        (stream other) = some first) :
      s.first.lookup (stream other) = some first ∨ other = contractId ∧ first = dst := by
    simp only [tracking, noteFirst] at h
    split at h
    · exact .inl h
    · obtain ⟨heq, rfl⟩ | ⟨-, h⟩ := lookup_insert_eq_some.mp h
      · exact .inr ⟨stream_inj heq, rfl⟩
      · exact .inl h
  refine ⟨⟨?_, hs.sourced⟩, ?_⟩
  · intro other first hlookup e he hlt hle
    rw [hcheckpoint] at hle
    split at hle
    next heq =>
      subst heq
      obtain hold | ⟨-, rfl⟩ := hfirst other first hlookup
      · by_cases hbefore : e.ledgerNumber ≤ src
        · exact hs.indexed other first hold e he hlt (hsrc ▸ hbefore)
        · exact hall first hold e he (not_le.mp hbefore) hle
      · exact absurd hle (not_le.mpr hlt)
    next hne =>
      have hold := (hfirst other first hlookup).resolve_right fun h => hne h.1
      exact hs.indexed other first hold e he hlt hle
  · intro other first hlookup
    rw [hcheckpoint]
    split
    · exact hpos
    next hne =>
      exact hs.started other first ((hfirst other first hlookup).resolve_right fun h => hne h.1)

theorem safe_pollPages (hH : Ordered H) {contract : ContractConfig}
    (hc : contract ∈ config.contracts) (latest pages src : Nat) (hs : Ingested P config H s)
    (hsrc : s.host.getCheckpoint (stream contract.contractId) = src) (hpos : 1 ≤ src) :
    Safe (tracking X) (outline P config H) (fun _ => Ingested P config H)
      (pollPages P contract latest pages src) s := by
  induction pages generalizing src s with
  | zero => exact hs
  | succ pages ih =>
    unfold pollPages
    split
    · refine frame.safe_request hs fun t ht hg response hvalid => ?_
      change Safe _ _ _ _ t
      split
      · exact ht
      next hne =>
        have hne' : response.events ≠ [] := by simpa using hne
        have hpage : ∀ e ∈ response.events, e ∈ H contract.contractId := fun e he =>
          (List.mem_filter.mp (hvalid.1.1.subset he)).1
        refine safe_bind (safe_storeEvents hc response.events hpage 0 src ht
          fun u hu htu hall => ?_)
        have hsrc' : u.host.getCheckpoint (stream contract.contractId) = src :=
          ((htu.checkpoint _).trans (hg.checkpoint _)).trans hsrc
        have hmoved := ingested_setCheckpoint hu hsrc'
          (hpos.trans (le_highest response.events src)) fun _ _ e he hlt hle =>
            hall e (mem_page hH hvalid.1 hvalid.2 hne' he hlt hle)
        refine safe_perform hu ?_
        split
        · exact hmoved
        · refine ih _ hmoved ?_ (hpos.trans (le_highest response.events src))
          exact (getCheckpoint_setCheckpoint _ _ _ _ _).trans (if_pos rfl)
    · exact hs

theorem safe_bootstrap {post : Nat → Tracked → Prop} (contractId : String) (latest n : Nat)
    (hs : Ingested P config H s)
    (h : ∀ checkpoint t, Ingested P config H t →
      t.host.getCheckpoint (stream contractId) = checkpoint → 1 ≤ checkpoint →
        post checkpoint t) :
    Safe (tracking X) (outline P config H) post (bootstrap (stream contractId) latest n) s := by
  unfold bootstrap
  refine safe_perform hs ?_
  change Safe _ _ _ (if s.host.getCheckpoint (stream contractId) = 0 then _ else _) s
  split
  next hzero =>
    have hnone : s.first.lookup (stream contractId) = none := by
      cases hl : s.first.lookup (stream contractId) with
      | none => rfl
      | some first => exact absurd (hs.started _ _ hl) (by simp [hzero])
    have hmoved := ingested_setCheckpoint hs hzero (le_max_left 1 (latest - n))
      fun first hfirst => by simp [hnone] at hfirst
    refine safe_perform hs (h _ _ hmoved ?_ (le_max_left _ _))
    exact (getCheckpoint_setCheckpoint _ _ _ _ _).trans (if_pos rfl)
  next hne => exact h _ s hs rfl (Nat.one_le_iff_ne_zero.mpr hne)

theorem safe_pollContracts (hH : Ordered H) (latest : Nat) {contracts : List ContractConfig}
    (hc : contracts ⊆ config.contracts) (hs : Ingested P config H s) :
    Safe (tracking X) (outline P config H) (fun _ => Ingested P config H)
      (pollContracts P config latest contracts) s := by
  induction contracts generalizing s with
  | nil => exact hs
  | cons contract contracts ih =>
    obtain ⟨hmem, hrest⟩ := List.cons_subset.mp hc
    refine safe_bind (safe_bind (safe_bootstrap _ _ _ hs fun checkpoint t ht hcp hpos => ?_))
    split
    · exact ih hrest ht
    · exact safe_mono (fun _ u hu => ih hrest hu) (safe_pollPages hH hmem latest 20 _ ht hcp hpos)

theorem safe_pollContractEvents (hH : Ordered H) (hs : Ingested P config H s) :
    Safe (tracking X) (outline P config H) (fun _ => Ingested P config H)
      (pollContractEvents P config) s := by
  unfold pollContractEvents
  split
  · exact hs
  · refine frame.safe_request hs fun t ht _ latest _ => ?_
    refine (keeps_observeLedger frame (fun _ => trivial) (fun _ _ => trivial) latest).safe_bind ht
      fun _ u hu _ => ?_
    exact safe_pollContracts hH latest (List.Subset.refl _) hu

def opening (P : Platform X) (config : IndexerConfig) :
    Process Answer (Reply X) Tracked where
  store := ⟨.fresh, ∅⟩
  routine := pollContractEvents P config

theorem ingested_of_empty {host : Host} (h : host.events = []) :
    Ingested P config H ⟨host, ∅⟩ where
  indexed _ _ hfirst := by cases hfirst
  sourced row hrow := by
    dsimp only at hrow
    rw [h] at hrow
    cases hrow
  started _ _ hfirst := by cases hfirst

/-- Whatever the order of polls, errors and restarts, ingestion is complete
when no page ends in the middle of a ledger. -/
theorem complete_of_uncut (hH : Ordered H) (is : List (Input Statement (Reply X)))
    (hfaithful : Along (step (tracking X) (pollContractEvents P config)) (Replies (Faithful H))
      (opening P config) is)
    (hkeep : Along (step (tracking X) (pollContractEvents P config)) (OthersKeep Elsewhere)
      (opening P config) is)
    (huncut : Along (step (tracking X) (pollContractEvents P config)) (Replies (Uncut H))
      (opening P config) is) :
    Throughout (step (tracking X) (pollContractEvents P config))
      (fun p => Complete P config H p.store) (opening P config) is := by
  have hvalid := along_and.mpr ⟨hfaithful, huncut⟩
  simp only [← replies_and] at hvalid
  have hall := throughout_of_outline (L := outline P config H)
    (fun s hs => safe_pollContractEvents hH hs) (fun _ _ => Iff.rfl)
    (fun c s hc hs => ingested_elsewhere hc hs) (ingested_of_empty rfl) hvalid hkeep
  exact throughout_mono (fun _ hp => hp.toComplete) hall

def polled (P : Platform X) (config : IndexerConfig) (server : ∀ q, Reply X q) : Tracked :=
  (finish (tracking X) server (pollContractEvents P config) (opening P config).store).2

theorem ingested_polled {server : ∀ q, Reply X q} (hH : Ordered H)
    (hvalid : ∀ q, (outline P config H).valid q (server q)) :
    Ingested P config H (polled P config server) :=
  finish_of_safe (tracking X) server hvalid (safe_pollContractEvents hH (ingested_of_empty rfl))

theorem exists_run_polled (P : Platform X) (config : IndexerConfig) (server : ∀ q, Reply X q) :
    ∃ is : List (Input Statement (Reply X)), (∀ i ∈ is, Alone server i) ∧
      run (step (tracking X) (pollContractEvents P config)) (opening P config) is =
        ⟨polled P config server, .done ()⟩ :=
  exists_run_finish (tracking X) (pollContractEvents P config) server _ _

def samplePlatform : Platform Unit where
  scValToNative _ := .null
  nativeOfXdr _ := none
  ownFields _ := []
  toJson _ := "null"
  sha256 text := text
  dateParse _ := none

def sampleContract : ContractConfig := ⟨"pool", "c"⟩

def sampleConfig : IndexerConfig := ⟨[sampleContract], 4, 0, 25⟩

def sampleEvent (n : Nat) : SorobanEvent Unit :=
  ⟨some (toString n), some 5, none, none, none, none, none, none⟩

def sampleHistory (n : Nat) (contractId : String) : List (SorobanEvent Unit) :=
  if contractId = "c" then (List.range n).map sampleEvent else []

/-- A server that has got to ledger 5, and answers requests for two hundred
events. -/
def sampleServer (n : Nat) : (q : Request) → Reply Unit q
  | .getLatestLedger => (5 : Nat)
  | .getEvents startLedger contractId limit =>
    if limit = 200 then ⟨(since (sampleHistory n contractId) startLedger).take 200, none⟩
    else ⟨[], none⟩

theorem since_sample (n startLedger : Nat) (contractId : String) :
    since (sampleHistory n contractId) startLedger =
      if contractId = "c" ∧ startLedger ≤ 5 then (List.range n).map sampleEvent else [] := by
  unfold since sampleHistory
  by_cases hc : contractId = "c" <;> by_cases hs : startLedger ≤ 5 <;>
    simp [hc, hs, sampleEvent, SorobanEvent.ledgerNumber]

theorem mem_sampleHistory {n : Nat} {contractId : String} {e : SorobanEvent Unit} :
    e ∈ sampleHistory n contractId ↔ contractId = "c" ∧ ∃ i < n, sampleEvent i = e := by
  unfold sampleHistory
  by_cases hc : contractId = "c" <;> simp [hc]

theorem page_sample {n m : Nat} (hm : m = min 200 n) (startLedger : Nat) (contractId : String) :
    (since (sampleHistory n contractId) startLedger).take 200 =
      since (sampleHistory m contractId) startLedger := by
  rw [since_sample, since_sample]
  split
  · rw [← List.map_take, List.take_range, hm]
  · rfl

theorem ordered_sample (n : Nat) : Ordered (sampleHistory n) := by
  intro contractId
  unfold sampleHistory
  split
  · exact List.pairwise_map.mpr (List.pairwise_of_forall fun _ _ => le_rfl)
  · exact List.Pairwise.nil

theorem faithful_sample (n : Nat) (q : Request) :
    Faithful (sampleHistory n) q (sampleServer n q) := by
  cases q with
  | getLatestLedger => trivial
  | getEvents startLedger contractId limit =>
    by_cases hlimit : limit = 200
    · subst hlimit
      exact ⟨List.take_prefix _ _, List.length_take_le _ _⟩
    · rw [sampleServer, if_neg hlimit]
      exact ⟨List.nil_prefix, Nat.zero_le _⟩

theorem valid_page_sample {n m : Nat} (hm : m = min 200 n) (q : Request) :
    Faithful (sampleHistory m) q (sampleServer n q) ∧
      Uncut (sampleHistory m) q (sampleServer n q) := by
  cases q with
  | getLatestLedger => exact ⟨trivial, trivial⟩
  | getEvents startLedger contractId limit =>
    by_cases hlimit : limit = 200
    · subst hlimit
      rw [sampleServer, if_pos rfl, page_sample hm]
      refine ⟨⟨List.prefix_refl _, ?_⟩, ?_⟩
      · rw [← page_sample hm]
        exact List.length_take_le _ _
      · simp [Uncut]
    · rw [sampleServer, if_neg hlimit]
      exact ⟨⟨List.nil_prefix, Nat.zero_le _⟩, by simp [Uncut]⟩

theorem complete_of_uncut_sample :
    Throughout (step (tracking Unit) (pollContractEvents samplePlatform sampleConfig))
      (fun p => Complete samplePlatform sampleConfig (sampleHistory 1) p.store)
      (opening samplePlatform sampleConfig)
      [.reply (sampleServer 1), .tick, .tick, .restart, .reply (sampleServer 1), .tick] := by
  have halone : ∀ i ∈ [.reply (sampleServer 1), .tick, .tick, .restart, .reply (sampleServer 1),
      .tick], Alone (S := Statement) (sampleServer 1) i := by simp [Alone]
  exact complete_of_uncut (ordered_sample 1) _ (Alone.replies (faithful_sample 1) halone)
    (Alone.othersKeep halone) (Alone.replies (fun q => (valid_page_sample (by decide) q).2) halone)

def sampleStart : Tracked where
  host := { Host.fresh with
    indexerMeta := AList.insert "latest_observed_ledger" (toString 5) ∅
    checkpoints := AList.insert (stream "c") ⟨none, 1⟩ ∅ }
  first := AList.insert (stream "c") 1 ∅

theorem ingested_sampleStart {H : String → List (SorobanEvent Unit)} :
    Ingested samplePlatform sampleConfig H sampleStart := by
  have hempty : Ingested samplePlatform sampleConfig H
      ⟨{ Host.fresh with
        indexerMeta := AList.insert "latest_observed_ledger" (toString 5) ∅ }, ∅⟩ :=
    ingested_of_empty rfl
  exact @ingested_setCheckpoint Unit _ _ _ _ "c" 0 1 hempty rfl le_rfl fun _ h => by cases h

theorem polled_sample {server : ∀ q, Reply Unit q} (hlatest : server .getLatestLedger = (5 : Nat)) :
    polled samplePlatform sampleConfig server =
      (finish (tracking Unit) server (pollPages samplePlatform sampleContract 5 20 1)
        sampleStart).2 := by
  have hask : finish (tracking Unit) server (ask .getLatestLedger)
      (opening samplePlatform sampleConfig).store =
      ((5 : Nat), (opening samplePlatform sampleConfig).store) := Prod.ext hlatest rfl
  have hbootstrap : finish (tracking Unit) server
      (bootstrap (stream sampleContract.contractId) 5 sampleConfig.eventBootstrapLedgers)
      (finish (tracking Unit) server (observeLedger 5)
        (opening samplePlatform sampleConfig).store).2 = (1, sampleStart) := rfl
  unfold polled pollContractEvents
  rw [if_neg (by decide), finish_bind, hask, finish_bind]
  change (finish (tracking Unit) server
    (pollContract samplePlatform sampleConfig 5 sampleContract >>= _) _).2 = _
  rw [finish_bind]
  unfold pollContract
  rw [finish_bind, hbootstrap, if_neg (by decide)]
  rfl

theorem checkpoint_sample {H : String → List (SorobanEvent Unit)} {server : ∀ q, Reply Unit q}
    {page : List (SorobanEvent Unit)}
    (hvalid : ∀ q, (outline samplePlatform sampleConfig H).valid q (server q))
    (hlatest : server .getLatestLedger = (5 : Nat))
    (hreply : server (.getEvents 2 "c" 200) = ⟨page, none⟩) (hsource : ∀ e ∈ page, e ∈ H "c")
    (hhighest : highest page 1 = 5) :
    (polled samplePlatform sampleConfig server).host.getCheckpoint (stream "c") = 5 ∧
      (polled samplePlatform sampleConfig server).first.lookup (stream "c") = some 1 := by
  have hask : finish (tracking Unit) server
      (ask (.getEvents (1 + 1) sampleContract.contractId 200)) sampleStart =
      (⟨page, none⟩, sampleStart) := Prod.ext hreply rfl
  have hnonempty : ¬ page.isEmpty = true := by
    rintro hempty
    rw [List.isEmpty_iff.mp hempty] at hhighest
    cases hhighest
  have hsafe : Safe (tracking Unit) (outline samplePlatform sampleConfig H)
      (fun m t => m = 5 ∧ Grown sampleStart t)
      (storeEvents samplePlatform sampleContract page 0 1) sampleStart :=
    safe_storeEvents (List.mem_singleton_self sampleContract) page hsource 0 1
      ingested_sampleStart fun t _ hgrown _ => ⟨hhighest, hgrown⟩
  obtain ⟨hmax, hgrown⟩ := finish_of_safe (tracking Unit) server hvalid hsafe
  have hrest : pollPages samplePlatform sampleContract 5 19 5 = pure () := by
    unfold pollPages
    exact if_neg (lt_irrefl 5)
  rw [polled_sample hlatest]
  unfold pollPages
  rw [if_pos (by decide), finish_bind, hask, if_neg hnonempty, finish_bind]
  generalize finish (tracking Unit) server
    (storeEvents samplePlatform sampleContract page 0 1) sampleStart = stored at *
  obtain ⟨m, t⟩ := stored
  have hm : m = 5 := hmax
  have hfirst : t.first.lookup (stream "c") = some 1 := hgrown.first "c"
  subst hm
  rw [hrest, ite_self]
  refine ⟨(getCheckpoint_setCheckpoint t.host _ _ _ _).trans (if_pos rfl), ?_⟩
  change (noteFirst (.setCheckpoint (stream "c") 5 none) t.first).lookup (stream "c") = some 1
  rw [noteFirst, if_pos (Option.isSome_of_eq_some hfirst), hfirst]

theorem eventId_sample (n index : Nat) :
    deterministicEventId samplePlatform "c" (sampleEvent n) index = "c" ++ ":" ++ toString n := by
  have hne : toString n ≠ "" := by
    intro h
    have hdigits : (toString n).toList = Nat.toDigits 10 n := by simp
    rw [h] at hdigits
    exact Nat.toDigits_ne_nil hdigits.symm
  have hid : truthy (sampleEvent n).id = some (toString n) :=
    Option.filter_some_pos (decide_eq_true hne)
  rw [deterministicEventId, hid]

def samplePage : List (SorobanEvent Unit) := (List.range 200).map sampleEvent

theorem checkpoint_samplePage :
    (polled samplePlatform sampleConfig (sampleServer 201)).host.getCheckpoint (stream "c") = 5 ∧
      (polled samplePlatform sampleConfig (sampleServer 201)).first.lookup (stream "c") =
        some 1 := by
  have hpage : sampleHistory 200 "c" = samplePage := if_pos rfl
  have hreply : sampleServer 201 (.getEvents 2 "c" 200) = ⟨samplePage, none⟩ := by
    have hprefix := page_sample (n := 201) (m := 200) (by decide) 2 "c"
    rw [since_sample 200, if_pos (by decide)] at hprefix
    rw [sampleServer, if_pos rfl, hprefix, samplePage]
  exact checkpoint_sample (fun q => valid_page_sample (by decide) q) rfl hreply
    (fun e he => hpage ▸ he) (by decide +kernel)

/-- Of 201 events in a ledger the last one is not asked for again. -/
theorem event_is_skipped : ∃ is : List (Input Statement (Reply Unit)),
    Along (step (tracking Unit) (pollContractEvents samplePlatform sampleConfig))
      (Replies (Faithful (sampleHistory 201))) (opening samplePlatform sampleConfig) is ∧
    Along (step (tracking Unit) (pollContractEvents samplePlatform sampleConfig))
      (OthersKeep Elsewhere) (opening samplePlatform sampleConfig) is ∧
    ¬ Throughout (step (tracking Unit) (pollContractEvents samplePlatform sampleConfig))
      (fun p => Complete samplePlatform sampleConfig (sampleHistory 201) p.store)
      (opening samplePlatform sampleConfig) is := by
  obtain ⟨is, halone, hrun⟩ := exists_run_polled samplePlatform sampleConfig (sampleServer 201)
  refine ⟨is, Alone.replies (faithful_sample 201) halone, Alone.othersKeep halone, fun h => ?_⟩
  have hend := throughout_run h
  rw [hrun] at hend
  obtain ⟨hcheckpoint, hfirst⟩ := checkpoint_samplePage
  -- every row comes from the page, as if there were no other events
  have hsourced := (ingested_polled (ordered_sample 200)
    fun q => valid_page_sample (by decide) q : Ingested samplePlatform sampleConfig
      (sampleHistory 200) (polled samplePlatform sampleConfig (sampleServer 201))).sourced
  generalize polled samplePlatform sampleConfig (sampleServer 201) = s at *
  have hlate : sampleEvent 200 ∈ sampleHistory 201 "c" :=
    mem_sampleHistory.mpr ⟨rfl, 200, by decide, rfl⟩
  obtain ⟨index, row, hrow, hid⟩ := hend.indexed "c" 1 hfirst _ hlate (by decide)
    hcheckpoint.ge
  obtain ⟨contract, hc, e, he, index', now, rfl⟩ := hsourced row hrow
  obtain ⟨-, n, hn, rfl⟩ := mem_sampleHistory.mp he
  cases List.mem_singleton.mp hc
  have hids : "c" ++ ":" ++ toString n = "c" ++ ":" ++ toString 200 :=
    (eventId_sample n index').symm.trans (hid.trans (eventId_sample 200 index))
  have htexts := congrArg String.toList hids
  simp only [String.toList_append, List.append_cancel_left_eq] at htexts
  have hdigits : Nat.toDigits 10 n = Nat.toDigits 10 200 := by simpa using htexts
  exact absurd (toDigits_inj hdigits) hn.ne

end Suban.Indexer.Completeness
