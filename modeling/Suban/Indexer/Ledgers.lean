import Suban.Indexer.Horizon

namespace Suban.Indexer.Ledgers

open Suban.Basis.Rows Suban.Basis.Runs Suban.Basis.Routines
open Suban.Indexer.Database Suban.Indexer.Horizon
open Suban.Indexer.Events (IndexerConfig bootstrap keeps_observeLedger)

variable {toISOString : Nat → String} {config : IndexerConfig}

/-- The first checkpoint, what Horizon has listed last, and the ledgers that the
checkpoint has moved over without their being listed. -/
structure Notes where
  first : Option Nat
  listing : List HorizonLedger
  transactions : Nat → List HorizonTransaction
  operations : Nat → List HorizonOperation
  unlisted : List Nat

structure Followed extends Notes where
  host : Host

def Followed.checkpoint (s : Followed) : Nat := s.host.getCheckpoint "horizon"

def unlistedIn (listing : List HorizonLedger) (src dst : Nat) : List Nat :=
  (List.range (dst + 1)).filter fun n => src < n ∧ ∀ ledger ∈ listing, ledger.sequence ≠ n

def note (c : Statement) (s : Followed) : Notes :=
  match c with
  | .setCheckpoint stream dst _ =>
    if stream = "horizon" then
      match s.first with
      | none => { s.toNotes with first := some dst }
      | some _ =>
        { s.toNotes with unlisted := s.unlisted ++ unlistedIn s.listing s.checkpoint dst }
    else s.toNotes
  | _ => s.toNotes

def hear (s : Followed) : (q : Request) → Reply q → Followed
  | .latestLedger, _ => s
  | .pages (.ledgersFrom sequence limit), request =>
    { s with listing := collect (.ledgersFrom sequence limit) request }
  | .pages (.transactionsForLedger n), request =>
    let transactions := collect (.transactionsForLedger n) request
    { s with transactions := Function.update s.transactions n transactions }
  | .pages (.operationsForLedger n), request =>
    let operations := collect (.operationsForLedger n) request
    { s with operations := Function.update s.operations n operations }

def following : Store Answer Reply Followed where
  exec c s := ((exec c s.host).1, ⟨note c s, (exec c s.host).2⟩)
  hear q x s := hear s q x

/-- The ledger has a row, together with all the transactions listed for it, and
with the operations of these that are listed for it. -/
structure Recorded (s : Followed) (n : Nat) : Prop where
  ledger : HasKey LedgerRow.sequence s.host.ledgers n
  transactions : ∀ t ∈ s.transactions n, HasKey TransactionRow.hash s.host.transactions t.hash
  operations : ∀ t ∈ s.transactions n, ∀ o ∈ s.operations n, o.transactionHash = t.hash →
    HasKey OperationRow.id s.host.operations o.id

/-- Every ledger up to the checkpoint is recorded, from the first checkpoint on,
if it was listed when the checkpoint moved over it. -/
def Sound (s : Followed) : Prop :=
  ∀ first, s.first = some first → ∀ n, first < n → n ≤ s.checkpoint → n ∉ s.unlisted →
    Recorded s n

structure Advanced (s : Followed) : Prop where
  sound : Sound s
  started : ∀ first, s.first = some first → 1 ≤ s.checkpoint

/-- Ledgers are listed in their order. -/
def Ascending : (q : Request) → Reply q → Prop
  | .pages (.ledgersFrom sequence limit), request =>
    (collect (.ledgersFrom sequence limit) request).Pairwise (·.sequence < ·.sequence)
  | _, _ => True

/-- The other parts of the process leave the checkpoint alone. -/
def Elsewhere : Statement → Prop
  | .setCheckpoint stream _ _ => stream ≠ "horizon"
  | _ => True

def outline : Outline Statement Reply Followed where
  atRest := Advanced
  before _ := Advanced
  valid := Ascending
  allowed := Elsewhere

/-- Rows are only added, and nothing else is noted. -/
structure Grown (s t : Followed) : Prop where
  ledgers : s.host.ledgers ⊆ t.host.ledgers
  transactions : s.host.transactions ⊆ t.host.transactions
  operations : s.host.operations ⊆ t.host.operations
  checkpoint : t.checkpoint = s.checkpoint
  notes : t.toNotes = s.toNotes

variable {s t u : Followed}

theorem Grown.refl (s : Followed) : Grown s s :=
  ⟨List.Subset.refl _, List.Subset.refl _, List.Subset.refl _, rfl, rfl⟩

theorem Grown.trans (h : Grown s t) (h' : Grown t u) : Grown s u where
  ledgers := List.Subset.trans h.ledgers h'.ledgers
  transactions := List.Subset.trans h.transactions h'.transactions
  operations := List.Subset.trans h.operations h'.operations
  checkpoint := h'.checkpoint.trans h.checkpoint
  notes := h'.notes.trans h.notes

theorem Recorded.grown {n : Nat} (hn : Recorded s n) (h : Grown s t) : Recorded t n where
  ledger := hn.ledger.mono h.ledgers
  transactions tx htx := by
    rw [h.notes] at htx
    exact (hn.transactions tx htx).mono h.transactions
  operations tx htx o ho hhash := by
    rw [h.notes] at htx ho
    exact (hn.operations tx htx o ho hhash).mono h.operations

theorem Advanced.grown (hs : Advanced s) (h : Grown s t) : Advanced t where
  sound first hfirst n hlt hle hn := by
    rw [h.notes] at hfirst hn
    rw [h.checkpoint] at hle
    exact (hs.sound first hfirst n hlt hle hn).grown h
  started first hfirst := by
    rw [h.notes] at hfirst
    rw [h.checkpoint]
    exact hs.started first hfirst

theorem grown_elsewhere {c : Statement} (hc : Elsewhere c) (s : Followed) :
    Grown s (following.exec c s).2 := by
  cases c with
  | setCheckpoint stream dst cursor =>
    refine ⟨List.Subset.refl _, List.Subset.refl _, List.Subset.refl _, ?_, if_neg hc⟩
    exact (getCheckpoint_setCheckpoint _ _ _ _ _).trans (if_neg (Ne.symm hc))
  | writeLedger ledger transactions =>
    exact ⟨subset_insertOrIgnore, subset_insertAll, subset_insertAll, rfl, rfl⟩
  | _ => exact ⟨List.Subset.refl _, List.Subset.refl _, List.Subset.refl _, rfl, rfl⟩

theorem advanced_elsewhere {c : Statement} (hc : Elsewhere c) (hs : Advanced s) :
    Advanced (following.exec c s).2 :=
  hs.grown (grown_elsewhere hc s)

theorem frame : Frame following outline Grown where
  refl := Grown.refl
  trans := Grown.trans
  rest _ _ := id
  others _ s hc hs := ⟨advanced_elsewhere hc hs, grown_elsewhere hc s⟩

theorem keeps_elsewhere {c : Statement} (hc : Elsewhere c) :
    Keeps following outline Grown (query c) := frame.perform hc

theorem keeps_markSuccess : Keeps following outline Grown (markSuccess toISOString) := by
  refine frame.bind (keeps_elsewhere (c := .now) trivial) fun now => ?_
  refine frame.bind (keeps_elsewhere (c := .setMeta _ _) trivial) fun _ => ?_
  refine frame.bind (keeps_elsewhere (c := .now) trivial) fun now => ?_
  exact keeps_elsewhere (c := .setMeta _ _) trivial

theorem safe_collection {β : Type} {post : β → Followed → Prop} {listing : Listing}
    {f : List listing.Record → HorizonRoutine β} (hs : Advanced s)
    (h : ∀ t, Advanced t → Grown s t → ∀ request, Ascending (.pages listing) request →
      Safe following outline post (f (collect listing request)) (hear t (.pages listing) request)) :
    Safe following outline post (collection listing >>= f) s :=
  safe_bind (frame.safe_request hs h)

theorem mem_unlistedIn {listing : List HorizonLedger} {src dst n : Nat} :
    n ∈ unlistedIn listing src dst ↔
      n ≤ dst ∧ src < n ∧ ∀ ledger ∈ listing, ledger.sequence ≠ n := by
  simp only [unlistedIn, List.mem_filter, List.mem_range, Nat.lt_succ_iff, decide_eq_true_eq]

theorem advanced_setCheckpoint {dst : Nat} (hs : Advanced s) (hpos : 1 ≤ dst)
    (hall : ∀ first, s.first = some first → ∀ ledger ∈ s.listing,
      s.checkpoint < ledger.sequence → ledger.sequence ≤ dst → Recorded s ledger.sequence) :
    Advanced (following.exec (.setCheckpoint "horizon" dst none) s).2 := by
  have hcheckpoint : (following.exec (.setCheckpoint "horizon" dst none) s).2.checkpoint = dst :=
    (getCheckpoint_setCheckpoint _ _ _ _ _).trans (if_pos rfl)
  refine ⟨fun first hfirst n hlt hle hn => ?_, fun _ _ => hcheckpoint.symm ▸ hpos⟩
  rw [hcheckpoint] at hle
  cases hold : s.first with
  | none =>
    have hnote : (following.exec (.setCheckpoint "horizon" dst none) s).2.first = some dst := by
      simp [following, note, hold]
    cases hnote.symm.trans hfirst
    exact absurd hle (not_le.mpr hlt)
  | some _ =>
    have hnote : (following.exec (.setCheckpoint "horizon" dst none) s).2.toNotes =
        { s.toNotes with unlisted := s.unlisted ++ unlistedIn s.listing s.checkpoint dst } := by
      simp [following, note, hold]
    rw [hnote] at hfirst hn
    obtain ⟨hunlisted, hlisted⟩ := not_or.mp fun h => hn (List.mem_append.mpr h)
    have hrecorded : Recorded s n := by
      by_cases hbefore : n ≤ s.checkpoint
      · exact hs.sound first hfirst n hlt hbefore hunlisted
      · by_contra hnot
        refine hlisted (mem_unlistedIn.mpr ⟨hle, not_le.mp hbefore, ?_⟩)
        rintro ledger hledger rfl
        exact hnot (hall first hfirst ledger hledger (not_le.mp hbefore) hle)
    refine ⟨hrecorded.ledger, fun tx htx => ?_, fun tx htx o ho => ?_⟩
    · rw [hnote] at htx
      exact hrecorded.transactions tx htx
    · rw [hnote] at htx ho
      exact hrecorded.operations tx htx o ho

theorem advanced_hear {q : Request} {request : Reply q} (hs : Advanced s)
    (hnotes : (hear s q request).first = s.first ∧ (hear s q request).unlisted = s.unlisted)
    (hhost : (hear s q request).host = s.host)
    (hbefore : ∀ n ≤ s.checkpoint, (hear s q request).transactions n = s.transactions n ∧
      (hear s q request).operations n = s.operations n) :
    Advanced (hear s q request) := by
  have hcheckpoint : (hear s q request).checkpoint = s.checkpoint :=
    congrArg (Host.getCheckpoint · "horizon") hhost
  refine ⟨fun first hfirst n hlt hle hn => ?_, fun first hfirst => ?_⟩
  · rw [hnotes.1] at hfirst
    rw [hnotes.2] at hn
    rw [hcheckpoint] at hle
    have hrecorded := hs.sound first hfirst n hlt hle hn
    obtain ⟨htransactions, hoperations⟩ := hbefore n hle
    refine ⟨?_, ?_, ?_⟩ <;> rw [hhost]
    · exact hrecorded.ledger
    · rw [htransactions]
      exact hrecorded.transactions
    · rw [htransactions, hoperations]
      exact hrecorded.operations
  · rw [hcheckpoint]
    exact hs.started first (hnotes.1 ▸ hfirst)

theorem advanced_hear_ledgers {sequence limit : Nat}
    (request : Reply (.pages (.ledgersFrom sequence limit))) (hs : Advanced s) :
    Advanced (hear s (.pages (.ledgersFrom sequence limit)) request) :=
  advanced_hear hs ⟨rfl, rfl⟩ rfl fun _ _ => ⟨rfl, rfl⟩

theorem advanced_hear_transactions {n : Nat} (request : Reply (.pages (.transactionsForLedger n)))
    (hs : Advanced s) (hn : s.checkpoint < n) :
    Advanced (hear s (.pages (.transactionsForLedger n)) request) :=
  advanced_hear hs ⟨rfl, rfl⟩ rfl fun _ hle =>
    ⟨Function.update_of_ne (hle.trans_lt hn).ne _ _, rfl⟩

theorem advanced_hear_operations {n : Nat} (request : Reply (.pages (.operationsForLedger n)))
    (hs : Advanced s) (hn : s.checkpoint < n) :
    Advanced (hear s (.pages (.operationsForLedger n)) request) :=
  advanced_hear hs ⟨rfl, rfl⟩ rfl fun _ hle =>
    ⟨rfl, Function.update_of_ne (hle.trans_lt hn).ne _ _⟩

theorem recorded_writeLedger (ledger : HorizonLedger) :
    Recorded (following.exec (.writeLedger ledger.row
      (transactionRows (s.transactions ledger.sequence) (s.operations ledger.sequence))) s).2
      ledger.sequence where
  ledger := hasKey_insertOrIgnore (a := ledger.row)
  transactions t ht := by
    refine hasKey_insertAll (a := t.row) ?_
    rw [transactionRows, List.map_map]
    exact List.mem_map_of_mem ht
  operations t ht o ho hhash := by
    refine hasKey_insertAll (a := o.row t) (List.mem_flatMap.mpr ⟨_, List.mem_map_of_mem ht, ?_⟩)
    exact List.mem_map_of_mem (List.mem_filter.mpr ⟨ho, decide_eq_true hhash⟩)

/-- The ledgers that are still to be written: all that are listed after the
checkpoint, up to the target. -/
structure Ahead (s : Followed) (target : Nat) (ledgers : List HorizonLedger) : Prop where
  sorted : ledgers.Pairwise (·.sequence < ·.sequence)
  after : ∀ ledger ∈ ledgers, s.checkpoint < ledger.sequence ∧ ledger.sequence ≤ target
  all : ∀ ledger ∈ s.listing, s.checkpoint < ledger.sequence → ledger.sequence ≤ target →
    ledger ∈ ledgers

variable {target : Nat} {ledger : HorizonLedger} {ledgers : List HorizonLedger}

theorem Ahead.keeps (h : Ahead s target ledgers) (hcheckpoint : t.checkpoint = s.checkpoint)
    (hlisting : t.listing = s.listing) : Ahead t target ledgers where
  sorted := h.sorted
  after := hcheckpoint ▸ h.after
  all := by
    rw [hlisting, hcheckpoint]
    exact h.all

theorem Ahead.grown (h : Ahead s target ledgers) (hg : Grown s t) : Ahead t target ledgers :=
  h.keeps hg.checkpoint (congrArg Notes.listing hg.notes)

theorem Ahead.tail (h : Ahead s target (ledger :: ledgers)) (ht : t.checkpoint = ledger.sequence)
    (hlisting : t.listing = s.listing) : Ahead t target ledgers := by
  obtain ⟨hfirst, hsorted⟩ := List.pairwise_cons.mp h.sorted
  obtain ⟨hledger, hrest⟩ := List.forall_mem_cons.mp h.after
  refine ⟨hsorted, fun l hl => ⟨ht ▸ hfirst l hl, (hrest l hl).2⟩, fun l hl hlt hle => ?_⟩
  rw [ht] at hlt
  rw [hlisting] at hl
  refine (List.mem_cons.mp (h.all l hl (hledger.1.trans hlt) hle)).resolve_left ?_
  rintro rfl
  exact lt_irrefl _ hlt

theorem Ahead.eq_of_le (h : Ahead s target (ledger :: ledgers)) {l : HorizonLedger}
    (hl : l ∈ s.listing) (hlt : s.checkpoint < l.sequence) (hle : l.sequence ≤ ledger.sequence) :
    l = ledger := by
  obtain ⟨hfirst, -⟩ := List.pairwise_cons.mp h.sorted
  have htarget := (h.after ledger List.mem_cons_self).2
  refine (List.mem_cons.mp (h.all l hl hlt (hle.trans htarget))).resolve_right fun hrest => ?_
  exact absurd (hfirst l hrest) (not_lt.mpr hle)

theorem listing_setCheckpoint (s : Followed) (stream : String) (dst : Nat)
    (cursor : Option String) :
    (following.exec (.setCheckpoint stream dst cursor) s).2.listing = s.listing := by
  simp only [following, note]
  split
  · split <;> rfl
  · rfl

theorem safe_listed {β : Type} {post : β → Followed → Prop} {n : Nat}
    {f : List HorizonTransaction → List HorizonOperation → HorizonRoutine β}
    (hs : Advanced s) (hn : s.checkpoint < n)
    (h : ∀ t, Advanced t → t.checkpoint = s.checkpoint → t.listing = s.listing →
      Safe following outline post (f (t.transactions n) (t.operations n)) t) :
    Safe following outline post (do
      let transactions ← collection (.transactionsForLedger n)
      let operations ← collection (.operationsForLedger n)
      f transactions operations) s := by
  refine safe_collection hs fun t ht hst transactions _ => ?_
  have hnt : t.checkpoint < n := hst.checkpoint ▸ hn
  refine safe_collection (advanced_hear_transactions transactions ht hnt)
    fun u hu htu operations _ => ?_
  have hnu : u.checkpoint < n := htu.checkpoint ▸ hnt
  have htransactions : u.transactions n = collect (.transactionsForLedger n) transactions := by
    rw [htu.notes]
    exact Function.update_self _ _ _
  have hoperations : (hear u (.pages (.operationsForLedger n)) operations).operations n =
      collect (.operationsForLedger n) operations := Function.update_self _ _ _
  rw [← htransactions, ← hoperations]
  refine h _ (advanced_hear_operations operations hu hnu) ?_ ?_
  · exact htu.checkpoint.trans hst.checkpoint
  · exact (congrArg Notes.listing htu.notes).trans (congrArg Notes.listing hst.notes :)

theorem safe_writeLedgers (hs : Advanced s) (h : Ahead s target ledgers) :
    Safe following outline (fun _ => Advanced) (writeLedgers toISOString ledgers) s := by
  induction ledgers generalizing s with
  | nil => exact hs
  | cons ledger ledgers ih =>
    have hlt := (h.after ledger List.mem_cons_self).1
    refine safe_listed hs hlt fun t ht hcheckpoint hlisting => ?_
    have hahead : Ahead t target (ledger :: ledgers) := h.keeps hcheckpoint hlisting
    set rows := transactionRows (t.transactions ledger.sequence) (t.operations ledger.sequence)
    have hg := grown_elsewhere (c := .writeLedger ledger.row rows) trivial t
    have hrecorded := recorded_writeLedger (s := t) ledger
    set u := (following.exec (.writeLedger ledger.row rows) t).2
    have hu : Advanced u := ht.grown hg
    have hmoved :
        Advanced (following.exec (.setCheckpoint "horizon" ledger.sequence none) u).2 := by
      refine advanced_setCheckpoint hu (Nat.one_le_of_lt hlt) fun _ _ l hl hltl hle => ?_
      rw [(hahead.grown hg).eq_of_le hl hltl hle]
      exact hrecorded
    refine safe_bind ⟨ht, safe_perform hu (keeps_markSuccess.safe_bind hmoved fun _ v hv huv => ?_)⟩
    refine ih hv ((hahead.grown hg).tail ?_ ?_)
    · refine huv.checkpoint.trans ?_
      exact (getCheckpoint_setCheckpoint _ _ _ _ _).trans (if_pos rfl)
    · exact (congrArg Notes.listing huv.notes).trans (listing_setCheckpoint u _ _ _)

theorem safe_advance (hs : Advanced s) (h : Ahead s target []) (hpos : 1 ≤ target) :
    Safe following outline (fun _ => Advanced) (advance toISOString target) s := by
  have hmoved : Advanced (following.exec (.setCheckpoint "horizon" target none) s).2 := by
    refine advanced_setCheckpoint hs hpos fun _ _ l hl hlt hle => ?_
    cases h.all l hl hlt hle
  exact safe_perform hs (keeps_markSuccess.safe hmoved fun _ _ ht _ => ht)

theorem safe_pollFrom {checkpoint : Nat} (hs : Advanced s) (hcheckpoint : s.checkpoint = checkpoint)
    (hpos : 1 ≤ target) :
    Safe following outline (fun _ => Advanced) (pollFrom toISOString checkpoint target) s := by
  refine safe_collection hs fun t ht hst request hascending => ?_
  set u := hear t (.pages (.ledgersFrom checkpoint (target - checkpoint))) request
  have hu : Advanced u := advanced_hear_ledgers request ht
  have hahead : Ahead u target (relevantLedgers checkpoint target
      (collect (.ledgersFrom checkpoint (target - checkpoint)) request)) := by
    have hcheckpoint' : u.checkpoint = checkpoint := hst.checkpoint.trans hcheckpoint
    refine ⟨hascending.filter _, fun l hl => ?_, fun l hl hlt hle => ?_⟩
    · rw [hcheckpoint']
      exact of_decide_eq_true (List.mem_filter.mp hl).2
    · rw [hcheckpoint'] at hlt
      exact List.mem_filter.mpr ⟨hl, decide_eq_true ⟨hlt, hle⟩⟩
  change Safe _ _ _ (if _ then _ else _) u
  split
  next hempty =>
    rw [List.isEmpty_iff.mp hempty] at hahead
    exact safe_advance hu hahead hpos
  next => exact safe_writeLedgers hu hahead

theorem safe_bootstrap {post : Nat → Followed → Prop} (latest n : Nat) (hs : Advanced s)
    (h : ∀ checkpoint t, Advanced t → t.checkpoint = checkpoint → 1 ≤ checkpoint →
      post checkpoint t) :
    Safe following outline post (bootstrap "horizon" latest n) s := by
  unfold bootstrap
  refine safe_perform hs ?_
  change Safe _ _ _ (if s.checkpoint = 0 then _ else _) s
  split
  next hzero =>
    have hmoved := advanced_setCheckpoint hs (le_max_left 1 (latest - n))
      fun first hfirst => absurd (hs.started first hfirst) (by simp [hzero])
    refine ⟨hs, h _ _ hmoved ?_ (le_max_left _ _)⟩
    exact (getCheckpoint_setCheckpoint _ _ _ _ _).trans (if_pos rfl)
  next hne => exact h _ s hs rfl (Nat.one_le_iff_ne_zero.mpr hne)

theorem safe_pollLatest (latest : HorizonLedger) (hs : Advanced s) :
    Safe following outline (fun _ => Advanced) (pollLatest toISOString config latest) s := by
  refine (keeps_observeLedger frame (fun _ => trivial) (fun _ _ => trivial) _).safe_bind hs
    fun _ t ht _ => ?_
  refine safe_bind (safe_bootstrap _ _ ht fun checkpoint u hu hcheckpoint hpos => ?_)
  split
  · exact keeps_markSuccess.safe hu fun _ _ hv _ => hv
  next hlt =>
    refine safe_pollFrom hu hcheckpoint (le_min ?_ (hpos.trans (Nat.le_add_right _ _)))
    exact hpos.trans (not_le.mp hlt).le

theorem safe_pollHorizon (hs : Advanced s) :
    Safe following outline (fun _ => Advanced) (pollHorizon toISOString config) s := by
  refine frame.safe_request hs fun t ht _ page _ => ?_
  change Safe _ _ _ _ t
  split
  · exact ht
  next latest _ => exact safe_pollLatest latest ht

def opening (toISOString : Nat → String) (config : IndexerConfig) :
    Process Answer Reply Followed where
  store := ⟨⟨none, [], fun _ => [], fun _ => [], []⟩, .fresh⟩
  routine := pollHorizon toISOString config

/-- Whatever Horizon lists, and wherever the process is stopped, the checkpoint
is sound. -/
theorem sound_throughout (is : List (Input Statement Reply))
    (hascending : Along (step following (pollHorizon toISOString config)) (Replies Ascending)
      (opening toISOString config) is)
    (hkeep : Along (step following (pollHorizon toISOString config)) (OthersKeep Elsewhere)
      (opening toISOString config) is) :
    Throughout (step following (pollHorizon toISOString config)) (fun p => Sound p.store)
      (opening toISOString config) is := by
  have hopen : Advanced (opening toISOString config).store :=
    ⟨fun _ hfirst => (by cases hfirst), fun _ hfirst => (by cases hfirst)⟩
  have hall := throughout_of_outline (L := outline) (fun s hs => safe_pollHorizon hs)
    (fun _ _ => Iff.rfl) (fun c s hc hs => advanced_elsewhere hc hs) hopen hascending hkeep
  exact throughout_mono (fun _ hp => hp.sound) hall

def sampleLedger (n : Nat) : HorizonLedger := ⟨n, "hash", none, "2025-01-01T00:00:00Z", none⟩

def sampleOperation : HorizonOperation := ⟨"o", "t", none, "payment", "2025-01-01T00:00:00Z", none⟩

def sampleServer (latest : Nat) (ledgers : List HorizonLedger) : (q : Request) → Reply q
  | .latestLedger => ⟨some [sampleLedger latest], none⟩
  | .pages (.ledgersFrom _ _) => fun _ _ => ⟨some ledgers, none⟩
  | .pages (.transactionsForLedger _) => fun _ _ => ⟨some [], none⟩
  | .pages (.operationsForLedger _) => fun _ _ => ⟨some [sampleOperation], none⟩

def sampleConfig : IndexerConfig := ⟨[], 0, 0, 25⟩

/-- Three polls: the first one at ledger 10, the second one at ledger 11, which
is not listed, and the third one at ledger 12, which is listed. -/
def sampleInputs : List (Input Statement Reply) :=
  [[.reply (sampleServer 10 [])], List.replicate 9 .tick, [.reply (sampleServer 11 [])],
    List.replicate 3 .tick, [.reply (sampleServer 11 [])], List.replicate 6 .tick,
    [.reply (sampleServer 12 [sampleLedger 12])], List.replicate 3 .tick,
    List.replicate 3 (.reply (sampleServer 12 [sampleLedger 12])), List.replicate 6 .tick].flatten

theorem ascending_sample (latest : Nat) {ledgers : List HorizonLedger}
    (h : ledgers.Pairwise (·.sequence < ·.sequence)) (q : Request) :
    Ascending q (sampleServer latest ledgers q) := by
  obtain _ | (⟨sequence, limit⟩ | n | n) := q
  · trivial
  · have hlisted : collect (.ledgersFrom sequence limit)
        (sampleServer latest ledgers (.pages (.ledgersFrom sequence limit))) = ledgers :=
      List.append_nil ledgers
    rwa [Ascending, hlisted]
  · trivial
  · trivial

theorem along_sample (p : Process Answer Reply Followed) :
    Along (step following (pollHorizon (fun _ => "") sampleConfig)) (Replies Ascending) p
        sampleInputs ∧
      Along (step following (pollHorizon (fun _ => "") sampleConfig)) (OthersKeep Elsewhere) p
        sampleInputs := by
  constructor
  · refine along_of_forall ?_ p
    simp [sampleInputs, Replies, ascending_sample]
  · refine along_of_forall ?_ p
    simp [sampleInputs, OthersKeep]

theorem sound_throughout_sample :
    Throughout (step following (pollHorizon (fun _ => "") sampleConfig)) (fun p => Sound p.store)
      (opening (fun _ => "") sampleConfig) sampleInputs :=
  sound_throughout sampleInputs (along_sample _).1 (along_sample _).2

/-- The checkpoint is at ledger 12, without a row for ledger 11, and without
the operation that is listed for ledger 12. -/
theorem gap_is_skipped :
    let s := (run (step following (pollHorizon (fun _ => "") sampleConfig))
      (opening (fun _ => "") sampleConfig) sampleInputs).store
    s.first = some 10 ∧ s.checkpoint = 12 ∧ ¬ HasKey LedgerRow.sequence s.host.ledgers 11 ∧
      ∃ o ∈ s.operations 12, ¬ HasKey OperationRow.id s.host.operations o.id := by
  intro s
  have hlisted : s.operations 12 = [sampleOperation] := rfl
  refine ⟨rfl, rfl, by decide +kernel, sampleOperation, ?_, by decide +kernel⟩
  exact hlisted.symm ▸ List.mem_singleton_self sampleOperation

end Suban.Indexer.Ledgers
