import Suban.Indexer.Polling

namespace Suban.Indexer.Freshness

open Suban.Basis.Numbers Suban.Basis.Runs Suban.Basis.Routines
open Suban.Indexer.Database Suban.Indexer.Events Suban.Indexer.Horizon Suban.Indexer.Polling

variable {X : Type} {toISOString : Nat → String} {dateParse : String → Option Int}
variable {P : Platform X} {indexer : IndexerConfig} {config : FreshnessConfig} {enabled : Bool}

/-- The indexer, with the poll that it is at, whether a poll of this round has
succeeded, and the times at which a poll for contract events and at which any
stream has last done so. -/
structure Watch where
  host : Host
  polling : Option Source
  succeeded : Bool
  eventsAt : Option Nat
  successAt : Option Nat

def Watch.fresh : Watch := ⟨.fresh, none, false, none, none⟩

/-- Horizon's poll notes a success as it gets ahead. Beside that a success only
counts at the end of a round of which a poll has succeeded. -/
def noteSuccess (c : Statement) (s : Watch) : Option Nat :=
  match c with
  | .setMeta key _ =>
    if key = "last_success_at" ∧ (s.succeeded = true ∨ s.polling = some .horizon) then
      some s.host.clock
    else s.successAt
  | _ => s.successAt

def execute (c : Call) (s : Watch) : CallAnswer c × Watch :=
  match c with
  | .db c =>
    ((exec c s.host).1, { s with host := (exec c s.host).2, successAt := noteSuccess c s })
  | .latestIndexedLedger => (latestIndexedLedger s.host, s)
  | .started => ((), { s with polling := none, succeeded := false })
  | .enter source => ((), { s with polling := some source })
  | .leave source succeeded =>
    ((), { s with
      polling := none
      succeeded := s.succeeded || succeeded
      eventsAt := if source = .events ∧ succeeded = true then some s.host.clock
        else s.eventsAt })

def watching (X : Type) : Store CallAnswer (PollReply X) Watch where
  exec := execute
  hear _ _ s := s

/-- The time of the last success is in the store as it is. -/
structure Noted (toISOString : Nat → String) (s : Watch) : Prop where
  stored : s.host.indexerMeta.lookup "last_success_at" = s.successAt.map toISOString
  past : ∀ t, s.successAt = some t → t ≤ s.host.clock

def Elsewhere : Call → Prop
  | .db (.setMeta key _) => key ≠ "last_success_at"
  | .db _ => True
  | _ => False

def outline (X : Type) (toISOString : Nat → String) : Outline Call (PollReply X) Watch where
  atRest := Noted toISOString
  before _ := Noted toISOString
  valid _ _ := True
  allowed := Elsewhere

def phase (s : Watch) : Option Source × Bool := (s.polling, s.succeeded)

section Part

variable {Q : Type} (R : Q → Type) (toISOString)

def part : Store Answer R Watch where
  exec c s := execute (.db c) s
  hear _ _ s := s

def partOutline (f : Option Source × Bool) : Outline Statement R Watch where
  atRest s := Noted toISOString s ∧ phase s = f
  before _ s := Noted toISOString s ∧ phase s = f
  valid _ _ := True
  allowed c := Elsewhere (.db c)

end Part

variable {Q : Type} {R : Q → Type} {f : Option Source × Bool} {s t : Watch}

theorem noted_db {c : Statement} (hc : Elsewhere (.db c)) (hs : Noted toISOString s) :
    Noted toISOString (execute (.db c) s).2 := by
  cases c with
  | setMeta key value =>
    have hkey : key ≠ "last_success_at" := hc
    have hsuccess : noteSuccess (.setMeta key value) s = s.successAt :=
      if_neg fun h => hkey h.1
    refine ⟨?_, fun t ht => hs.past t (hsuccess.symm.trans ht)⟩
    refine (AList.lookup_insert_ne hkey.symm).trans ?_
    rw [hs.stored]
    exact congrArg _ hsuccess.symm
  | passTime milliseconds =>
    exact ⟨hs.stored, fun t ht => (hs.past t ht).trans (Nat.le_add_right _ _)⟩
  | _ => exact ⟨hs.stored, hs.past⟩

theorem phase_db (c : Statement) : phase (execute (.db c) s).2 = phase s := rfl

theorem noted_others (hs : Noted toISOString s)
    (h : Others (watching X) (outline X toISOString) s t) :
    Noted toISOString t ∧ phase t = phase s := by
  refine h.keeps (P := fun u => Noted toISOString u ∧ phase u = phase s) ⟨hs, rfl⟩ ?_
  rintro c u hc ⟨hu, hphase⟩
  cases c with
  | db c => exact ⟨noted_db hc hu, (phase_db c).trans hphase⟩
  | latestIndexedLedger | started | enter | leave => exact hc.elim

theorem frame :
    Frame (part R) (partOutline toISOString R f) fun _ _ => True where
  refl _ := trivial
  trans _ _ := trivial
  rest _ _ hs := hs
  others _ _ hc hs := ⟨⟨noted_db hc hs.1, (phase_db _).trans hs.2⟩, trivial⟩

/-- What a part of a round keeps. -/
abbrev PartKeeps {Q : Type} {R : Q → Type} {α : Type} (toISOString : Nat → String)
    (f : Option Source × Bool) (r : Routine Answer R α) : Prop :=
  Keeps (part R) (partOutline toISOString R f) (fun _ _ => True) r

theorem keeps_query {c : Statement} (hc : Elsewhere (.db c)) :
    PartKeeps (R := R) toISOString f (query c) :=
  frame.perform hc

theorem keeps_request (q : Q) : PartKeeps (R := R) toISOString f (request q) :=
  frame.request fun _ _ => rfl

theorem keeps_observe (sequence : Nat) :
    PartKeeps (R := R) toISOString f (observeLedger sequence) := by
  have hnumber : PartKeeps (R := R) toISOString f (getNumberMeta "latest_observed_ledger") :=
    frame.bind (keeps_query trivial) fun _ => frame.done _
  refine frame.bind hnumber fun current => ?_
  split
  · have hkey : "latest_observed_ledger" ≠ "last_success_at" := by decide
    exact keeps_query hkey
  · exact frame.done ()

theorem keeps_bootstrap (stream : String) (latest n : Nat) :
    PartKeeps (R := R) toISOString f (bootstrap stream latest n) := by
  refine frame.bind (keeps_query trivial) fun checkpoint => ?_
  split
  · exact frame.bind (keeps_query trivial) fun _ => frame.done _
  · exact frame.done _

theorem keeps_enqueue (row : EventRow) (data : Values.Value X) :
    PartKeeps (R := R) toISOString f (enqueue P row data) := by
  refine frame.bind (keeps_query trivial) fun now => ?_
  refine frame.bind (keeps_query trivial) fun subscriptions => ?_
  split
  · exact frame.done ()
  · exact keeps_query trivial

theorem keeps_storeEvents (contract : ContractConfig) (events : List (SorobanEvent X))
    (index maxLedger : Nat) :
    PartKeeps toISOString f (storeEvents P contract events index maxLedger) := by
  induction events generalizing index maxLedger with
  | nil => exact frame.done _
  | cons event events ih =>
    refine frame.bind (keeps_query trivial) fun now => ?_
    refine frame.bind (keeps_query trivial) fun inserted => ?_
    refine frame.bind ?_ fun _ => ih _ _
    unfold enqueueInserted
    split
    · exact keeps_enqueue _ _
    · exact frame.done ()

theorem keeps_pollPages (contract : ContractConfig) (latest pages src : Nat) :
    PartKeeps toISOString f (pollPages P contract latest pages src) := by
  induction pages generalizing src with
  | zero => exact frame.done ()
  | succ pages ih =>
    unfold pollPages
    split
    · refine frame.bind (keeps_request _) fun response => ?_
      split
      · exact frame.done ()
      · refine frame.bind (keeps_storeEvents _ _ _ _) fun maxLedger => ?_
        refine frame.bind (keeps_query trivial) fun _ => ?_
        split
        · exact frame.done ()
        · exact ih maxLedger
    · exact frame.done ()

theorem keeps_pollContracts (latest : Nat) (contracts : List ContractConfig) :
    PartKeeps toISOString f (pollContracts P indexer latest contracts) := by
  induction contracts with
  | nil => exact frame.done ()
  | cons contract contracts ih =>
    refine frame.bind (frame.bind (keeps_bootstrap _ _ _) fun checkpoint => ?_) fun _ => ih
    split
    · exact frame.done ()
    · exact keeps_pollPages _ _ _ _

theorem keeps_pollContractEvents :
    PartKeeps toISOString f (pollContractEvents P indexer) := by
  unfold pollContractEvents
  split
  · exact frame.done ()
  · refine frame.bind (keeps_request _) fun latest => ?_
    exact frame.bind (keeps_observe latest) fun _ => keeps_pollContracts _ _

theorem noted_success (h : s.succeeded = true ∨ s.polling = some .horizon) :
    Noted toISOString
      (execute (.db (.setMeta "last_success_at" (toISOString s.host.clock))) s).2 := by
  have hsuccess : noteSuccess (.setMeta "last_success_at" (toISOString s.host.clock)) s =
      some s.host.clock := if_pos ⟨rfl, h⟩
  refine ⟨?_, fun t ht => ?_⟩
  · refine (AList.lookup_insert _).trans ?_
    exact (congrArg (Option.map toISOString) hsuccess).symm
  · exact (Option.some.inj (hsuccess.symm.trans ht)).ge

section Horizon

variable {succeeded : Bool}

/-- While Horizon is polled. -/
abbrev HorizonKeeps {α : Type} (toISOString : Nat → String) (succeeded : Bool)
    (r : HorizonRoutine α) : Prop :=
  PartKeeps toISOString (some .horizon, succeeded) r

theorem keeps_markSuccess : HorizonKeeps toISOString succeeded (markSuccess toISOString) := by
  intro s hs
  have hpolling : s.polling = some .horizon := congrArg Prod.fst hs.2
  refine safe_perform hs (safe_perform hs ?_)
  have hkey : "last_success_at_ms" ≠ "last_success_at" := by decide
  have hrest : HorizonKeeps toISOString succeeded (do
      let now ← query .now
      query (.setMeta "last_success_at_ms" (toString (now / 1000)))) :=
    frame.bind (keeps_query trivial) fun _ => keeps_query hkey
  exact hrest _ ⟨noted_success (.inr hpolling), hs.2⟩

theorem keeps_collection (listing : Listing) :
    HorizonKeeps toISOString succeeded (collection listing) :=
  frame.bind (keeps_request _) fun _ => frame.done _

theorem keeps_writeLedgers (ledgers : List HorizonLedger) :
    HorizonKeeps toISOString succeeded (writeLedgers toISOString ledgers) := by
  induction ledgers with
  | nil => exact frame.done ()
  | cons ledger ledgers ih =>
    refine frame.bind (keeps_collection _) fun transactions => ?_
    refine frame.bind (keeps_collection _) fun operations => ?_
    refine frame.bind (keeps_query trivial) fun _ => ?_
    refine frame.bind (keeps_query trivial) fun _ => ?_
    exact frame.bind keeps_markSuccess fun _ => ih

theorem keeps_pollFrom (checkpoint target : Nat) :
    HorizonKeeps toISOString succeeded (pollFrom toISOString checkpoint target) := by
  refine frame.bind (keeps_collection _) fun ledgers => ?_
  dsimp only
  split
  · exact frame.bind (keeps_query trivial) fun _ => keeps_markSuccess
  · exact keeps_writeLedgers _

theorem keeps_pollHorizon :
    HorizonKeeps toISOString succeeded (pollHorizon toISOString indexer) := by
  refine frame.bind (keeps_request _) fun page => ?_
  split
  · exact frame.done ()
  · refine frame.bind (keeps_observe _) fun _ => ?_
    refine frame.bind (keeps_bootstrap _ _ _) fun checkpoint => ?_
    split
    · exact keeps_markSuccess
    · exact keeps_pollFrom _ _

end Horizon

section Round

theorem safe_part {req : Q → PollRequest} {reply : ∀ q, PollReply X (req q) → Option (R q)}
    {r : Routine Answer R Unit} (h : PartKeeps toISOString f r) (hs : Noted toISOString s)
    (hphase : phase s = f) :
    Safe (watching X) (outline X toISOString) (fun _ t => Noted toISOString t ∧ phase t = f)
      (attempt (pollPart req reply) r) s := by
  have hothers (u v : Watch) (huv : Others (watching X) (outline X toISOString) u v) :
      Others (part R) (partOutline toISOString R f) u v := by
    refine Relation.ReflTransGen.mono ?_ u v huv
    rintro u v ⟨c, hc, rfl⟩
    cases c with
    | db c => exact ⟨c, hc, rfl⟩
    | latestIndexedLedger | started | enter | leave => exact hc.elim
  refine safe_attempt (D := part R) (L := partOutline toISOString R f) (fun _ _ => rfl)
    (fun _ _ _ _ _ => rfl) (fun _ hu => hu.1) (fun _ _ hu => hu.1) hothers
    (fun _ _ _ _ _ => trivial) (fun _ _ u v hu huv _ => ?_)
    (safe_mono (fun _ _ ht => ht.1) (h s ⟨hs, hphase⟩))
  exact (frame.interfere huv hu).1

theorem safe_poll {source : Source} {r : PollRoutine X (Option Unit)} {post : Bool → Watch → Prop}
    (hs : Noted toISOString s)
    (hr : ∀ u, Noted toISOString u → phase u = (some source, s.succeeded) →
      Safe (watching X) (outline X toISOString)
        (fun _ t => Noted toISOString t ∧ phase t = (some source, s.succeeded)) r u)
    (hpost : ∀ ok t, Noted toISOString t → phase t = (none, s.succeeded || ok) → post ok t) :
    Safe (watching X) (outline X toISOString) post (poll source r) s := by
  have hentered : Noted toISOString (execute (.enter source) s).2 := ⟨hs.stored, hs.past⟩
  refine safe_perform hs (safe_bind (safe_mono ?_ (hr _ hentered rfl)))
  rintro result t ⟨ht, hphase⟩
  refine safe_perform ht (hpost _ _ ⟨ht.stored, ht.past⟩ ?_)
  have hsucceeded : t.succeeded = s.succeeded := congrArg Prod.snd hphase
  exact congrArg (fun b => (none, b || result.isSome)) hsucceeded

theorem safe_hydrateAccounts {result : Option Unit} (hs : Noted toISOString s) :
    Safe (watching X) (outline X toISOString)
      (fun _ t => Noted toISOString t ∧ phase t = phase s) (hydrateAccounts result) s := by
  cases result with
  | none => exact ⟨hs, rfl⟩
  | some a => exact ⟨hs, fun t hst _ _ => noted_others hs hst⟩

theorem safe_pollHorizonIf {post : Bool → Watch → Prop} (hs : Noted toISOString s)
    (hphase : s.polling = none)
    (hpost : ∀ ok t, Noted toISOString t → phase t = (none, s.succeeded || ok) → post ok t) :
    Safe (watching X) (outline X toISOString) post
      (pollHorizonIf toISOString indexer enabled) s := by
  unfold pollHorizonIf
  split
  · refine safe_poll hs (fun u hu hphase => ?_) hpost
    refine safe_bind (safe_mono ?_ (safe_part keeps_pollHorizon hu hphase))
    rintro result t ⟨ht, hphase⟩
    exact safe_mono (fun _ v hv => ⟨hv.1, hv.2.trans hphase⟩) (safe_hydrateAccounts ht)
  · refine hpost false s hs ?_
    rw [Bool.or_false, phase, hphase]

theorem safe_recordSuccess {succeeded : Bool} (hs : Noted toISOString s)
    (h : succeeded = true → s.succeeded = true) :
    Safe (watching X) (outline X toISOString) (fun _ => Noted toISOString)
      (recordSuccess toISOString succeeded) s := by
  cases succeeded with
  | false => exact hs
  | true =>
    have hkey : "last_success_at_ms" ≠ "last_success_at" := by decide
    have hs' : Noted toISOString
        (execute (.db (.setMeta "last_success_at" (toISOString s.host.clock))) s).2 :=
      noted_success (.inl (h rfl))
    exact ⟨hs, hs, hs, hs', noted_db hkey hs'⟩

theorem safe_recordPoll {succeeded : Bool} (hs : Noted toISOString s)
    (h : succeeded = true → s.succeeded = true) :
    Safe (watching X) (outline X toISOString) (fun _ => Noted toISOString)
      (recordPoll toISOString succeeded) s := by
  have hindexed : "latest_indexed_ledger" ≠ "last_success_at" := by decide
  have hpoll : "last_poll_at" ≠ "last_success_at" := by decide
  have hs' := noted_db (c := .setMeta "latest_indexed_ledger"
    (toString (latestIndexedLedger s.host))) hindexed hs
  have hs'' := noted_db (c := .setMeta "last_poll_at" (toISOString s.host.clock)) hpoll hs'
  exact ⟨hs, hs, hs', hs', safe_recordSuccess hs'' h⟩

theorem safe_pollOnce (hs : Noted toISOString s) :
    Safe (watching X) (outline X toISOString) (fun _ => Noted toISOString)
      (pollOnce toISOString P indexer enabled) s := by
  have hstarted : Noted toISOString (execute .started s).2 := ⟨hs.stored, hs.past⟩
  refine safe_perform hs (safe_bind ?_)
  refine safe_poll hstarted (fun u hu hphase => safe_part keeps_pollContractEvents hu hphase) ?_
  intro events t ht hphase
  refine safe_bind (safe_pollHorizonIf ht (congrArg Prod.fst hphase) ?_)
  intro horizon u hu hphase'
  refine safe_recordPoll hu fun hsucceeded => ?_
  have ht' : t.succeeded = events := congrArg Prod.snd hphase
  have hu' : u.succeeded = (t.succeeded || horizon) := congrArg Prod.snd hphase'
  rw [hu', ht', hsucceeded]

end Round

/-- No success has been noted for too long. -/
def NoSuccess (config : FreshnessConfig) (s : Watch) : Prop :=
  ∀ t, s.successAt = some t → config.staleAfterSeconds < (s.host.clock - t) / 1000

def observedTip (h : Host) : Nat := (numberMeta h "latest_observed_ledger").getD 0

theorem le_latestIndexedLedger (h : Host) (stream : String) :
    h.getCheckpoint stream ≤ latestIndexedLedger h := by
  unfold Host.getCheckpoint
  cases hlookup : h.checkpoints.lookup stream with
  | none => exact Nat.zero_le _
  | some c =>
    have hmem : c.lastLedger ∈ h.checkpoints.entries.map fun e => e.2.lastLedger :=
      List.mem_map.mpr ⟨⟨stream, c⟩, AList.mem_lookup_iff.mp hlookup, rfl⟩
    cases hmax : (h.checkpoints.entries.map fun e => e.2.lastLedger).max? with
    | none => simp [List.max?_eq_none_iff.mp hmax] at hmem
    | some m =>
      rw [latestIndexedLedger, hmax]
      exact (List.max?_eq_some_iff.mp hmax).2 _ hmem

theorem exists_latestIndexedLedger (h : Host) :
    ∃ stream, h.getCheckpoint stream = latestIndexedLedger h := by
  unfold latestIndexedLedger
  cases hmax : (h.checkpoints.entries.map fun e => e.2.lastLedger).max? with
  | none =>
    have hempty : h.checkpoints.entries = [] := by
      simpa using List.max?_eq_none_iff.mp hmax
    refine ⟨"", ?_⟩
    have hlookup : h.checkpoints.lookup "" = none := by
      rw [AList.lookup, hempty, List.dlookup_nil]
    rw [Host.getCheckpoint, hlookup]
    rfl
  | some m =>
    obtain ⟨⟨stream, c⟩, hmem, rfl⟩ := List.mem_map.mp (List.max?_eq_some_iff.mp hmax).1
    refine ⟨stream, ?_⟩
    rw [Host.getCheckpoint, AList.mem_lookup_iff.mpr hmem]
    rfl

/-- The lag is measured from the checkpoint that is farthest ahead. -/
theorem lagLedgers_iff (h : Host) (k : Nat) :
    k < lagLedgers h ↔ ∀ stream, h.getCheckpoint stream + k < observedTip h := by
  have hiff : k < lagLedgers h ↔ latestIndexedLedger h + k < observedTip h := by
    unfold lagLedgers latestObservedLedger observedTip
    cases numberMeta h "latest_observed_ledger" with
    | none => simp
    | some n =>
      by_cases hn : n = 0
      · rw [Option.filter_some_neg (by simpa using hn), Option.getD_none, Option.getD_some]
        omega
      · rw [Option.filter_some_pos (by simpa using hn), Option.getD_some, Option.getD_some]
        omega
  rw [hiff]
  refine ⟨fun hlt stream => ?_, fun hall => ?_⟩
  · exact (Nat.add_le_add_right (le_latestIndexedLedger h stream) k).trans_lt hlt
  · obtain ⟨stream, hstream⟩ := exists_latestIndexedLedger h
    exact hstream ▸ hall stream

structure ReadsBack (toISOString : Nat → String) (dateParse : String → Option Int) : Prop where
  nonempty : ∀ t, toISOString t ≠ ""
  parse : ∀ t : Nat, dateParse (toISOString t) = some t

theorem lagSeconds_of_noted (hdates : ReadsBack toISOString dateParse)
    (hs : Noted toISOString s) :
    lagSeconds dateParse s.host = s.successAt.map fun t => (s.host.clock - t) / 1000 := by
  rw [lagSeconds, hs.stored]
  cases hsuccess : s.successAt with
  | none => rfl
  | some t =>
    have htruthy : truthy (some (toISOString t)) = some (toISOString t) :=
      Option.filter_some_pos (decide_eq_true (hdates.nonempty t))
    simp only [Option.map_some, htruthy, Option.bind_some, hdates.parse]
    have hle := hs.past t hsuccess
    have hlag : (((s.host.clock : Int) - t) / 1000).toNat = (s.host.clock - t) / 1000 := by omega
    exact congrArg some hlag

theorem stale_of_noted (hdates : ReadsBack toISOString dateParse) (hs : Noted toISOString s) :
    (getFreshness toISOString dateParse config s.host).stale = true ↔
      NoSuccess config s ∨
        ∀ stream, s.host.getCheckpoint stream + config.maxLagLedgers < observedTip s.host := by
  rw [← lagLedgers_iff, getFreshness, Bool.or_eq_true, decide_eq_true_iff, or_comm,
    lagSeconds_of_noted hdates hs, NoSuccess]
  cases s.successAt with
  | none => simp
  | some t => simp

def opening (toISOString : Nat → String) (P : Platform X) (indexer : IndexerConfig)
    (enabled : Bool) : Process CallAnswer (PollReply X) Watch where
  store := .fresh
  routine := pollOnce toISOString P indexer enabled

/-- Whatever the servers do, the answers are stale exactly when no stream has
had a success for too long, or the tip is too far ahead of them all. -/
theorem stale_iff_all_streams (hdates : ReadsBack toISOString dateParse)
    (is : List (Input Call (PollReply X)))
    (hkeep : Along (step (watching X) (pollOnce toISOString P indexer enabled))
      (OthersKeep Elsewhere) (opening toISOString P indexer enabled) is) :
    Throughout (step (watching X) (pollOnce toISOString P indexer enabled))
      (fun p => (getFreshness toISOString dateParse config p.store.host).stale = true ↔
        NoSuccess config p.store ∨ ∀ stream,
          p.store.host.getCheckpoint stream + config.maxLagLedgers < observedTip p.store.host)
      (opening toISOString P indexer enabled) is := by
  have hopen : Noted toISOString (opening toISOString P indexer enabled).store :=
    ⟨rfl, fun t ht => by cases ht⟩
  have hothers : ∀ c s, Elsewhere c → Noted toISOString s →
      Noted toISOString ((watching X).exec c s).2 := by
    intro c s hc hs
    exact (noted_others (X := X) hs (.single ⟨c, hc, rfl⟩)).1
  have hreplies : Along (step (watching X) (pollOnce toISOString P indexer enabled))
      (Replies (outline X toISOString).valid) (opening toISOString P indexer enabled) is :=
    along_of_forall (fun i _ p => by cases i <;> simp [Replies, outline]) _
  have hall := throughout_of_outline (L := outline X toISOString)
    (fun s hs => safe_pollOnce hs) (fun _ _ => Iff.rfl) hothers hopen hreplies hkeep
  exact throughout_mono (fun _ hp => stale_of_noted hdates hp) hall

section Sample

def sampleISOString (t : Nat) : String :=
  if t = 0 then "1970-01-01T00:00:00.000Z"
  else if t = 200000 then "1970-01-01T00:03:20.000Z" else toString (t : Int)

def sampleParse (text : String) : Option Int :=
  if text = "1970-01-01T00:00:00.000Z" then some 0
  else if text = "1970-01-01T00:03:20.000Z" then some 200000 else bigInt text

theorem readsBack_sample : ReadsBack sampleISOString sampleParse := by
  have hzero : bigInt "1970-01-01T00:00:00.000Z" = none := by decide +kernel
  have hlater : bigInt "1970-01-01T00:03:20.000Z" = none := by decide +kernel
  have hnumber (t : Nat) : bigInt (toString (t : Int)) = some t := bigInt_toString t
  have hne (t : Nat) {text : String} (h : bigInt text = none) : toString (t : Int) ≠ text := by
    intro heq
    rw [← heq, hnumber] at h
    cases h
  refine ⟨fun t => ?_, fun t => ?_⟩
  · unfold sampleISOString
    split_ifs
    · decide
    · decide
    · exact hne t (by decide +kernel)
  · unfold sampleISOString
    split_ifs with h h'
    · subst h
      rfl
    · subst h'
      rfl
    · rw [sampleParse, if_neg (hne t hzero), if_neg (hne t hlater), hnumber]

def samplePlatform : Platform Unit := ⟨⟨fun _ => .null, fun _ => none, fun _ => [], fun _ => ""⟩,
  fun s => s, fun _ => none⟩

def sampleIndexer : IndexerConfig := ⟨[⟨"pool", "C1"⟩], 500, 0, 25⟩

def sampleConfig : FreshnessConfig := ⟨120, 10⟩

/-- The RPC server tells its latest ledger and fails to list events. -/
def sampleServer : (q : PollRequest) → PollReply Unit q
  | .events .getLatestLedger => some 1000
  | .events (.getEvents _ _ _) => none
  | .horizon .latestLedger => some ⟨some [⟨1000, "hash", none, "1970-01-01T00:00:00Z", none⟩], none⟩
  | .horizon (.pages _) => none
  | .accounts => ()

def sampleInputs : List (Input Call (PollReply Unit)) :=
  (List.replicate 24 [.tick, .reply sampleServer]).flatten ++
    .other (.db (.passTime 200000)) :: (List.replicate 22 [.tick, .reply sampleServer]).flatten

theorem othersKeep_sample (p : Process CallAnswer (PollReply Unit) Watch) :
    Along (step (watching Unit) (pollOnce sampleISOString samplePlatform sampleIndexer true))
      (OthersKeep Elsewhere) p sampleInputs := by
  have hrounds (n : Nat) (i : Input Call (PollReply Unit))
      (hi : i ∈ (List.replicate n [.tick, .reply sampleServer]).flatten)
      (q : Process CallAnswer (PollReply Unit) Watch) : OthersKeep Elsewhere q i := by
    obtain ⟨round, hround, hi⟩ := List.mem_flatten.mp hi
    rw [List.eq_of_mem_replicate hround] at hi
    obtain rfl | rfl := List.mem_pair.mp hi
    · trivial
    · trivial
  refine along_of_forall (fun i hi q => ?_) p
  obtain hi | hi := List.mem_append.mp hi
  · exact hrounds 24 i hi q
  · obtain rfl | hi := List.mem_cons.mp hi
    · trivial
    · exact hrounds 22 i hi q

theorem stale_iff_all_streams_sample :
    Throughout (step (watching Unit) (pollOnce sampleISOString samplePlatform sampleIndexer true))
      (fun p => (getFreshness sampleISOString sampleParse sampleConfig p.store.host).stale = true ↔
        NoSuccess sampleConfig p.store ∨ ∀ stream,
          p.store.host.getCheckpoint stream + sampleConfig.maxLagLedgers <
            observedTip p.store.host)
      (opening sampleISOString samplePlatform sampleIndexer true) sampleInputs :=
  stale_iff_all_streams readsBack_sample sampleInputs (othersKeep_sample _)

/-- No poll for contract events has ever succeeded, their stream is far behind
the tip, and yet nothing is stale, since Horizon's polls succeed. -/
theorem horizon_hides_events :
    let s := (run (step (watching Unit)
      (pollOnce sampleISOString samplePlatform sampleIndexer true))
      (opening sampleISOString samplePlatform sampleIndexer true) sampleInputs).store
    s.eventsAt = none ∧ sampleConfig.staleAfterSeconds < s.host.clock / 1000 ∧
      s.host.getCheckpoint (stream "C1") + sampleConfig.maxLagLedgers < observedTip s.host ∧
      (getFreshness sampleISOString sampleParse sampleConfig s.host).stale = false := by
  decide +kernel

end Sample

end Suban.Indexer.Freshness
