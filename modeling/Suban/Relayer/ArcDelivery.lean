import Suban.Basis.Rows
import Suban.Relayer.ArcBlocks
import Suban.Relayer.Redelivery

namespace Suban.Relayer.ArcDelivery

open Suban.Basis.Rows Suban.Basis.Runs Suban.Basis.Spans Suban.Evm.Host Suban.Relayer.Arc
open Suban.Relayer.ArcBlocks Suban.Relayer.EventIds Suban.Relayer.Processor
open Suban.Relayer.Redelivery

variable {B : Type} {K : Crypto} {X : Erc20 B} {contract : Account} {first : Nat}
variable {s t : Network B} {p q : EventProcessor ArcBurnEvent}

def burnsIn (K : Crypto) (c : Blocks B) (first last : Nat) : List ArcBurnEvent :=
  (window EventLog.blockNumber first last c.log).filterMap (parseBurnEvent K)

def submitted (p : EventProcessor ArcBurnEvent) : List ArcBurnEvent := p.attempts.map Attempt.burn

/-- The burns of the blocks that the watcher is done with have been emitted, in
their order and each once, and the first one under each id was submitted. -/
def Delivered (K : Crypto) (first : Nat) (s : Network B) : Prop :=
  s.watcher.emitted = burnsIn K s.arc first s.watcher.lastBlock ∧
    submitted s.processor = insertAll arcId s.watcher.emitted [] ∧
    (DistinctIds K s.arc.toArcChain → submitted s.processor = s.watcher.emitted)

/-- The watcher does not get ahead of the chain, unless it was started there. -/
structure Tracked (K : Crypto) (first : Nat) (s : Network B) : Prop where
  started : first ≤ s.watcher.lastBlock
  behind : s.watcher.lastBlock = first ∨ s.watcher.lastBlock ≤ s.arc.blockNumber
  polling : ∀ current, s.watcher.polling = some current →
    s.watcher.lastBlock < current ∧ current ≤ s.arc.blockNumber
  emitted : s.watcher.emitted = burnsIn K s.arc first s.watcher.lastBlock
  recorded : Recorded .arc s.processor
  submitted_eq : submitted s.processor = insertAll arcId s.watcher.emitted []

theorem queryFilter_eq (c : Blocks B) (last current : Nat) :
    c.queryFilter (last + 1) current = window EventLog.blockNumber last current c.log := rfl

theorem burnsIn_split (K : Crypto) (c : Blocks B) {last current : Nat} (hfirst : first ≤ last)
    (hlast : last ≤ current) :
    burnsIn K c first current = burnsIn K c first last ++ burnsIn K c last current := by
  rw [burnsIn, window_split c.ordered hfirst hlast, List.filterMap_append]
  rfl

theorem burnsIn_transact {c d : Blocks B} {transactionHash : String}
    {input : ArcBridge.Contract.Input B}
    (h : c.transact K X contract transactionHash input = .ok d) :
    d.blockNumber = c.blockNumber ∧
      ∀ last, last = first ∨ last ≤ c.blockNumber →
        burnsIn K d first last = burnsIn K c first last := by
  unfold Blocks.transact at h
  split at h
  next => cases h
  next u hu =>
    cases h
    refine ⟨rfl, ?_⟩
    obtain ⟨added, hlog, hblock⟩ := log_step hu
    rintro last (rfl | hlast)
    · rw [burnsIn, burnsIn, window_nil le_rfl, window_nil le_rfl]
    · have hlater : ∀ e ∈ added, last < e.blockNumber := fun e he => by
        rw [hblock e he]
        exact Nat.lt_succ_of_le hlast
      dsimp only [burnsIn]
      rw [hlog, window_append_later hlater]

theorem hasKey_submitted (hp : Recorded .arc p) (burn : ArcBurnEvent) :
    HasKey arcId (submitted p) (arcId burn) ↔ p.isProcessed (arcId burn) = true := by
  refine ⟨?_, fun h => ?_⟩
  · rintro ⟨event, hevent, hid⟩
    obtain ⟨a, ha, rfl⟩ := List.mem_map.mp hevent
    rw [← hid]
    exact hp.processed a ha
  · obtain ⟨processed, hlookup⟩ := Option.isSome_iff_exists.mp h
    obtain ⟨a, ha, hid, -⟩ := hp.entries _ _ hlookup
    exact ⟨a.burn, List.mem_map_of_mem ha, hid⟩

theorem submitted_processArcBurn (hp : Recorded .arc p) (burn : ArcBurnEvent) :
    submitted (processArcBurn p burn burn) = insertOrIgnore arcId burn (submitted p) := by
  by_cases h : p.isProcessed (arcId burn) = true
  · rw [insertOrIgnore_of_hasKey ((hasKey_submitted hp burn).mpr h), processArcBurn, processBurn,
      if_pos h]
  · rw [insertOrIgnore_of_new (fun hkey => h ((hasKey_submitted hp burn).mp hkey)),
      processArcBurn, processBurn, if_neg h, submitted, List.map_append]
    rfl

theorem submitted_foldl (burnEvents : List ArcBurnEvent) (hp : Recorded .arc p) :
    Recorded .arc (burnEvents.foldl (fun p event => processArcBurn p event event) p) ∧
      submitted (burnEvents.foldl (fun p event => processArcBurn p event event) p) =
        insertAll arcId burnEvents (submitted p) := by
  induction burnEvents generalizing p with
  | nil => exact ⟨hp, rfl⟩
  | cons burn burnEvents ih =>
    have hnext : Recorded .arc (processArcBurn p burn burn) := recorded_deliver hp burn
    obtain ⟨hrecorded, hsubmitted⟩ := ih hnext
    refine ⟨hrecorded, ?_⟩
    rw [List.foldl_cons, hsubmitted, submitted_processArcBurn hp]
    rfl

theorem submitted_settle {k : Nat} {result : Result} (h : settle .arc p k result = .ok q) :
    submitted q = submitted p := by
  obtain ⟨burn, processed, hk, -, -, hattempts⟩ := settle_ok h
  obtain ⟨hlt, hget⟩ := List.getElem?_eq_some_iff.mp hk
  have hbound : k < (p.attempts.map Attempt.burn).length := by rwa [List.length_map]
  have hsame : burn = (p.attempts.map Attempt.burn)[k] := by rw [List.getElem_map, hget]
  rw [submitted, submitted, hattempts, List.map_set]
  dsimp only
  rw [hsame, List.set_getElem_self]

theorem Tracked.queryFilter {current : Nat} (hs : Tracked K first s)
    (hpolling : s.watcher.polling = some current) {burnEvents : List ArcBurnEvent}
    (hburns : burnEvents =
      (s.arc.queryFilter (s.watcher.lastBlock + 1) current).filterMap (parseBurnEvent K)) :
    Tracked K first { s with
      watcher := emitBurns s.watcher current burnEvents
      processor :=
        burnEvents.foldl (fun p event => processArcBurn p event event) s.processor } := by
  obtain ⟨hlt, hle⟩ := hs.polling current hpolling
  obtain ⟨hrecorded, hsubmitted⟩ := submitted_foldl burnEvents hs.recorded
  rw [queryFilter_eq] at hburns
  refine ⟨hs.started.trans hlt.le, .inr hle, fun _ hnone => (nomatch hnone), ?_, hrecorded, ?_⟩
  · dsimp only [emitBurns]
    rw [burnsIn_split K s.arc hs.started hlt.le, hs.emitted, hburns]
    rfl
  · dsimp only [emitBurns]
    rw [hsubmitted, hs.submitted_eq, insertAll, insertAll, insertAll, List.foldl_append]

theorem tracked_step {i : ArcBlocks.Input B} (hs : Tracked K first s)
    (h : ArcBlocks.step K X contract s i = .ok t) : Tracked K first t := by
  cases i with
  | transact transactionHash input =>
    simp only [ArcBlocks.step] at h
    cases harc : s.arc.transact K X contract transactionHash input with
    | error e =>
      rw [harc] at h
      cases h
    | ok arc =>
      rw [harc] at h
      cases h
      obtain ⟨hblock, hburns⟩ := burnsIn_transact harc
      refine ⟨hs.started, ?_, ?_, ?_, hs.recorded, hs.submitted_eq⟩
      · exact hblock ▸ hs.behind
      · exact hblock ▸ hs.polling
      · exact hs.emitted.trans (hburns _ hs.behind).symm
  | mine =>
    cases h
    exact ⟨hs.started, hs.behind.imp_right (fun hle => hle.trans (Nat.le_succ _)),
      fun current hc => (hs.polling current hc).imp_right (fun hle => hle.trans (Nat.le_succ _)),
      hs.emitted, hs.recorded, hs.submitted_eq⟩
  | getBlockNumber =>
    simp only [ArcBlocks.step] at h
    split at h
    next =>
      cases h
      unfold checkForEvents
      split
      next => exact hs
      next hnew =>
        refine ⟨hs.started, hs.behind, ?_, hs.emitted, hs.recorded, hs.submitted_eq⟩
        intro current hc
        cases hc
        exact ⟨not_le.mp hnew, le_rfl⟩
    next => cases h
  | queryFilter =>
    simp only [ArcBlocks.step] at h
    split at h
    next => cases h
    next current hpolling =>
      cases h
      exact hs.queryFilter hpolling rfl
  | fail =>
    cases h
    exact ⟨hs.started, hs.behind, fun _ hnone => (nomatch hnone), hs.emitted, hs.recorded,
      hs.submitted_eq⟩
  | settle k result =>
    simp only [ArcBlocks.step] at h
    cases hsettle : settle .arc s.processor k result with
    | error e =>
      rw [hsettle] at h
      cases h
    | ok processor =>
      rw [hsettle] at h
      cases h
      exact ⟨hs.started, hs.behind, hs.polling, hs.emitted,
        recorded_settle hs.recorded hsettle, (submitted_settle hsettle).trans hs.submitted_eq⟩

theorem tracked_launch (K : Crypto) (c : Blocks B) (fromBlock : Nat) :
    Tracked K (start c fromBlock).lastBlock (launch c fromBlock) where
  started := le_rfl
  behind := .inl rfl
  polling _ h := by cases h
  emitted := by
    dsimp only [launch, burnsIn]
    rw [window_nil le_rfl]
    rfl
  recorded := recorded_fresh
  submitted_eq := rfl

theorem nodup_burnsIn (c : Blocks B) (h : DistinctIds K c.toArcChain) (last : Nat) :
    ((burnsIn K c first last).map arcId).Nodup := by
  have hsub : (burnsIn K c first last).Sublist (c.log.filterMap (parseBurnEvent K)) :=
    List.filter_sublist.filterMap (parseBurnEvent K)
  exact h.sublist (hsub.map arcId)

theorem Tracked.delivered (hs : Tracked K first s) : Delivered K first s := by
  refine ⟨hs.emitted, hs.submitted_eq, fun hids => ?_⟩
  have hnodup : (s.watcher.emitted.map arcId).Nodup := by
    rw [hs.emitted]
    exact nodup_burnsIn s.arc hids _
  rw [hs.submitted_eq, insertAll_of_nodup hnodup, List.nil_append]

/-- Whatever transactions are sent and blocks mined between the requests of the
polls, whichever requests fail, and whatever becomes of the submissions: the
burns of exactly the blocks that the watcher is done with have been emitted, in
order, and the first one under each id is submitted once. -/
theorem delivered_throughout (K : Crypto) (X : Erc20 B) (contract : Account) (c : Blocks B)
    (fromBlock : Nat) (is : List (ArcBlocks.Input B)) :
    Throughout (ArcBlocks.step K X contract) (Delivered K (start c fromBlock).lastBlock)
      (launch c fromBlock) is := by
  refine throughout_mono (P := Tracked K (start c fromBlock).lastBlock)
    (fun _ hs => hs.delivered) ?_
  exact throughout_of_along (fun _ _ _ hs _ ht => tracked_step hs ht)
    (tracked_launch K c fromBlock) (along_true _ is)

end Suban.Relayer.ArcDelivery
