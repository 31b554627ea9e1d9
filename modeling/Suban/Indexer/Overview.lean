import Mathlib.Algebra.BigOperators.Group.List.Lemmas
import Mathlib.Data.Prod.Lex
import Suban.Indexer.Volumes

namespace Suban.Indexer.Overview

open Suban.Basis.Calls Suban.Basis.Runs Suban.Basis.Timestamps Suban.Soroban.Host
open Suban.CpmmPool.Contract
open Suban.Indexer.Database Suban.Indexer.Values Suban.Indexer.Financial Suban.Indexer.Payloads
open Suban.Indexer.LpPositions Suban.Indexer.Volumes

structure GroupRow where
  contractId : String
  contractName : String
  eventType : String
  count : Nat
  lastTimestamp : Int

def isFinancial (row : EventRow) : Bool := (classifyFinancialEvent row.eventType).isSome

def groupKey (row : EventRow) : String × String × String :=
  (row.contractId, row.contractName, row.eventType)

def groupOrder (k l : String × String × String) : Prop :=
  toLex (k.1, toLex k.2) ≤ toLex (l.1, toLex l.2)

instance (k l : String × String × String) : Decidable (groupOrder k l) :=
  inferInstanceAs (Decidable (toLex (k.1, toLex k.2) ≤ toLex (l.1, toLex l.2)))

def groupOf (own : List EventRow) (k : String × String × String) : GroupRow where
  contractId := k.1
  contractName := k.2.1
  eventType := k.2.2
  count := own.countP fun row => groupKey row = k
  lastTimestamp := (((own.filter fun row => groupKey row = k).map EventRow.timestamp).max?).getD 0

def groupRows (rows : List EventRow) : List GroupRow :=
  let own := rows.filter isFinancial
  ((own.map groupKey).dedup.insertionSort groupOrder).map (groupOf own)

structure PoolEntry where
  contractId : String
  contractName : String
  poolKind : PoolKind
  eventCount : Nat
  tradeCount : Nat
  addLiquidityCount : Nat
  removeLiquidityCount : Nat
  lastEventAt : Option String

/-- What is neither a trade nor an addition counts as a removal. -/
def kindOf (eventType : String) : PoolEventType :=
  if eventType = "swap" ∨ eventType = "ss_swap" then .swap
  else if eventType = "add_liq" ∨ eventType = "ss_add" then .addLiquidity
  else .removeLiquidity

def PoolEntry.fresh (row : GroupRow) : PoolEntry where
  contractId := row.contractId
  contractName := row.contractName
  poolKind := Financial.poolKind row.contractName row.eventType
  eventCount := 0
  tradeCount := 0
  addLiquidityCount := 0
  removeLiquidityCount := 0
  lastEventAt := none

def PoolEntry.added (entry : PoolEntry) (row : GroupRow) (time : TimeValue) : PoolEntry :=
  let entry := { entry with
    eventCount := entry.eventCount + row.count
    lastEventAt := some (toISOString time) }
  match kindOf row.eventType with
  | .swap => { entry with tradeCount := entry.tradeCount + row.count }
  | .addLiquidity => { entry with addLiquidityCount := entry.addLiquidityCount + row.count }
  | .removeLiquidity =>
    { entry with removeLiquidityCount := entry.removeLiquidityCount + row.count }

section Listing

variable (dateParse : String → Option TimeValue)

def readTime (last : Option String) : Option Int :=
  match last with
  | none => some 0
  | some text => (dateParse text).map Subtype.val

/-- The later one of two times. There is no date for a time that is out of range, or
for a text that is none. -/
def laterOf (last : Option String) (timestamp : Int) : Option TimeValue :=
  (readTime dateParse last).bind fun time => timeClip (max time (timestamp * 1000))

def PoolEntry.add (entry : PoolEntry) (row : GroupRow) : Option PoolEntry :=
  (laterOf dateParse entry.lastEventAt row.lastTimestamp).map (entry.added row)

def put (pools : List PoolEntry) (entry : PoolEntry) : List PoolEntry :=
  if pools.any fun e => e.contractId = entry.contractId then
    pools.map fun e => if e.contractId = entry.contractId then entry else e
  else pools ++ [entry]

def addRow (pools : List PoolEntry) (row : GroupRow) : Option (List PoolEntry) := do
  let current := (pools.find? fun e => e.contractId = row.contractId).getD (.fresh row)
  let entry ← current.add dateParse row
  pure (put pools entry)

/-- The list that pages are cut from. There is none where a time has no date. -/
def poolList (rows : List EventRow) : Option (List PoolEntry) :=
  (groupRows rows).foldlM (addRow dateParse) []

end Listing

def PoolEntry.countOf (e : PoolEntry) : PoolEventType → Nat
  | .swap => e.tradeCount
  | .addLiquidity => e.addLiquidityCount
  | .removeLiquidity => e.removeLiquidityCount

def countIn (groups : List GroupRow) (id : String) (p : String → Bool) : Nat :=
  ((groups.filter fun r => decide (r.contractId = id) && p r.eventType).map GroupRow.count).sum

def timesOf (groups : List GroupRow) (id : String) : List Int :=
  (groups.filter fun r => r.contractId = id).map GroupRow.lastTimestamp

/-- The last of some times in seconds, and not before the epoch. -/
structure IsLast (times : List Int) (t : Int) : Prop where
  nonneg : 0 ≤ t
  bound : ∀ x ∈ times, x * 1000 ≤ t
  attained : t = 0 ∨ ∃ x ∈ times, t = x * 1000

/-- A time as it is kept: nothing stands for the epoch. -/
def Kept (last : Option String) (t : Int) : Prop :=
  last = none ∧ t = 0 ∨ ∃ v : TimeValue, last = some (toISOString v) ∧ v.1 = t

/-- Times that have a date, which is read back as it was written, like the epoch. -/
structure Dates (dateParse : String → Option TimeValue) (times : List Int) : Prop where
  range : ∀ x ∈ times, (timeClip (x * 1000)).isSome = true
  parse : ∀ v : TimeValue, (v.1 = 0 ∨ ∃ x ∈ times, v.1 = x * 1000) →
    dateParse (toISOString v) = some v

/-- An entry adds up the groups of its pool. -/
structure Totals (groups : List GroupRow) (e : PoolEntry) : Prop where
  events : e.eventCount = countIn groups e.contractId fun _ => true
  kinds : ∀ kind, e.countOf kind = countIn groups e.contractId fun type => kindOf type = kind
  latest : ∃ t, Kept e.lastEventAt t ∧ IsLast (timesOf groups e.contractId) t

/-- Every pool is listed once, in order, with the totals of its groups. -/
structure Listed (groups : List GroupRow) (pools : List PoolEntry) : Prop where
  ascending : (pools.map PoolEntry.contractId).Pairwise (· < ·)
  covered : ∀ id, id ∈ pools.map PoolEntry.contractId ↔ id ∈ groups.map GroupRow.contractId
  totals : ∀ e ∈ pools, Totals groups e
  dated : ∀ e ∈ pools, e.lastEventAt.isSome = true

section Adding

variable {dateParse : String → Option TimeValue} {groups : List GroupRow} {row : GroupRow}
variable {pools pools' : List PoolEntry} {e e' : PoolEntry} {times : List Int} {t x : Int}

theorem countIn_append (groups : List GroupRow) (row : GroupRow) (id : String)
    (p : String → Bool) : countIn (groups ++ [row]) id p = countIn groups id p +
      if row.contractId = id ∧ p row.eventType = true then row.count else 0 := by
  rw [countIn, List.filter_append, List.map_append, List.sum_append, countIn, List.filter_singleton]
  by_cases h : row.contractId = id ∧ p row.eventType = true
  · simp [h.1, h.2]
  · have hother : (decide (row.contractId = id) && p row.eventType) = false := by simpa using h
    rw [if_neg h, hother]
    rfl

theorem timesOf_append (groups : List GroupRow) (row : GroupRow) (id : String) :
    timesOf (groups ++ [row]) id =
      timesOf groups id ++ if row.contractId = id then [row.lastTimestamp] else [] := by
  rw [timesOf, List.filter_append, List.map_append, timesOf, List.filter_singleton]
  by_cases h : row.contractId = id <;> simp [h]

theorem IsLast.add (h : IsLast times t) (x : Int) : IsLast (times ++ [x]) (max t (x * 1000)) where
  nonneg := h.nonneg.trans (le_max_left _ _)
  bound := by
    intro y hy
    obtain hy | hy := List.mem_append.mp hy
    · exact (h.bound y hy).trans (le_max_left _ _)
    · rw [List.mem_singleton.mp hy]
      exact le_max_right _ _
  attained := by
    obtain hmax | hmax := max_choice t (x * 1000)
    · rw [hmax]
      exact h.attained.imp_right fun ⟨y, hy, heq⟩ => ⟨y, List.mem_append_left _ hy, heq⟩
    · exact .inr ⟨x, List.mem_append_right _ List.mem_cons_self, hmax⟩

theorem Dates.mono {times' : List Int} (h : Dates dateParse times) (hsub : times' ⊆ times) :
    Dates dateParse times' where
  range x hx := h.range x (hsub hx)
  parse v hv := h.parse v (hv.imp_right fun ⟨x, hx, heq⟩ => ⟨x, hsub hx, heq⟩)

theorem laterOf_spec {last : Option String} (hdates : Dates dateParse (times ++ [x]))
    (hkept : Kept last t) (ht : IsLast times t) :
    ∃ v, laterOf dateParse last x = some v ∧ v.1 = max t (x * 1000) := by
  have hread : readTime dateParse last = some t := by
    obtain ⟨rfl, rfl⟩ | ⟨u, rfl, rfl⟩ := hkept
    · rfl
    · have hparse := (hdates.mono (List.subset_append_left _ _)).parse u ht.attained
      rw [readTime, hparse]
      rfl
  have hclip : ∃ v, timeClip (max t (x * 1000)) = some v := by
    refine Option.isSome_iff_exists.mp ?_
    obtain hzero | ⟨y, hy, heq⟩ := (ht.add x).attained
    · rw [hzero]
      rfl
    · rw [heq]
      exact hdates.range y hy
  obtain ⟨v, hv⟩ := hclip
  refine ⟨v, by rw [laterOf, hread, Option.bind_some, hv], ?_⟩
  unfold timeClip at hv
  split at hv
  next => exact congrArg Subtype.val (Option.some.inj hv).symm
  next => cases hv

@[simp] theorem contractId_added (e : PoolEntry) (row : GroupRow) (time : TimeValue) :
    (e.added row time).contractId = e.contractId := by
  unfold PoolEntry.added
  cases kindOf row.eventType <;> rfl

@[simp] theorem eventCount_added (e : PoolEntry) (row : GroupRow) (time : TimeValue) :
    (e.added row time).eventCount = e.eventCount + row.count := by
  unfold PoolEntry.added
  cases kindOf row.eventType <;> rfl

@[simp] theorem lastEventAt_added (e : PoolEntry) (row : GroupRow) (time : TimeValue) :
    (e.added row time).lastEventAt = some (toISOString time) := by
  unfold PoolEntry.added
  cases kindOf row.eventType <;> rfl

theorem countOf_added (e : PoolEntry) (row : GroupRow) (time : TimeValue) (kind : PoolEventType) :
    (e.added row time).countOf kind =
      e.countOf kind + if kindOf row.eventType = kind then row.count else 0 := by
  unfold PoolEntry.added
  cases kindOf row.eventType <;> cases kind <;> rfl

theorem Totals.add (h : Totals groups e) (hrow : row.contractId = e.contractId)
    (hdates : Dates dateParse (timesOf (groups ++ [row]) e.contractId)) :
    ∃ e', e.add dateParse row = some e' ∧ e'.contractId = e.contractId ∧
      e'.lastEventAt.isSome = true ∧ Totals (groups ++ [row]) e' := by
  obtain ⟨t, hkept, hlast⟩ := h.latest
  have htimes : timesOf (groups ++ [row]) e.contractId =
      timesOf groups e.contractId ++ [row.lastTimestamp] := by rw [timesOf_append, if_pos hrow]
  rw [htimes] at hdates
  obtain ⟨time, htime, heq⟩ := laterOf_spec hdates hkept hlast
  have hlatest : IsLast (timesOf (groups ++ [row]) e.contractId)
      (max t (row.lastTimestamp * 1000)) := htimes ▸ hlast.add _
  refine ⟨e.added row time, by rw [PoolEntry.add, htime, Option.map_some], by simp, by simp,
    ?_, fun kind => ?_, max t (row.lastTimestamp * 1000), .inr ⟨time, by simp, heq⟩, by simpa⟩
  · rw [contractId_added, countIn_append, if_pos ⟨hrow, rfl⟩, ← h.events, eventCount_added]
  · rw [contractId_added, countIn_append, ← h.kinds, countOf_added]
    simp only [hrow, true_and, decide_eq_true_eq]

theorem Totals.other (h : Totals groups e) (hne : row.contractId ≠ e.contractId) :
    Totals (groups ++ [row]) e where
  events := by rw [countIn_append, if_neg (fun heq => hne heq.1), add_zero, h.events]
  kinds kind := by rw [countIn_append, if_neg (fun heq => hne heq.1), add_zero, h.kinds]
  latest := by
    rw [timesOf_append, if_neg hne, List.append_nil]
    exact h.latest

theorem totals_fresh (h : row.contractId ∉ groups.map GroupRow.contractId) :
    Totals groups (.fresh row) := by
  have hnone : ∀ p : String → Bool, countIn groups row.contractId p = 0 := by
    intro p
    rw [countIn, List.filter_eq_nil_iff.mpr, List.map_nil, List.sum_nil]
    intro r hr hsame
    obtain ⟨hid, -⟩ := Bool.and_eq_true_iff.mp hsame
    exact h (List.mem_map.mpr ⟨r, hr, of_decide_eq_true hid⟩)
  have htimes : timesOf groups row.contractId = [] := by
    rw [timesOf, List.filter_eq_nil_iff.mpr, List.map_nil]
    exact fun r hr hid => h (List.mem_map.mpr ⟨r, hr, of_decide_eq_true hid⟩)
  refine ⟨(hnone _).symm, fun kind => ?_, 0, .inl ⟨rfl, rfl⟩, ?_⟩
  · cases kind <;> exact (hnone _).symm
  · refine ⟨le_rfl, ?_, .inl rfl⟩
    rw [PoolEntry.fresh, htimes]
    exact fun x hx => absurd hx List.not_mem_nil

theorem any_iff (pools : List PoolEntry) (id : String) :
    (pools.any fun f => f.contractId = id) = true ↔ id ∈ pools.map PoolEntry.contractId := by
  simp only [List.any_eq_true, decide_eq_true_eq, List.mem_map]

theorem map_put (pools : List PoolEntry) (e : PoolEntry) :
    (put pools e).map PoolEntry.contractId =
      if e.contractId ∈ pools.map PoolEntry.contractId then pools.map PoolEntry.contractId
      else pools.map PoolEntry.contractId ++ [e.contractId] := by
  unfold put
  by_cases h : e.contractId ∈ pools.map PoolEntry.contractId
  · rw [if_pos h, if_pos ((any_iff pools _).mpr h), List.map_map]
    refine List.map_congr_left fun f _ => ?_
    by_cases hf : f.contractId = e.contractId
    · rw [Function.comp_apply, if_pos hf, hf]
    · rw [Function.comp_apply, if_neg hf]
  · rw [if_neg h, if_neg (mt (any_iff pools _).mp h), List.map_append]
    rfl

theorem mem_put (h : e ∈ put pools e') : e = e' ∨ e ∈ pools ∧ e.contractId ≠ e'.contractId := by
  unfold put at h
  split at h
  next =>
    obtain ⟨f, hf, rfl⟩ := List.mem_map.mp h
    by_cases hid : f.contractId = e'.contractId
    · exact .inl (if_pos hid)
    · rw [if_neg hid]
      exact .inr ⟨hf, hid⟩
  next hnone =>
    obtain hmem | hmem := List.mem_append.mp h
    · refine .inr ⟨hmem, fun hid => hnone ((any_iff pools _).mpr ?_)⟩
      exact hid ▸ List.mem_map_of_mem hmem
    · exact .inl (List.mem_singleton.mp hmem)

theorem Listed.addRow (h : Listed groups pools)
    (hsorted : ∀ id ∈ groups.map GroupRow.contractId, id ≤ row.contractId)
    (hdates : Dates dateParse (timesOf (groups ++ [row]) row.contractId)) :
    ∃ pools', addRow dateParse pools row = some pools' ∧ Listed (groups ++ [row]) pools' := by
  obtain ⟨e, hcurrent, hid, htotals⟩ : ∃ e, (pools.find? fun e => e.contractId =
      row.contractId).getD (.fresh row) = e ∧ row.contractId = e.contractId ∧ Totals groups e := by
    cases hfind : pools.find? fun e => e.contractId = row.contractId with
    | some e =>
      obtain ⟨hfound, hmem⟩ := List.find?_eq_some_iff_append.mp hfind |>.imp_right
        fun ⟨as, bs, heq, _⟩ => heq ▸ List.mem_append_right as List.mem_cons_self
      exact ⟨e, rfl, (of_decide_eq_true hfound).symm, h.totals e hmem⟩
    | none =>
      refine ⟨_, rfl, rfl, totals_fresh fun hmem => ?_⟩
      obtain ⟨e, he, hsame⟩ := List.mem_map.mp ((h.covered _).mpr hmem)
      exact List.find?_eq_none.mp hfind e he (decide_eq_true hsame)
  obtain ⟨e', he', hid', hdated, htotals'⟩ := htotals.add hid (hid ▸ hdates)
  have hrow : e'.contractId = row.contractId := hid'.trans hid.symm
  refine ⟨put pools e', by rw [Overview.addRow, hcurrent, he']; rfl, ?_, fun id => ?_,
    fun f hf => ?_, fun f hf => ?_⟩
  · rw [map_put]
    split
    next => exact h.ascending
    next hnew =>
      refine List.pairwise_append.mpr ⟨h.ascending, List.pairwise_singleton _ _, ?_⟩
      intro a ha b hb
      rw [List.mem_singleton.mp hb]
      refine lt_of_le_of_ne (hrow ▸ hsorted a ((h.covered a).mp ha)) fun heq => ?_
      exact hnew (heq ▸ ha)
  · have hlast : id ∈ (groups ++ [row]).map GroupRow.contractId ↔
        id ∈ groups.map GroupRow.contractId ∨ id = row.contractId := by
      rw [List.map_append, List.mem_append, List.map_singleton, List.mem_singleton]
    rw [map_put, hlast, ← h.covered, hrow]
    split
    next hold => exact ⟨.inl, fun hor => hor.elim (fun hid => hid) fun heq => heq ▸ hold⟩
    next => rw [List.mem_append, List.mem_singleton]
  · obtain rfl | ⟨hmem, hne⟩ := mem_put hf
    · exact htotals'
    · exact (h.totals f hmem).other (hrow ▸ hne.symm)
  · obtain rfl | ⟨hmem, -⟩ := mem_put hf
    · exact hdated
    · exact h.dated f hmem

theorem listed_of_fold (hsorted : (groups.map GroupRow.contractId).Pairwise (· ≤ ·))
    (hdates : Dates dateParse (groups.map GroupRow.lastTimestamp)) :
    ∃ pools, groups.foldlM (Overview.addRow dateParse) [] = some pools ∧ Listed groups pools := by
  induction groups using List.reverseRecOn with
  | nil =>
    exact ⟨[], rfl, .nil, fun _ => .rfl, fun _ he => absurd he List.not_mem_nil,
      fun _ he => absurd he List.not_mem_nil⟩
  | append_singleton groups row ih =>
    have htimes : timesOf (groups ++ [row]) row.contractId ⊆
        (groups ++ [row]).map GroupRow.lastTimestamp := (List.filter_sublist.map _).subset
    have hlast := hdates.mono htimes
    rw [List.map_append] at hsorted hdates
    obtain ⟨hfirst, -, hle⟩ := List.pairwise_append.mp hsorted
    obtain ⟨before, hbefore, hlisted⟩ := ih hfirst (hdates.mono (List.subset_append_left _ _))
    obtain ⟨after, hafter, hlisted'⟩ := hlisted.addRow
      (fun id hid => hle id hid _ List.mem_cons_self) hlast
    refine ⟨after, ?_, hlisted'⟩
    rw [List.foldlM_append, hbefore]
    exact (congrArg (· >>= pure) hafter).trans rfl

end Adding

section Grouping

variable {dateParse : String → Option TimeValue} {own rows : List EventRow} {row : EventRow}
variable {k : String × String × String} {groups : List GroupRow} {pools : List PoolEntry} {t : Int}

instance : Std.Total groupOrder := ⟨fun _ _ => le_total _ _⟩

instance : IsTrans _ groupOrder := ⟨fun _ _ _ => le_trans⟩

def groupKeys (own : List EventRow) : List (String × String × String) :=
  (own.map groupKey).dedup.insertionSort groupOrder

theorem groupRows_eq (rows : List EventRow) :
    groupRows rows =
      (groupKeys (rows.filter isFinancial)).map (groupOf (rows.filter isFinancial)) := rfl

theorem groupKeys_perm (own : List EventRow) : (groupKeys own).Perm (own.map groupKey).dedup :=
  List.perm_insertionSort _ _

theorem mem_groupKeys : k ∈ groupKeys own ↔ ∃ row ∈ own, groupKey row = k := by
  rw [(groupKeys_perm own).mem_iff, List.mem_dedup, List.mem_map]

theorem ascending_groupRows (rows : List EventRow) :
    ((groupRows rows).map GroupRow.contractId).Pairwise (· ≤ ·) := by
  rw [groupRows_eq, List.map_map]
  refine (List.pairwise_insertionSort groupOrder _).map _ fun k l h => ?_
  exact (Prod.Lex.toLex_le_toLex.mp h).elim le_of_lt fun h => h.1.le

theorem mem_ids_groupRows {id : String} : id ∈ (groupRows rows).map GroupRow.contractId ↔
    ∃ row ∈ rows.filter isFinancial, row.contractId = id := by
  rw [groupRows_eq, List.map_map, List.mem_map]
  constructor
  · rintro ⟨k, hk, rfl⟩
    obtain ⟨row, hrow, rfl⟩ := mem_groupKeys.mp hk
    exact ⟨row, hrow, rfl⟩
  · rintro ⟨row, hrow, rfl⟩
    exact ⟨groupKey row, mem_groupKeys.mpr ⟨row, hrow, rfl⟩, rfl⟩

theorem sum_counts {κ : Type} [DecidableEq κ] (key : EventRow → κ) (own : List EventRow)
    (q : κ → Bool) : (((own.map key).dedup.filter q).map fun k =>
      own.countP fun row => key row = k).sum = own.countP (q ∘ key) := by
  have hcount (k : κ) : (own.countP fun row => key row = k) = (own.map key).count k := by
    rw [List.count_eq_countP, List.countP_map]
    rfl
  simp only [hcount]
  rw [List.sum_map_count_dedup_filter_eq_countP, List.countP_map]

theorem countIn_groupRows (rows : List EventRow) (id : String) (p : String → Bool) :
    countIn (groupRows rows) id p = (rows.filter isFinancial).countP fun row =>
      decide (row.contractId = id) && p row.eventType := by
  let own := rows.filter isFinancial
  let q : String × String × String → Bool := fun k => decide (k.1 = id) && p k.2.2
  calc countIn (groupRows rows) id p
      = (((groupKeys own).filter q).map fun k => (groupOf own k).count).sum := by
        rw [countIn, groupRows_eq, List.filter_map, List.map_map]
        rfl
    _ = (((own.map groupKey).dedup.filter q).map fun k => (groupOf own k).count).sum :=
        (((groupKeys_perm own).filter q).map _).sum_eq
    _ = own.countP (q ∘ groupKey) := sum_counts groupKey own q

theorem lastTimestamp_spec (h : ∃ row ∈ own, groupKey row = k) :
    (∃ row ∈ own, groupKey row = k ∧ (groupOf own k).lastTimestamp = row.timestamp) ∧
      ∀ row ∈ own, groupKey row = k → row.timestamp ≤ (groupOf own k).lastTimestamp := by
  let times := (own.filter fun row => groupKey row = k).map EventRow.timestamp
  have hmem : ∀ x, x ∈ times ↔ ∃ row ∈ own, groupKey row = k ∧ x = row.timestamp := by
    intro x
    simp only [times, List.mem_map, List.mem_filter, decide_eq_true_eq, and_assoc, @eq_comm _ x]
  obtain ⟨row, hrow, hkey⟩ := h
  cases hmax : times.max? with
  | none =>
    have hin : row.timestamp ∈ times := (hmem _).mpr ⟨row, hrow, hkey, rfl⟩
    rw [List.max?_eq_none_iff.mp hmax] at hin
    cases hin
  | some last =>
    have hlast : (groupOf own k).lastTimestamp = last := congrArg (·.getD 0) hmax
    obtain ⟨hin, hbound⟩ := List.max?_eq_some_iff.mp hmax
    rw [hlast]
    exact ⟨(hmem _).mp hin, fun r hr hrkey => hbound _ ((hmem _).mpr ⟨r, hr, hrkey, rfl⟩)⟩

theorem isLast_groupRows {id : String} (h : IsLast (timesOf (groupRows rows) id) t) :
    IsLast (((rows.filter isFinancial).filter fun row => row.contractId = id).map
      EventRow.timestamp) t := by
  have hmem : ∀ x, x ∈ timesOf (groupRows rows) id ↔ ∃ k ∈ groupKeys (rows.filter isFinancial),
      k.1 = id ∧ (groupOf (rows.filter isFinancial) k).lastTimestamp = x := by
    intro x
    rw [timesOf, groupRows_eq, List.filter_map, List.map_map]
    simp only [List.mem_map, List.mem_filter, Function.comp_apply, decide_eq_true_eq, and_assoc]
    rfl
  refine ⟨h.nonneg, fun x hx => ?_, h.attained.imp_right fun ⟨x, hx, heq⟩ => ⟨x, ?_, heq⟩⟩
  · obtain ⟨row, hrow, rfl⟩ := List.mem_map.mp hx
    obtain ⟨hrow, hid⟩ := List.mem_filter.mp hrow
    have hk : ∃ r ∈ rows.filter isFinancial, groupKey r = groupKey row := ⟨row, hrow, rfl⟩
    have hle := (lastTimestamp_spec hk).2 row hrow rfl
    have hlast := h.bound _ ((hmem _).mpr ⟨_, mem_groupKeys.mpr hk, of_decide_eq_true hid, rfl⟩)
    omega
  · obtain ⟨k, hk, rfl, rfl⟩ := (hmem x).mp hx
    obtain ⟨row, hrow, hkey, htime⟩ := (lastTimestamp_spec (mem_groupKeys.mp hk)).1
    rw [htime]
    refine List.mem_map_of_mem (List.mem_filter.mpr ⟨hrow, decide_eq_true ?_⟩)
    exact congrArg Prod.fst hkey

theorem dates_groupRows (h : Dates dateParse (rows.map EventRow.timestamp)) :
    Dates dateParse ((groupRows rows).map GroupRow.lastTimestamp) := by
  refine h.mono fun x hx => ?_
  rw [groupRows_eq, List.map_map] at hx
  obtain ⟨k, hk, rfl⟩ := List.mem_map.mp hx
  obtain ⟨row, hrow, -, htime⟩ := (lastTimestamp_spec (mem_groupKeys.mp hk)).1
  exact List.mem_map.mpr ⟨row, List.mem_of_mem_filter hrow, htime.symm⟩

end Grouping

section Rows

variable {dateParse : String → Option TimeValue} {rows : List EventRow} {pools : List PoolEntry}

theorem filter_isPoolRow (rows : List EventRow) (id : String) :
    (rows.filter isFinancial).filter (fun row => row.contractId = id) =
      rows.filter (isPoolRow id) := List.filter_filter

theorem countIn_pool (rows : List EventRow) (id : String) (p : String → Bool) :
    countIn (groupRows rows) id p =
      (rows.filter (isPoolRow id)).countP fun row => p row.eventType := by
  rw [countIn_groupRows, ← filter_isPoolRow]
  generalize rows.filter isFinancial = own
  rw [List.countP_filter]
  refine List.countP_congr fun row _ => ?_
  rw [Bool.and_comm]

/-- Each pool with an event is listed once, in order, with all its events, however
many, and the time of the last. -/
structure ListsAll (rows : List EventRow) (pools : List PoolEntry) : Prop where
  ascending : (pools.map PoolEntry.contractId).Pairwise (· < ·)
  covered : ∀ id, id ∈ pools.map PoolEntry.contractId ↔ rows.filter (isPoolRow id) ≠ []
  events : ∀ e ∈ pools, e.eventCount = (rows.filter (isPoolRow e.contractId)).length
  kinds : ∀ e ∈ pools, ∀ kind, e.countOf kind =
    (rows.filter (isPoolRow e.contractId)).countP fun row => kindOf row.eventType = kind
  latest : ∀ e ∈ pools, ∃ time : TimeValue, e.lastEventAt = some (toISOString time) ∧
    IsLast ((rows.filter (isPoolRow e.contractId)).map EventRow.timestamp) time.1

theorem Listed.listsAll (h : Listed (groupRows rows) pools) : ListsAll rows pools where
  ascending := h.ascending
  covered id := by
    rw [h.covered, mem_ids_groupRows, ← filter_isPoolRow, Ne, List.filter_eq_nil_iff]
    simp only [decide_eq_true_eq, not_forall, not_not, exists_prop]
  events e he := by
    rw [(h.totals e he).events, countIn_pool, List.countP_true]
  kinds e he kind := by
    rw [(h.totals e he).kinds]
    exact countIn_pool rows e.contractId fun type => kindOf type = kind
  latest e he := by
    obtain ⟨t, hkept, hlast⟩ := (h.totals e he).latest
    have hdated := h.dated e he
    obtain ⟨hnone, -⟩ | ⟨time, hshown, rfl⟩ := hkept
    · rw [hnone] at hdated
      cases hdated
    · exact ⟨time, hshown, filter_isPoolRow rows _ ▸ isLast_groupRows hlast⟩

theorem listsAll_poolList (h : Dates dateParse (rows.map EventRow.timestamp)) :
    ∃ pools, poolList dateParse rows = some pools ∧ ListsAll rows pools := by
  obtain ⟨pools, hpools, hlisted⟩ := listed_of_fold (ascending_groupRows rows) (dates_groupRows h)
  exact ⟨pools, hpools, hlisted.listsAll⟩

end Rows

section Run

variable {X Address W : Type} [DecidableEq Address] {contract tokenA tokenB : Address}
variable {T : Sep41 Address W} {S : Strkeys Address} {sdk : ScValSdk X} {s : Storage Address W}
variable {rows : List EventRow} {contractId : String}

omit [DecidableEq Address] in
theorem kindOf_stored {event : Event Address} {row : EventRow}
    (h : Stored sdk S (publishedCpmm event) row) :
    kindOf row.eventType = (dealOf event).kind := by
  rw [h.eventType]
  cases event <;> rfl

theorem kinds_perm {env : Env Address contract} {w : W} {admin : Address} {feeBps : Nat}
    (h : initialise env (.fresh w) admin tokenA tokenB feeBps = .ok s)
    (is : List (Input Address W contract (Call Address)))
    (hindexed : FullyIndexed sdk S (run (step T) s is).events rows contractId) :
    ((rows.filter (isPoolRow contractId)).map fun row => kindOf row.eventType).Perm
      ((deals T s is).map Deal.kind) := by
  obtain ⟨own, hperm, hstored⟩ := hindexed
  have hown : (own.map fun row => kindOf row.eventType) =
      ((run (step T) s is).events.map dealOf).map Deal.kind := by
    clear hperm
    generalize (run (step T) s is).events = events at hstored
    induction hstored with
    | nil => rfl
    | cons hrow _ ih =>
      rw [List.map_cons, List.map_cons, List.map_cons, ih, kindOf_stored hrow]
  rw [← dealOf_events h, ← hown]
  exact hperm.map _

structure Counts (told : List (Deal Address)) (e : PoolEntry) : Prop where
  events : e.eventCount = told.length
  kinds : ∀ kind, e.countOf kind = told.countP fun d => d.kind = kind

/-- The list of the pools counts every accepted call of an indexed pool, and has
the pool from its first one on. -/
theorem pools_count_calls {env : Env Address contract} {w : W} {admin : Address} {feeBps : Nat}
    (h : initialise env (.fresh w) admin tokenA tokenB feeBps = .ok s)
    (is : List (Input Address W contract (Call Address)))
    (hindexed : FullyIndexed sdk S (run (step T) s is).events rows contractId)
    {dateParse : String → Option TimeValue}
    (hdates : Dates dateParse (rows.map EventRow.timestamp)) :
    ∃ pools, poolList dateParse rows = some pools ∧ ListsAll rows pools ∧
      (contractId ∈ pools.map PoolEntry.contractId ↔ deals T s is ≠ []) ∧
      ∀ e ∈ pools, e.contractId = contractId → Counts (deals T s is) e := by
  obtain ⟨pools, hpools, hall⟩ := listsAll_poolList hdates
  have hkinds := kinds_perm h is hindexed
  have hlength : (rows.filter (isPoolRow contractId)).length = (deals T s is).length := by
    rw [← List.length_map, hkinds.length_eq, List.length_map]
  refine ⟨pools, hpools, hall, ?_, ?_⟩
  · rw [hall.covered, ← List.length_pos_iff, hlength, List.length_pos_iff]
  · rintro e he rfl
    refine ⟨(hall.events e he).trans hlength, fun kind => (hall.kinds e he kind).trans ?_⟩
    have hcount := hkinds.countP_eq fun k => k = kind
    rw [List.countP_map, List.countP_map] at hcount
    exact hcount

end Run

section Sample

def epoch : TimeValue := ⟨0, by decide⟩

def epochParse (text : String) : Option TimeValue :=
  if text = toISOString epoch then some epoch else none

theorem dates_deposit : Dates epochParse ([depositRow 1].map EventRow.timestamp) where
  range x hx := by
    rw [List.mem_singleton.mp hx]
    decide
  parse v hv := by
    have hzero : v = epoch := by
      refine Subtype.ext (hv.elim id ?_)
      rintro ⟨x, hx, heq⟩
      rw [heq, List.mem_singleton.mp hx]
      rfl
    rw [hzero, epochParse, if_pos rfl]

theorem pools_count_calls_sample : ∃ pools, poolList epochParse [depositRow 1] = some pools ∧
    ListsAll [depositRow 1] pools ∧
    ("C1" ∈ pools.map PoolEntry.contractId ↔
      deals (bookToken (Fin 5)) openPool [deposit 1] ≠ []) ∧
    ∀ e ∈ pools, e.contractId = "C1" → Counts (deals (bookToken (Fin 5)) openPool [deposit 1]) e :=
  pools_count_calls initialise_openPool [deposit 1] (indexed_deposit 1 (.inl rfl)) dates_deposit

end Sample

end Suban.Indexer.Overview
