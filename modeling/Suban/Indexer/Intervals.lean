import Mathlib.Tactic.Linarith
import Suban.Indexer.TimeFilters

namespace Suban.Indexer.Intervals

open Suban.Basis.Calendar Suban.Basis.Numbers Suban.Basis.Timestamps
open Suban.Indexer.Database Suban.Indexer.TimeFilters

/-- A time as Horizon writes it, in parts of a second with so many decimal
places. -/
structure CreatedAt where
  places : Nat
  parts : Int
  plain : Plain (parts / 10 ^ places)

namespace CreatedAt

variable (c : CreatedAt)

def text : String := String.ofList (stamp c.places c.parts ++ ['Z'])

def instant : ℚ := c.parts / (10 ^ c.places : Nat)

/-- The places that a filter compares: it has three itself. -/
def shared : Nat := min c.places 3

def cut (q : ℚ) : Int := ⌊q * (10 ^ c.shared : Nat)⌋

end CreatedAt

section Digits

/-- The start of the year in milliseconds, for a year as `Date.parse` completes
it. -/
def yearStart (y : Int) : Int := dayFromYear y * 86400000

def fullYear (y : Nat) : Nat := if y < 50 then 2000 + y else if y < 100 then 1900 + y else y

/-- What `Date.parse` makes of digits that are in no format of its own: a month of
2001 or the year that they may stand for, in local time. -/
def looseDate (toUtc : Int → Int) (n : Nat) : Option TimeValue :=
  if 275760 < n then none
  else if 1 ≤ n ∧ n ≤ 12 then
    timeClip (toUtc (yearStart 2001 + ((monthDays false).take (n - 1)).sum * 86400000))
  else if 13 ≤ n ∧ n ≤ 31 then none
  else timeClip (toUtc (yearStart (fullYear n)))

/-- What `Date.parse` makes of a whole number. Four digits are a year, and so are
six after a sign. -/
def digitsDate (toUtc : Int → Int) (n : Int) : Option TimeValue :=
  if 1000 ≤ n ∧ n ≤ 9999 ∨ -999999 ≤ n ∧ n ≤ -100000 then timeClip (yearStart n)
  else looseDate toUtc n.natAbs

/-- Digits are read so, with the local time of the server. -/
def ReadsDigits (dateParse : String → Option TimeValue) (toUtc : Int → Int) : Prop :=
  ∀ n : Int, dateParse (toString n) = digitsDate toUtc n

/-- No Unix seconds since the first days of 1970 are a date. -/
theorem digitsDate_of_large {toUtc : Int → Int} {n : Int} (h : 275760 < n) :
    digitsDate toUtc n = none := by
  rw [digitsDate, if_neg (by omega), looseDate, if_pos (by omega)]

end Digits

/-- One end of an interval. A text in ISO-8601 stands for the instant that it
writes. -/
inductive Bound where
  | iso (text : String) (instant : ℚ)
  | unix (seconds : Int)

namespace Bound

def text : Bound → String
  | .iso text _ => text
  | .unix seconds => toString seconds

def instant : Bound → ℚ
  | .iso _ q => q
  | .unix seconds => seconds

def reading (dateParse : String → Option TimeValue) (toUtc : Int → Int) :
    Bound → Option TimeValue
  | .iso text _ => dateParse text
  | .unix seconds => digitsDate toUtc seconds

theorem reading_eq {dateParse : String → Option TimeValue} {toUtc : Int → Int}
    (h : ReadsDigits dateParse toUtc) (b : Bound) :
    b.reading dateParse toUtc = dateParse b.text := by
  cases b with
  | iso text q => rfl
  | unix n => exact (h n).symm

end Bound

section Cut

variable {c : CreatedAt} {q r : ℚ}

theorem cut_instant (c : CreatedAt) : c.cut c.instant = c.parts / 10 ^ (c.places - 3) := by
  rw [CreatedAt.cut, CreatedAt.instant, CreatedAt.shared]
  obtain h | h := Nat.le_total c.places 3
  · have hpos : ((10 ^ c.places : Nat) : ℚ) ≠ 0 := by positivity
    rw [min_eq_left h, div_mul_cancel₀ _ hpos, Nat.sub_eq_zero_of_le h, pow_zero, Int.ediv_one,
      Int.floor_intCast]
  · obtain ⟨j, hj⟩ := Nat.exists_eq_add_of_le h
    have hparts : (c.parts : ℚ) / (10 ^ c.places : Nat) * (10 ^ 3 : Nat) =
        c.parts / (10 ^ j : Nat) := by
      rw [hj, pow_add, Nat.cast_mul]
      field_simp
    rw [min_eq_right h, hparts, Rat.floor_intCast_div_natCast, hj, Nat.add_sub_cancel_left]
    push_cast
    rfl

theorem cut_eq_floor (c : CreatedAt) (q : ℚ) :
    c.cut q = ⌊q * 1000⌋ / 10 ^ (3 - c.places) := by
  have hplaces : c.shared + (3 - c.places) = 3 := by
    rw [CreatedAt.shared]
    omega
  have hscale : q * (10 ^ c.shared : Nat) = q * 1000 / (10 ^ (3 - c.places) : Nat) := by
    rw [eq_div_iff (by positivity), mul_assoc, ← Nat.cast_mul, ← pow_add, hplaces]
    norm_num
  rw [CreatedAt.cut, hscale, Int.floor_div_natCast]
  push_cast
  rfl

theorem lt_of_cut_lt (h : c.cut q < c.cut r) : q < r := by
  by_contra hle
  have hscaled : r * (10 ^ c.shared : Nat) ≤ q * (10 ^ c.shared : Nat) :=
    mul_le_mul_of_nonneg_right (not_lt.mp hle) (by positivity)
  exact absurd (Int.floor_le_floor hscaled) (not_le.mpr h)

/-- With no more places than are compared the stored text has not been cut. -/
theorem instant_le_of_cut_eq (hplaces : c.places ≤ 3) (h : c.cut c.instant = c.cut q) :
    c.instant ≤ q := by
  have hpos : (0 : ℚ) < (10 ^ c.places : Nat) := by positivity
  rw [cut_instant, Nat.sub_eq_zero_of_le hplaces, pow_zero, Int.ediv_one, CreatedAt.cut,
    CreatedAt.shared, min_eq_left hplaces] at h
  rw [CreatedAt.instant, div_le_iff₀ hpos, h]
  exact Int.floor_le _

end Cut

/-- How the filters tell that a row is not before, and not after, an instant. -/
def AtOrAfter (c : CreatedAt) (q : ℚ) : Prop :=
  c.cut q < c.cut c.instant ∨ c.cut q = c.cut c.instant ∧ c.places ≤ 3

def AtOrBefore (c : CreatedAt) (q : ℚ) : Prop :=
  c.cut c.instant < c.cut q ∨ c.cut c.instant = c.cut q ∧ 3 ≤ c.places

section Texts

variable {c : CreatedAt} {t : TimeValue}

theorem cut_milliseconds (c : CreatedAt) (t : Int) :
    c.cut ((t : ℚ) / 1000) = t / 10 ^ (3 - c.places) := by
  rw [cut_eq_floor, div_mul_cancel₀ _ (by norm_num), Int.floor_intCast]

theorem start_le_text_iff :
    toISOString t ≤ c.text ↔ (Plain (t.1 / 10 ^ 3) → AtOrAfter c (t.1 / 1000)) := by
  rw [← not_lt, CreatedAt.text, toISOString, String.lt_iff_toList_lt, String.toList_ofList,
    String.toList_ofList, AtOrAfter, cut_milliseconds, cut_instant]
  by_cases ht : Plain (t.1 / 10 ^ 3)
  · rw [lt_iso_iff c.plain ht]
    simp only [ht, forall_const]
    omega
  · have hlt := expanded_lt ['Z'] ['Z'] c.plain ht
    exact iff_of_true (lt_asymm hlt) fun h => absurd h ht

theorem text_le_stop_iff :
    c.text ≤ toISOString t ↔ Plain (t.1 / 10 ^ 3) ∧ AtOrBefore c (t.1 / 1000) := by
  rw [← not_lt, CreatedAt.text, toISOString, String.lt_iff_toList_lt, String.toList_ofList,
    String.toList_ofList, AtOrBefore, cut_milliseconds, cut_instant]
  by_cases ht : Plain (t.1 / 10 ^ 3)
  · rw [iso_lt_iff c.plain ht]
    simp only [ht, true_and]
    omega
  · have hlt := expanded_lt ['Z'] ['Z'] c.plain ht
    exact iff_of_false (not_not_intro hlt) fun h => ht h.1

end Texts

/-- Where a start that is read to the millisecond is taken for what it is. -/
def ExactStart (c : CreatedAt) (q : ℚ) : Prop :=
  if Plain (⌊q * 1000⌋ / 10 ^ 3) then
    c.cut q = c.cut c.instant → if c.places ≤ 3 then c.instant = q else c.instant < q
  else q ≤ c.instant

def ExactStop (c : CreatedAt) (q : ℚ) : Prop :=
  if Plain (⌊q * 1000⌋ / 10 ^ 3) then c.cut c.instant = c.cut q → 3 ≤ c.places ∧ c.instant ≤ q
  else q < c.instant

section Exact

variable {c : CreatedAt} {q : ℚ} {t : TimeValue}

theorem cut_floor (q : ℚ) : c.cut ((⌊q * 1000⌋ : ℚ) / 1000) = c.cut q := by
  rw [cut_milliseconds, cut_eq_floor]

theorem exactStart_iff (ht : t.1 = ⌊q * 1000⌋) :
    ExactStart c q ↔ (toISOString t ≤ c.text ↔ q ≤ c.instant) := by
  rw [start_le_text_iff, ExactStart, ht]
  by_cases hplain : Plain (⌊q * 1000⌋ / 10 ^ 3)
  · simp only [hplain, if_true, forall_const, AtOrAfter, cut_floor]
    obtain h | h | h := lt_trichotomy (c.cut q) (c.cut c.instant)
    · have hlt := lt_of_cut_lt h
      simp [h, h.ne, hlt.le]
    · by_cases hplaces : c.places ≤ 3
      · have hle := instant_le_of_cut_eq hplaces h.symm
        simp [h, hplaces, hle.ge_iff_eq]
      · simp [h, hplaces]
    · have hlt := lt_of_cut_lt h
      simp [h.not_gt, h.ne', hlt]
  · rw [if_neg hplain]
    exact (iff_true_left fun h => absurd h hplain).symm

theorem exactStop_iff (ht : t.1 = ⌊q * 1000⌋) :
    ExactStop c q ↔ (c.text ≤ toISOString t ↔ c.instant ≤ q) := by
  rw [text_le_stop_iff, ExactStop, ht]
  by_cases hplain : Plain (⌊q * 1000⌋ / 10 ^ 3)
  · simp only [hplain, if_true, true_and, AtOrBefore, cut_floor]
    obtain h | h | h := lt_trichotomy (c.cut c.instant) (c.cut q)
    · have hlt := lt_of_cut_lt h
      simp [h, h.ne, hlt.le]
    · by_cases hplaces : 3 ≤ c.places
      · simp [h, hplaces]
      · have hle := instant_le_of_cut_eq (by omega) h
        simp [h, hplaces, hle]
    · have hlt := lt_of_cut_lt h
      simp [h.not_gt, h.ne', hlt]
  · simp only [hplain, if_false, false_and, false_iff, not_le]

end Exact

section Bounds

variable (dateParse : String → Option TimeValue) (toUtc : Int → Int) (c : CreatedAt)

/-- Where a start is taken for what it is. What cannot be read is dropped, and what
is read as another instant must leave the row on the same side. -/
def StartTold (b : Bound) : Prop :=
  match b.reading dateParse toUtc with
  | none => b.instant ≤ c.instant
  | some t =>
    if t.1 = ⌊b.instant * 1000⌋ then ExactStart c b.instant
    else (Plain (t.1 / 10 ^ 3) → AtOrAfter c (t.1 / 1000)) ↔ b.instant ≤ c.instant

def StopTold (b : Bound) : Prop :=
  match b.reading dateParse toUtc with
  | none => c.instant ≤ b.instant
  | some t =>
    if t.1 = ⌊b.instant * 1000⌋ then ExactStop c b.instant
    else Plain (t.1 / 10 ^ 3) ∧ AtOrBefore c (t.1 / 1000) ↔ c.instant ≤ b.instant

def StartsBefore (start : Option Bound) : Prop := ∀ b ∈ start, b.instant ≤ c.instant

def StopsAfter (stop : Option Bound) : Prop := ∀ b ∈ stop, c.instant ≤ b.instant

/-- Both ends are taken for what they are; or one is, and the row lies outside of
it; or neither is, and the row lies outside of the one and inside of the other. -/
def Told (start stop : Option Bound) : Prop :=
  let startTold := ∀ b ∈ start, StartTold dateParse toUtc c b
  let stopTold := ∀ b ∈ stop, StopTold dateParse toUtc c b
  startTold ∧ (stopTold ∨ ¬ StartsBefore c start) ∨ stopTold ∧ ¬ StopsAfter c stop ∨
    ¬ startTold ∧ ¬ stopTold ∧ (StartsBefore c start ↔ ¬ StopsAfter c stop)

/-- The ends of the interval that a request asks for. -/
structure Asks (query : Query) (start stop : Option Bound) : Prop where
  hasStart : query "from" = start.map Bound.text
  hasStop : query "to" = stop.map Bound.text
  startText : ∀ b ∈ start, b.text ≠ ""
  stopText : ∀ b ∈ stop, b.text ≠ ""

variable {dateParse toUtc c} {b : Bound} {start stop : Option Bound} {query : Query}

theorem isoOf_text (h : b.text ≠ "") :
    isoOf dateParse (some b.text) = (dateParse b.text).map toISOString := by
  unfold isoOf
  split
  next heq => cases heq
  next heq => exact absurd (Option.some.inj heq) h
  next heq => rw [Option.some.inj heq]

theorem startTold_iff (hdigits : ReadsDigits dateParse toUtc) : StartTold dateParse toUtc c b ↔
    ((∀ t ∈ dateParse b.text, toISOString t ≤ c.text) ↔ b.instant ≤ c.instant) := by
  rw [StartTold, Bound.reading_eq hdigits]
  cases hread : dateParse b.text with
  | none => simp
  | some t =>
    simp only [Option.mem_def, Option.some.injEq, forall_eq']
    split_ifs with ht
    · exact exactStart_iff ht
    · rw [start_le_text_iff]

theorem stopTold_iff (hdigits : ReadsDigits dateParse toUtc) : StopTold dateParse toUtc c b ↔
    ((∀ t ∈ dateParse b.text, c.text ≤ toISOString t) ↔ c.instant ≤ b.instant) := by
  rw [StopTold, Bound.reading_eq hdigits]
  cases hread : dateParse b.text with
  | none => simp
  | some t =>
    simp only [Option.mem_def, Option.some.injEq, forall_eq']
    split_ifs with ht
    · exact exactStop_iff ht
    · rw [text_le_stop_iff]

theorem timeFilters_iff {α : Type} {createdAt : α → String} {row : α}
    (hasks : Asks query start stop) (hrow : createdAt row = c.text) :
    (∀ f ∈ timeFilters dateParse createdAt query, f row = true) ↔
      (∀ b ∈ start, ∀ t ∈ dateParse b.text, toISOString t ≤ c.text) ∧
        ∀ b ∈ stop, ∀ t ∈ dateParse b.text, c.text ≤ toISOString t := by
  have hiso (o : Option Bound) (htext : ∀ b ∈ o, b.text ≠ "") :
      isoOf dateParse (o.map Bound.text) =
        o.bind fun b => (dateParse b.text).map toISOString := by
    cases o with
    | none => rfl
    | some b => exact isoOf_text (htext b rfl)
  rw [timeFilters, hasks.hasStart, hasks.hasStop, hiso start hasks.startText,
    hiso stop hasks.stopText]
  simp only [List.mem_append, List.mem_map, Option.mem_toList, Option.mem_def,
    Option.bind_eq_some_iff, Option.map_eq_some_iff]
  constructor
  · intro h
    refine ⟨fun b hb t ht => ?_, fun b hb t ht => ?_⟩
    · have hpass := h _ (.inl ⟨_, ⟨b, hb, t, ht, rfl⟩, rfl⟩)
      rwa [decide_eq_true_eq, hrow] at hpass
    · have hpass := h _ (.inr ⟨_, ⟨b, hb, t, ht, rfl⟩, rfl⟩)
      rwa [decide_eq_true_eq, hrow] at hpass
  · rintro ⟨hstart, hstop⟩ f (⟨_, ⟨b, hb, t, ht, rfl⟩, rfl⟩ | ⟨_, ⟨b, hb, t, ht, rfl⟩, rfl⟩)
    · rw [decide_eq_true_eq, hrow]
      exact hstart b hb t ht
    · rw [decide_eq_true_eq, hrow]
      exact hstop b hb t ht

theorem both_told (p q i j : Prop) :
    (p ↔ i) ∧ ((q ↔ j) ∨ ¬ i) ∨ (q ↔ j) ∧ ¬ j ∨ ¬ (p ↔ i) ∧ ¬ (q ↔ j) ∧ (i ↔ ¬ j) ↔
      (p ∧ q ↔ i ∧ j) := by
  by_cases p <;> by_cases q <;> by_cases i <;> by_cases j <;> simp [*]

theorem told_iff (hdigits : ReadsDigits dateParse toUtc) : Told dateParse toUtc c start stop ↔
    ((∀ b ∈ start, ∀ t ∈ dateParse b.text, toISOString t ≤ c.text) ∧
        (∀ b ∈ stop, ∀ t ∈ dateParse b.text, c.text ≤ toISOString t) ↔
      StartsBefore c start ∧ StopsAfter c stop) := by
  have hstart : (∀ b ∈ start, StartTold dateParse toUtc c b) ↔
      ((∀ b ∈ start, ∀ t ∈ dateParse b.text, toISOString t ≤ c.text) ↔ StartsBefore c start) := by
    unfold StartsBefore
    cases start with
    | none => simp
    | some b =>
      have h := startTold_iff (b := b) (c := c) hdigits
      simpa using h
  have hstop : (∀ b ∈ stop, StopTold dateParse toUtc c b) ↔
      ((∀ b ∈ stop, ∀ t ∈ dateParse b.text, c.text ≤ toISOString t) ↔ StopsAfter c stop) := by
    unfold StopsAfter
    cases stop with
    | none => simp
    | some b =>
      have h := stopTold_iff (b := b) (c := c) hdigits
      simpa using h
  simp only [Told, hstart, hstop]
  exact both_told _ _ _ _

end Bounds

section Pages

variable {α : Type} {row : α} {rows : List α} {filters : List (α → Bool)}

theorem one_le_limitOf (query : Query) : 1 ≤ limitOf query := by
  unfold limitOf maxLimit
  omega

theorem mem_pages_iff {limit : Nat} (hlimit : 1 ≤ limit) :
    (∃ offset, row ∈ (page rows limit offset).rows) ↔ row ∈ rows := by
  constructor
  · rintro ⟨offset, h⟩
    exact List.mem_of_mem_drop (List.mem_of_mem_take h)
  · intro h
    obtain ⟨offset, hlt, rfl⟩ := List.mem_iff_getElem.mp h
    refine ⟨offset, ?_⟩
    rw [page, List.drop_eq_getElem_cons hlt]
    obtain ⟨n, rfl⟩ := Nat.exists_eq_add_of_le' hlimit
    exact List.mem_cons_self

theorem mem_select : row ∈ select rows filters ↔ row ∈ rows ∧ ∀ f ∈ filters, f row = true := by
  rw [select, List.mem_filter, List.all_eq_true]

theorem mem_newestFirst {ledger : α → Nat} {key : α → String} :
    row ∈ newestFirst ledger key rows ↔ row ∈ rows := List.mem_insertionSort _

variable {dateParse : String → Option TimeValue} {toUtc : Int → Int} {c : CreatedAt}
variable {start stop : Option Bound} {query : Query}
variable {ledger : α → Nat} {key createdAt : α → String}

theorem listed_iff (hdigits : ReadsDigits dateParse toUtc) (hasks : Asks query start stop)
    (hrow : row ∈ rows) (hcreated : createdAt row = c.text)
    (hothers : ∀ f ∈ filters, f row = true) :
    ((∃ offset, row ∈ (page (newestFirst ledger key (select rows (filters ++
        timeFilters dateParse createdAt query))) (limitOf query) offset).rows) ↔
      StartsBefore c start ∧ StopsAfter c stop) ↔ Told dateParse toUtc c start stop := by
  rw [mem_pages_iff (one_le_limitOf query), mem_newestFirst, mem_select, told_iff hdigits,
    ← timeFilters_iff hasks hcreated]
  simp only [hrow, true_and, List.mem_append]
  have hboth : (∀ f, f ∈ filters ∨ f ∈ timeFilters dateParse createdAt query → f row = true) ↔
      ∀ f ∈ timeFilters dateParse createdAt query, f row = true := by
    constructor
    · exact fun h f hf => h f (.inr hf)
    · exact fun h f hf => hf.elim (hothers f) (h f)
  rw [hboth]

theorem of_mem_page {limit offset : Nat} (hrow : row ∈ (page (newestFirst ledger key
    (select rows (filters ++ timeFilters dateParse createdAt query))) limit offset).rows) :
    row ∈ rows ∧ ∀ f ∈ filters, f row = true := by
  have hin := List.mem_of_mem_drop (List.mem_of_mem_take hrow)
  obtain ⟨hrow', hpass⟩ := mem_select.mp (mem_newestFirst.mp hin)
  exact ⟨hrow', fun f hf => hpass f (List.mem_append_left _ hf)⟩

/-- What a request returns lies in the interval where the two ends are told. -/
theorem within_of_returned (hdigits : ReadsDigits dateParse toUtc)
    (hasks : Asks query start stop) {offset : Nat}
    (hrow : row ∈ (page (newestFirst ledger key (select rows (filters ++
      timeFilters dateParse createdAt query))) (limitOf query) offset).rows)
    (hcreated : createdAt row = c.text) (htold : Told dateParse toUtc c start stop) :
    StartsBefore c start ∧ StopsAfter c stop := by
  obtain ⟨hrow', hothers⟩ := of_mem_page hrow
  exact ((listed_iff hdigits hasks hrow' hcreated hothers).mpr htold).mp ⟨offset, hrow⟩

/-- The lists of transactions and operations have the rows of the interval, and
no others, exactly where its ends are told, and then one request returns none but
those. -/
theorem intervals_exact_iff (hdigits : ReadsDigits dateParse toUtc)
    (hasks : Asks query start stop) (h : History) (accountId : Option String) :
    (∀ row ∈ h.transactions, row.createdAt = c.text →
      (∀ f ∈ transactionFilters h query accountId, f row = true) →
      (((∃ offset, row ∈ (page (selectTransactions dateParse h query accountId) (limitOf query)
          offset).rows) ↔ StartsBefore c start ∧ StopsAfter c stop) ↔
        Told dateParse toUtc c start stop)) ∧
    (∀ row ∈ h.operations, row.createdAt = c.text →
      (∀ f ∈ operationFilters h query accountId, f row = true) →
      (((∃ offset, row ∈ (page (selectOperations dateParse h query accountId) (limitOf query)
          offset).rows) ↔ StartsBefore c start ∧ StopsAfter c stop) ↔
        Told dateParse toUtc c start stop)) ∧
    (Told dateParse toUtc c start stop →
      (∀ row ∈ (queryTransactions dateParse h query accountId).rows, row.createdAt = c.text →
        StartsBefore c start ∧ StopsAfter c stop) ∧
      ∀ row ∈ (queryOperations dateParse h query accountId).rows, row.createdAt = c.text →
        StartsBefore c start ∧ StopsAfter c stop) :=
  ⟨fun _ hrow hcreated hothers => listed_iff hdigits hasks hrow hcreated hothers,
    fun _ hrow hcreated hothers => listed_iff hdigits hasks hrow hcreated hothers,
    fun htold => ⟨fun _ hrow hcreated => within_of_returned hdigits hasks hrow hcreated htold,
      fun _ hrow hcreated => within_of_returned hdigits hasks hrow hcreated htold⟩⟩

section Sample

def midnight : CreatedAt := ⟨0, 1704067200, by decide⟩

example : midnight.text = "2024-01-01T00:00:00Z" := by decide +kernel

def sampleTransaction : TransactionRow := ⟨"t1", 7, true, none, midnight.text⟩

def sampleOperation : OperationRow := ⟨"o1", "t1", 7, none, "payment", midnight.text, true⟩

def sampleHistory : History := ⟨[sampleTransaction], [sampleOperation], [], []⟩

def sampleParse (text : String) : Option TimeValue :=
  match bigInt text with
  | some n => digitsDate id n
  | none =>
    if text = "2024-01-01T00:00:00Z" then timeClip 1704067200000
    else if text = "2024-01-02T00:00:00Z" then timeClip 1704153600000 else none

theorem sampleParse_digits : ReadsDigits sampleParse id := by
  intro n
  rw [sampleParse, bigInt_toString]

def firstDay : Bound := .iso "2024-01-01T00:00:00Z" 1704067200

def secondDay : Bound := .iso "2024-01-02T00:00:00Z" 1704153600

def between (start stop : Option Bound) : Query := fun name =>
  if name = "from" then start.map Bound.text else if name = "to" then stop.map Bound.text else none

theorem midnight_instant : midnight.instant = 1704067200 := by
  norm_num [CreatedAt.instant, midnight]

theorem cut_midnight (n : Int) : midnight.cut n = n := by
  norm_num [CreatedAt.cut, CreatedAt.shared, midnight]

theorem reading_firstDay :
    firstDay.reading sampleParse id = some ⟨1704067200000, by decide⟩ := by
  have hletters : bigInt "2024-01-01T00:00:00Z" = none := by decide +kernel
  rw [firstDay, Bound.reading, sampleParse, hletters]
  rfl

theorem reading_secondDay :
    secondDay.reading sampleParse id = some ⟨1704153600000, by decide⟩ := by
  have hletters : bigInt "2024-01-02T00:00:00Z" = none := by decide +kernel
  rw [secondDay, Bound.reading, sampleParse, hletters]
  rfl

theorem read_firstDay : (1704067200000 : Int) = ⌊firstDay.instant * 1000⌋ := by
  norm_num [Bound.instant, firstDay]

theorem read_secondDay : (1704153600000 : Int) = ⌊secondDay.instant * 1000⌋ := by
  norm_num [Bound.instant, secondDay]

theorem startTold_firstDay : StartTold sampleParse id midnight firstDay := by
  rw [StartTold, reading_firstDay]
  simp only [← read_firstDay, if_true, ExactStart]
  split_ifs with hplain hplaces
  · exact fun _ => midnight_instant
  · exact absurd (by decide) hplaces
  · exact midnight_instant.ge

theorem stopTold_secondDay : StopTold sampleParse id midnight secondDay := by
  have hplain : Plain (1704153600000 / 10 ^ 3) := by decide
  have hcuts : midnight.cut midnight.instant ≠ midnight.cut secondDay.instant := by
    have hfirst := cut_midnight 1704067200
    have hsecond := cut_midnight 1704153600
    push_cast at hfirst hsecond
    rw [midnight_instant, secondDay, Bound.instant.eq_def]
    simp only [hfirst, hsecond]
    decide
  rw [StopTold, reading_secondDay]
  simp only [← read_secondDay, if_true, ExactStop, if_pos hplain]
  exact fun heq => absurd heq hcuts

theorem intervals_exact_iff_sample :
    (∃ offset, sampleTransaction ∈ (page (selectTransactions sampleParse sampleHistory
        (between (some firstDay) (some secondDay)) none)
          (limitOf (between (some firstDay) (some secondDay))) offset).rows) ↔
      StartsBefore midnight (some firstDay) ∧ StopsAfter midnight (some secondDay) := by
  have hasks : Asks (between (some firstDay) (some secondDay)) (some firstDay) (some secondDay) :=
    ⟨rfl, rfl, by decide, by decide⟩
  refine ((intervals_exact_iff sampleParse_digits hasks sampleHistory none).1 sampleTransaction
    (List.mem_singleton_self _) rfl ?_).mpr (.inl ⟨?_, .inl ?_⟩)
  · intro f hf
    cases hf
  · rintro b hb
    cases hb
    exact startTold_firstDay
  · rintro b hb
    cases hb
    exact stopTold_secondDay

/-- A row is left out of an interval that ends with it, and is found in one that
starts later, in Unix seconds. -/
theorem ends_mistaken :
    ¬ ((∃ offset, sampleTransaction ∈ (page (selectTransactions sampleParse sampleHistory
          (between none (some firstDay)) none) (limitOf (between none (some firstDay)))
            offset).rows) ↔
        StartsBefore midnight none ∧ StopsAfter midnight (some firstDay)) ∧
      ¬ ((∃ offset, sampleOperation ∈ (page (selectOperations sampleParse sampleHistory
          (between (some (.unix 1704067201)) none) none)
            (limitOf (between (some (.unix 1704067201)) none)) offset).rows) ↔
        StartsBefore midnight (some (.unix 1704067201)) ∧ StopsAfter midnight none) := by
  constructor
  · have hasks : Asks (between none (some firstDay)) none (some firstDay) :=
      ⟨rfl, rfl, by decide, by decide⟩
    have hplain : Plain (1704067200000 / 10 ^ 3) := by decide
    have hmistaken : ¬ StopTold sampleParse id midnight firstDay := by
      rw [StopTold, reading_firstDay]
      simp only [← read_firstDay, if_true, ExactStop, if_pos hplain]
      exact fun h => absurd (h (congrArg midnight.cut midnight_instant)).1 (by decide)
    intro hexact
    have htold := (listed_iff sampleParse_digits hasks (List.mem_singleton_self sampleTransaction)
      (rfl : sampleTransaction.createdAt = midnight.text) (fun f hf => by cases hf)).mp hexact
    simp [Told, StartsBefore, hmistaken] at htold
  · have hasks : Asks (between (some (.unix 1704067201)) none) (some (.unix 1704067201)) none :=
      ⟨rfl, rfl, by decide +kernel, by decide⟩
    have hstart : ¬ StartTold sampleParse id midnight (.unix 1704067201) := by
      rw [StartTold, Bound.reading, digitsDate_of_large (by decide), midnight_instant]
      norm_num [Bound.instant]
    intro hexact
    have htold := (listed_iff sampleParse_digits hasks (List.mem_singleton_self sampleOperation)
      (rfl : sampleOperation.createdAt = midnight.text) (fun f hf => by cases hf)).mp hexact
    simp [Told, StopsAfter, hstart] at htold

end Sample

end Pages

end Suban.Indexer.Intervals
