import Mathlib.Algebra.Order.AddGroupWithTop
import Mathlib.Data.List.Count
import Mathlib.Data.List.Induction
import Mathlib.Data.List.Pairwise
import Suban.Basis.Doubles

namespace Suban.Indexer.Quotas

open Suban.Basis.Doubles

/-- A double above zero, which need not be whole. It is infinite when it was
written too large. -/
structure Limit where
  value : WithTop ℚ
  positive : 0 < value
  double : ∀ q : ℚ, value = q → toDouble q = q

def Limit.ofNat (n : Nat) (hpos : 0 < n) (hn : n ≤ 2 ^ 53) : Limit where
  value := (n : ℚ)
  positive := by exact_mod_cast hpos
  double q hq := by
    rw [← WithTop.coe_inj.mp hq]
    exact toDouble_natCast hn

structure ApiKeyConfig where
  id : String
  perMinute : Limit
  perDay : Limit

structure UsageResult where
  allowed : Bool
  minuteRemaining : WithTop ℚ
  dayRemaining : WithTop ℚ
  deriving DecidableEq

inductive WindowKind where
  | minute
  | day
  deriving DecidableEq

structure UsageRow where
  keyId : String
  windowKind : WindowKind
  windowStart : Nat
  count : Nat

/-- Times are in milliseconds, and the starts of windows in seconds. -/
def WindowKind.milliseconds : WindowKind → Nat
  | .minute => 60000
  | .day => 86400000

def WindowKind.seconds : WindowKind → Nat
  | .minute => 60
  | .day => 86400

def windowStart (kind : WindowKind) (now : Nat) : Nat := now / kind.milliseconds * kind.seconds

def minus (x : WithTop ℚ) (n : Nat) : WithTop ℚ := x.map fun q => toDouble (q - n)

def left (limit : Limit) (count : Nat) : WithTop ℚ := max 0 (minus limit.value count)

section Store

variable (rows : List UsageRow)

def isRow (keyId : String) (kind : WindowKind) (start : Nat) (row : UsageRow) : Bool :=
  row.keyId = keyId && row.windowKind = kind && row.windowStart = start

def read (keyId : String) (kind : WindowKind) (start : Nat) : Nat :=
  ((rows.find? (isRow keyId kind start)).map UsageRow.count).getD 0

def addOne (keyId : String) (kind : WindowKind) (start : Nat) (row : UsageRow) : UsageRow :=
  if isRow keyId kind start row then { row with count := row.count + 1 } else row

def increment (keyId : String) (kind : WindowKind) (start : Nat) : List UsageRow :=
  if rows.any (isRow keyId kind start) then rows.map (addOne keyId kind start)
  else rows ++ [⟨keyId, kind, start, 1⟩]

def consume (key : ApiKeyConfig) (now : Nat) : UsageResult × List UsageRow :=
  let minuteStart := windowStart .minute now
  let dayStart := windowStart .day now
  let minuteRemaining := left key.perMinute (read rows key.id .minute minuteStart)
  let dayRemaining := left key.perDay (read rows key.id .day dayStart)
  if minuteRemaining ≤ 0 ∨ dayRemaining ≤ 0 then (⟨false, minuteRemaining, dayRemaining⟩, rows)
  else (⟨true, minus minuteRemaining 1, minus dayRemaining 1⟩,
    increment (increment rows key.id .minute minuteStart) key.id .day dayStart)

/-- Windows are forgotten when they began before the day before yesterday. -/
def prune (now : Nat) : List UsageRow :=
  rows.filter fun row =>
    decide ((windowStart .day now : Int) - 2 * 86400 ≤ row.windowStart)

end Store

inductive Call where
  | consume (key : ApiKeyConfig) (now : Nat)
  | prune (now : Nat)

def Call.time : Call → Nat
  | .consume _ now => now
  | .prune now => now

def Call.isConsume : Call → Bool
  | .consume _ _ => true
  | .prune _ => false

structure Entry where
  key : ApiKeyConfig
  time : Nat
  result : UsageResult

def run : List UsageRow → List Call → List Entry
  | _, [] => []
  | rows, .consume key now :: calls =>
    ⟨key, now, (consume rows key now).1⟩ :: run (consume rows key now).2 calls
  | rows, .prune now :: calls => run (prune rows now) calls

section Rows

variable {rows : List UsageRow} {keyId keyId' : String} {kind kind' : WindowKind}
variable {start start' now : Nat}

theorem isRow_iff {row : UsageRow} : isRow keyId kind start row = true ↔
    row.keyId = keyId ∧ row.windowKind = kind ∧ row.windowStart = start := by
  simp [isRow, and_assoc]

theorem isRow_addOne : isRow keyId' kind' start' ∘ addOne keyId kind start =
    isRow keyId' kind' start' := by
  funext row
  rw [Function.comp_apply, addOne]
  split <;> rfl

theorem isRow_eq_false {row : UsageRow} (h : isRow keyId' kind' start' row = true)
    (hne : ¬ (keyId' = keyId ∧ kind' = kind ∧ start' = start)) :
    isRow keyId kind start row = false := by
  obtain ⟨rfl, rfl, rfl⟩ := isRow_iff.mp h
  rw [← Bool.not_eq_true, isRow_iff]
  exact hne

theorem read_increment_same : read (increment rows keyId kind start) keyId kind start =
    read rows keyId kind start + 1 := by
  rw [increment, read, read]
  cases hfind : rows.find? (isRow keyId kind start) with
  | none =>
    have hnone : rows.any (isRow keyId kind start) = false :=
      List.any_eq_false.mpr (List.find?_eq_none.mp hfind)
    have hnew : isRow keyId kind start ⟨keyId, kind, start, 1⟩ = true :=
      isRow_iff.mpr ⟨rfl, rfl, rfl⟩
    rw [hnone, if_neg Bool.false_ne_true, List.find?_append, hfind, Option.none_or,
      List.find?_singleton, hnew]
    rfl
  | some row =>
    have hrow := List.find?_some hfind
    have hany : rows.any (isRow keyId kind start) = true :=
      List.any_eq_true.mpr ⟨row, List.mem_of_find?_eq_some hfind, hrow⟩
    rw [if_pos hany, List.find?_map, isRow_addOne, hfind, Option.map_some, addOne, if_pos hrow]
    rfl

theorem read_increment_other (hne : ¬ (keyId' = keyId ∧ kind' = kind ∧ start' = start)) :
    read (increment rows keyId kind start) keyId' kind' start' = read rows keyId' kind' start' := by
  rw [increment, read, read]
  split
  · rw [List.find?_map, isRow_addOne]
    cases hfind : rows.find? (isRow keyId' kind' start') with
    | none => rfl
    | some row =>
      have hother := isRow_eq_false (List.find?_some hfind) hne
      rw [Option.map_some, addOne, if_neg (by rw [hother]; exact Bool.false_ne_true)]
  · have hnew : isRow keyId' kind' start' ⟨keyId, kind, start, 1⟩ = false := by
      rw [← Bool.not_eq_true, isRow_iff]
      rintro ⟨rfl, rfl, rfl⟩
      exact hne ⟨rfl, rfl, rfl⟩
    rw [List.find?_append, List.find?_singleton, hnew, if_neg Bool.false_ne_true, Option.or_none]

theorem read_prune (h : (windowStart .day now : Int) - 2 * 86400 ≤ start) :
    read (prune rows now) keyId kind start = read rows keyId kind start := by
  have hkept : (fun row : UsageRow => decide (decide ((windowStart .day now : Int) - 2 * 86400 ≤
      row.windowStart) = true ∧ isRow keyId kind start row = true)) = isRow keyId kind start := by
    funext row
    cases hrow : isRow keyId kind start row with
    | false => simp
    | true =>
      obtain ⟨-, -, rfl⟩ := isRow_iff.mp hrow
      simpa using h
  rw [read, read, prune, List.find?_filter, hkept]

end Rows

def granted (log : List Entry) (keyId : String) (kind : WindowKind) (now : Nat) : Nat :=
  log.countP fun e => e.key.id = keyId && e.result.allowed &&
    e.time / kind.milliseconds = now / kind.milliseconds

def due (log : List Entry) (key : ApiKeyConfig) (now : Nat) : UsageResult :=
  let minuteRemaining := left key.perMinute (granted log key.id .minute now)
  let dayRemaining := left key.perDay (granted log key.id .day now)
  if minuteRemaining ≤ 0 ∨ dayRemaining ≤ 0 then ⟨false, minuteRemaining, dayRemaining⟩
  else ⟨true, minus minuteRemaining 1, minus dayRemaining 1⟩

def ideal : List Entry → List Call → List Entry
  | _, [] => []
  | log, .consume key now :: calls =>
    let entry : Entry := ⟨key, now, due log key now⟩
    entry :: ideal (log ++ [entry]) calls
  | log, .prune _ :: calls => ideal log calls

/-- The rows tell the calls in a log for every window that is not over. -/
def Tells (rows : List UsageRow) (log : List Entry) (time : Nat) : Prop :=
  ∀ keyId kind now, time ≤ now →
    read rows keyId kind (windowStart kind now) = granted log keyId kind now

section Refinement

variable {rows : List UsageRow} {log : List Entry} {time now : Nat} {key : ApiKeyConfig}
variable {keyId : String}

theorem windowStart_inj {kind : WindowKind} {m n : Nat} :
    windowStart kind m = windowStart kind n ↔ m / kind.milliseconds = n / kind.milliseconds := by
  have hpos : 0 < kind.seconds := by cases kind <;> decide
  exact ⟨fun h => Nat.eq_of_mul_eq_mul_right hpos h, fun h => by rw [windowStart, windowStart, h]⟩

theorem granted_append (e : Entry) (keyId : String) (kind : WindowKind) (now : Nat) :
    granted (log ++ [e]) keyId kind now = granted log keyId kind now +
      if e.key.id = keyId ∧ e.result.allowed = true ∧
        e.time / kind.milliseconds = now / kind.milliseconds then 1 else 0 := by
  rw [granted, List.countP_append, List.countP_singleton]
  simp [granted, and_assoc]

theorem Tells.later (h : Tells rows log time) (hle : time ≤ now) : Tells rows log now :=
  fun keyId kind t ht => h keyId kind t (Nat.le_trans hle ht)

theorem Tells.prune (h : Tells rows log time) (hle : time ≤ now) :
    Tells (prune rows now) log now := by
  intro keyId kind t ht
  rw [read_prune, h keyId kind t (Nat.le_trans hle ht)]
  cases kind <;> simp only [windowStart, WindowKind.milliseconds, WindowKind.seconds] <;> omega

theorem read_counted (keyId' : String) (kind : WindowKind) (t : Nat) :
    read (increment (increment rows keyId .minute (windowStart .minute now)) keyId .day
        (windowStart .day now)) keyId' kind (windowStart kind t) =
      read rows keyId' kind (windowStart kind t) +
        if keyId = keyId' ∧ now / kind.milliseconds = t / kind.milliseconds then 1 else 0 := by
  by_cases hsame : keyId = keyId' ∧ now / kind.milliseconds = t / kind.milliseconds
  · obtain ⟨rfl, hwindow⟩ := hsame
    rw [if_pos ⟨rfl, hwindow⟩, ← windowStart_inj.mpr hwindow]
    cases kind with
    | minute => rw [read_increment_other (fun h => absurd h.2.1 (by decide)), read_increment_same]
    | day => rw [read_increment_same, read_increment_other (fun h => absurd h.2.1 (by decide))]
  · have hother {kind'} (h : keyId' = keyId ∧ kind = kind' ∧
        windowStart kind t = windowStart kind' now) : False := by
      obtain ⟨rfl, rfl, hwindow⟩ := h
      exact hsame ⟨rfl, (windowStart_inj.mp hwindow).symm⟩
    rw [if_neg hsame, Nat.add_zero, read_increment_other hother, read_increment_other hother]

theorem Tells.consume (key : ApiKeyConfig) (h : Tells rows log time) (hle : time ≤ now) :
    (consume rows key now).1 = due log key now ∧
      Tells (consume rows key now).2 (log ++ [⟨key, now, due log key now⟩]) now := by
  have hminute := h key.id .minute now hle
  have hday := h key.id .day now hle
  simp only [Quotas.consume, due, hminute, hday]
  split
  · refine ⟨rfl, fun keyId kind t ht => ?_⟩
    rw [granted_append, if_neg (fun hallowed => Bool.false_ne_true hallowed.2.1), Nat.add_zero]
    exact h keyId kind t (Nat.le_trans hle ht)
  · refine ⟨rfl, fun keyId kind t ht => ?_⟩
    have hold := h keyId kind t (Nat.le_trans hle ht)
    rw [granted_append, ← hold, read_counted]
    simp

theorem run_eq_ideal {calls : List Call} (h : Tells rows log time)
    (hsorted : (time :: calls.map Call.time).Pairwise (· ≤ ·)) :
    run rows calls = ideal log calls := by
  induction calls generalizing rows log time with
  | nil => rfl
  | cons call calls ih =>
    obtain ⟨hfirst, hrest⟩ := List.pairwise_cons.mp hsorted
    cases call with
    | consume key now =>
      have hle : time ≤ now := hfirst _ List.mem_cons_self
      obtain ⟨hanswer, htells⟩ := h.consume key hle
      rw [run, ideal, hanswer, ih htells hrest]
    | prune now =>
      have hle : time ≤ now := hfirst _ List.mem_cons_self
      rw [run, ideal, ih (h.prune hle) hrest]

/-- With nothing counted yet the store of rows answers as if nothing were ever
forgotten. -/
theorem run_nil_eq_ideal {calls : List Call}
    (hsorted : (calls.map Call.time).Pairwise (· ≤ ·)) : run [] calls = ideal [] calls :=
  have hnone : Tells [] [] 0 := fun _ _ _ _ => rfl
  run_eq_ideal hnone (List.pairwise_cons.mpr ⟨fun _ _ => Nat.zero_le _, hsorted⟩)

end Refinement

def ApiKeyConfig.limit (key : ApiKeyConfig) : WindowKind → Limit
  | .minute => key.perMinute
  | .day => key.perDay

def UsageResult.remaining (result : UsageResult) : WindowKind → WithTop ℚ
  | .minute => result.minuteRemaining
  | .day => result.dayRemaining

def Throughout {α : Type} (P : List α → α → Prop) (log : List α) : Prop :=
  ∀ before x after, log = before ++ x :: after → P before x

/-- No key is let through more often than it may be, none is refused before, and
the answers tell what is left. -/
structure Exact (log : List Entry) : Prop where
  within : ∀ e ∈ log, ∀ kind now,
    (granted log e.key.id kind now : WithTop ℚ) ≤ (e.key.limit kind).value
  refused : Throughout (fun before e => e.result.allowed = false →
    ∃ kind, (granted before e.key.id kind e.time : WithTop ℚ) = (e.key.limit kind).value) log
  remaining : Throughout (fun before e => ∀ kind, e.result.remaining kind +
    (granted (before ++ [e]) e.key.id kind e.time : WithTop ℚ) = (e.key.limit kind).value) log

def Fixed (calls : List Call) : Prop :=
  ∀ key key' now now', Call.consume key now ∈ calls → Call.consume key' now' ∈ calls →
    key.id = key'.id → key = key'

def Limit.Small (limit : Limit) : Prop := ∀ q : ℚ, limit.value = q → q ≤ 2 ^ 53

/-- Where something is left of both windows, a whole call is left of each. -/
def Fits (key : ApiKeyConfig) (count : WindowKind → Nat) : Prop :=
  ∀ kind, (key.limit kind).Small ∧
    ((∀ kind', (count kind' : WithTop ℚ) < (key.limit kind').value) →
      ((count kind + 1 : Nat) : WithTop ℚ) ≤ (key.limit kind).value)

/-- The counts that the calls of a run find fit the limits. -/
def Covered : List UsageRow → List Call → Prop
  | _, [] => True
  | rows, .consume key now :: calls =>
    Fits key (fun kind => read rows key.id kind (windowStart kind now)) ∧
      Covered (consume rows key now).2 calls
  | rows, .prune now :: calls => Covered (prune rows now) calls

section Limits

variable {limit : Limit} {n : Nat}

theorem left_pos_iff : 0 < left limit n ↔ (n : WithTop ℚ) < limit.value := by
  unfold left
  cases hv : limit.value with
  | top => simp [minus]
  | coe q =>
    have hdouble := toDouble_sub_pos_iff (limit.double q hv) n
    rw [lt_max_iff, or_iff_right (lt_irrefl _), minus, WithTop.map_coe]
    exact_mod_cast hdouble

theorem minus_coe (q : ℚ) (n : Nat) : minus q n = (toDouble (q - n) : ℚ) := rfl

theorem left_coe {q : ℚ} (hv : limit.value = q) (hsmall : limit.Small) (hn : (n : ℚ) ≤ q) :
    left limit n = (q - n : ℚ) := by
  have hnonneg : (0 : WithTop ℚ) ≤ (q - n : ℚ) := by exact_mod_cast sub_nonneg.mpr hn
  rw [left, hv, minus_coe, toDouble_sub (limit.double q hv) (hsmall q hv) hn,
    max_eq_right hnonneg]

theorem left_add (hsmall : limit.Small) (hn : (n : WithTop ℚ) ≤ limit.value) :
    left limit n + n = limit.value := by
  cases hv : limit.value with
  | top => simp [left, minus, hv]
  | coe q =>
    rw [hv] at hn
    rw [left_coe hv hsmall (by exact_mod_cast hn)]
    exact_mod_cast sub_add_cancel q (n : ℚ)

theorem minus_left_add (hsmall : limit.Small) (hn : ((n + 1 : Nat) : WithTop ℚ) ≤ limit.value) :
    minus (left limit n) 1 + (n + 1 : Nat) = limit.value := by
  cases hv : limit.value with
  | top => simp [left, minus, hv]
  | coe q =>
    rw [hv] at hn
    have hle : ((n + 1 : Nat) : ℚ) ≤ q := by exact_mod_cast hn
    have hless : (n : ℚ) ≤ q := le_trans (by exact_mod_cast n.le_succ) hle
    have hnext : q - n - (1 : Nat) = q - (n + 1 : Nat) := by push_cast; ring
    rw [left_coe hv hsmall hless, minus_coe, hnext,
      toDouble_sub (limit.double q hv) (hsmall q hv) hle]
    exact_mod_cast sub_add_cancel q ((n + 1 : Nat) : ℚ)

/-- Beyond 2^53 the answer to the first call is rounded. -/
theorem small_of_first (h : minus (left limit 0) 1 + (1 : Nat) = limit.value) : limit.Small := by
  intro q hv
  by_contra hlarge
  have hdouble := limit.double q hv
  have hpos : 0 ≤ q := (pow_pos two_pos 53).le.trans (not_le.mp hlarge).le
  have hnonneg : (0 : WithTop ℚ) ≤ q := by exact_mod_cast hpos
  have hleft : left limit 0 = q := by
    rw [left, hv, minus_coe, Nat.cast_zero, sub_zero, hdouble, max_eq_right hnonneg]
  rw [hleft, hv, minus_coe, Nat.cast_one, Nat.cast_one] at h
  have hsum : toDouble (q - 1) + 1 = q := by exact_mod_cast h
  exact toDouble_sub_one_ne hdouble (not_le.mp hlarge) (eq_sub_of_add_eq hsum)

end Limits

section Throughout

variable {α : Type} {P : List α → α → Prop} {log : List α} {x : α}

theorem throughout_nil : Throughout P [] := fun before x after h =>
  absurd h.symm (List.append_ne_nil_of_right_ne_nil before (List.cons_ne_nil x after))

theorem throughout_cons :
    Throughout P (x :: log) ↔ P [] x ∧ Throughout (fun before => P (x :: before)) log := by
  refine ⟨fun h => ⟨h [] x log rfl, fun before y after heq => ?_⟩, ?_⟩
  · exact h (x :: before) y after (by rw [heq, List.cons_append])
  · rintro ⟨hfirst, hrest⟩ before y after heq
    cases before with
    | nil =>
      cases heq
      exact hfirst
    | cons z before =>
      obtain ⟨rfl, hlog⟩ := List.cons.inj heq
      exact hrest before y after hlog

theorem throughout_concat : Throughout P (log ++ [x]) ↔ Throughout P log ∧ P log x := by
  refine ⟨fun h => ⟨fun before y after heq => ?_, h log x [] rfl⟩, ?_⟩
  · exact h before y (after ++ [x]) (by rw [heq, List.append_assoc, List.cons_append])
  · rintro ⟨hrest, hlast⟩ before y after heq
    cases after using List.reverseRecOn with
    | nil =>
      obtain ⟨rfl, hx⟩ := List.append_inj' heq rfl
      cases hx
      exact hlast
    | append_singleton after z =>
      rw [← List.cons_append, ← List.append_assoc] at heq
      obtain ⟨rfl, -⟩ := List.append_inj' heq rfl
      exact hrest before y after rfl

end Throughout

def Counted (log : List Entry) : Prop :=
  Throughout (fun before e => e.result = due before e.key e.time) log

def Fitting (log : List Entry) : Prop :=
  Throughout (fun before e => Fits e.key fun kind => granted before e.key.id kind e.time) log

section Ideal

variable {log before after : List Entry} {e : Entry} {key : ApiKeyConfig} {kind : WindowKind}
variable {calls : List Call} {rows : List UsageRow} {time now : Nat}

theorem due_spec (log : List Entry) (key : ApiKeyConfig) (now : Nat) :
    ((∀ kind, (granted log key.id kind now : WithTop ℚ) < (key.limit kind).value) ∧
      (due log key now).allowed = true ∧ ∀ kind, (due log key now).remaining kind =
        minus (left (key.limit kind) (granted log key.id kind now)) 1) ∨
    ((∃ kind, (key.limit kind).value ≤ (granted log key.id kind now : WithTop ℚ)) ∧
      (due log key now).allowed = false ∧ ∀ kind, (due log key now).remaining kind =
        left (key.limit kind) (granted log key.id kind now)) := by
  unfold due
  by_cases hleft : left key.perMinute (granted log key.id .minute now) ≤ 0 ∨
      left key.perDay (granted log key.id .day now) ≤ 0
  · refine .inr ?_
    rw [if_pos hleft]
    refine ⟨?_, rfl, fun kind => by cases kind <;> rfl⟩
    obtain hminute | hday := hleft
    · exact ⟨.minute, not_lt.mp fun h => (left_pos_iff.mpr h).not_ge hminute⟩
    · exact ⟨.day, not_lt.mp fun h => (left_pos_iff.mpr h).not_ge hday⟩
  · refine .inl ?_
    rw [if_neg hleft]
    obtain ⟨hminute, hday⟩ := not_or.mp hleft
    refine ⟨fun kind => ?_, rfl, fun kind => by cases kind <;> rfl⟩
    cases kind with
    | minute => exact left_pos_iff.mp (not_le.mp hminute)
    | day => exact left_pos_iff.mp (not_le.mp hday)

theorem due_allowed (h : (due log key now).allowed = true) :
    ∀ kind, (granted log key.id kind now : WithTop ℚ) < (key.limit kind).value := by
  obtain ⟨hless, -⟩ | ⟨-, hrefused, -⟩ := due_spec log key now
  · exact hless
  · rw [h] at hrefused
    cases hrefused

theorem due_refused (h : (due log key now).allowed = false) :
    ∃ kind, (key.limit kind).value ≤ (granted log key.id kind now : WithTop ℚ) := by
  obtain ⟨-, hallowed, -⟩ | ⟨hover, -⟩ := due_spec log key now
  · rw [h] at hallowed
    cases hallowed
  · exact hover

theorem granted_mono (h : before.Sublist log) (keyId : String) :
    granted before keyId kind now ≤ granted log keyId kind now := h.countP_le

theorem granted_concat (hresult : e.result = due log e.key e.time)
    (hkey : e.key.id = key.id → e.key = key) (kind : WindowKind) (now : Nat) :
    granted (log ++ [e]) key.id kind now = granted log key.id kind now ∨
      granted (log ++ [e]) key.id kind now = granted log key.id kind now + 1 ∧ e.key = key ∧
        granted log key.id kind now = granted log key.id kind e.time ∧
        ∀ kind', (granted log key.id kind' e.time : WithTop ℚ) < (key.limit kind').value := by
  rw [granted_append]
  split
  next hcounted =>
    obtain ⟨hid, hallowed, hwindow⟩ := hcounted
    obtain rfl := hkey hid
    rw [hresult] at hallowed
    refine .inr ⟨rfl, rfl, ?_, due_allowed hallowed⟩
    simp only [granted, hwindow]
  next => exact .inl (Nat.add_zero _)

theorem granted_le (hdue : Counted log) (hfits : Fitting log)
    (hkey : ∀ e ∈ log, e.key.id = key.id → e.key = key) :
    ∀ now, (granted log key.id kind now : WithTop ℚ) ≤ (key.limit kind).value := by
  induction log using List.reverseRecOn with
  | nil => exact fun _ => (key.limit kind).positive.le
  | append_singleton log e ih =>
    intro now
    obtain ⟨hdue, hresult⟩ := throughout_concat.mp hdue
    obtain ⟨hfits, hfit⟩ := throughout_concat.mp hfits
    have hrest := ih hdue hfits fun x hx => hkey x (List.mem_append_left _ hx)
    have hlast := hkey e (List.mem_append_right log List.mem_cons_self)
    obtain heq | ⟨heq, rfl, hwindow, hless⟩ := granted_concat hresult hlast kind now
    · rw [heq]
      exact hrest now
    · rw [heq, hwindow]
      exact (hfit kind).2 hless

theorem Exact.small (h : Exact log) (hdue : Counted log)
    (hkey : ∀ e' ∈ log, e'.key.id = e.key.id → e'.key = e.key) (he : e ∈ log)
    (kind : WindowKind) : (e.key.limit kind).Small := by
  obtain ⟨first, hfirst⟩ := Option.isSome_iff_exists.mp
    (List.find?_isSome.mpr ⟨e, he, decide_eq_true (rfl : e.key.id = e.key.id)⟩ :
      (log.find? fun e' => decide (e'.key.id = e.key.id)).isSome = true)
  obtain ⟨hid, before, after, rfl, hbefore⟩ := List.find?_eq_some_iff_append.mp hfirst
  have hsame : first.key = e.key :=
    hkey first (List.mem_append_right before List.mem_cons_self) (of_decide_eq_true hid)
  have hnone (kind' : WindowKind) : granted before first.key.id kind' first.time = 0 := by
    rw [granted, List.countP_eq_zero, hsame]
    intro e' he'
    have hother : e'.key.id ≠ e.key.id := by simpa using hbefore e' he'
    simp [hother]
  have hresult : first.result = due before first.key first.time := hdue before first after rfl
  obtain ⟨-, hallowed, hremaining⟩ | ⟨hover, -⟩ := due_spec before first.key first.time
  · have htold := h.remaining before first after rfl kind
    rw [hresult, hremaining kind, granted_append, hresult, hallowed, if_pos ⟨rfl, rfl, rfl⟩,
      hnone, Nat.zero_add, hsame] at htold
    exact small_of_first htold
  · obtain ⟨kind', hle⟩ := hover
    rw [hnone, Nat.cast_zero] at hle
    exact absurd hle (first.key.limit kind').positive.not_ge

theorem exact_iff_fitting (hdue : Counted log)
    (hkey : ∀ e ∈ log, ∀ e' ∈ log, e'.key.id = e.key.id → e'.key = e.key) :
    Exact log ↔ Fitting log := by
  refine ⟨fun h before e after heq kind => ?_, fun hfits => ?_⟩
  · have he : e ∈ log := heq ▸ List.mem_append_right before List.mem_cons_self
    refine ⟨h.small hdue (hkey e he) he kind, fun hless => ?_⟩
    have hresult : e.result = due before e.key e.time := hdue before e after heq
    have hallowed : e.result.allowed = true := by
      obtain ⟨-, hallowed, -⟩ | ⟨⟨kind', hle⟩, -⟩ := due_spec before e.key e.time
      · rw [hresult, hallowed]
      · exact absurd (hless kind') hle.not_gt
    have hmono : granted (before ++ [e]) e.key.id kind e.time ≤
        granted log e.key.id kind e.time :=
      granted_mono (heq.trans (List.append_cons before e after) ▸
        List.sublist_append_left (before ++ [e]) after) e.key.id
    rw [granted_append, if_pos ⟨rfl, hallowed, rfl⟩] at hmono
    have hwithin := h.within e he kind e.time
    exact le_trans (by exact_mod_cast hmono) hwithin
  · have hbefore (before : List Entry) (e : Entry) (after : List Entry)
        (heq : log = before ++ e :: after) (kind : WindowKind) :
        (granted before e.key.id kind e.time : WithTop ℚ) ≤ (e.key.limit kind).value := by
      have he : e ∈ log := heq ▸ List.mem_append_right before List.mem_cons_self
      have hle : (granted log e.key.id kind e.time : WithTop ℚ) ≤ (e.key.limit kind).value :=
        granted_le hdue hfits (hkey e he) e.time
      have hmono : granted before e.key.id kind e.time ≤ granted log e.key.id kind e.time :=
        granted_mono (heq ▸ List.sublist_append_left before (e :: after)) e.key.id
      exact le_trans (by exact_mod_cast hmono) hle
    refine ⟨fun e he kind => granted_le hdue hfits (hkey e he), ?_, ?_⟩
    · intro before e after heq hrefused
      rw [hdue before e after heq] at hrefused
      obtain ⟨kind, hle⟩ := due_refused hrefused
      exact ⟨kind, le_antisymm (hbefore before e after heq kind) hle⟩
    · intro before e after heq kind
      have hresult : e.result = due before e.key e.time := hdue before e after heq
      obtain ⟨hsmall, hfit⟩ := hfits before e after heq kind
      rw [granted_append]
      obtain ⟨hless, hallowed, hleft⟩ | ⟨-, hrefused, hleft⟩ := due_spec before e.key e.time
      · rw [hresult, hallowed, hleft kind, if_pos ⟨rfl, rfl, rfl⟩]
        exact minus_left_add hsmall (hfit hless)
      · rw [hresult, hrefused, hleft kind, if_neg fun h => Bool.false_ne_true h.2.1, Nat.add_zero]
        exact left_add hsmall (hbefore before e after heq kind)

theorem result_ideal (log : List Entry) (calls : List Call) :
    Throughout (fun before e => e.result = due (log ++ before) e.key e.time)
      (ideal log calls) := by
  induction calls generalizing log with
  | nil => exact throughout_nil
  | cons call calls ih =>
    cases call with
    | prune now => exact ih log
    | consume key now =>
      refine throughout_cons.mpr ⟨by rw [List.append_nil], fun before e after heq => ?_⟩
      have hresult : e.result =
          due (log ++ [⟨key, now, due log key now⟩] ++ before) e.key e.time :=
        ih _ before e after heq
      rwa [List.append_assoc, List.singleton_append] at hresult

theorem consume_of_mem (h : e ∈ ideal log calls) : Call.consume e.key e.time ∈ calls := by
  induction calls generalizing log with
  | nil => cases h
  | cons call calls ih =>
    cases call with
    | prune now => exact List.mem_cons_of_mem _ (ih h)
    | consume key now =>
      obtain rfl | hrest := List.mem_cons.mp h
      · exact List.mem_cons_self
      · exact List.mem_cons_of_mem _ (ih hrest)

theorem ideal_filter (log : List Entry) (calls : List Call) :
    ideal log (calls.filter Call.isConsume) = ideal log calls := by
  induction calls generalizing log with
  | nil => rfl
  | cons call calls ih =>
    cases call with
    | prune now => exact ih log
    | consume key now => exact congrArg (List.cons _) (ih _)

theorem covered_iff (h : Tells rows log time)
    (hsorted : (time :: calls.map Call.time).Pairwise (· ≤ ·)) :
    Covered rows calls ↔ Throughout
      (fun before e => Fits e.key fun kind => granted (log ++ before) e.key.id kind e.time)
      (ideal log calls) := by
  induction calls generalizing rows log time with
  | nil => exact iff_of_true trivial throughout_nil
  | cons call calls ih =>
    obtain ⟨hfirst, hrest⟩ := List.pairwise_cons.mp hsorted
    cases call with
    | prune now =>
      have hle : time ≤ now := hfirst _ List.mem_cons_self
      exact ih (h.prune hle) hrest
    | consume key now =>
      have hle : time ≤ now := hfirst _ List.mem_cons_self
      have hcount : (fun kind => read rows key.id kind (windowStart kind now)) =
          fun kind => granted (log ++ []) key.id kind now := by
        funext kind
        rw [List.append_nil, h key.id kind now hle]
      rw [Covered, ideal, throughout_cons, hcount, ih (h.consume key hle).2 hrest]
      simp only [List.append_assoc, List.singleton_append]

end Ideal

/-- The limits that the service is meant to have. -/
def Limit.Whole (limit : Limit) : Prop :=
  limit.value = ⊤ ∨ ∃ n : Nat, n ≤ 2 ^ 53 ∧ limit.value = n

theorem Limit.Whole.fits {key : ApiKeyConfig} (h : ∀ kind, (key.limit kind).Whole)
    (count : WindowKind → Nat) : Fits key count := by
  intro kind
  obtain htop | ⟨n, hn, hv⟩ := h kind
  · refine ⟨fun q hq => ?_, fun _ => htop ▸ le_top⟩
    rw [htop] at hq
    cases hq
  · refine ⟨fun q hq => ?_, fun hless => ?_⟩
    · have heq : (n : ℚ) = q := by exact_mod_cast hv.symm.trans hq
      rw [← heq]
      exact_mod_cast hn
    · have hkind := hless kind
      rw [hv] at hkind ⊢
      have hlt : count kind < n := by exact_mod_cast hkind
      exact_mod_cast hlt

/-- Where the limits are whole every count fits. -/
theorem covered_of_whole {rows : List UsageRow} {calls : List Call}
    (h : ∀ key now, Call.consume key now ∈ calls → ∀ kind, (key.limit kind).Whole) :
    Covered rows calls := by
  induction calls generalizing rows with
  | nil => trivial
  | cons call calls ih =>
    have hrest := fun key now hmem => h key now (List.mem_cons_of_mem call hmem)
    cases call with
    | prune now => exact ih hrest
    | consume key now => exact ⟨Limit.Whole.fits (h key now List.mem_cons_self) _, ih hrest⟩

/-- The quotas are exact over a run, and forgetting old windows makes no difference,
as long as no call is let through on less than a whole one. -/
theorem quotas_exact_iff {calls : List Call} (hfixed : Fixed calls)
    (hsorted : (calls.map Call.time).Pairwise (· ≤ ·)) :
    (Exact (run [] calls) ∧ run [] (calls.filter Call.isConsume) = run [] calls ∧
      ∀ rows key now, (consume rows key now).1.allowed = false →
        (consume rows key now).2 = rows) ↔ Covered [] calls := by
  have hkept : ((calls.filter Call.isConsume).map Call.time).Pairwise (· ≤ ·) :=
    hsorted.sublist (List.filter_sublist.map _)
  have hnone : Tells [] [] 0 := fun _ _ _ _ => rfl
  have hstart : (0 :: calls.map Call.time).Pairwise (· ≤ ·) :=
    List.pairwise_cons.mpr ⟨fun _ _ => Nat.zero_le _, hsorted⟩
  have hexact : Exact (ideal [] calls) ↔ Covered [] calls := by
    rw [covered_iff hnone hstart]
    exact exact_iff_fitting (result_ideal [] calls) fun e he e' he' hid =>
      hfixed _ _ _ _ (consume_of_mem he') (consume_of_mem he) hid
  rw [run_nil_eq_ideal hsorted, run_nil_eq_ideal hkept, ideal_filter, ← hexact]
  refine ⟨And.left, fun h => ⟨h, rfl, fun rows key now hrefused => ?_⟩⟩
  simp only [consume] at hrefused ⊢
  split at hrefused
  next hleft => rw [if_pos hleft]
  next => cases hrefused

/-- One and a half calls a minute and two a day. -/
def halfKey : ApiKeyConfig where
  id := "key_1"
  perMinute := ⟨(3 / 2 : ℚ), by decide +kernel, fun q hq => by
    rw [← WithTop.coe_inj.mp hq]
    decide +kernel⟩
  perDay := .ofNat 2 (by decide) (by decide)

def halfCalls : List Call := [.consume halfKey 0, .consume halfKey 1000]

/-- The second call is let through although one and a half are less than two. -/
theorem two_of_one_and_a_half : Fixed halfCalls ∧ (halfCalls.map Call.time).Pairwise (· ≤ ·) ∧
    ¬ Exact (run [] halfCalls) ∧
    (run [] halfCalls).map (fun e => (e.result.allowed, e.result.minuteRemaining)) =
      [(true, ((1 / 2 : ℚ) : WithTop ℚ)), (true, ((-1 / 2 : ℚ) : WithTop ℚ))] := by
  have hfixed : Fixed halfCalls := by
    intro key key' now now' h h' _
    simp only [halfCalls, List.mem_cons, Call.consume.injEq, List.not_mem_nil, or_false] at h h'
    obtain ⟨rfl, -⟩ | ⟨rfl, -⟩ := h <;> obtain ⟨rfl, -⟩ | ⟨rfl, -⟩ := h' <;> rfl
  refine ⟨hfixed, by decide, fun h => ?_, by decide +kernel⟩
  have hfirst : (⟨halfKey, 0, (consume [] halfKey 0).1⟩ : Entry) ∈ run [] halfCalls :=
    List.mem_cons_self
  have htwo := h.within _ hfirst .minute 0
  exact absurd htwo (by decide +kernel)

/-- One call a minute and two a day. -/
def sampleKey : ApiKeyConfig :=
  ⟨"key_1", .ofNat 1 (by decide) (by decide), .ofNat 2 (by decide) (by decide)⟩

def sampleCalls : List Call :=
  [.consume sampleKey 0, .consume sampleKey 59999, .consume sampleKey 61000, .prune 100000,
    .consume sampleKey 122000, .consume sampleKey 86400000]

example : (run [] sampleCalls).map (fun e => e.result.allowed) =
    [true, false, true, false, true] := by decide +kernel

theorem quotas_exact_sample : Exact (run [] sampleCalls) := by
  have hkey : ∀ key now, Call.consume key now ∈ sampleCalls → key = sampleKey := by
    intro key now h
    simp only [sampleCalls, List.mem_cons, Call.consume.injEq, reduceCtorEq, List.not_mem_nil,
      or_false, false_or] at h
    tauto
  have hfixed : Fixed sampleCalls := fun key key' now now' h h' _ => by
    rw [hkey key now h, hkey key' now' h']
  have hwhole : ∀ key now, Call.consume key now ∈ sampleCalls →
      ∀ kind, (key.limit kind).Whole := by
    intro key now h kind
    rw [hkey key now h]
    cases kind with
    | minute => exact .inr ⟨1, by decide, rfl⟩
    | day => exact .inr ⟨2, by decide, rfl⟩
  exact ((quotas_exact_iff hfixed (by decide)).mpr (covered_of_whole hwhole)).1

end Suban.Indexer.Quotas
