import Mathlib.Order.Monotone.Basic
import Mathlib.Algebra.Order.Ring.Int
import Mathlib.Tactic.Basic

namespace Suban.Basis.Calendar

variable {d d' y y' s s' : Int}

/-- The number of the first day of a year, counted from the first of January
1970. -/
def dayFromYear (y : Int) : Int :=
  365 * (y - 1970) + (y - 1969) / 4 - (y - 1901) / 100 + (y - 1601) / 400

/-- The first day is never far from what the mean length of a year says. -/
theorem dayFromYear_bounds (y : Int) :
    146097 * (y - 1970) - 398 ≤ 400 * dayFromYear y ∧
      400 * dayFromYear y ≤ 146097 * (y - 1970) + 481 := by
  unfold dayFromYear
  omega

def yearFromDay (d : Int) : Int :=
  let y := 1970 + 400 * d / 146097
  if d < dayFromYear y then y - 1 else if d < dayFromYear (y + 1) then y else y + 1

theorem yearFromDay_spec (d : Int) :
    dayFromYear (yearFromDay d) ≤ d ∧ d < dayFromYear (yearFromDay d + 1) := by
  have hlow := dayFromYear_bounds (1970 + 400 * d / 146097 - 1)
  have hhigh := dayFromYear_bounds (1970 + 400 * d / 146097 + 1 + 1)
  simp only [yearFromDay]
  split_ifs with hbefore hwithin
  · rw [sub_add_cancel]
    exact ⟨by omega, hbefore⟩
  · exact ⟨not_lt.mp hbefore, hwithin⟩
  · exact ⟨not_lt.mp hwithin, by omega⟩

theorem dayFromYear_lt (h : y < y') : dayFromYear y < dayFromYear y' := by
  unfold dayFromYear
  omega

theorem le_yearFromDay_iff : y ≤ yearFromDay d ↔ dayFromYear y ≤ d := by
  obtain ⟨hle, hlt⟩ := yearFromDay_spec d
  constructor
  · intro h
    obtain rfl | hlt' := h.eq_or_lt
    · exact hle
    · exact (dayFromYear_lt hlt').le.trans hle
  · intro h
    by_contra hgt
    have hbefore : yearFromDay d + 1 ≤ y := by omega
    obtain rfl | hlt' := hbefore.eq_or_lt
    · exact absurd (h.trans_lt hlt) (lt_irrefl _)
    · exact absurd ((h.trans_lt hlt).trans (dayFromYear_lt hlt')) (lt_irrefl _)

theorem yearFromDay_mono (h : d ≤ d') : yearFromDay d ≤ yearFromDay d' :=
  le_yearFromDay_iff.mpr ((yearFromDay_spec d).1.trans h)

def inLeapYear (y : Int) : Bool := decide (y % 4 = 0 ∧ (y % 100 ≠ 0 ∨ y % 400 = 0))

theorem dayFromYear_succ (y : Int) :
    dayFromYear (y + 1) = dayFromYear y + if inLeapYear y then 366 else 365 := by
  unfold dayFromYear inLeapYear
  simp only [decide_eq_true_eq]
  split_ifs <;> omega

def monthDays (leap : Bool) : List Nat :=
  [31, if leap then 29 else 28, 31, 30, 31, 30, 31, 31, 30, 31, 30, 31]

/-- The month and the day in it, both from one on, of a day in a year with such
months. -/
def monthDay : List Nat → Nat → Nat × Nat
  | [], d => (1, d + 1)
  | n :: ns, d =>
    if d < n then (1, d + 1) else ((monthDay ns (d - n)).1 + 1, (monthDay ns (d - n)).2)

theorem one_le_month (ns : List Nat) (d : Nat) : 1 ≤ (monthDay ns d).1 := by
  cases ns with
  | nil => exact le_rfl
  | cons n ns =>
    rw [monthDay]
    split
    · exact le_rfl
    · exact Nat.le_add_left 1 _

theorem monthDay_lt (ns : List Nat) {d d' : Nat} (h : d < d') :
    (monthDay ns d).1 < (monthDay ns d').1 ∨
      (monthDay ns d).1 = (monthDay ns d').1 ∧ (monthDay ns d).2 < (monthDay ns d').2 := by
  induction ns generalizing d d' with
  | nil => exact .inr ⟨rfl, Nat.succ_lt_succ h⟩
  | cons n ns ih =>
    rw [monthDay, monthDay]
    by_cases hd' : d' < n
    · rw [if_pos (h.trans hd'), if_pos hd']
      exact .inr ⟨rfl, Nat.succ_lt_succ h⟩
    · rw [if_neg hd']
      by_cases hd : d < n
      · rw [if_pos hd]
        exact .inl (Nat.lt_succ_of_le (one_le_month ns _))
      · rw [if_neg hd]
        have hrest : d - n < d' - n := by omega
        exact (ih hrest).imp Nat.succ_lt_succ (And.imp_left (congrArg (· + 1)))

theorem monthDay_le (ns : List Nat) {d : Nat} (h : d < ns.sum) :
    (monthDay ns d).1 ≤ ns.length ∧ ∃ n ∈ ns, (monthDay ns d).2 ≤ n := by
  induction ns generalizing d with
  | nil => cases h
  | cons n ns ih =>
    rw [List.sum_cons] at h
    rw [monthDay]
    split
    next hd => exact ⟨Nat.succ_le_succ (Nat.zero_le _), n, List.mem_cons_self, hd⟩
    next hd =>
      obtain ⟨hlength, m, hm, hle⟩ := ih (d := d - n) (by omega)
      exact ⟨Nat.succ_le_succ hlength, m, List.mem_cons_of_mem n hm, hle⟩

structure Moment where
  year : Int
  month : Nat
  day : Nat
  hour : Nat
  minute : Nat
  second : Nat
  deriving DecidableEq

def dayOfYear (d : Int) : Nat := (d - dayFromYear (yearFromDay d)).toNat

def moment (s : Int) : Moment :=
  let d := s / 86400
  let date := monthDay (monthDays (inLeapYear (yearFromDay d))) (dayOfYear d)
  let time := (s % 86400).toNat
  ⟨yearFromDay d, date.1, date.2, time / 3600, time / 60 % 60, time % 60⟩

theorem moment_fits (s : Int) : (moment s).month ≤ 12 ∧ (moment s).day ≤ 31 ∧
    (moment s).hour < 24 ∧ (moment s).minute < 60 ∧ (moment s).second < 60 := by
  obtain ⟨hle, hlt⟩ := yearFromDay_spec (s / 86400)
  rw [dayFromYear_succ] at hlt
  have hsum (leap : Bool) : (monthDays leap).sum = if leap then 366 else 365 := by
    cases leap <;> rfl
  have hdays (leap : Bool) : ∀ n ∈ monthDays leap, n ≤ 31 := by
    cases leap <;> decide
  have hday : dayOfYear (s / 86400) < (monthDays (inLeapYear (yearFromDay (s / 86400)))).sum := by
    rw [hsum, dayOfYear]
    split_ifs at hlt ⊢ <;> omega
  obtain ⟨hmonth, n, hn, hle⟩ := monthDay_le _ hday
  have hn31 := hdays _ n hn
  refine ⟨hmonth, hle.trans hn31, ?_⟩
  simp only [moment]
  omega

theorem date_lt (h : d < d') : yearFromDay d < yearFromDay d' ∨ yearFromDay d = yearFromDay d' ∧
    dayOfYear d < dayOfYear d' := by
  obtain hlt | heq := (yearFromDay_mono h.le).lt_or_eq
  · exact .inl hlt
  · refine .inr ⟨heq, ?_⟩
    have hle := (yearFromDay_spec d).1
    rw [dayOfYear, dayOfYear, ← heq]
    omega

theorem moment_lt (h : s < s') :
    (moment s).year < (moment s').year ∨ (moment s).year = (moment s').year ∧
      ((moment s).month < (moment s').month ∨ (moment s).month = (moment s').month ∧
        ((moment s).day < (moment s').day ∨ (moment s).day = (moment s').day ∧
          ((moment s).hour < (moment s').hour ∨ (moment s).hour = (moment s').hour ∧
            ((moment s).minute < (moment s').minute ∨ (moment s).minute = (moment s').minute ∧
              (moment s).second < (moment s').second)))) := by
  obtain hday | hday := (Int.ediv_le_ediv (by decide : (0 : Int) < 86400) h.le).lt_or_eq
  · obtain hyear | ⟨hyear, hdate⟩ := date_lt hday
    · exact .inl hyear
    · refine .inr ⟨hyear, ?_⟩
      have hmonth := monthDay_lt (monthDays (inLeapYear (yearFromDay (s / 86400)))) hdate
      simp only [moment, ← hyear]
      exact hmonth.imp_right (And.imp_right .inl)
  · refine .inr ⟨congrArg yearFromDay hday, .inr ⟨?_, .inr ⟨?_, ?_⟩⟩⟩
    · simp only [moment, hday]
    · simp only [moment, hday]
    · simp only [moment]
      omega

end Suban.Basis.Calendar
