import Mathlib.Algebra.BigOperators.Group.List.Basic
import Mathlib.Algebra.Order.Field.Basic
import Mathlib.Algebra.Order.Field.Rat
import Mathlib.Algebra.Order.Group.Int
import Mathlib.Algebra.Order.Ring.Int
import Mathlib.Tactic.Linarith
import Mathlib.Tactic.Positivity.Basic
import Mathlib.Tactic.Ring

namespace Suban.Basis.Division

variable {a n d x : Int}

/-- A part of what may be added may be added. -/
theorem add_mul_within {R : Type} [CommRing R] [LinearOrder R] [IsStrictOrderedRing R]
    {lo hi r a b c : R} (hr : lo ≤ r ∧ r ≤ hi) (h : lo ≤ r + b * c ∧ r + b * c ≤ hi)
    (ha : 0 ≤ a) (hab : a ≤ b) : lo ≤ r + a * c ∧ r + a * c ≤ hi := by
  obtain hc | hc := le_total 0 c
  · exact ⟨hr.1.trans (le_add_of_nonneg_right (mul_nonneg ha hc)),
      (add_le_add_right (mul_le_mul_of_nonneg_right hab hc) r).trans h.2⟩
  · exact ⟨h.1.trans (add_le_add_right (mul_le_mul_of_nonpos_right hab hc) r),
      (add_le_of_nonpos_right (mul_nonpos_of_nonneg_of_nonpos ha hc)).trans hr.2⟩

theorem mul_within {R : Type} [CommRing R] [LinearOrder R] [IsStrictOrderedRing R]
    {lo hi a b c : R} (hlo : lo ≤ 0) (hhi : 0 ≤ hi) (h : lo ≤ b * c ∧ b * c ≤ hi)
    (ha : 0 ≤ a) (hab : a ≤ b) : lo ≤ a * c ∧ a * c ≤ hi := by
  rw [← zero_add (b * c)] at h
  rw [← zero_add (a * c)]
  exact add_mul_within ⟨hlo, hhi⟩ h ha hab

theorem tdiv_within {lo hi : Int} (hd : 0 ≤ d) (hlo : lo ≤ 0) (hhi : 0 ≤ hi)
    (h : lo ≤ a ∧ a ≤ hi) : lo ≤ a.tdiv d ∧ a.tdiv d ≤ hi := by
  obtain ha | ha := le_total 0 a
  · exact ⟨hlo.trans (Int.tdiv_nonneg ha hd), (Int.tdiv_le_self d ha).trans h.2⟩
  · have hneg := Int.neg_nonneg_of_nonpos ha
    have hle := Int.tdiv_le_self d hneg
    have hnonneg := Int.tdiv_nonneg hneg hd
    rw [Int.neg_tdiv] at hle hnonneg
    omega

theorem tdiv_le_iff (hd : 0 < d) (hn : 0 ≤ n) : a.tdiv d ≤ n ↔ a < (n + 1) * d := by
  obtain ha | ha := le_or_gt 0 a
  · rw [Int.tdiv_eq_ediv_of_nonneg ha, ← Int.lt_add_one_iff, Int.ediv_lt_iff_lt_mul hd]
  · have hneg : a.tdiv d ≤ 0 := by simpa using Int.tdiv_le_tdiv hd ha.le
    exact iff_of_true (hneg.trans hn) (ha.trans_le (by positivity))

theorem le_tdiv_iff (hd : 0 < d) (ha : 0 ≤ a) : n ≤ a.tdiv d ↔ n * d ≤ a := by
  rw [Int.tdiv_eq_ediv_of_nonneg ha, Int.le_ediv_iff_mul_le hd]

/-- Rounding towards zero takes a part of the first factor. -/
theorem exists_tdiv_eq (hn : 0 ≤ n) (hd : 0 < d) (w : Int) :
    ∃ x : ℚ, 0 ≤ x ∧ x ≤ n ∧ ((n * w).tdiv d : ℚ) = x * (w / d) := by
  wlog hw : 0 ≤ w generalizing w
  · obtain ⟨x, hx, hle, heq⟩ := this (-w) (by omega)
    refine ⟨x, hx, hle, ?_⟩
    rw [mul_neg, Int.neg_tdiv, Int.cast_neg, Int.cast_neg, neg_div, mul_neg] at heq
    exact neg_injective heq
  · obtain rfl | hw := hw.eq_or_lt
    · exact ⟨0, le_rfl, Int.cast_nonneg hn, by simp⟩
    · have hd' : (0 : ℚ) < d := Int.cast_pos.mpr hd
      have hw' : (0 : ℚ) < w := Int.cast_pos.mpr hw
      have hnw := mul_nonneg hn hw.le
      have hle : ((n * w).tdiv d * d : ℚ) ≤ n * w := by
        exact_mod_cast (le_tdiv_iff hd hnw).mp le_rfl
      have hnonneg : (0 : ℚ) ≤ (n * w).tdiv d := Int.cast_nonneg (Int.tdiv_nonneg hnw hd.le)
      refine ⟨(n * w).tdiv d * d / w, by positivity, (div_le_iff₀ hw').mpr hle, ?_⟩
      rw [div_mul_div_cancel₀ hw'.ne', mul_div_cancel_right₀ _ hd'.ne']

theorem part_le (hd : 0 ≤ d) (hx : 0 ≤ x) (hn : n ≤ d) : (n * x).tdiv d ≤ x := by
  obtain rfl | hd := hd.eq_or_lt
  · rw [Int.tdiv_zero]
    exact hx
  · rw [tdiv_le_iff hd hx]
    nlinarith

theorem part_eq_zero_iff (hd : 0 < d) (hn : 0 ≤ n) (hx : 0 ≤ x) :
    (n * x).tdiv d = 0 ↔ n * x < d := by
  have hle : (n * x).tdiv d ≤ 0 ↔ n * x < d := by
    rw [tdiv_le_iff hd le_rfl, zero_add, one_mul]
  have hnonneg := Int.tdiv_nonneg (mul_nonneg hn hx) hd.le
  rw [← hle]
  omega

section Apportionment

variable {w : Int} {ws : List Int}

/-- What the weight `w` gets of `x`, of a total weight `d`. -/
def part (d x w : Int) : Int := (x * w).tdiv d

def rest (d x : Int) (ws : List Int) : Int := x - (ws.map (part d x)).sum

theorem part_neg : part d (-x) w = -part d x w := by
  rw [part, part, Int.neg_mul, Int.neg_tdiv]

theorem rest_neg : rest d (-x) ws = -rest d x ws := by
  have hsum : (ws.map (part d (-x))).sum = -(ws.map (part d x)).sum := by
    induction ws with
    | nil => rfl
    | cons w ws ih =>
      rw [List.map_cons, List.sum_cons, ih, part_neg, List.map_cons, List.sum_cons]
      ring
  rw [rest, rest, hsum]
  ring

theorem part_eq (hx : 0 ≤ x) (hw : 0 ≤ w) : part d x w = x * w / d :=
  Int.tdiv_eq_ediv_of_nonneg (mul_nonneg hx hw)

theorem part_nonneg (hd : 0 ≤ d) (hx : 0 ≤ x) (hw : 0 ≤ w) : 0 ≤ part d x w :=
  Int.tdiv_nonneg (mul_nonneg hx hw) hd

theorem part_bounds (hd : 0 < d) (hx : 0 ≤ x) (hw : 0 ≤ w) :
    d * part d x w ≤ x * w ∧ x * w ≤ d * part d x w + (d - 1) := by
  rw [part_eq hx hw]
  have hlow := Int.mul_ediv_self_le (x := x * w) hd.ne'
  have hhigh := Int.lt_mul_ediv_self_add (x := x * w) hd
  exact ⟨hlow, by omega⟩

theorem parts_bounds (hd : 0 < d) (hx : 0 ≤ x) (hws : ∀ w ∈ ws, 0 ≤ w) :
    d * (ws.map (part d x)).sum ≤ x * ws.sum ∧
      x * ws.sum ≤ d * (ws.map (part d x)).sum + (d - 1) * ws.length := by
  induction ws with
  | nil => simp
  | cons w ws ih =>
    obtain ⟨hlow, hhigh⟩ := part_bounds hd hx (hws w List.mem_cons_self)
    obtain ⟨ihlow, ihhigh⟩ := ih fun v hv => hws v (List.mem_cons_of_mem w hv)
    rw [List.map_cons, List.sum_cons, List.sum_cons, List.length_cons]
    push_cast
    constructor <;> linarith

/-- The weight that takes what the others leave gets its own part, and at most
one unit more for each of the others. -/
theorem rest_bounds (hd : 0 < d) (hx : 0 ≤ x) (hws : ∀ w ∈ ws, 0 ≤ w) (hw : 0 ≤ w)
    (hsum : ws.sum + w = d) : part d x w ≤ rest d x ws ∧ rest d x ws ≤ part d x w + ws.length := by
  obtain ⟨hlow, hhigh⟩ := part_bounds hd hx hw
  obtain ⟨hslow, hshigh⟩ := parts_bounds hd hx hws
  have hwhole : x * ws.sum = x * d - x * w := by
    rw [← hsum]
    ring
  have hrest : d * rest d x ws = x * d - d * (ws.map (part d x)).sum := by
    rw [rest]
    ring
  constructor
  · refine le_of_mul_le_mul_left ?_ hd
    linarith
  · refine Int.lt_add_one_iff.mp (lt_of_mul_lt_mul_left ?_ hd.le)
    linarith

end Apportionment

end Suban.Basis.Division
