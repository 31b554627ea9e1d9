import Mathlib.Algebra.Order.Ring.Int
import Mathlib.Tactic.Linarith
import Mathlib.Tactic.Ring

namespace Suban.Basis.Accumulators

variable {a b d rate total precision amount : Int} {m n : Nat}

theorem ediv_add_le (hd : 0 < d) : a / d + b / d ≤ (a + b) / d := by
  rw [Int.le_ediv_iff_mul_le hd, add_mul]
  exact add_le_add (Int.ediv_mul_le a hd.ne') (Int.ediv_mul_le b hd.ne')

theorem add_ediv_le (hd : 0 < d) : (a + b) / d ≤ a / d + b / d + 1 := by
  rw [← Int.lt_add_one_iff, Int.ediv_lt_iff_lt_mul hd]
  have ha := Int.lt_ediv_add_one_mul_self a hd
  have hb := Int.lt_ediv_add_one_mul_self b hd
  calc a + b < (a / d + 1) * d + (b / d + 1) * d := add_lt_add ha hb
    _ = (a / d + b / d + 1 + 1) * d := by ring

/-- What a rate brings each unit of a total in some time, rounded down at the
precision. Without any units it brings nothing. -/
def growth (precision rate total : Int) (time : Nat) : Int := rate * time * precision / total

theorem growth_nonneg (hp : 0 ≤ precision) (hr : 0 ≤ rate) (ht : 0 ≤ total) :
    0 ≤ growth precision rate total n :=
  Int.ediv_nonneg (mul_nonneg (mul_nonneg hr (Int.natCast_nonneg n)) hp) ht

@[simp] theorem growth_zero : growth precision rate total 0 = 0 := by simp [growth]

@[simp] theorem growth_no_total : growth precision rate 0 n = 0 := by simp [growth]

theorem growth_split : rate * (m + n : Nat) * precision =
    rate * m * precision + rate * n * precision := by
  push_cast
  ring

/-- Rounding twice loses, but never more than one. -/
theorem growth_add_le (ht : 0 ≤ total) :
    growth precision rate total m + growth precision rate total n ≤
      growth precision rate total (m + n) := by
  obtain rfl | ht := ht.eq_or_lt
  · simp
  · rw [growth, growth, growth, growth_split]
    exact ediv_add_le ht

theorem growth_le_add (ht : 0 ≤ total) :
    growth precision rate total (m + n) ≤
      growth precision rate total m + growth precision rate total n + 1 := by
  obtain rfl | ht := ht.eq_or_lt
  · simp
  · rw [growth, growth, growth, growth_split]
    exact add_ediv_le ht

theorem total_mul_growth_le (hp : 0 ≤ precision) (hr : 0 ≤ rate) (ht : 0 ≤ total) :
    total * growth precision rate total n ≤ precision * (rate * n) := by
  obtain rfl | ht := ht.eq_or_lt
  · simpa using mul_nonneg hp (mul_nonneg hr (Int.natCast_nonneg n))
  · calc total * growth precision rate total n
        = rate * n * precision / total * total := mul_comm _ _
      _ ≤ rate * n * precision := Int.ediv_mul_le _ ht.ne'
      _ = precision * (rate * n) := mul_comm _ _

theorem part_mul_growth_le (hp : 0 ≤ precision) (hr : 0 ≤ rate) (h0 : 0 ≤ amount)
    (hle : amount ≤ total) :
    amount * growth precision rate total n ≤ precision * (rate * n) :=
  (mul_le_mul_of_nonneg_right hle (growth_nonneg hp hr (h0.trans hle))).trans
    (total_mul_growth_le hp hr (h0.trans hle))

/-- Two shares that start from accumulators `x` and `y` and are rounded on the
way, of which the first gains on the second by no more than `k`. -/
theorem gain_le {x y x' y' k c : Int} (hd : 0 < d) (ha : 0 ≤ a) (hk : 0 ≤ k) (hc : a ≤ c * d)
    (h : x' - x ≤ y' - y + k) : a * x' / d - a * x / d ≤ a * y' / d - a * y / d + k * c + 1 := by
  have hkc : a * k ≤ k * c * d := by
    calc a * k ≤ c * d * k := mul_le_mul_of_nonneg_right hc hk
      _ = k * c * d := by ring
  have hreach : a * x' ≤ a * x + (a * y' - a * y) + k * c * d := by
    have hgain := mul_le_mul_of_nonneg_left h ha
    linarith
  have hx : a * x' / d ≤ (a * x + (a * y' - a * y)) / d + k * c := by
    rw [← Int.add_mul_ediv_right _ _ hd.ne']
    exact Int.ediv_le_ediv hd hreach
  have hsplit := add_ediv_le (a := a * x) (b := a * y' - a * y) hd
  have hy := ediv_add_le (a := a * y' - a * y) (b := a * y) hd
  rw [sub_add_cancel] at hy
  linarith

end Suban.Basis.Accumulators
