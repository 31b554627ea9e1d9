import Mathlib.Analysis.SpecialFunctions.Pow.Real
import Suban.Basis.StableRest

namespace Suban.Basis.StableReal

open Suban.Basis.StableCurve Suban.Basis.StableRest

/-- What the stable curve keeps of two balances. -/
structure IsInvariant (amp a b r : ℝ) : Prop where
  pos : 0 < r
  eq : 4 * amp * (a + b) + r = 4 * amp * r + r ^ 3 / (4 * (a * b))

section Cubic

variable {amp a b r : ℝ} (hamp : 1 ≤ amp) (ha : 0 < a) (hb : 0 < b)

include ha hb

theorem isInvariant_iff (hr : 0 < r) : IsInvariant amp a b r ↔
    r ^ 3 + 4 * (a * b) * (4 * amp - 1) * r = 4 * (a * b) * (4 * amp * (a + b)) := by
  have hab : 0 < 4 * (a * b) := by positivity
  have hcube : r ^ 3 / (4 * (a * b)) * (4 * (a * b)) = r ^ 3 := div_mul_cancel₀ _ hab.ne'
  constructor
  · intro h
    linear_combination (-4 * (a * b)) * h.eq - hcube
  · intro h
    refine ⟨hr, mul_right_cancel₀ hab.ne' ?_⟩
    linear_combination (-1 : ℝ) * h - hcube

include hamp

theorem cubic_lt {x y : ℝ} (hx : 0 ≤ x) (hxy : x < y) :
    x ^ 3 + 4 * (a * b) * (4 * amp - 1) * x < y ^ 3 + 4 * (a * b) * (4 * amp - 1) * y := by
  have hcube : x ^ 3 < y ^ 3 := pow_lt_pow_left₀ hxy hx (by norm_num)
  have hlinear : 4 * (a * b) * (4 * amp - 1) * x ≤ 4 * (a * b) * (4 * amp - 1) * y := by
    have hslope : 0 ≤ 4 * amp - 1 := by linarith
    exact mul_le_mul_of_nonneg_left hxy.le (by positivity)
  linarith

theorem exists_isInvariant : ∃ r, IsInvariant amp a b r := by
  have hslope : 0 ≤ 4 * amp - 1 := by linarith
  have hcont : Continuous fun r : ℝ => r ^ 3 + 4 * (a * b) * (4 * amp - 1) * r := by fun_prop
  have htarget : 4 * (a * b) * (4 * amp * (a + b)) ∈ Set.Icc
      ((0 : ℝ) ^ 3 + 4 * (a * b) * (4 * amp - 1) * 0)
      ((a + b) ^ 3 + 4 * (a * b) * (4 * amp - 1) * (a + b)) := by
    refine ⟨by norm_num; positivity, ?_⟩
    have hmean := mul_nonneg (add_nonneg ha.le hb.le) (sq_nonneg (a - b))
    linarith
  obtain ⟨r, hr, heq⟩ := intermediate_value_Icc (by positivity) hcont.continuousOn htarget
  have hpos : 0 < r := by
    obtain hz | hpos := hr.1.eq_or_lt
    · have hzero : 4 * (a * b) * (4 * amp * (a + b)) = 0 := by
        rw [← heq, ← hz]
        ring
      have hne : 0 < 4 * (a * b) * (4 * amp * (a + b)) := by positivity
      exact absurd hzero hne.ne'
    · exact hpos
  exact ⟨r, (isInvariant_iff ha hb hpos).mpr heq⟩

end Cubic

section Guesses

variable {amp a b z : Int} {r : ℝ} (hamp : 1 ≤ amp) (ha : 0 < a) (hb : 0 < b)
variable (h : IsInvariant amp a b r)

include hamp ha hb h

omit h in
theorem pool_cubic_lt {x y : ℝ} (hx : 0 ≤ x) (hxy : x < y) :
    x ^ 3 + 4 * (a * b) * (4 * amp - 1) * x < y ^ 3 + 4 * (a * b) * (4 * amp - 1) * y :=
  cubic_lt (by exact_mod_cast hamp) (by exact_mod_cast ha) (by exact_mod_cast hb) hx hxy

theorem IsInvariant.ge (hunder : Under (4 * amp - 1) (a * b) (4 * amp * (a + b)) z) :
    (z : ℝ) ≤ r := by
  by_contra hlt
  have hcubic := pool_cubic_lt hamp ha hb h.pos.le (not_le.mp hlt)
  have heq := (isInvariant_iff (by exact_mod_cast ha) (by exact_mod_cast hb) h.pos).mp h
  have hle : (z : ℝ) ^ 3 + 4 * (a * b) * (4 * amp - 1) * z ≤
      4 * (a * b) * (4 * amp * (a + b)) := by exact_mod_cast hunder
  linarith

theorem IsInvariant.lt (hz : 0 ≤ z)
    (habove : ¬ Under (4 * amp - 1) (a * b) (4 * amp * (a + b)) z) : r < z := by
  by_contra hle
  have heq := (isInvariant_iff (by exact_mod_cast ha) (by exact_mod_cast hb) h.pos).mp h
  have hgt : 4 * (a * b) * (4 * amp * (a + b)) <
      (z : ℝ) ^ 3 + 4 * (a * b) * (4 * amp - 1) * z := by exact_mod_cast not_le.mp habove
  obtain hz' | hlt := (not_lt.mp hle).eq_or_lt
  · rw [hz'] at hgt
    linarith
  · have hcubic := pool_cubic_lt hamp ha hb (by exact_mod_cast hz) hlt
    linarith

end Guesses

/-- The larger root of `y² + ny = c`. -/
structure IsRoot (n c r : ℝ) : Prop where
  eq : r ^ 2 + n * r = c
  slope : 0 ≤ 2 * r + n

section Quadratic

variable {n c r t : ℝ}

theorem exists_isRoot (hc : 0 ≤ c) : ∃ r, IsRoot n c r := by
  have hsq : Real.sqrt (n ^ 2 + 4 * c) ^ 2 = n ^ 2 + 4 * c := Real.sq_sqrt (by positivity)
  have hnonneg := Real.sqrt_nonneg (n ^ 2 + 4 * c)
  refine ⟨(Real.sqrt (n ^ 2 + 4 * c) - n) / 2, ?_, by linarith⟩
  linear_combination hsq / 4

theorem IsRoot.ge (h : IsRoot n c r) (ht : t ^ 2 + n * t ≤ c) : t ≤ r := by
  by_contra hlt
  have heq := h.eq
  have hslope := h.slope
  have hprod : 0 < (t - r) * (t + r + n) := mul_pos (by linarith) (by linarith)
  linarith

theorem IsRoot.le (h : IsRoot n c r) (hslope : 0 ≤ 2 * t + n) (ht : c ≤ t ^ 2 + n * t) :
    r ≤ t := by
  by_contra hlt
  have heq := h.eq
  have hprod : 0 < (r - t) * (t + r + n) := mul_pos (by linarith) (by linarith)
  linarith

end Quadratic

/-- There is such a number, and all of them are within two of `d`. -/
def Near (P : ℝ → Prop) (d : Nat) : Prop := (∃ r, P r) ∧ ∀ r, P r → |(d : ℝ) - r| ≤ 2

section Trade

variable {n c v : Int} {y : Nat} (hc : 0 ≤ c) (hv : Next n c v)

include hc hv

theorem near_next (hlow : v - 1 ≤ y) (hhigh : (y : Int) ≤ v) : Near (IsRoot n c) y := by
  refine ⟨exists_isRoot (by exact_mod_cast hc), fun r hr => ?_⟩
  have hslope := hv.slope_pos hc
  have hone := hv.one_le
  have hge : ((v - 1 : Int) : ℝ) ≤ r := by
    refine hr.ge ?_
    have hbelow := hv.below
    have hsq : (v - 1) ^ 2 + n * (v - 1) ≤ c := by linarith
    exact_mod_cast hsq
  have hle : r ≤ (v : ℝ) := by
    refine hr.le (by exact_mod_cast (by omega : 0 ≤ 2 * v + n)) ?_
    have habove := hv.above
    have hsq : c ≤ v ^ 2 + n * v := by linarith
    exact_mod_cast hsq
  have hlow' : ((v - 1 : Int) : ℝ) ≤ y := by exact_mod_cast hlow
  have hhigh' : (y : ℝ) ≤ v := by exact_mod_cast hhigh
  push_cast at hge hlow'
  exact abs_le.mpr ⟨by linarith, by linarith⟩

variable {d f m q x : Int} (hx : 0 < x) (hm : 4 ≤ m) (hd : 2 ≤ d) (hq : m * q ≤ d)
variable (hq' : d < m * (q + 1)) (hcubed : Cubed x m d f c) (hn : n = x + q - d)

include hx hm hd hq hq' hcubed hn

/-- The roundings of the equation move its root by a unit down and by two up at
most. -/
theorem near_exact (hlow : v - 1 ≤ y) (hhigh : (y : Int) ≤ v) :
    Near (IsRoot (x + d / m - d) (d ^ 3 / (4 * x * m))) y := by
  have hslope := hv.slope_pos hc
  have hone := hv.one_le
  have hm0 : (0 : ℝ) < m := by exact_mod_cast (by omega : 0 < m)
  have hx0 : (0 : ℝ) < x := by exact_mod_cast hx
  have hd0 : (0 : ℝ) ≤ d := by exact_mod_cast (by omega : 0 ≤ d)
  have hpart : (q : ℝ) ≤ d / m := (le_div_iff₀' hm0).mpr (by exact_mod_cast hq)
  have hpart' : (d : ℝ) / m < q + 1 := (div_lt_iff₀' hm0).mpr (by exact_mod_cast hq')
  have hconstant : (c : ℝ) ≤ d ^ 3 / (4 * x * m) := by
    have hle : c * (4 * x * m) ≤ d ^ 3 := by
      have h := hcubed.mul_le hx.le (by omega)
      linarith
    exact (le_div_iff₀ (by positivity)).mpr (by exact_mod_cast hle)
  have hslope0 : (n : ℝ) = x + q - d := by exact_mod_cast hn
  have hlow' : (v : ℝ) - 1 ≤ y := by exact_mod_cast hlow
  have hhigh' : (y : ℝ) ≤ v := by exact_mod_cast hhigh
  have hvn : (1 : ℝ) ≤ v + n := by exact_mod_cast (by omega : 1 ≤ v + n)
  have hsq : ((v : ℝ) - 1) * (v - 1) + n * (v - 1) ≤ c := by exact_mod_cast hv.below
  refine ⟨exists_isRoot (by positivity), fun r hr => ?_⟩
  -- the slope is less than one more, so two units down are below the root
  have hge : (v : ℝ) - 2 ≤ r := by
    obtain hv2 | hv2 := le_or_gt v 2
    · have hv2' : (v : ℝ) ≤ 2 := by exact_mod_cast hv2
      have hzero : (0 : ℝ) ≤ r := hr.ge (by norm_num; positivity)
      linarith
    · have hv2' : (2 : ℝ) < v := by exact_mod_cast hv2
      refine hr.ge ?_
      have hmore : (x + d / m - d : ℝ) * (v - 2) ≤ (n + 1) * (v - 2) :=
        mul_le_mul_of_nonneg_right (by linarith) (by linarith)
      linarith
  have hle : r ≤ y + 2 := by
    have habove : c < ((y : Int) + 1) * (y + 1) + (x + q - d) * (y + 1) := by
      have hgap : 0 ≤ ((y : Int) + 1 - v) * (y + 1 + v + n) := mul_nonneg (by omega) (by omega)
      have hv' := hv.above
      rw [← hn]
      linarith
    have hunder := StableTrade.under_of_above hx hm hd hq hq' hcubed (Int.natCast_nonneg y) habove
    refine hr.le (by linarith) ((div_le_iff₀ (by positivity)).mpr ?_)
    have hcancel : (d : ℝ) / m * m = d := div_mul_cancel₀ _ hm0.ne'
    have hle : (d : ℝ) ^ 3 + 4 * (x * (y + 2)) * (m - 1) * d ≤
        4 * (x * (y + 2)) * (m * (x + (y + 2))) := by exact_mod_cast hunder
    calc (d : ℝ) ^ 3 ≤ 4 * (x * (y + 2)) * (m * (x + (y + 2)) - (m - 1) * d) := by linarith
      _ = ((y + 2) ^ 2 + (x + d / m - d) * (y + 2)) * (4 * x * m) := by
        linear_combination (-4 : ℝ) * x * (y + 2) * hcancel
  exact abs_le.mpr ⟨by linarith, by linarith⟩

end Trade

end Suban.Basis.StableReal
