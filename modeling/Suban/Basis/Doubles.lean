import Mathlib.Data.Int.Log
import Mathlib.Data.Rat.Floor
import Mathlib.Tactic.Linarith
import Mathlib.Tactic.NormNum.Pow
import Mathlib.Tactic.Ring

namespace Suban.Basis.Doubles

/-- The whole number nearest to a fraction, the even one of two as near. -/
def halfEven (x : ℚ) : ℤ :=
  if Int.fract x < 1 / 2 ∨ Int.fract x = 1 / 2 ∧ Even ⌊x⌋ then ⌊x⌋ else ⌊x⌋ + 1

/-- The exponent of the last place that a double about a number has. -/
def exponent (x : ℚ) : ℤ := max (Int.log 2 |x| - 52) (-1074)

/-- The double nearest to a number, as if there were no largest one. -/
def toDouble (x : ℚ) : ℚ := halfEven (x / 2 ^ exponent x) * 2 ^ exponent x

def Grid (k : ℤ) (x : ℚ) : Prop := ∃ m : ℤ, x = m * 2 ^ k

section Grids

variable {j k m : ℤ} {x y q : ℚ}

theorem Grid.mono (h : Grid k x) (hjk : j ≤ k) : Grid j x := by
  obtain ⟨m, rfl⟩ := h
  obtain ⟨d, rfl⟩ := Int.le.dest hjk
  refine ⟨m * 2 ^ d, ?_⟩
  rw [zpow_add₀ two_ne_zero, zpow_natCast]
  push_cast
  ring

theorem Grid.sub (hx : Grid k x) (hy : Grid k y) : Grid k (x - y) := by
  obtain ⟨m, rfl⟩ := hx
  obtain ⟨n, rfl⟩ := hy
  exact ⟨m - n, by push_cast; ring⟩

theorem grid_natCast (n : Nat) : Grid 0 (n : ℚ) := ⟨n, by simp⟩

theorem unit_pos (k : ℤ) : (0 : ℚ) < 2 ^ k := zpow_pos two_pos k

theorem Grid.le (h : Grid k x) (hx : 0 < x) : (2 : ℚ) ^ k ≤ x := by
  obtain ⟨m, rfl⟩ := h
  have hm : (1 : ℚ) ≤ m := by
    exact_mod_cast (pos_of_mul_pos_left hx (unit_pos k).le : (0 : ℚ) < m)
  calc (2 : ℚ) ^ k = 1 * 2 ^ k := (one_mul _).symm
    _ ≤ m * 2 ^ k := mul_le_mul_of_nonneg_right hm (unit_pos k).le

theorem halfEven_intCast (m : ℤ) : halfEven m = m := by
  simp [halfEven]

theorem floor_le_halfEven (x : ℚ) : ⌊x⌋ ≤ halfEven x := by
  unfold halfEven
  split <;> omega

theorem halfEven_le_ceil (x : ℚ) : halfEven x ≤ ⌈x⌉ := by
  unfold halfEven
  split
  next => exact Int.floor_le_ceil x
  next h =>
    rw [not_or, not_lt] at h
    have hfract : 0 < Int.fract x := one_half_pos.trans_le h.1
    have hlt : (⌊x⌋ : ℚ) < x := sub_pos.mp hfract
    exact Int.lt_ceil.mpr hlt

theorem toDouble_eq_self_iff : toDouble x = x ↔ Grid (exponent x) x := by
  refine ⟨fun h => ⟨_, h.symm⟩, fun ⟨m, hm⟩ => ?_⟩
  have hquot : x / 2 ^ exponent x = m := by rw [div_eq_iff (unit_pos _).ne', ← hm]
  rw [toDouble, hquot, halfEven_intCast, ← hm]

theorem grid_of_double (h : toDouble x = x) : Grid (-1074) x :=
  (toDouble_eq_self_iff.mp h).mono (le_max_right _ _)

theorem exponent_le (hx : x ≠ 0) (hk : -1074 ≤ k) (h : |x| < 2 ^ (k + 53)) : exponent x ≤ k := by
  refine max_le ?_ hk
  have hlog : Int.log 2 |x| < k + 53 :=
    (Int.lt_zpow_iff_log_lt one_lt_two (abs_pos.mpr hx)).mp (by exact_mod_cast h)
  omega

theorem abs_lt_unit (x : ℚ) : |x| < 2 ^ (exponent x + 53) := by
  have hlog : |x| < 2 ^ (Int.log 2 |x| + 1) := by
    exact_mod_cast Int.lt_zpow_succ_log_self one_lt_two |x|
  have hle : Int.log 2 |x| + 1 ≤ exponent x + 53 := by
    have hmax : Int.log 2 |x| - 52 ≤ exponent x := le_max_left _ _
    omega
  exact hlog.trans_le (zpow_le_zpow_right₀ one_le_two hle)

theorem toDouble_of_grid_lt (hk : -1074 ≤ k) (h : Grid k x) (hx : |x| < 2 ^ (k + 53)) :
    toDouble x = x := by
  obtain rfl | hne := eq_or_ne x 0
  · exact toDouble_eq_self_iff.mpr ⟨0, by simp⟩
  · exact toDouble_eq_self_iff.mpr (h.mono (exponent_le hne hk hx))

theorem toDouble_of_grid (hk : -1074 ≤ k) (h : Grid k x) (hx : |x| ≤ 2 ^ (k + 53)) :
    toDouble x = x := by
  obtain hlt | heq := hx.lt_or_eq
  · exact toDouble_of_grid_lt hk h hlt
  · -- a power of two is a number of units in the next place too
    have hpower : Grid (k + 1) x := by
      have hunit : (2 : ℚ) ^ (k + 53) = 2 ^ 52 * 2 ^ (k + 1) := by
        rw [← zpow_natCast, ← zpow_add₀ two_ne_zero]
        congr 1
        push_cast
        ring
      obtain hpos | hneg := (abs_eq (unit_pos _).le).mp heq
      · exact ⟨2 ^ 52, by rw [hpos, hunit]; push_cast; rfl⟩
      · exact ⟨-2 ^ 52, by rw [hneg, hunit]; push_cast; ring⟩
    refine toDouble_of_grid_lt (by omega) hpower ?_
    rw [heq]
    exact zpow_lt_zpow_right₀ one_lt_two (by omega)

theorem toDouble_toDouble (x : ℚ) : toDouble (toDouble x) = toDouble x := by
  have hk : -1074 ≤ exponent x := le_max_right _ _
  refine toDouble_of_grid hk ⟨_, rfl⟩ ?_
  have hunit := unit_pos (exponent x)
  have hquot : |x / 2 ^ exponent x| < 2 ^ 53 := by
    rw [abs_div, abs_of_pos hunit, div_lt_iff₀ hunit, ← zpow_natCast, ← zpow_add₀ two_ne_zero,
      add_comm]
    exact abs_lt_unit x
  obtain ⟨hlow, hhigh⟩ := abs_lt.mp hquot
  have hfloor : -2 ^ 53 ≤ halfEven (x / 2 ^ exponent x) :=
    (Int.le_floor.mpr (by push_cast; exact hlow.le)).trans (floor_le_halfEven _)
  have hceil : halfEven (x / 2 ^ exponent x) ≤ 2 ^ 53 :=
    (halfEven_le_ceil _).trans (Int.ceil_le.mpr (by push_cast; exact hhigh.le))
  have hdigits : |(halfEven (x / 2 ^ exponent x) : ℚ)| ≤ 2 ^ 53 := by
    exact_mod_cast abs_le.mpr ⟨hfloor, hceil⟩
  rw [toDouble, abs_mul, abs_of_pos hunit, zpow_add₀ two_ne_zero, mul_comm ((2 : ℚ) ^ exponent x)]
  exact mul_le_mul_of_nonneg_right hdigits hunit.le

theorem toDouble_nonpos (h : x ≤ 0) : toDouble x ≤ 0 := by
  have hquot : x / 2 ^ exponent x ≤ 0 := div_nonpos_of_nonpos_of_nonneg h (unit_pos _).le
  have hceil : halfEven (x / 2 ^ exponent x) ≤ 0 :=
    (halfEven_le_ceil _).trans (Int.ceil_le.mpr (by simpa using hquot))
  exact mul_nonpos_of_nonpos_of_nonneg (by exact_mod_cast hceil) (unit_pos _).le

theorem toDouble_pos (h : Grid (-1074) x) (hx : 0 < x) : 0 < toDouble x := by
  have hunit : (2 : ℚ) ^ exponent x ≤ x := by
    obtain hlog | hleast := max_choice (Int.log 2 |x| - 52) (-1074)
    · have hle : (2 : ℚ) ^ Int.log 2 x ≤ x := by
        exact_mod_cast Int.zpow_log_le_self one_lt_two hx
      have hstep : (2 : ℚ) ^ (Int.log 2 x - 52) ≤ 2 ^ Int.log 2 x :=
        zpow_le_zpow_right₀ one_le_two (by omega)
      rw [exponent, hlog, abs_of_pos hx]
      exact hstep.trans hle
    · rw [exponent, hleast]
      exact h.le hx
  have hquot : (1 : ℚ) ≤ x / 2 ^ exponent x := (one_le_div (unit_pos _)).mpr hunit
  have hdigits : 1 ≤ halfEven (x / 2 ^ exponent x) :=
    (Int.le_floor.mpr (by simpa using hquot)).trans (floor_le_halfEven _)
  exact mul_pos (by exact_mod_cast hdigits) (unit_pos _)

theorem toDouble_sub_pos_iff (hq : toDouble q = q) (n : Nat) :
    0 < toDouble (q - n) ↔ (n : ℚ) < q := by
  refine ⟨fun h => ?_, fun h => ?_⟩
  · by_contra hle
    exact absurd h (toDouble_nonpos (sub_nonpos.mpr (not_lt.mp hle))).not_gt
  · exact toDouble_pos ((grid_of_double hq).sub ((grid_natCast n).mono (by decide))) (sub_pos.mpr h)

/-- Whole numbers are taken from a double of no more than 53 digits before the
point without any error. -/
theorem toDouble_sub (hq : toDouble q = q) (hsmall : q ≤ 2 ^ 53) {n : Nat} (hn : (n : ℚ) ≤ q) :
    toDouble (q - n) = q - n := by
  have hgrid := toDouble_eq_self_iff.mp hq
  have hk : -1074 ≤ min (exponent q) 0 := le_min (le_max_right _ _) (by decide)
  have hdiff : Grid (min (exponent q) 0) (q - n) :=
    (hgrid.mono (min_le_left _ _)).sub ((grid_natCast n).mono (min_le_right _ _))
  refine toDouble_of_grid hk hdiff ?_
  have hle : |q - n| ≤ q := by
    rw [abs_of_nonneg (sub_nonneg.mpr hn)]
    exact sub_le_self q n.cast_nonneg
  obtain hmin | hmin := min_choice (exponent q) 0
  · rw [hmin]
    exact hle.trans ((le_abs_self q).trans (abs_lt_unit q).le)
  · rw [hmin]
    exact hle.trans (by exact_mod_cast hsmall)

theorem grid_one_of_large (hx : toDouble x = x) (h : 2 ^ 53 ≤ x) : Grid 1 x := by
  have hpos : 0 < x := (pow_pos two_pos 53).trans_le h
  have hlog : 53 ≤ Int.log 2 x :=
    (Int.zpow_le_iff_le_log one_lt_two hpos).mp (by exact_mod_cast h)
  have hunit : 1 ≤ Int.log 2 |x| - 52 := by
    rw [abs_of_pos hpos]
    omega
  exact (toDouble_eq_self_iff.mp hx).mono (le_max_of_le_left hunit)

theorem toDouble_sub_one_ne (hq : toDouble q = q) (h : 2 ^ 53 < q) : toDouble (q - 1) ≠ q - 1 := by
  intro hless
  obtain ⟨m, hm⟩ := grid_one_of_large hq h.le
  rw [zpow_one] at hm
  have hwhole : (2 : ℤ) ^ 53 < m * 2 := by exact_mod_cast hm ▸ h
  have hlarge : (2 : ℚ) ^ 53 ≤ q - 1 := by
    have hnext : (2 : ℤ) ^ 53 ≤ m * 2 - 1 := by omega
    rw [hm]
    exact_mod_cast hnext
  obtain ⟨n, hn⟩ := grid_one_of_large hless hlarge
  rw [zpow_one, hm] at hn
  have hodd : m * 2 - 1 = n * 2 := by exact_mod_cast hn
  omega

theorem toDouble_natCast {n : Nat} (h : n ≤ 2 ^ 53) : toDouble (n : ℚ) = n := by
  refine toDouble_of_grid (k := 0) (by decide) (grid_natCast n) ?_
  rw [abs_of_nonneg n.cast_nonneg, zero_add]
  exact_mod_cast h

end Grids

end Suban.Basis.Doubles
