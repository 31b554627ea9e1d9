import Mathlib.Algebra.Order.Ring.Int
import Mathlib.Tactic.GCongr
import Mathlib.Tactic.Linarith
import Mathlib.Tactic.Positivity.Basic
import Mathlib.Tactic.Ring

namespace Suban.Basis.StableCurve

/-- `z` is at most the root of the cubic `z³ + 4cnz = 4ct`. With the product and
the weighted sum of two balances that root is what the stable curve between
them keeps. -/
def Under (n c t z : Int) : Prop := z ^ 3 + 4 * c * n * z ≤ 4 * c * t

/-- `p` is `d³ / 4ab`, which is rounded down in two places. -/
structure Cubed (a b d f p : Int) : Prop where
  f_le : 2 * a * f ≤ d * d
  lt_f : d * d < 2 * a * (f + 1)
  p_le : 2 * b * p ≤ f * d
  lt_p : f * d < 2 * b * (p + 1)

/-- `w` is the next guess of Newton's method for that root after `d`, rounded
down. -/
structure Newton (n a b d p w : Int) : Prop where
  le : w * (n * d + 3 * p) ≤ ((n + 1) * (a + b) + 2 * p) * d
  lt : ((n + 1) * (a + b) + 2 * p) * d < (w + 1) * (n * d + 3 * p)

section Root

variable {n c c' t t' y z : Int}

theorem Under.mul_le (hc : 0 < c) (hz : 0 ≤ z) (h : Under n c t z) : n * z ≤ t := by
  unfold Under at h
  have hcube : 0 ≤ z ^ 3 := by positivity
  have hscaled : 4 * c * (n * z) ≤ 4 * c * t := by linarith
  exact le_of_mul_le_mul_left hscaled (by omega)

theorem Under.mono (hc : 0 < c) (hz : 0 ≤ z) (h : Under n c t z) (hcc : c ≤ c') (htt : t ≤ t') :
    Under n c' t' z := by
  have hrest : 0 ≤ t - n * z := sub_nonneg.mpr (h.mul_le hc hz)
  have hgrow : 4 * c * (t - n * z) ≤ 4 * c' * (t - n * z) :=
    mul_le_mul_of_nonneg_right (by omega) hrest
  have hmore : 4 * c' * t ≤ 4 * c' * t' := mul_le_mul_of_nonneg_left htt (by omega)
  unfold Under at *
  linarith

theorem Under.anti (hn : 0 ≤ n) (hc : 0 ≤ c) (hy : 0 ≤ y) (hyz : y ≤ z) (h : Under n c t z) :
    Under n c t y := by
  have hcube : y ^ 3 ≤ z ^ 3 := pow_le_pow_left₀ hy hyz 3
  have hlinear : 4 * c * n * y ≤ 4 * c * n * z :=
    mul_le_mul_of_nonneg_left hyz (by positivity)
  unfold Under at *
  linarith

theorem Under.of_le (hn : 0 ≤ n) (hc : 0 ≤ c) (ht : 0 ≤ t) (h : Under n c t z) (hyz : y ≤ z) :
    Under n c t y := by
  obtain hy | hy := le_or_gt 0 y
  · exact h.anti hn hc hy hyz
  · have hcube : y ^ 3 ≤ 0 := Odd.pow_nonpos (by decide) hy.le
    have hlinear : 4 * c * n * y ≤ 0 := mul_nonpos_of_nonneg_of_nonpos (by positivity) hy.le
    have hroot : 0 ≤ 4 * c * t := by positivity
    unfold Under
    omega

theorem Under.three_mul_le {s : Int} (hn : 3 ≤ n) (hc : 0 < c) (hz : 0 ≤ z)
    (h : Under n c ((n + 1) * s + 1) z) : 3 * z ≤ 4 * s + 1 := by
  have hmul := h.mul_le hc hz
  by_contra hgt
  have hfar : 3 * (z - s) ≤ n * (z - s) := mul_le_mul_of_nonneg_right hn (by linarith)
  linarith

end Root

section Step

variable {n a b d f p w z : Int}

theorem Cubed.mul_le (ha : 0 ≤ a) (hd : 0 ≤ d) (h : Cubed a b d f p) :
    4 * (a * b) * p ≤ d ^ 3 := by
  calc 4 * (a * b) * p = 2 * a * (2 * b * p) := by ring
    _ ≤ 2 * a * (f * d) := mul_le_mul_of_nonneg_left h.p_le (by omega)
    _ = 2 * a * f * d := by ring
    _ ≤ d * d * d := mul_le_mul_of_nonneg_right h.f_le hd
    _ = d ^ 3 := by ring

theorem Cubed.nonneg (ha : 0 < a) (hb : 0 < b) (hd : 0 ≤ d) (h : Cubed a b d f p) :
    0 ≤ f ∧ 0 ≤ p := by
  have hf : 0 ≤ f := by
    by_contra hneg
    have hless : 2 * a * (f + 1) ≤ 0 := mul_nonpos_of_nonneg_of_nonpos (by omega) (by omega)
    have hsq := mul_self_nonneg d
    have hlt := h.lt_f
    omega
  refine ⟨hf, ?_⟩
  by_contra hneg
  have hless : 2 * b * (p + 1) ≤ 0 := mul_nonpos_of_nonneg_of_nonpos (by omega) (by omega)
  have hprod := mul_nonneg hf hd
  have hlt := h.lt_p
  omega

theorem Cubed.divisor_pos (hn : 0 < n) (ha : 0 < a) (hb : 0 < b) (hd : 0 < d)
    (h : Cubed a b d f p) : 0 < n * d + 3 * p := by
  have hp := (h.nonneg ha hb hd.le).2
  have hnd := mul_pos hn hd
  omega

theorem Newton.ge (hn : 0 < n) (ha : 0 < a) (hb : 0 < b) (hd : 0 < d) (hz : 0 ≤ z)
    (hp : Cubed a b d f p) (hw : Newton n a b d p w)
    (h : Under n (a * b) ((n + 1) * (a + b)) z) : z ≤ w := by
  have hc : 0 < 4 * (a * b) := by positivity
  have hcube := hp.mul_le ha.le hd.le
  have hamount : z ^ 3 ≤ 4 * (a * b) * ((n + 1) * (a + b) - n * z) := by
    unfold Under at h
    linarith
  have htangent : p * (3 * z - 2 * d) ≤ ((n + 1) * (a + b) - n * z) * d := by
    refine le_of_mul_le_mul_left ?_ hc
    have hright : z ^ 3 * d ≤ 4 * (a * b) * ((n + 1) * (a + b) - n * z) * d :=
      mul_le_mul_of_nonneg_right hamount hd.le
    obtain hneg | hpos := le_or_gt (3 * z - 2 * d) 0
    · have hp0 := (hp.nonneg ha hb hd.le).2
      have hleft : 4 * (a * b) * (p * (3 * z - 2 * d)) ≤ 0 :=
        mul_nonpos_of_nonneg_of_nonpos hc.le (mul_nonpos_of_nonneg_of_nonpos hp0 hneg)
      have hz3 : 0 ≤ z ^ 3 * d := by positivity
      linarith
    · -- `(z - d)² (z + 2d)` is what the tangent leaves of the cube
      have hleft : 4 * (a * b) * p * (3 * z - 2 * d) ≤ d ^ 3 * (3 * z - 2 * d) :=
        mul_le_mul_of_nonneg_right hcube hpos.le
      have hgap : 0 ≤ d * ((z - d) ^ 2 * (z + 2 * d)) := by positivity
      linarith
  have hbound : z * (n * d + 3 * p) < (w + 1) * (n * d + 3 * p) := by
    refine lt_of_le_of_lt ?_ hw.lt
    linarith
  exact Int.lt_add_one_iff.mp
    (lt_of_mul_lt_mul_right hbound (hp.divisor_pos hn ha hb hd).le)

theorem Cubed.two_mul_le (ha : 0 < a) (hmean : 4 * (a * b) ≤ d * d) (h : Cubed a b d f p) :
    2 * b ≤ f := by
  have hlt : 2 * a * (2 * b) < 2 * a * (f + 1) := by
    refine lt_of_le_of_lt ?_ h.lt_f
    linarith
  exact Int.lt_add_one_iff.mp (lt_of_mul_lt_mul_left hlt (by omega))

theorem Cubed.le_part (ha : 0 < a) (hb : 0 < b) (hd : 0 ≤ d) (hmean : 4 * (a * b) ≤ d * d)
    (h : Cubed a b d f p) : d ≤ p := by
  have hf : 2 * b * d ≤ f * d := mul_le_mul_of_nonneg_right (h.two_mul_le ha hmean) hd
  have hlt : 2 * b * d < 2 * b * (p + 1) := lt_of_le_of_lt hf h.lt_p
  exact Int.lt_add_one_iff.mp (lt_of_mul_lt_mul_left hlt (by omega))

/-- One unit more of each balance makes up for the rounding, with that much to
spare. -/
theorem Cubed.spare (ha : 0 < a) (hb : 0 < b) (hd : 0 ≤ d) (hmean : 4 * (a * b) ≤ d * d)
    (h : Cubed a b d f p) :
    d * (2 * a + 4 * b + 5) - 2 * (a + 1) * (2 * b + 1) ≤
      4 * ((a + 1) * (b + 1)) * p - d ^ 3 := by
  refine le_of_mul_le_mul_left ?_ hb
  have hf := h.two_mul_le ha hmean
  have hsq : d * d ≤ 2 * a * (f + 1) - 1 := by
    have hlt := h.lt_f
    omega
  have hpart : f * d - 2 * b + 1 ≤ 2 * b * p := by
    have hlt := h.lt_p
    rw [mul_add, mul_one] at hlt
    omega
  have hcube : b * d * (d * d) ≤ b * d * (2 * a * (f + 1) - 1) :=
    mul_le_mul_of_nonneg_left hsq (by positivity)
  have hscaled : 2 * ((a + 1) * (b + 1)) * (f * d - 2 * b + 1) ≤
      2 * ((a + 1) * (b + 1)) * (2 * b * p) :=
    mul_le_mul_of_nonneg_left hpart (by positivity)
  have hrest : 2 * (a + b + 1) * d * (2 * b) ≤ 2 * (a + b + 1) * d * f :=
    mul_le_mul_of_nonneg_left hf (by positivity)
  linarith

theorem spare_nonneg (ha : 0 < a) (hb : 0 < b) (hd : 0 ≤ d) (hmean : 4 * (a * b) ≤ d * d) :
    0 ≤ d * (2 * a + 4 * b + 5) - 2 * (a + 1) * (2 * b + 1) := by
  obtain hle | hgt := le_or_gt d (2 * b)
  · -- a balance of at least half the guess leaves less than that of the other
    have hda : 2 * a ≤ d := by
      have hprod : 2 * b * (2 * a) ≤ 2 * b * d := by nlinarith
      exact le_of_mul_le_mul_left hprod (by omega)
    nlinarith
  · nlinarith

theorem Cubed.cube_le (ha : 0 < a) (hb : 0 < b) (hd : 0 ≤ d) (hmean : 4 * (a * b) ≤ d * d)
    (h : Cubed a b d f p) : d ^ 3 ≤ 4 * ((a + 1) * (b + 1)) * p := by
  have hspare := h.spare ha hb hd hmean
  have hnonneg := spare_nonneg ha hb hd hmean
  omega

theorem Newton.sum_ge (hw : Newton n a b d p w) :
    n * w * d + p * (3 * w - 2 * d) ≤ (n + 1) * (a + b) * d := by
  have hle := hw.le
  linarith

theorem Newton.le_sum (hn : 0 < n) (ha : 0 < a) (hb : 0 < b) (hd : 0 < d) (hle : d ≤ a + b)
    (hp : Cubed a b d f p) (hw : Newton n a b d p w) (hpart : d ≤ p) : w ≤ a + b := by
  have hden := hp.divisor_pos hn ha hb hd
  have hgrow : (a + b) * d ≤ (a + b) * p := mul_le_mul_of_nonneg_left hpart (by omega)
  have hmore : 2 * p * d ≤ 2 * p * (a + b) := mul_le_mul_of_nonneg_left hle (by omega)
  refine le_of_mul_le_mul_right ?_ hden
  have hle := hw.le
  linarith

/-- A step that is short for its rounding error ends below the root for one unit
more of each balance. -/
theorem Newton.under_of_gap (ha : 0 < a) (hb : 0 < b) (hd : 0 < d) (hw : Newton n a b d p w)
    (hgap : d * (w - d) ^ 2 * (w + 2 * d) ≤
      (4 * ((a + 1) * (b + 1)) * p - d ^ 3) * (3 * w - 2 * d) + 4 * ((a + 1) * (b + 1)) * d) :
    Under n ((a + 1) * (b + 1)) ((n + 1) * (a + b) + 1) w := by
  refine le_of_mul_le_mul_left ?_ hd
  have hsum : 4 * ((a + 1) * (b + 1)) * (n * w * d + p * (3 * w - 2 * d)) ≤
      4 * ((a + 1) * (b + 1)) * ((n + 1) * (a + b) * d) :=
    mul_le_mul_of_nonneg_left hw.sum_ge (by positivity)
  linarith

theorem Newton.third_le {v : Int} (hn : 0 < n) (ha : 0 < a) (hb : 0 < b) (hd : 0 < d)
    (hmean : 4 * (a * b) ≤ d * d) (hp : Cubed a b d f p) (hw : Newton n a b d p w) (hv : 0 ≤ v)
    (hvd : v ≤ d) (habove : ¬ Under n ((a + 1) * (b + 1)) ((n + 1) * (a + b) + 1) v) :
    3 * w ≤ 2 * d + v := by
  have hc : 0 < 4 * ((a + 1) * (b + 1)) := by positivity
  have hden := hp.divisor_pos hn ha hb hd
  have hp0 := (hp.nonneg ha hb hd.le).2
  have hcube : 3 * v * d ^ 3 ≤ 3 * v * (4 * ((a + 1) * (b + 1)) * p) :=
    mul_le_mul_of_nonneg_left (hp.cube_le ha hb hd.le hmean) (by omega)
  have hsq : 3 * v * d * (v * v) ≤ 3 * v * d * (d * d) :=
    mul_le_mul_of_nonneg_left (mul_self_le_mul_self hv hvd) (by positivity)
  have habove' : 3 * d * (4 * ((a + 1) * (b + 1)) * ((n + 1) * (a + b) + 1)) ≤
      3 * d * (v ^ 3 + 4 * ((a + 1) * (b + 1)) * n * v) :=
    mul_le_mul_of_nonneg_left (not_le.mp habove).le (by omega)
  have hnd : 0 ≤ 4 * ((a + 1) * (b + 1)) * (2 * n * d) * (d - v) :=
    mul_nonneg (by positivity) (sub_nonneg.mpr hvd)
  have hspare : 0 < 4 * ((a + 1) * (b + 1)) * (n * d + 3 * p) := mul_pos hc hden
  have hsum : 3 * (((n + 1) * (a + b) + 2 * p) * d) < (2 * d + v + 1) * (n * d + 3 * p) := by
    refine lt_of_mul_lt_mul_left ?_ hc.le
    have hd0 : 0 ≤ 4 * ((a + 1) * (b + 1)) * d := by positivity
    linarith
  have hlt : 3 * w * (n * d + 3 * p) < (2 * d + v + 1) * (n * d + 3 * p) := by
    have hle := hw.le
    linarith
  exact Int.lt_add_one_iff.mp (lt_of_mul_lt_mul_right hlt hden.le)

theorem Cubed.ge_mul (ha : 0 < a) (hd : 0 ≤ d) (h : Cubed a b d f p) :
    d ^ 3 - (2 * a - 1) * d - 4 * (a * b) + 2 * a ≤ 4 * (a * b) * p := by
  have hsq : d * d + 1 - 2 * a ≤ 2 * a * f := by
    have hlt := h.lt_f
    rw [mul_add, mul_one] at hlt
    omega
  have hpart : f * d - 2 * b + 1 ≤ 2 * b * p := by
    have hlt := h.lt_p
    rw [mul_add, mul_one] at hlt
    omega
  have hleft : (d * d + 1 - 2 * a) * d ≤ 2 * a * f * d := mul_le_mul_of_nonneg_right hsq hd
  have hright : 2 * a * (f * d - 2 * b + 1) ≤ 2 * a * (2 * b * p) :=
    mul_le_mul_of_nonneg_left hpart (by omega)
  linarith

/-- When one more would be above the root, a step upwards is bounded. -/
theorem Newton.rise_le (hn : 3 ≤ n) (ha : 0 < a) (hb : 0 < b) (hd : 2 ≤ d)
    (hmean : 4 * (a * b) ≤ d * d) (hp : Cubed a b d f p) (hw : Newton n a b d p w)
    (hrise : d + 2 ≤ w) (habove : ¬ Under n (a * b) ((n + 1) * (a + b)) (d + 1)) :
    3 * d * (w - d) ≤ 5 * d + 2 * a + 4 := by
  obtain ⟨j, hj, rfl⟩ : ∃ j, 1 ≤ j ∧ w = d + 1 + j := ⟨w - d - 1, by omega, by omega⟩
  by_contra hfar
  have hfar' : 2 * d + 2 * a + 5 ≤ 3 * d * j := by linarith
  have hab : 0 < 4 * (a * b) := by positivity
  have hsum : 4 * (a * b) * (n * (d + 1 + j) * d + p * (3 * (d + 1 + j) - 2 * d)) ≤
      4 * (a * b) * ((n + 1) * (a + b) * d) := mul_le_mul_of_nonneg_left hw.sum_ge hab.le
  have habove' : 4 * (a * b) * ((n + 1) * (a + b)) * d <
      ((d + 1) ^ 3 + 4 * (a * b) * n * (d + 1)) * d :=
    mul_lt_mul_of_pos_right (not_le.mp habove) (by omega)
  have hcube : (d ^ 3 - (2 * a - 1) * d - 4 * (a * b) + 2 * a) * (d + 3 + 3 * j) ≤
      4 * (a * b) * p * (d + 3 + 3 * j) :=
    mul_le_mul_of_nonneg_right (hp.ge_mul ha (by omega)) (by omega)
  have hweight : 4 * (a * b) * (j * d) * 3 ≤ 4 * (a * b) * (j * d) * n :=
    mul_le_mul_of_nonneg_left hn (by positivity)
  -- what is left is about `d`, `j` and the balances alone
  have hfirst : d ^ 2 * (2 * d + 2 * a + 5) ≤ d ^ 2 * (3 * d * j) :=
    mul_le_mul_of_nonneg_left hfar' (by positivity)
  have hsecond : 0 ≤ (j - 1) * (6 * a * (2 * b - 1) * (d - 1) + 3 * d) := by
    have hfactor : 0 ≤ 6 * a * (2 * b - 1) * (d - 1) :=
      mul_nonneg (mul_nonneg (by omega) (by omega)) (by omega)
    exact mul_nonneg (by omega) (by omega)
  have hmeand : 4 * (a * b) * d ≤ d * d * d := mul_le_mul_of_nonneg_right hmean (by omega)
  have hb1 : 0 ≤ a * d * (b - 1) := mul_nonneg (by positivity) (by omega)
  have hd2 : 0 ≤ a * b * (d - 2) := mul_nonneg (by positivity) (by omega)
  linarith

section Gap

variable {k s : Int} (ha : 0 < a) (hb : 0 < b) (hd : 2 ≤ d) (hmean : 4 * (a * b) ≤ d * d)
variable (hrise : 3 * d * k ≤ 5 * d + 2 * a + 4)
variable (hspare : d * (2 * a + 4 * b + 5) - 2 * (a + 1) * (2 * b + 1) ≤ s)

include ha hb hd hmean hrise hspare

theorem gap_two (hk : k = 2) :
    d * k ^ 2 * (3 * d + k) ≤ s * (d + 3 * k) + 4 * ((a + 1) * (b + 1)) * d := by
  subst hk
  have hs : 8 * d - 6 ≤ s := by
    refine le_trans ?_ hspare
    obtain hle | hgt := le_or_gt d a
    · nlinarith
    · nlinarith
  have hbalances : 4 * d - 8 ≤ 4 * ((a + 1) * (b + 1)) := by nlinarith
  have hleft : (8 * d - 6) * (d + 6) ≤ s * (d + 6) := mul_le_mul_of_nonneg_right hs (by omega)
  have hright : (4 * d - 8) * d ≤ 4 * ((a + 1) * (b + 1)) * d :=
    mul_le_mul_of_nonneg_right hbalances (by omega)
  nlinarith

theorem gap_three (hk : k = 3) :
    d * k ^ 2 * (3 * d + k) ≤ s * (d + 3 * k) + 4 * ((a + 1) * (b + 1)) * d := by
  subst hk
  have ha2 : 2 * d - 2 ≤ a := by omega
  have hs : 11 * d ≤ s := by
    refine le_trans ?_ hspare
    nlinarith
  have hbalances : 16 * d - 8 ≤ 4 * ((a + 1) * (b + 1)) := by nlinarith
  have hleft : 11 * d * (d + 9) ≤ s * (d + 9) := mul_le_mul_of_nonneg_right hs (by omega)
  have hright : (16 * d - 8) * d ≤ 4 * ((a + 1) * (b + 1)) * d :=
    mul_le_mul_of_nonneg_right hbalances (by omega)
  nlinarith

/-- A rise of four or more goes with balances so far apart that the spare grows
faster than its square. -/
theorem gap_more (hk : 4 ≤ k) :
    d * k ^ 2 * (3 * d + k) ≤ s * (d + 3 * k) + 4 * ((a + 1) * (b + 1)) * d := by
  have hdk : d * 4 ≤ d * k := mul_le_mul_of_nonneg_left hk (by omega)
  have hfar : 7 * d ≤ 2 * a + 4 := by linarith
  have hab : a ≤ a * b := le_mul_of_one_le_right ha.le hb
  have hd14 : 14 ≤ d := by
    by_contra hlt
    nlinarith
  have hsquare : (7 * (d * k)) ^ 2 ≤ (8 * (a + 2)) ^ 2 :=
    pow_le_pow_left₀ (by positivity) (by linarith) 2
  have hlow : 2 * (a * d) - d * d - 2 * a + 9 * d - 6 ≤ s := by
    refine le_trans ?_ hspare
    nlinarith
  have hspread : 44 * (a * a) ≤ 7 * (d * s) := by
    have hds : d * (2 * (a * d) - d * d - 2 * a + 9 * d - 6) ≤ d * s :=
      mul_le_mul_of_nonneg_left hlow (by omega)
    have hcubed : d * d * (7 * d) ≤ d * d * (2 * a + 4) :=
      mul_le_mul_of_nonneg_left hfar (by positivity)
    have hlarge : a * d * 14 ≤ a * d * d := mul_le_mul_of_nonneg_left hd14 (by positivity)
    have hmean' : a * (4 * a) ≤ a * (d * d) := mul_le_mul_of_nonneg_left (by omega) ha.le
    nlinarith
  have hs : 3 * d * k ^ 2 ≤ s := by
    refine le_of_mul_le_mul_left ?_ (by omega : 0 < 49 * d)
    nlinarith
  have hleft : 3 * d * k ^ 2 * (d + 3 * k) ≤ s * (d + 3 * k) :=
    mul_le_mul_of_nonneg_right hs (by omega)
  have hcubic : 0 ≤ d * k ^ 2 * (8 * k) := by positivity
  have hright : 0 ≤ 4 * ((a + 1) * (b + 1)) * d := by positivity
  linarith

theorem gap_le (hk : 2 ≤ k) :
    d * k ^ 2 * (3 * d + k) ≤ s * (d + 3 * k) + 4 * ((a + 1) * (b + 1)) * d := by
  obtain h | h | h := (by omega : k = 2 ∨ k = 3 ∨ 4 ≤ k)
  · exact gap_two ha hb hd hmean hrise hspare h
  · exact gap_three ha hb hd hmean hrise hspare h
  · exact gap_more ha hb hd hmean hrise hspare h

end Gap

/-- A step that moves by one at most ends below the root for one unit more. -/
theorem Newton.under_of_close (ha : 0 < a) (hb : 0 < b) (hd : 2 ≤ d)
    (hmean : 4 * (a * b) ≤ d * d) (hp : Cubed a b d f p) (hw : Newton n a b d p w)
    (hw2 : 2 ≤ w) (hlow : d ≤ w + 1) (hhigh : w ≤ d + 1) (hsum : 3 * d ≤ 4 * (a + b) + 1) :
    Under n ((a + 1) * (b + 1)) ((n + 1) * (a + b) + 1) w := by
  refine hw.under_of_gap ha hb (by omega) ?_
  have hcube := hp.cube_le ha hb (by omega) hmean
  have hslope : 0 ≤ 3 * w - 2 * d := by omega
  have hspare : 0 ≤ (4 * ((a + 1) * (b + 1)) * p - d ^ 3) * (3 * w - 2 * d) :=
    mul_nonneg (sub_nonneg.mpr hcube) hslope
  have hsq : (w - d) ^ 2 ≤ 1 := by
    have hprod : 0 ≤ (w - d + 1) * (1 - (w - d)) := mul_nonneg (by omega) (by omega)
    linarith
  have hbalances : w + 2 * d ≤ 4 * ((a + 1) * (b + 1)) := by nlinarith
  have hgap : d * (w - d) ^ 2 * (w + 2 * d) ≤ d * 1 * (w + 2 * d) :=
    mul_le_mul_of_nonneg_right (mul_le_mul_of_nonneg_left hsq (by omega)) (by omega)
  nlinarith

/-- Below the root for one unit more a step stays below it, when a guess of one
more would be above the root. -/
theorem Newton.under_of_under (hn : 3 ≤ n) (ha : 0 < a) (hb : 0 < b) (hd : 2 ≤ d)
    (hmean : 4 * (a * b) ≤ d * d) (hp : Cubed a b d f p) (hw : Newton n a b d p w)
    (hw2 : 2 ≤ w)
    (habove : ¬ Under n (a * b) ((n + 1) * (a + b)) (d + 1))
    (h : Under n ((a + 1) * (b + 1)) ((n + 1) * (a + b) + 1) d) :
    Under n ((a + 1) * (b + 1)) ((n + 1) * (a + b) + 1) w := by
  have hsum := h.three_mul_le hn (by positivity) (by omega)
  obtain hle | hgt := le_or_gt w d
  · exact h.anti (by omega) (by positivity) (by omega) hle
  obtain hone | hmore := (by omega : w ≤ d + 1 ∨ d + 2 ≤ w)
  · exact hw.under_of_close ha hb hd hmean hp hw2 (by omega) hone hsum
  · refine hw.under_of_gap ha hb (by omega) ?_
    have hrise := hw.rise_le hn ha hb hd hmean hp hmore habove
    have hspare := hp.spare ha hb (by omega) hmean
    have hgap := gap_le ha hb hd hmean hrise hspare (by omega : 2 ≤ w - d)
    linarith

end Step

end Suban.Basis.StableCurve
