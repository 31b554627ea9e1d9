import Suban.Basis.StableCurve

namespace Suban.Basis.StableTrade

open Suban.Basis.StableCurve

variable {n c y w z top : Int}

/-- `w` is the next guess of Newton's method for the root of `y² + ny = c` after
`y`, rounded down. -/
structure Round (n c y w : Int) : Prop where
  le : w * (2 * y + n) ≤ y * y + c
  lt : y * y + c < (w + 1) * (2 * y + n)

/-- What is known of every guess from the old balance down. -/
structure Guess (n c top y : Int) : Prop where
  nonneg : 0 ≤ y
  le_top : y ≤ top
  above : c < (y + 1) * (y + 1) + n * (y + 1)
  zero : y = 0 → 0 < n

/-- One more than the old balance is above the root with as much to spare. -/
def Slack (n c top : Int) : Prop := c + (top + 1) ≤ (top + 1) * (top + 1) + n * (top + 1)

theorem Round.ge (hdiv : 0 < 2 * y + n) (hw : Round n c y w) (hz : z * z + n * z ≤ c) :
    z ≤ w := by
  have hsq := mul_self_nonneg (y - z)
  have hlt : z * (2 * y + n) < (w + 1) * (2 * y + n) := by
    have hupper := hw.lt
    linarith
  exact Int.lt_add_one_iff.mp (lt_of_mul_lt_mul_right hlt hdiv.le)

theorem Round.above (hdiv : 0 < 2 * y + n) (hw : Round n c y w) :
    c < (w + 1) * (w + 1) + n * (w + 1) := by
  by_contra hle
  have hge := hw.ge hdiv (not_lt.mp hle)
  omega

theorem factor_pos (hc : 0 ≤ c) (hy : 0 ≤ y) (h : c < (y + 1) * (y + 1) + n * (y + 1)) :
    0 < y + 1 + n := by
  have hfactor : 0 < (y + 1) * (y + 1 + n) := by linarith
  exact (mul_pos_iff_of_pos_left (by omega)).mp hfactor

section Guesses

variable (hc : 0 ≤ c)

include hc

theorem Guess.divisor_pos (hy : Guess n c top y) : 0 < 2 * y + n := by
  have hnonneg := hy.nonneg
  have hzero := hy.zero
  have hpos := factor_pos hc hnonneg hy.above
  obtain h | h := hnonneg.eq_or_lt
  · have hn := hzero h.symm
    omega
  · omega

variable (hy : Guess n c top y) (hw : Round n c y w)

include hy hw

theorem Round.le_succ : w ≤ y + 1 := by
  have hdiv := hy.divisor_pos hc
  have hlt : w * (2 * y + n) < (y + 2) * (2 * y + n) := by
    have hle := hw.le
    have habove := hy.above
    linarith
  have hlt' := lt_of_mul_lt_mul_right hlt hdiv.le
  omega

theorem Round.le_top (htop : 0 < top) (hslack : Slack n c top) : w ≤ top := by
  have hdiv := hy.divisor_pos hc
  have hnonneg := hy.nonneg
  obtain rfl | hlt := hy.le_top.eq_or_lt
  · have hle := hw.le
    unfold Slack at hslack
    have hless : w * (2 * y + n) < (y + 1) * (2 * y + n) := by linarith
    exact Int.lt_add_one_iff.mp (lt_of_mul_lt_mul_right hless hdiv.le)
  · have hsucc := hw.le_succ hc hy
    omega

theorem Round.nonneg : 0 ≤ w := by
  have hdiv := hy.divisor_pos hc
  exact hw.ge hdiv (by omega)

theorem Round.guess (hfar : ¬ (y ≤ w + 1 ∧ w ≤ y + 1)) : Guess n c top w := by
  have hdiv := hy.divisor_pos hc
  have hsucc := hw.le_succ hc hy
  have hnonneg := hw.nonneg hc hy
  have htop := hy.le_top
  refine ⟨hnonneg, by omega, hw.above hdiv, fun hzero => ?_⟩
  subst hzero
  have habove := hw.above hdiv
  have hlt := hw.lt
  by_contra hn
  have hn0 : n = 0 := by omega
  subst hn0
  have hy2 : 2 * y ≤ y * y := mul_le_mul_of_nonneg_right (by omega) (by omega)
  linarith

end Guesses

section Start

variable {a b d f m q x : Int}

/-- With the invariant below the root for one unit more of each balance, and
more of the one balance, the old other balance is high enough to start from. -/
theorem slack_of_under (ha : 0 < a) (hb : 0 < b) (hd : 0 < d) (hm : 0 < m) (hax : a < x)
    (hq : d < m * (q + 1)) (hc : Cubed x m d f c)
    (h : Under (m - 1) ((a + 1) * (b + 1)) (m * (a + b) + 1) d) : Slack (x + q - d) c b := by
  have hx : 0 < x := by omega
  have hcube := hc.mul_le hx.le hd.le
  have hrest : 0 ≤ m * (a + b) + 1 - (m - 1) * d :=
    sub_nonneg.mpr (h.mul_le (by positivity) hd.le)
  have hwider : (a + 1) * (4 * (b + 1) * (m * (a + b) + 1 - (m - 1) * d)) ≤
      x * (4 * (b + 1) * (m * (a + b) + 1 - (m - 1) * d)) :=
    mul_le_mul_of_nonneg_right hax (by positivity)
  have hsum : m * (a + b) + 1 - (m - 1) * d ≤ m * (x + q - d + b) := by
    have hmore : m * (a + 1) ≤ m * x := mul_le_mul_of_nonneg_left hax hm.le
    linarith
  have hscaled : 4 * (x * (b + 1)) * (m * (a + b) + 1 - (m - 1) * d) ≤
      4 * (x * (b + 1)) * (m * (x + q - d + b)) :=
    mul_le_mul_of_nonneg_left hsum (by positivity)
  have hbound : 4 * (x * m) * c ≤ 4 * (x * m) * ((b + 1) * (x + q - d + b)) := by
    unfold Under at h
    linarith
  have hle : c ≤ (b + 1) * (x + q - d + b) :=
    le_of_mul_le_mul_left hbound (by positivity)
  unfold Slack
  linarith

theorem guess_of_slack (hy : 0 < top) (h : Slack n c top) : Guess n c top top := by
  refine ⟨hy.le, le_rfl, ?_, fun hzero => absurd hzero hy.ne'⟩
  unfold Slack at h
  omega

end Start

section Value

variable {c d f m q x y : Int}

theorem four_mul_le_sq (hc : 0 ≤ c) (hy : 0 ≤ y) (h : c < (y + 1) * (y + 1) + n * (y + 1)) :
    4 * (c + 1) ≤ (2 * y + 3 + n) * (2 * y + 3 + n) := by
  have hpos := factor_pos hc hy h
  have hmean : 4 * (c + 1) ≤ (2 * y + 2 + n) * (2 * y + 2 + n) := by
    have hsq := mul_self_nonneg n
    linarith
  exact hmean.trans (mul_self_le_mul_self (by omega) (by omega))

/-- Little of the cube of an invariant beyond a balance goes with that balance. -/
theorem cube_spare (hx : 0 < x) (hd : 2 ≤ d) (hxd : x < d) :
    0 ≤ d ^ 3 - 2 * x * d ∧ x * (d * d) ≤ 16 * (d ^ 3 - 2 * x * d) := by
  have hdd : (x + 1) * (d * d) ≤ d * (d * d) :=
    mul_le_mul_of_nonneg_right (by omega) (by positivity)
  have hxd' : x * d ≤ d * d := mul_le_mul_of_nonneg_right hxd.le (by omega)
  have hxdd : x * (2 * d) ≤ x * (d * d) :=
    mul_le_mul_of_nonneg_left (mul_le_mul_of_nonneg_right hd (by omega)) hx.le
  have hsq := mul_self_nonneg d
  exact ⟨by linarith, by linarith⟩

/-- Above the root twice the guess with the slope is long enough to make up for
the invariant's part that was rounded away. -/
theorem le_reach (hx : 0 < x) (hm : 4 ≤ m) (hd : 2 ≤ d) (hq : d < m * (q + 1))
    (hc : Cubed x m d f c) (hy : 0 ≤ y)
    (habove : c < (y + 1) * (y + 1) + (x + q - d) * (y + 1)) :
    d ≤ 2 * m * (2 * y + 3 + (x + q - d)) := by
  have hc0 := (hc.nonneg hx (by omega) (by omega)).2
  have hpos := factor_pos hc0 hy habove
  obtain hdx | hxd := le_or_gt d x
  · calc d ≤ m * (q + 1) := hq.le
      _ ≤ m * (2 * (2 * y + 3 + (x + q - d))) :=
        mul_le_mul_of_nonneg_left (by omega) (by omega)
      _ = 2 * m * (2 * y + 3 + (x + q - d)) := by ring
  · have hroot := four_mul_le_sq hc0 hy habove
    have hcube : d ^ 3 - 2 * x * d ≤ 4 * (x * m) * (c + 1) := by
      have hge := hc.ge_mul hx (by omega)
      linarith
    obtain ⟨hrest, hspare⟩ := cube_spare hx hd hxd
    have hreach : 0 ≤ 2 * m * (2 * y + 3 + (x + q - d)) := mul_nonneg (by omega) (by omega)
    refine (mul_self_le_mul_self_iff (by omega) hreach).mpr (le_of_mul_le_mul_left ?_ hx)
    calc x * (d * d) ≤ 16 * (d ^ 3 - 2 * x * d) := hspare
      _ ≤ 4 * m * (d ^ 3 - 2 * x * d) := mul_le_mul_of_nonneg_right (by omega) hrest
      _ ≤ 4 * m * (4 * (x * m) * (c + 1)) := mul_le_mul_of_nonneg_left hcube (by omega)
      _ = 4 * m * (m * x) * (4 * (c + 1)) := by ring
      _ ≤ 4 * m * (m * x) * ((2 * y + 3 + (x + q - d)) * (2 * y + 3 + (x + q - d))) :=
        mul_le_mul_of_nonneg_left hroot (by positivity)
      _ = x * (2 * m * (2 * y + 3 + (x + q - d)) * (2 * m * (2 * y + 3 + (x + q - d)))) := by ring

/-- From one unit below a balance above the root, two units more of it keep the
invariant. -/
theorem under_of_above (hx : 0 < x) (hm : 4 ≤ m) (hd : 2 ≤ d) (hq : m * q ≤ d)
    (hq' : d < m * (q + 1)) (hc : Cubed x m d f c) (hy : 0 ≤ y)
    (habove : c < (y + 1) * (y + 1) + (x + q - d) * (y + 1)) :
    Under (m - 1) (x * (y + 2)) (m * (x + (y + 2))) d := by
  have hreach := le_reach hx hm hd hq' hc hy habove
  have hcube : d ^ 3 ≤ 4 * (x * m) * (c + 1) + 2 * x * d := by
    have hge := hc.ge_mul hx (by omega)
    linarith
  have hroom : 2 * m * (c + 1) + d ≤ 2 * m * ((y + 2) * (y + 2 + (x + q - d))) := by
    have hmul : 2 * m * (c + 1) ≤
        2 * m * ((y + 1) * (y + 1) + (x + q - d) * (y + 1)) :=
      mul_le_mul_of_nonneg_left habove (by omega)
    linarith
  have hwider : 2 * x * (2 * m * (c + 1) + d) ≤
      2 * x * (2 * m * ((y + 2) * (y + 2 + (x + q - d)))) :=
    mul_le_mul_of_nonneg_left hroom (by omega)
  have hpart : 4 * (x * (y + 2)) * (m * q) ≤ 4 * (x * (y + 2)) * d :=
    mul_le_mul_of_nonneg_left hq (by positivity)
  unfold Under
  linarith

end Value

end Suban.Basis.StableTrade
