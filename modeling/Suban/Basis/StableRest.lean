import Mathlib.Tactic.NormNum
import Suban.Basis.StableRoot
import Suban.Basis.StableTrade

namespace Suban.Basis.StableRest

open Suban.Basis.StableCurve Suban.Basis.StableRoot

variable {n a b d f p w z : Int}

/-- `z` is the first guess above the root, which no balance is far beyond. -/
structure First (n a b z : Int) : Prop where
  below : Under n (a * b) ((n + 1) * (a + b)) (z - 1)
  above : ¬ Under n (a * b) ((n + 1) * (a + b)) z
  three_le : 3 ≤ z
  mean : 4 * (a * b) < z * z
  balance : 2 * a ≤ 3 * z

section Invariant

variable (hn : 3 ≤ n) (ha : 0 < a) (hb : 0 < b)

include hn ha hb

theorem mean_of_above (hz : 0 ≤ z) (hsum : z ≤ a + b)
    (habove : ¬ Under n (a * b) ((n + 1) * (a + b)) z) : 4 * (a * b) < z * z := by
  by_contra hle
  refine habove ?_
  have hab : 0 < a * b := mul_pos ha hb
  have hcube : z * (z * z) ≤ z * (4 * (a * b)) := mul_le_mul_of_nonneg_left (not_lt.mp hle) hz
  have hgrow : 4 * (a * b) * (n + 1) * z ≤ 4 * (a * b) * (n + 1) * (a + b) :=
    mul_le_mul_of_nonneg_left hsum (by positivity)
  unfold Under
  linarith

/-- Where the balance is not out of proportion. -/
theorem balance_of_above (hz : 0 ≤ z) (hratio : a ≤ 4 * (n + 1) * b)
    (habove : ¬ Under n (a * b) ((n + 1) * (a + b)) z) : 2 * a ≤ 3 * z := by
  by_contra hlt
  refine habove ?_
  have hcube : 27 * z ^ 3 ≤ 8 * a ^ 3 := by
    have h := pow_le_pow_left₀ (by omega) (by omega : 3 * z ≤ 2 * a) 3
    linarith
  have hsq : a ^ 2 * a ≤ a ^ 2 * (4 * (n + 1) * b) :=
    mul_le_mul_of_nonneg_left hratio (by positivity)
  have hlinear : 4 * (a * b) * n * (3 * z) ≤ 4 * (a * b) * n * (2 * a) :=
    mul_le_mul_of_nonneg_left (by omega) (by positivity)
  have hrest : 0 ≤ 4 * (a * b) * (n + 1) * b := by positivity
  have hab : 0 ≤ a * b * a := by positivity
  have habn : 0 ≤ a * b * n * a := by positivity
  unfold Under
  nlinarith

omit hn hb in
theorem spare_first (hd : 2 ≤ d) (hbalance : 2 * a ≤ 3 * (d + 1)) :
    2 * a * (d * d - 7 * d - 6) ≤ 3 * d ^ 3 - 8 * d ^ 2 - 7 * d := by
  obtain hneg | hpos := le_or_gt (d * d - 7 * d - 6) 0
  · have hle : 2 * a * (d * d - 7 * d - 6) ≤ 2 * 1 * (d * d - 7 * d - 6) := by
      refine mul_le_mul_of_nonpos_right ?_ hneg
      omega
    have hsq : 0 ≤ 3 * (d * d) - 4 * d - 1 := by nlinarith
    have hprod : 0 ≤ (d - 2) * (3 * (d * d) - 4 * d - 1) := mul_nonneg (by omega) hsq
    linarith
  · have hle : 2 * a * (d * d - 7 * d - 6) ≤ 3 * (d + 1) * (d * d - 7 * d - 6) :=
      mul_le_mul_of_nonneg_right hbalance hpos.le
    nlinarith

omit hn in
theorem lt_of_cube {t : Int} (hn : 0 < n) (hd : 0 < d)
    (habove : ¬ Under n (a * b) ((n + 1) * (a + b)) z) (hp : Cubed a b d f p)
    (hw : Newton n a b d p w) (hslope : 0 ≤ 3 * t - 2 * d)
    (h : z ^ 3 * d ≤ 4 * (a * b) * (n * d) * (t - z) +
      (d ^ 3 - (2 * a - 1) * d - 4 * (a * b) + 2 * a) * (3 * t - 2 * d)) : w < t := by
  have hc : 0 < 4 * (a * b) := by positivity
  have hden := hp.divisor_pos hn ha hb hd
  have hcube : (d ^ 3 - (2 * a - 1) * d - 4 * (a * b) + 2 * a) * (3 * t - 2 * d) ≤
      4 * (a * b) * p * (3 * t - 2 * d) :=
    mul_le_mul_of_nonneg_right (hp.ge_mul ha hd.le) hslope
  have hsum : 4 * (a * b) * ((n + 1) * (a + b)) * d < (z ^ 3 + 4 * (a * b) * n * z) * d :=
    mul_lt_mul_of_pos_right (not_le.mp habove) hd
  have hle : 4 * (a * b) * (w * (n * d + 3 * p)) ≤
      4 * (a * b) * (((n + 1) * (a + b) + 2 * p) * d) := mul_le_mul_of_nonneg_left hw.le hc.le
  refine lt_of_mul_lt_mul_right (lt_of_mul_lt_mul_left ?_ hc.le) hden.le
  linarith

section Step

variable (hz : First n a b z) (hd : 0 < d) (hp : Cubed a b d f p) (hw : Newton n a b d p w)

include hz hd hp hw

theorem First.le_of_below (hbig : 6 ≤ (n - 1) * b) (hdz : d = z - 1) : w ≤ z := by
  obtain ⟨-, habove, hz3, hmean, hbalance⟩ := hz
  refine Int.lt_add_one_iff.mp (lt_of_cube ha hb (by omega) hd habove hp hw (by omega) ?_)
  obtain rfl : z = d + 1 := by omega
  have hmore : 6 * (4 * a * d) ≤ (n - 1) * b * (4 * a * d) :=
    mul_le_mul_of_nonneg_right hbig (by positivity)
  have hspare := spare_first ha (by omega) hbalance
  linarith

theorem First.third_le (hbig : 6 ≤ (n - 1) * b) (hzd : z ≤ d) : 3 * w ≤ 2 * d + z + 2 := by
  obtain ⟨-, habove, hz3, hmean, hbalance⟩ := hz
  have hc : 0 < 4 * (a * b) := by positivity
  have hden := hp.divisor_pos (by omega : 0 < n) ha hb hd
  have hcube : (d ^ 3 - (2 * a - 1) * d - 4 * (a * b) + 2 * a) * (3 * (z + 3)) ≤
      4 * (a * b) * p * (3 * (z + 3)) :=
    mul_le_mul_of_nonneg_right (hp.ge_mul ha hd.le) (by omega)
  have hsum : 4 * (a * b) * ((n + 1) * (a + b)) * (3 * d) <
      (z ^ 3 + 4 * (a * b) * n * z) * (3 * d) :=
    mul_lt_mul_of_pos_right (not_le.mp habove) (by omega)
  have hle : 4 * (a * b) * (w * (n * d + 3 * p)) ≤
      4 * (a * b) * (((n + 1) * (a + b) + 2 * p) * d) := mul_le_mul_of_nonneg_left hw.le hc.le
  have hmore : 6 * (4 * a * d) ≤ (n - 1) * b * (4 * a * d) :=
    mul_le_mul_of_nonneg_right hbig (by positivity)
  have hweight : 2 * (a * b * d) ≤ (n - 1) * (a * b * d) :=
    mul_le_mul_of_nonneg_right (by omega) (by positivity)
  have hlt : 3 * w * (n * d + 3 * p) < (2 * d + z + 3) * (n * d + 3 * p) := by
    refine lt_of_mul_lt_mul_left ?_ hc.le
    have hsq : 0 ≤ d * z * (d * d - z * z) :=
      mul_nonneg (by positivity) (sub_nonneg.mpr (mul_self_le_mul_self (by omega) hzd))
    have hbal : 2 * a * (d * z) ≤ 3 * z * (d * z) :=
      mul_le_mul_of_nonneg_right hbalance (by positivity)
    have hcubed : d * z * z ≤ d * d * d := by
      have h := mul_self_le_mul_self (by omega : 0 ≤ z) hzd
      have h' := mul_le_mul_of_nonneg_left h hd.le
      linarith
    have hnd : 0 ≤ 4 * (a * b) * (n * d) * (d - z) := mul_nonneg (by positivity) (by omega)
    have hd3 : a * b * 3 ≤ a * b * d := mul_le_mul_of_nonneg_left (by omega) (by positivity)
    have habz : a * b * z ≤ a * b * d := mul_le_mul_of_nonneg_left hzd (by positivity)
    have had : 0 ≤ a * d := by positivity
    have haz : 0 ≤ a * z := by positivity
    have hdz : 0 ≤ d * z := by positivity
    linarith
  have hlt' := lt_of_mul_lt_mul_right hlt hden.le
  omega

theorem First.le_of_first (hdz : d = z + 1) : w ≤ z := by
  obtain ⟨-, habove, hz3, hmean, hbalance⟩ := hz
  refine Int.lt_add_one_iff.mp (lt_of_cube ha hb (by omega) hd habove hp hw (by omega) ?_)
  subst hdz
  have hweight : 0 ≤ (n - 1) * (a * b * (z + 1)) := mul_nonneg (by omega) (by positivity)
  have hbal : 2 * a * (z * (z + 1)) ≤ 3 * z * (z * (z + 1)) :=
    mul_le_mul_of_nonneg_right hbalance (by positivity)
  have hz1 : 0 ≤ z * (z + 1) := by positivity
  linarith

theorem First.le_of_second (hdz : d = z + 2) : w ≤ z := by
  obtain ⟨-, habove, hz3, hmean, hbalance⟩ := hz
  refine Int.lt_add_one_iff.mp (lt_of_cube ha hb (by omega) hd habove hp hw (by omega) ?_)
  subst hdz
  have hweight : 3 * (a * b * (z + 2)) ≤ n * (a * b * (z + 2)) :=
    mul_le_mul_of_nonneg_right hn (by positivity)
  have hsq : 0 ≤ z * z - 1 := by nlinarith
  have hbal : 2 * a * (z * z - 1) ≤ 3 * z * (z * z - 1) :=
    mul_le_mul_of_nonneg_right hbalance hsq
  have hab : 0 ≤ a * b * (z + 2) := by positivity
  have hab0 : 0 ≤ a * b := by positivity
  have hz2 : 9 ≤ z * z := by nlinarith
  linarith

theorem First.add_two_le (hzd : z + 3 ≤ d) : w + 2 ≤ d := by
  obtain ⟨-, habove, hz3, hmean, hbalance⟩ := hz
  have hlt : w < d - 1 := by
    refine lt_of_cube ha hb (by omega) hd habove hp hw (by omega) ?_
    have hgap : 3 * (d * d + d * z + z * z) * d ≤ (d ^ 3 - z ^ 3) * d := by
      have hfactor : 3 * (d * d + d * z + z * z) ≤ (d - z) * (d * d + d * z + z * z) :=
        mul_le_mul_of_nonneg_right (by omega) (by positivity)
      refine mul_le_mul_of_nonneg_right ?_ hd.le
      linarith
    have hweight : 3 * 2 * (a * b * d) ≤ n * (d - 1 - z) * (a * b * d) :=
      mul_le_mul_of_nonneg_right (mul_le_mul hn (by omega) (by omega) (by omega)) (by positivity)
    have hbal : 2 * a * (d * d) ≤ 3 * z * (d * d) :=
      mul_le_mul_of_nonneg_right hbalance (by positivity)
    have hrest : 0 ≤ (2 * a + d) * (d - 3) := mul_nonneg (by omega) (by omega)
    have had : 0 ≤ a * d := by positivity
    have hab : 0 ≤ a * b := by positivity
    have habd : 0 ≤ a * b * d := by positivity
    have hzd2 : 0 ≤ z * z * d := by positivity
    linarith
  omega

end Step

theorem exists_first (hratio : a ≤ 4 * (n + 1) * b) : ∃ z, First n a b z := by
  classical
  have hex : ∃ v : Nat, ¬ Under n (a * b) ((n + 1) * (a + b)) v := by
    refine ⟨(a + b + 1).toNat, ?_⟩
    rw [Int.toNat_of_nonneg (by omega)]
    exact (guess_sum hn ha hb).above
  have habove := Nat.find_spec hex
  have hmin (v : Int) (hv : 0 ≤ v) (hlt : v < (Nat.find hex : Nat)) :
      Under n (a * b) ((n + 1) * (a + b)) v := by
    have h := Nat.find_min hex (m := v.toNat) (by omega)
    rwa [not_not, Int.toNat_of_nonneg hv] at h
  have hz0 : (0 : Int) ≤ (Nat.find hex : Nat) := Int.natCast_nonneg _
  generalize ((Nat.find hex : Nat) : Int) = z at habove hmin hz0
  have hz3 : 3 ≤ z := by
    by_contra hlt
    exact habove ((under_two hn ha hb).anti (by omega) (by positivity) hz0 (by omega))
  have hmean : 4 * (a * b) < z * z := by
    obtain hle | hgt := le_or_gt z (a + b)
    · exact mean_of_above hn ha hb hz0 hle habove
    · have hsum := (guess_sum hn ha hb).mean
      have hmore := mul_self_le_mul_self (by omega : 0 ≤ a + b + 1) hgt
      linarith
  exact ⟨z, hmin (z - 1) (by omega) (by omega), habove, hz3, hmean,
    balance_of_above hn ha hb hz0 hratio habove⟩

/-- The rounds that are left are enough to settle: one from next to the root, and
from above as many as it takes to get to the second guess after it, and two. -/
def Settling (z : Int) (rounds : Nat) (d : Int) : Prop :=
  z - 1 ≤ d ∧ (d ≤ z ∧ 1 ≤ rounds ∨ ∃ k, k + 2 ≤ rounds ∧ 2 ^ k * (d - (z + 2)) < 3 ^ k)

/-- A round that stops does so next to the root, and one that does not leads on. -/
theorem First.settling {rounds : Nat} (hbig : 6 ≤ (n - 1) * b) (hz : First n a b z)
    (hw : Round n a b d w) (h : Settling z (rounds + 1) d) :
    (d ≤ w + 1 ∧ w ≤ d + 1 → z - 1 ≤ w ∧ w ≤ z) ∧
      (¬ (d ≤ w + 1 ∧ w ≤ d + 1) → Settling z rounds w) := by
  obtain ⟨hlow, h⟩ := h
  have hz3 := hz.three_le
  have hge : z - 1 ≤ w := hw.ge hn ha hb (by omega) (by omega) hz.below
  obtain ⟨f, p, hp, hw⟩ := hw
  have hbelow (hd : d = z - 1) : w ≤ z := hz.le_of_below hn ha hb (by omega) hp hw hbig hd
  have hthird (hzd : z ≤ d) : 3 * w ≤ 2 * d + z + 2 :=
    hz.third_le hn ha hb (by omega) hp hw hbig hzd
  have hfirst (hd : d = z + 1) : w ≤ z := hz.le_of_first hn ha hb (by omega) hp hw hd
  have hsecond (hd : d = z + 2) : w ≤ z := hz.le_of_second hn ha hb (by omega) hp hw hd
  have hfar (hzd : z + 3 ≤ d) : w + 2 ≤ d := hz.add_two_le hn ha hb (by omega) hp hw hzd
  obtain hnear | hup := (by omega : d ≤ z + 2 ∨ z + 3 ≤ d)
  · have hrounds : 1 ≤ rounds ∨ d ≤ z := by
      obtain ⟨hle, -⟩ | ⟨k, hk, -⟩ := h
      · exact .inr hle
      · exact .inl (by omega)
    clear h
    exact ⟨fun _ => by omega, fun _ => ⟨hge, .inl (by omega)⟩⟩
  · have hdown := hfar hup
    refine ⟨fun hclose => by omega, fun _ => ⟨hge, .inr ?_⟩⟩
    obtain ⟨hle, -⟩ | ⟨k, hk, hreach⟩ := h
    · omega
    cases k with
    | zero => simp only [pow_zero, one_mul] at hreach; omega
    | succ k =>
      refine ⟨k, by omega, ?_⟩
      have hscaled : (2 : Int) ^ k * (3 * (w - (z + 2))) ≤ 2 ^ k * (2 * (d - (z + 2))) :=
        mul_le_mul_of_nonneg_left (by linarith [hthird (by omega)]) (by positivity)
      simp only [pow_succ] at hreach
      linarith

theorem settling_sum {k : Nat} (hz : First n a b z) (hk : 2 ^ k * (a + b) < 3 ^ k) :
    Settling z (k + 2) (a + b) := by
  have hz3 := hz.three_le
  refine ⟨?_, .inr ⟨k, le_rfl, ?_⟩⟩
  · by_contra hlt
    refine (guess_sum hn ha hb).above (hz.below.anti (by omega) (by positivity) (by omega) ?_)
    omega
  · have hpos : (0 : Int) ≤ 2 ^ k * (z + 2) := by positivity
    linarith

end Invariant

section Trade

variable {c y v top : Int}

/-- `v` is the first guess above the root of `y² + ny = c`. -/
structure Next (n c v : Int) : Prop where
  below : (v - 1) * (v - 1) + n * (v - 1) ≤ c
  above : c < v * v + n * v
  one_le : 1 ≤ v

def Halving (v : Int) (rounds : Nat) (y : Int) : Prop :=
  v - 1 ≤ y ∧ (y ≤ v ∧ 1 ≤ rounds ∨ ∃ k, k + 2 ≤ rounds ∧ y - v ≤ 2 ^ k)

theorem exists_next (hc : 0 ≤ c) (hy : 0 ≤ y) (h : c < (y + 1) * (y + 1) + n * (y + 1)) :
    ∃ v, Next n c v ∧ v ≤ y + 1 := by
  classical
  have hex : ∃ v : Nat, c < (v : Int) * v + n * v := by
    refine ⟨(y + 1).toNat, ?_⟩
    rwa [Int.toNat_of_nonneg (by omega)]
  have habove := Nat.find_spec hex
  have hone : Nat.find hex ≠ 0 := by
    intro hz
    rw [hz] at habove
    simp only [Nat.cast_zero, mul_zero, add_zero] at habove
    omega
  have hmin (u : Int) (hu : 0 ≤ u) (hlt : u < (Nat.find hex : Nat)) : u * u + n * u ≤ c := by
    have h := Nat.find_min hex (m := u.toNat) (by omega)
    rwa [Int.toNat_of_nonneg hu, not_lt] at h
  refine ⟨(Nat.find hex : Nat), ⟨hmin _ (by omega) (by omega), habove, by omega⟩, ?_⟩
  by_contra hgt
  have hle := hmin (y + 1) (by omega) (by omega)
  omega

theorem Next.slope_pos (hc : 0 ≤ c) (hv : Next n c v) : 0 < v + n := by
  have hone := hv.one_le
  have habove := hv.above
  have hfactor : 0 < v * (v + n) := by linarith
  exact (mul_pos_iff_of_pos_left (by omega)).mp hfactor

variable (hc : 0 ≤ c) (hv : Next n c v) (hy : StableTrade.Guess n c top y)
variable (hw : StableTrade.Round n c y w)

include hc hv hy hw

theorem Next.half_lt (hvy : v ≤ y) : 2 * w < y + v := by
  have hslope := hv.slope_pos hc
  obtain ⟨-, habove, hone⟩ := hv
  have hdiv := hy.divisor_pos hc
  refine lt_of_mul_lt_mul_right ?_ hdiv.le
  have hgap : 0 ≤ (y - v) * (2 * v + n) := mul_nonneg (by omega) (by omega)
  have hle := hw.le
  linarith

theorem Next.settling {rounds : Nat} (h : Halving v (rounds + 1) y) :
    (y ≤ w + 1 ∧ w ≤ y + 1 → v - 1 ≤ w ∧ w ≤ v) ∧
      (¬ (y ≤ w + 1 ∧ w ≤ y + 1) → Halving v rounds w) := by
  have hdiv := hy.divisor_pos hc
  have hge : v - 1 ≤ w := hw.ge hdiv hv.below
  have hsucc := hw.le_succ hc hy
  have hhalf (hvy : v ≤ y) : 2 * w < y + v := hv.half_lt hc hy hw hvy
  obtain ⟨hlow, h⟩ := h
  obtain hnear | hup := (by omega : y ≤ v + 1 ∨ v + 2 ≤ y)
  · have hrounds : 1 ≤ rounds ∨ y ≤ v := by
      obtain ⟨hle, -⟩ | ⟨k, hk, -⟩ := h
      · exact .inr hle
      · exact .inl (by omega)
    clear h
    exact ⟨fun _ => by omega, fun _ => ⟨hge, .inl (by omega)⟩⟩
  · have hdown := hhalf (by omega)
    refine ⟨fun hclose => by omega, fun _ => ⟨hge, .inr ?_⟩⟩
    obtain ⟨hle, -⟩ | ⟨k, hk, hreach⟩ := h
    · omega
    cases k with
    | zero => simp only [pow_zero] at hreach; omega
    | succ k =>
      rw [pow_succ] at hreach
      exact ⟨k, by omega, by omega⟩

omit hv hy in
theorem exists_next_of_first (hy : 0 < y) (hdiv : 0 < 2 * y + n) (hw0 : 0 ≤ w) :
    ∃ v, Next n c v ∧ v - 1 ≤ w ∧ (y ≤ w + 1 ∧ w ≤ y + 1 → w ≤ v) := by
  obtain ⟨v, hv, hle⟩ := exists_next hc hw0 (hw.above hdiv)
  refine ⟨v, hv, by omega, fun hclose => ?_⟩
  obtain hlow | hlow := (by omega : y < v - 1 ∨ v - 1 ≤ y)
  · omega
  · have hguess : StableTrade.Guess n c y y := by
      refine ⟨hy.le, le_rfl, ?_, fun hzero => absurd hzero hy.ne'⟩
      have hslope := hv.slope_pos hc
      have hone := hv.one_le
      have hgap : 0 ≤ (y + 1 - v) * (y + 1 + v + n) := mul_nonneg (by omega) (by omega)
      have habove := hv.above
      linarith
    obtain heq | hvy := (by omega : y = v - 1 ∨ v ≤ y)
    · have hsucc := hw.le_succ hc hguess
      omega
    · have hhalf := hv.half_lt hc hguess hw hvy
      omega

omit hv hy in
/-- After a first step that does not stop the guesses are of the kind. -/
theorem guess_of_first (hy : 0 < y) (hdiv : 0 < 2 * y + n) (hw0 : 0 ≤ w)
    (hfar : ¬ (y ≤ w + 1 ∧ w ≤ y + 1)) : StableTrade.Guess n c w w := by
  refine ⟨hw0, le_rfl, hw.above hdiv, fun hzero => ?_⟩
  subst hzero
  have hlt := hw.lt
  have hy2 : 2 * y ≤ y * y := mul_le_mul_of_nonneg_right (by omega) (by omega)
  omega

end Trade

end Suban.Basis.StableRest
