import Mathlib.Tactic.NormNum
import Suban.Basis.StableCurve

namespace Suban.Basis.StableRoot

open Suban.Basis.StableCurve

variable {n a b d f p w z : Int}

/-- One round of the method, with the rounding of its cube. -/
def Round (n a b d w : Int) : Prop := ∃ f p, Cubed a b d f p ∧ Newton n a b d p w

/-- Below the root that one unit more of each balance has. -/
def Within (n a b z : Int) : Prop := Under n ((a + 1) * (b + 1)) ((n + 1) * (a + b) + 1) z

/-- What is known of every guess from the sum of the balances on. -/
structure Guess (n a b d : Int) : Prop where
  two_le : 2 ≤ d
  mean : 4 * (a * b) ≤ d * d
  above : ¬ Under n (a * b) ((n + 1) * (a + b)) (d + 1)
  sum : 3 * d ≤ 4 * (a + b) + 1
  apart : d = a + b ∨ 4 * (a * b) ≤ (a + b - 1) * (a + b - 1)

section Balances

variable (hn : 3 ≤ n) (ha : 0 < a) (hb : 0 < b)

include hn ha hb

theorem under_two : Under n (a * b) ((n + 1) * (a + b)) 2 := by
  have hab : 0 < a * b := mul_pos ha hb
  have hsum : 4 * (a * b) * (n + 1) * 2 ≤ 4 * (a * b) * (n + 1) * (a + b) :=
    mul_le_mul_of_nonneg_left (by omega) (by positivity)
  unfold Under
  linarith

theorem guess_sum : Guess n a b (a + b) := by
  have hab : 0 < a * b := mul_pos ha hb
  have hmean : 4 * (a * b) ≤ (a + b) * (a + b) := by nlinarith [mul_self_nonneg (a - b)]
  refine ⟨by omega, hmean, ?_, by omega, .inl rfl⟩
  have hcube : (a + b + 1) * (4 * (a * b)) ≤ (a + b + 1) * ((a + b) * (a + b)) :=
    mul_le_mul_of_nonneg_left hmean (by omega)
  have hnab : 0 < 4 * (a * b) * n := by positivity
  unfold Under
  nlinarith

theorem Round.ge (hd : 0 < d) (hw : Round n a b d w) (hz : 0 ≤ z)
    (h : Under n (a * b) ((n + 1) * (a + b)) z) : z ≤ w := by
  obtain ⟨f, p, hp, hw⟩ := hw
  exact hw.ge (by omega) ha hb hd hz hp h

theorem Round.two_le (hd : 0 < d) (hw : Round n a b d w) : 2 ≤ w :=
  hw.ge hn ha hb hd (by decide) (under_two hn ha hb)

/-- A guess below the mean is only found next to the sum. -/
theorem Round.mean_or (hd : 0 < d) (hw : Round n a b d w) :
    4 * (a * b) ≤ w * w ∨ a + b ≤ w + 1 := by
  have hw2 := hw.two_le hn ha hb hd
  by_contra hnot
  obtain ⟨hmean, hsum⟩ := not_or.mp hnot
  have hunder : Under n (a * b) ((n + 1) * (a + b)) (w + 1) := by
    have hab : w * w + 1 ≤ 4 * (a * b) := by omega
    have hrest : w + 5 ≤ (n + 1) * (a + b) - n * (w + 1) := by
      have hfar : 3 * (a + b - (w + 1)) ≤ n * (a + b - (w + 1)) :=
        mul_le_mul_of_nonneg_right hn (by omega)
      linarith
    have hprod : (w * w + 1) * (w + 5) ≤
        4 * (a * b) * ((n + 1) * (a + b) - n * (w + 1)) :=
      mul_le_mul hab hrest (by omega) (by positivity)
    unfold Under
    nlinarith
  have hge := hw.ge hn ha hb hd (by omega) hunder
  omega

theorem Round.close_of_near (hw : Round n a b (a + b) w)
    (hnear : (a + b - 1) * (a + b - 1) < 4 * (a * b)) : a + b ≤ w + 1 ∧ w ≤ a + b := by
  have hmean := (guess_sum hn ha hb).mean
  have hlow : Under n (a * b) ((n + 1) * (a + b)) (a + b - 1) := by
    have hprod : (a + b - 1) * ((a + b - 1) * (a + b - 1)) ≤ (a + b - 1) * (4 * (a * b)) :=
      mul_le_mul_of_nonneg_left hnear.le (by omega)
    have hab : 0 ≤ 4 * (a * b) * (n + 1) := by positivity
    unfold Under
    linarith
  have hge := hw.ge hn ha hb (by omega) (by omega) hlow
  obtain ⟨f, p, hp, hw⟩ := hw
  have hpart := hp.le_part ha hb (by omega) hmean
  exact ⟨by omega, hw.le_sum (by omega) ha hb (by omega) le_rfl hp hpart⟩

variable (hd : Guess n a b d) (hw : Round n a b d w)

include hd hw

theorem Round.within_of_close (hlow : d ≤ w + 1) (hhigh : w ≤ d + 1) : Within n a b w := by
  have hd2 := hd.two_le
  have hw2 := hw.two_le hn ha hb (by omega)
  obtain ⟨f, p, hp, hw⟩ := hw
  exact hw.under_of_close ha hb hd2 hd.mean hp hw2 hlow hhigh hd.sum

theorem Round.within (h : Within n a b d) : Within n a b w := by
  have hd2 := hd.two_le
  have hw2 := hw.two_le hn ha hb (by omega)
  obtain ⟨f, p, hp, hw⟩ := hw
  exact hw.under_of_under hn ha hb hd2 hd.mean hp hw2 hd.above h

theorem Round.third_le {v : Int} (hv : 0 ≤ v) (hvd : v ≤ d) (habove : ¬ Within n a b v) :
    3 * w ≤ 2 * d + v := by
  have hd2 := hd.two_le
  obtain ⟨f, p, hp, hw⟩ := hw
  exact hw.third_le (by omega) ha hb (by omega) hd.mean hp hv hvd habove

theorem Round.le_sum (hle : d ≤ a + b) : w ≤ a + b := by
  have hd2 := hd.two_le
  obtain ⟨f, p, hp, hw⟩ := hw
  exact hw.le_sum (by omega) ha hb (by omega) hle hp (hp.le_part ha hb (by omega) hd.mean)

theorem Round.sum_le : 3 * w ≤ 4 * (a + b) + 1 := by
  have hd2 := hd.two_le
  have hw2 := hw.two_le hn ha hb (by omega)
  by_cases hwithin : Within n a b d
  · exact (hw.within hn ha hb hd hwithin).three_mul_le hn (by positivity) (by omega)
  · have hle := hw.third_le hn ha hb hd (by omega) le_rfl hwithin
    have hsum := hd.sum
    omega

theorem Round.guess (hfar : ¬ (d ≤ w + 1 ∧ w ≤ d + 1)) : Guess n a b w := by
  have hd2 := hd.two_le
  have hw2 := hw.two_le hn ha hb (by omega)
  have habove : ¬ Under n (a * b) ((n + 1) * (a + b)) (w + 1) := by
    intro hunder
    have hge := hw.ge hn ha hb (by omega) (by omega) hunder
    omega
  have hapart : 4 * (a * b) ≤ (a + b - 1) * (a + b - 1) := by
    obtain rfl | h := hd.apart
    · by_contra hnear
      have hclose := hw.close_of_near hn ha hb (by omega)
      omega
    · exact h
  have hmean : 4 * (a * b) ≤ w * w := by
    obtain h | h := hw.mean_or hn ha hb (by omega)
    · exact h
    · exact hapart.trans (mul_self_le_mul_self (by omega) (by omega))
  exact ⟨hw2, hmean, habove, hw.sum_le hn ha hb hd, .inr hapart⟩

end Balances

theorem exists_not_within (hn : 3 ≤ n) (ha : 0 < a) (hb : 0 < b) :
    ∃ v, 0 ≤ v ∧ ¬ Within n a b v ∧ ∀ z, 0 ≤ z → z < v → Within n a b z := by
  classical
  have hex : ∃ v : Nat, ¬ Within n a b v := by
    refine ⟨(4 * (a + b) + 1).toNat, fun h => ?_⟩
    have hle := h.three_mul_le hn (by positivity) (by omega)
    omega
  refine ⟨Nat.find hex, by omega, Nat.find_spec hex, fun z hz hlt => ?_⟩
  have hmin := Nat.find_min hex (m := z.toNat) (by omega)
  rw [not_not, Int.toNat_of_nonneg hz] at hmin
  exact hmin

/-- The guess is below `v`, or so close to it that the rounds that are left take
it there. -/
def Reaches (v : Int) : Nat → Int → Prop
  | 0, d => d < v
  | rounds + 1, d => 2 ^ rounds * (d - v) < 3 ^ rounds

theorem reaches_of_lt {v : Int} {rounds : Nat} (h : d < v) : Reaches v rounds d := by
  cases rounds with
  | zero => exact h
  | succ rounds =>
    have hneg : (2 : Int) ^ rounds * (d - v) ≤ 0 :=
      mul_nonpos_of_nonneg_of_nonpos (by positivity) (by omega)
    have hpos : (0 : Int) < 3 ^ rounds := by positivity
    exact hneg.trans_lt hpos

theorem Round.reaches {v : Int} {rounds : Nat} (hn : 3 ≤ n) (ha : 0 < a) (hb : 0 < b)
    (hd : Guess n a b d) (hw : Round n a b d w) (hfar : ¬ (d ≤ w + 1 ∧ w ≤ d + 1)) (hv : 0 ≤ v)
    (habove : ¬ Within n a b v) (hbelow : ∀ z, 0 ≤ z → z < v → Within n a b z)
    (h : Reaches v (rounds + 1) d) : Reaches v rounds w := by
  have hd2 := hd.two_le
  have hw2 := hw.two_le hn ha hb (by omega)
  obtain hlt | hge := lt_or_ge d v
  · refine reaches_of_lt ?_
    by_contra hwv
    have hwithin := hw.within hn ha hb hd (hbelow d (by omega) hlt)
    exact habove (hwithin.anti (by omega) (by positivity) hv (by omega))
  · have hthird := hw.third_le hn ha hb hd hv hge habove
    cases rounds with
    | zero =>
      simp only [Reaches, pow_zero, one_mul] at h ⊢
      omega
    | succ rounds =>
      have hscaled : (2 : Int) ^ rounds * (3 * (w - v)) ≤ 2 ^ rounds * (2 * (d - v)) :=
        mul_le_mul_of_nonneg_left (by omega) (by positivity)
      simp only [Reaches, pow_succ] at h ⊢
      linarith

end Suban.Basis.StableRoot
