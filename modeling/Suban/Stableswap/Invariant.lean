import Suban.Basis.Iteration
import Suban.Basis.StableRoot
import Suban.Stableswap.Contract

namespace Suban.Stableswap.Invariant

open Suban.Basis.Calls Suban.Basis.Iteration Suban.Basis.StableCurve Suban.Basis.StableRoot
open Suban.Stableswap.Contract

variable {a b a' b' amp ann s d w : Nat}

theorem mulU_eq_ok {x y r : Nat} : mulU x y = .ok r ↔ x * y < 2 ^ 128 ∧ x * y = r :=
  checkedUInt_eq_ok

theorem addU_eq_ok {x y r : Nat} : addU x y = .ok r ↔ x + y < 2 ^ 128 ∧ x + y = r :=
  checkedUInt_eq_ok

theorem subU_eq_ok {x y r : Nat} : subU x y = .ok r ↔ y ≤ x ∧ x - y = r := by
  by_cases h : x < y
  · simp [subU, h]
  · simp [subU, h, not_lt.mp h]

theorem divU_eq_ok {x y r : Nat} : divU x y = .ok r ↔ y ≠ 0 ∧ x / y = r := by
  by_cases h : y = 0 <;> simp [divU, h]

theorem mulU_ne_error (x y : Nat) (e : Fault) : mulU x y ≠ .error (.error e) :=
  checkedUInt_ne_error 128 (x * y) e

theorem addU_ne_error (x y : Nat) (e : Fault) : addU x y ≠ .error (.error e) :=
  checkedUInt_ne_error 128 (x + y) e

theorem subU_ne_error {x y : Nat} (h : y ≤ x) (e : Fault) : subU x y ≠ .error (.error e) := by
  simp [subU, not_lt.mpr h]

theorem divU_ne_error {x y : Nat} (h : 0 < y) (e : Fault) : divU x y ≠ .error (.error e) := by
  simp [divU, h.ne']

theorem annFor_ne_error (e : Fault) : annFor amp ≠ .error (.error e) :=
  bind_ne_error (mulU_ne_error _ _ e) fun _ _ => mulU_ne_error _ _ e

theorem annFor_eq_ok : annFor amp = .ok ann ↔ amp * 2 * 2 < 2 ^ 128 ∧ amp * 2 * 2 = ann := by
  simp only [annFor, bind_eq_ok, mulU_eq_ok]
  constructor
  · rintro ⟨_, ⟨-, rfl⟩, h⟩
    exact h
  · intro h
    exact ⟨_, ⟨by omega, rfl⟩, h⟩

theorem close_iff {x y : Nat} : close x y = true ↔ (y : Int) ≤ x + 1 ∧ (x : Int) ≤ y + 1 := by
  unfold close
  rw [decide_eq_true_eq]
  split <;> omega

theorem cubed_div (ha : 0 < a) (hb : 0 < b) :
    Cubed (a : Int) b d (d * d / (a * 2) : Nat) (d * d / (a * 2) * d / (b * 2) : Nat) := by
  have hf := Nat.div_mul_le_self (d * d) (a * 2)
  have hf' := Nat.lt_div_mul_add (a := d * d) (b := a * 2) (by omega)
  generalize d * d / (a * 2) = f at hf hf' ⊢
  have hp := Nat.div_mul_le_self (f * d) (b * 2)
  have hp' := Nat.lt_div_mul_add (a := f * d) (b := b * 2) (by omega)
  generalize f * d / (b * 2) = p at hp hp' ⊢
  zify at hf hf' hp hp'
  exact ⟨by linarith, by linarith, by linarith, by linarith⟩

def weight (amp : Nat) : Int := 4 * amp - 1

theorem three_le_weight (hamp : 0 < amp) : 3 ≤ weight amp := by
  unfold weight
  omega

theorem nextD_ok (ha : 0 < a) (hb : 0 < b) (h : nextD a b (amp * 2 * 2) (a + b) d = .ok w) :
    d < 2 ^ 64 ∧ Round (weight amp) a b d w := by
  simp only [nextD, bind_eq_ok, mulU_eq_ok, addU_eq_ok, subU_eq_ok, divU_eq_ok] at h
  obtain ⟨_, ⟨hsq, rfl⟩, _, ⟨-, rfl⟩, _, ⟨-, rfl⟩, _, ⟨-, rfl⟩, _, ⟨-, rfl⟩, _, ⟨-, rfl⟩, h⟩ := h
  obtain ⟨_, ⟨-, rfl⟩, _, ⟨-, rfl⟩, _, ⟨-, rfl⟩, _, ⟨-, rfl⟩, _, ⟨hann, rfl⟩, h⟩ := h
  obtain ⟨_, ⟨-, rfl⟩, _, ⟨-, rfl⟩, _, ⟨-, rfl⟩, hden, hw⟩ := h
  refine ⟨?_, _, _, cubed_div ha hb, ?_⟩
  · by_contra hlarge
    have hmul := Nat.mul_le_mul (not_lt.mp hlarge) (not_lt.mp hlarge)
    omega
  · generalize d * d / (a * 2) * d / (b * 2) = p at hden hw ⊢
    have hle := Nat.div_mul_le_self ((amp * 2 * 2 * (a + b) + p * 2) * d)
      ((amp * 2 * 2 - 1) * d + 3 * p)
    have hlt := Nat.lt_div_mul_add (a := (amp * 2 * 2 * (a + b) + p * 2) * d)
      (Nat.pos_of_ne_zero hden)
    rw [hw] at hle hlt
    zify [hann] at hle hlt
    unfold weight
    exact ⟨by linarith, by linarith⟩

theorem nextD_ne_error (ha : 0 < a) (hb : 0 < b) (hann : 2 ≤ ann) (hd : 0 < d) (e : Fault) :
    nextD a b ann s d ≠ .error (.error e) := by
  refine bind_ne_error (mulU_ne_error _ _ e) fun _ _ => ?_
  refine bind_ne_error (mulU_ne_error _ _ e) fun twiceA hA => ?_
  refine bind_ne_error (divU_ne_error (by rw [mulU_eq_ok] at hA; omega) e) fun _ _ => ?_
  refine bind_ne_error (mulU_ne_error _ _ e) fun _ _ => ?_
  refine bind_ne_error (mulU_ne_error _ _ e) fun twiceB hB => ?_
  refine bind_ne_error (divU_ne_error (by rw [mulU_eq_ok] at hB; omega) e) fun _ _ => ?_
  refine bind_ne_error (mulU_ne_error _ _ e) fun _ _ => ?_
  refine bind_ne_error (mulU_ne_error _ _ e) fun _ _ => ?_
  refine bind_ne_error (addU_ne_error _ _ e) fun _ _ => ?_
  refine bind_ne_error (mulU_ne_error _ _ e) fun _ _ => ?_
  refine bind_ne_error (subU_ne_error (by omega) e) fun annLess hless => ?_
  refine bind_ne_error (mulU_ne_error _ _ e) fun left hleft => ?_
  refine bind_ne_error (mulU_ne_error _ _ e) fun _ _ => ?_
  refine bind_ne_error (addU_ne_error _ _ e) fun denominator hden => divU_ne_error ?_ e
  rw [subU_eq_ok] at hless
  rw [mulU_eq_ok] at hleft
  rw [addU_eq_ok] at hden
  have hprod : 0 < annLess * d := Nat.mul_pos (by omega) hd
  omega

theorem computeDLoop_eq (rounds : Nat) :
    computeDLoop a b ann s rounds d = iterate (nextD a b ann s) close rounds d := by
  induction rounds generalizing d with
  | zero => rfl
  | succ rounds ih =>
    rw [computeDLoop, iterate]
    simp only [ih]

theorem computeD_eq_ok (ha : 0 < a) (h : computeD a b amp = .ok d) :
    iterate (nextD a b (amp * 2 * 2) (a + b)) close maxIterations (a + b) = .ok d := by
  simp only [computeD, bind_eq_ok, addU_eq_ok] at h
  obtain ⟨_, ⟨-, rfl⟩, h⟩ := h
  rw [if_neg (by omega : a + b ≠ 0)] at h
  simp only [bind_eq_ok, annFor_eq_ok] at h
  obtain ⟨_, ⟨-, rfl⟩, h⟩ := h
  rw [← computeDLoop_eq]
  exact h

theorem pos_of_computeD (hd : d ≠ 0) (h : computeD a b amp = .ok d) : 0 < a ∧ 0 < b := by
  simp only [computeD, bind_eq_ok, addU_eq_ok] at h
  obtain ⟨_, ⟨-, rfl⟩, h⟩ := h
  have hne : a + b ≠ 0 := by
    intro hz
    rw [if_pos hz, pure_eq_ok] at h
    exact hd h.symm
  rw [if_neg hne] at h
  obtain ⟨ann, -, h⟩ := bind_eq_ok.mp h
  rw [maxIterations, computeDLoop] at h
  obtain ⟨e, he, -⟩ := bind_eq_ok.mp h
  simp only [nextD, bind_eq_ok, mulU_eq_ok, divU_eq_ok] at he
  obtain ⟨_, -, _, ⟨-, rfl⟩, _, ⟨ha, -⟩, _, -, _, ⟨-, rfl⟩, _, ⟨hb, -⟩, -⟩ := he
  omega

section Positive

variable (ha : 0 < a) (hb : 0 < b) (hamp : 0 < amp)

include ha hb hamp

theorem computeD_ne_error (e : Fault) : computeD a b amp ≠ .error (.error e) := by
  refine bind_ne_error (addU_ne_error _ _ e) fun s hs => ?_
  obtain ⟨-, rfl⟩ := addU_eq_ok.mp hs
  rw [if_neg (by omega : a + b ≠ 0)]
  refine bind_ne_error (annFor_ne_error e) fun ann hann => ?_
  obtain ⟨-, rfl⟩ := annFor_eq_ok.mp hann
  rw [computeDLoop_eq]
  refine iterate_ne_error (I := fun d => 0 < d)
    (fun d hd => nextD_ne_error ha hb (by omega) hd e) (fun d w hd hw _ => ?_) (by omega)
  have hw2 := (nextD_ok ha hb hw).2.two_le (three_le_weight hamp) (by omega) (by omega) (by omega)
  omega

theorem exists_last (h : computeD a b amp = .ok d) :
    ∃ e : Nat, 0 < e ∧ Round (weight amp) a b e d := by
  have hpos (e w : Nat) (he : 0 < e) (hw : nextD a b (amp * 2 * 2) (a + b) e = .ok w) : 0 < w := by
    have hw2 := (nextD_ok ha hb hw).2.two_le (three_le_weight hamp) (by omega) (by omega) (by omega)
    omega
  obtain ⟨e, he, hround⟩ := iterate_last hpos (by omega : 0 < a + b) (computeD_eq_ok ha h)
  exact ⟨e, he, (nextD_ok ha hb hround).2⟩

theorem computeD_ge {z : Int} (hz : 0 ≤ z)
    (hunder : Under (weight amp) (a * b)
      ((weight amp + 1) * (a + b)) z)
    (h : computeD a b amp = .ok d) : z ≤ d := by
  obtain ⟨e, he, hround⟩ := exists_last ha hb hamp h
  exact hround.ge (three_le_weight hamp) (by omega) (by omega) (by omega) hz hunder

theorem two_le_computeD (h : computeD a b amp = .ok d) : 2 ≤ d := by
  obtain ⟨e, he, hround⟩ := exists_last ha hb hamp h
  have hd2 := hround.two_le (three_le_weight hamp) (by omega) (by omega) (by omega)
  omega

omit hamp in
theorem sum_lt_of_computeD (h : computeD a b amp = .ok d) : a + b < 2 ^ 64 := by
  have hiter := computeD_eq_ok ha h
  rw [maxIterations, iterate, bind_eq_ok] at hiter
  obtain ⟨e, he, -⟩ := hiter
  exact (nextD_ok ha hb he).1

/-- The invariant is below the root for one unit more of each balance. The
rounds are enough to get there, though not always to come to rest. -/
theorem computeD_within (h : computeD a b amp = .ok d) :
    Within (weight amp) a b d := by
  have hiter := computeD_eq_ok ha h
  have ha' : (0 : Int) < a := by omega
  have hb' : (0 : Int) < b := by omega
  have hn := three_le_weight hamp
  obtain ⟨v, hv, habove, hbelow⟩ := exists_not_within hn ha' hb'
  refine iterate_rule (R := fun d : Nat => Within (weight amp) a b d)
    (I := fun rounds (d : Nat) =>
      Guess (weight amp) a b d ∧ Reaches v rounds d) ?_ ?_ ?_ ?_ hiter
  · exact fun d hd => hbelow d (by omega) hd.2
  · intro rounds d e hd he hclose
    obtain ⟨hlow, hhigh⟩ := close_iff.mp hclose
    exact (nextD_ok ha hb he).2.within_of_close hn ha' hb' hd.1 hlow hhigh
  · intro rounds d e hd he hclose
    have hround := (nextD_ok ha hb he).2
    have hfar : ¬ ((d : Int) ≤ e + 1 ∧ (e : Int) ≤ d + 1) := by
      rw [← close_iff, hclose]
      decide
    exact ⟨hround.guess hn ha' hb' hd.1 hfar,
      hround.reaches hn ha' hb' hd.1 hfar hv habove hbelow hd.2⟩
  · refine ⟨?_, ?_⟩
    · rw [Nat.cast_add]
      exact guess_sum hn ha' hb'
    · have hfirst := sum_lt_of_computeD ha hb h
      have hsum : ((a + b : Nat) : Int) - v ≤ 2 ^ 64 := by omega
      calc (2 : Int) ^ 255 * (((a + b : Nat) : Int) - v) ≤ 2 ^ 255 * 2 ^ 64 :=
            mul_le_mul_of_nonneg_left hsum (by positivity)
        _ < 3 ^ 255 := by norm_num

theorem computeD_lt (h : computeD a b amp = .ok d) : d < 2 ^ 127 := by
  have hwithin := computeD_within ha hb hamp h
  have hfirst := sum_lt_of_computeD ha hb h
  have hthree := Under.three_mul_le (three_le_weight hamp) (by positivity) (by omega) hwithin
  omega

/-- More of both balances makes the invariant no smaller. -/
theorem computeD_le (haa : a < a') (hbb : b < b') {d' : Nat} (h : computeD a b amp = .ok d)
    (h' : computeD a' b' amp = .ok d') : d ≤ d' := by
  have hwithin := computeD_within ha hb hamp h
  have hproduct : ((a : Int) + 1) * (b + 1) ≤ a' * b' :=
    mul_le_mul (by omega) (by omega) (by omega) (by omega)
  have hsum : (weight amp + 1) * (a + b) + 1 ≤
      (weight amp + 1) * (a' + b') := by
    have hweight := three_le_weight hamp
    have hmore := mul_le_mul_of_nonneg_left (by omega : (a : Int) + b + 2 ≤ a' + b')
      (by omega : 0 ≤ weight amp + 1)
    linarith
  have hunder := hwithin.mono (by positivity) (by omega) hproduct hsum
  have hge := computeD_ge (by omega) (by omega) hamp (by omega) hunder h'
  omega

end Positive

end Suban.Stableswap.Invariant
