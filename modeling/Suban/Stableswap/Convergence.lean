import Suban.Basis.StableReal
import Suban.Basis.StableRest
import Suban.Stableswap.Outputs

namespace Suban.Stableswap.Convergence

open Suban.Basis.Calls Suban.Basis.Iteration Suban.Basis.StableCurve Suban.Basis.StableReal
open Suban.Basis.StableRest Suban.Basis.StableRoot
open Suban.Stableswap.Contract Suban.Stableswap.Invariant Suban.Stableswap.Outputs

variable {amp a b d : Nat}

/-- The loop of the invariant, with a result only where its test has ended it. -/
def settledD (reserveA reserveB amp : Nat) : Outcome Fault (Option Nat) :=
  settle (nextD reserveA reserveB (amp * 2 * 2) (reserveA + reserveB)) close maxIterations
    (reserveA + reserveB)

def settledY (newReserveIn reserveOut ann d : Nat) : Outcome Fault (Option Nat) :=
  settle (nextY (newReserveIn + d / ann) (constant newReserveIn ann d) d) close maxIterations
    reserveOut

section Sum

variable (ha : 0 < a) (hb : 0 < b) (hamp : 0 < amp) (h : computeD a b amp = .ok d)

include ha hb hamp h

/-- The invariant is no more than the sum of the balances. -/
theorem computeD_le_sum : d ≤ a + b := by
  have hiter := computeD_eq_ok ha h
  have ha' : (0 : Int) < a := by omega
  have hb' : (0 : Int) < b := by omega
  have hn := three_le_weight hamp
  have hsum (d e : Nat) (hd : Guess (weight amp) a b d) (hle : d ≤ a + b)
      (he : nextD a b (amp * 2 * 2) (a + b) d = .ok e) : e ≤ a + b := by
    have hround := (nextD_ok ha hb he).2.le_sum hn ha' hb' hd (by omega)
    omega
  refine iterate_rule (R := fun d : Nat => d ≤ a + b)
    (I := fun _ (d : Nat) => Guess (weight amp) a b d ∧ d ≤ a + b) (fun _ hd => hd.2)
    (fun _ d e hd he _ => hsum d e hd.1 hd.2 he) (fun _ d e hd he hclose => ⟨?_, ?_⟩) ?_ hiter
  · have hfar : ¬ ((d : Int) ≤ e + 1 ∧ (e : Int) ≤ d + 1) := by
      rw [← close_iff, hclose]
      decide
    exact (nextD_ok ha hb he).2.guess hn ha' hb' hd.1 hfar
  · exact hsum d e hd.1 hd.2 he
  · refine ⟨?_, le_rfl⟩
    rw [Nat.cast_add]
    exact guess_sum hn ha' hb'

theorem settledD_of_big (hratio : a ≤ 16 * amp * b) (hbig : 6 ≤ (weight amp - 1) * b) :
    settledD a b amp = .ok (some d) ∧
      Under (weight amp) (a * b) ((weight amp + 1) * (a + b)) (d - 1 : Int) := by
  have hiter := computeD_eq_ok ha h
  have ha' : (0 : Int) < a := by omega
  have hb' : (0 : Int) < b := by omega
  have hn := three_le_weight hamp
  have hweight : weight amp + 1 = 4 * (amp : Int) := by
    unfold weight
    omega
  obtain ⟨z, hz⟩ := exists_first hn ha' hb' (by rw [hweight]; zify at hratio; linarith)
  have hsettle := settle_rule (I := fun rounds (d : Nat) => Settling z rounds d)
    (R := fun d : Nat => z - 1 ≤ (d : Int) ∧ (d : Int) ≤ z) ?_ ?_ ?_ hiter
  · refine ⟨hsettle.1, hz.below.anti (by omega) (by positivity) ?_ (by omega)⟩
    have hd2 := two_le_computeD ha hb hamp h
    omega
  · rintro d ⟨-, ⟨-, hone⟩ | ⟨k, hk, -⟩⟩
    · omega
    · omega
  · intro rounds d e hd he
    obtain ⟨hstop, hgo⟩ := hz.settling hn ha' hb' hbig (nextD_ok ha hb he).2 hd
    split
    next hclose => exact hstop (close_iff.mp hclose)
    next hclose => exact hgo (fun hnear => hclose (close_iff.mpr hnear))
  · have hfirst := sum_lt_of_computeD ha hb h
    rw [Nat.cast_add]
    refine settling_sum hn ha' hb' (k := 254) hz ?_
    calc (2 : Int) ^ 254 * ((a : Int) + b) ≤ 2 ^ 254 * 2 ^ 64 :=
          mul_le_mul_of_nonneg_left (by omega) (by positivity)
      _ < 3 ^ 254 := by norm_num

end Sum

/-- The rounds for two small balances, the amplification being one. -/
theorem settledD_small : ∀ b < 3, ∀ a < 33, 0 < b → 0 < a →
    (settledD a b 1).toOption.join.any (fun d : Nat => decide ((d - 1 : Int) ^ 3 +
      4 * (a * b) * 3 * (d - 1) ≤ 4 * (a * b) * (4 * (a + b)))) = true := by
  decide +kernel

theorem settledD_of_ratio (ha : 0 < a) (hb : 0 < b) (hamp : 0 < amp)
    (h : computeD a b amp = .ok d) (hratio : a ≤ 16 * amp * b) :
    settledD a b amp = .ok (some d) ∧
      Under (weight amp) (a * b) ((weight amp + 1) * (a + b)) (d - 1 : Int) := by
  by_cases hbig : 6 ≤ (weight amp - 1) * b
  · exact settledD_of_big ha hb hamp h hratio hbig
  obtain ⟨rfl, hb2⟩ : amp = 1 ∧ b < 3 := by
    unfold weight at hbig
    by_cases hone : amp = 1
    · subst hone
      exact ⟨rfl, by omega⟩
    · have hmul : 6 * (b : Int) ≤ (4 * amp - 1 - 1) * b :=
        mul_le_mul_of_nonneg_right (by omega) (by omega)
      omega
  have hsmall := settledD_small b hb2 a (by omega) hb ha
  rw [Option.any_eq_true] at hsmall
  obtain ⟨e, he, hunder⟩ := hsmall
  have hsettle : settledD a b 1 = .ok (some e) := by
    rcases hs : settledD a b 1 with f | o
    · rw [hs] at he
      cases he
    · rw [hs] at he
      exact congrArg Except.ok he
  have hend := iterate_of_settle hsettle
  cases hend.symm.trans (computeD_eq_ok ha h)
  have hle : (d - 1 : Int) ^ 3 + 4 * (a * b) * 3 * (d - 1) ≤ 4 * (a * b) * (4 * (a + b)) :=
    of_decide_eq_true hunder
  exact ⟨hsettle, hle⟩

theorem lt_succ_computeD (ha : 0 < a) (hb : 0 < b) (hamp : 0 < amp)
    (h : computeD a b amp = .ok d) {r : ℝ} (hr : IsInvariant amp a b r) : r < d + 1 := by
  have habove :
      ¬ Under (weight amp) (a * b) ((weight amp + 1) * (a + b)) ((d + 1 : Nat) : Int) := by
    intro hunder
    have hge := computeD_ge ha hb hamp (by omega) hunder h
    omega
  have hweight : weight amp + 1 = 4 * (amp : Int) := by
    unfold weight
    omega
  rw [hweight] at habove
  have hamp' : (1 : Int) ≤ amp := by omega
  have ha' : (0 : Int) < a := by omega
  have hb' : (0 : Int) < b := by omega
  have hlt := IsInvariant.lt hamp' ha' hb' hr (by omega) habove
  exact_mod_cast hlt

theorem near_computeD (ha : 0 < a) (hb : 0 < b) (hamp : 0 < amp)
    (h : computeD a b amp = .ok d) (hratio : a ≤ 16 * amp * b) :
    Near (IsInvariant amp a b) d := by
  refine ⟨exists_isInvariant (by exact_mod_cast hamp) (by exact_mod_cast ha)
    (by exact_mod_cast hb), fun r hr => ?_⟩
  have hlt := lt_succ_computeD ha hb hamp h hr
  obtain ⟨-, hunder⟩ := settledD_of_ratio ha hb hamp h hratio
  have hweight : weight amp + 1 = 4 * (amp : Int) := by
    unfold weight
    omega
  rw [hweight] at hunder
  have hamp' : (1 : Int) ≤ amp := by omega
  have ha' : (0 : Int) < a := by omega
  have hb' : (0 : Int) < b := by omega
  have hge := IsInvariant.ge hamp' ha' hb' hr hunder
  push_cast at hge
  exact abs_le.mpr ⟨by linarith, by linarith⟩

section Output

variable {c e y w top : Nat} {n : Int} (hn : (b : Int) - d = n) (htop : 0 < top)
variable (hdiv : 0 < 2 * (top : Int) + n)

include hn htop hdiv

omit hn htop hdiv in
theorem nextY_lt (h : nextY b c d y = .ok w) : w < 2 ^ 128 := by
  simp only [nextY, bind_eq_ok, mulU_eq_ok, addU_eq_ok, subU_eq_ok, divU_eq_ok] at h
  obtain ⟨_, ⟨-, rfl⟩, _, ⟨hfits, rfl⟩, _, ⟨-, rfl⟩, _, ⟨-, rfl⟩, _, ⟨-, rfl⟩, -, rfl⟩ := h
  exact (Nat.div_le_self _ _).trans_lt hfits

theorem computeYLoop_ne_error_of_first {rounds : Nat} (e : Fault) :
    computeYLoop b c d (rounds + 1) top ≠ .error (.error e) := by
  rw [computeYLoop_eq]
  refine bind_ne_error (nextY_ne_error (by rw [hn]; exact hdiv) e) fun w hw => ?_
  by_cases hclose : close w top = true
  · rw [if_pos hclose]
    exact pure_ne_error w _
  · rw [if_neg hclose]
    have hfar : ¬ ((top : Int) ≤ w + 1 ∧ (w : Int) ≤ top + 1) := by rwa [← close_iff]
    have hguess := guess_of_first (Int.natCast_nonneg c) (round_of_nextY hn hw) (by omega) hdiv
      (Int.natCast_nonneg w) hfar
    refine iterate_ne_error (I := fun y : Nat => Basis.StableTrade.Guess n c w y)
      (fun y hy => nextY_ne_error ?_ e) (fun y e hy he hclose => guess_of_nextY hn hy he hclose)
      hguess
    rw [hn]
    exact hy.divisor_pos (Int.natCast_nonneg c)

theorem settle_nextY {rounds : Nat} (hrounds : 130 ≤ rounds)
    (h : iterate (nextY b c d) close (rounds + 1) top = .ok y) :
    settle (nextY b c d) close (rounds + 1) top = .ok (some y) ∧
      ∃ v, Next n c v ∧ v - 1 ≤ y ∧ (y : Int) ≤ v := by
  have hc : (0 : Int) ≤ c := Int.natCast_nonneg c
  obtain ⟨e, he, h⟩ := bind_eq_ok.mp h
  have hround := round_of_nextY hn he
  obtain ⟨v, hv, hlow, hhigh⟩ :=
    exists_next_of_first hc hround (by omega) hdiv (Int.natCast_nonneg e)
  rw [settle, he, ok_bind]
  by_cases hclose : close e top = true
  · rw [if_pos hclose, pure_eq_ok] at h
    rw [if_pos hclose]
    subst h
    exact ⟨rfl, v, hv, hlow, hhigh (close_iff.mp hclose)⟩
  · rw [if_neg hclose] at h ⊢
    have hfar : ¬ ((top : Int) ≤ e + 1 ∧ (e : Int) ≤ top + 1) := by rwa [← close_iff]
    have hguess := guess_of_first hc hround (by omega) hdiv (Int.natCast_nonneg e) hfar
    have hsmall := nextY_lt he
    have hsettle := settle_rule
      (I := fun rounds (y : Nat) => Basis.StableTrade.Guess n c e y ∧ Halving v rounds y)
      (R := fun y : Nat => v - 1 ≤ (y : Int) ∧ (y : Int) ≤ v) ?_ ?_ ?_ h
    · exact ⟨hsettle.1, v, hv, hsettle.2⟩
    · rintro y ⟨-, -, ⟨-, hone⟩ | ⟨k, hk, -⟩⟩
      · omega
      · omega
    · intro rounds y w hy hw
      have hround := round_of_nextY hn hw
      obtain ⟨hstop, hgo⟩ := hv.settling hc hy.1 hround hy.2
      split
      next hclose => exact hstop (close_iff.mp hclose)
      next hclose =>
        rw [Bool.not_eq_true] at hclose
        exact ⟨guess_of_nextY hn hy.1 hw hclose, hgo fun hnear => by
          rw [close_iff.mpr hnear] at hclose
          cases hclose⟩
    · refine ⟨hguess, hlow, .inr ⟨128, by omega, ?_⟩⟩
      have hone := hv.one_le
      have hpow : ((2 ^ 128 : Nat) : Int) = 2 ^ 128 := by norm_num
      omega

end Output

section Compute

variable {amountIn y : Nat} (ha : 0 < a) (hb : 0 < b) (hamp : 0 < amp)
variable (hd : computeD a b amp = .ok d)

include ha hb hamp hd

/-- The old reserve is far enough up for a first round. -/
theorem divisor_pos : 0 < 2 * (b : Int) + slope (a + amountIn) (amp * 2 * 2) d := by
  have hsum := computeD_le_sum ha hb hamp hd
  unfold Outputs.slope
  generalize d / (amp * 2 * 2) = q
  omega

theorem computeY_ne_error (e : Fault) : computeY a amountIn b amp ≠ .error (.error e) := by
  refine bind_ne_error (annFor_ne_error e) fun ann hann => ?_
  obtain ⟨-, rfl⟩ := annFor_eq_ok.mp hann
  rw [hd, ok_bind]
  have hd2 := two_le_computeD ha hb hamp hd
  rw [if_neg (by omega)]
  refine solveY_ne_error_of_loop (by omega) (by omega) ?_
  exact computeYLoop_ne_error_of_first (n := slope (a + amountIn) (amp * 2 * 2) d) rfl hb
    (divisor_pos ha hb hamp hd) e

theorem solveY_of_computeY (h : computeY a amountIn b amp = .ok y) :
    solveY a amountIn b (amp * 2 * 2) d = .ok y := by
  simp only [computeY, bind_eq_ok, annFor_eq_ok] at h
  obtain ⟨_, ⟨-, rfl⟩, d', hd', h⟩ := h
  cases hd.symm.trans hd'
  have hd2 := two_le_computeD ha hb hamp hd
  rwa [if_neg (by omega)] at h

theorem settledY_of_computeY (h : computeY a amountIn b amp = .ok y) :
    settledY (a + amountIn) b (amp * 2 * 2) d = .ok (some y) ∧
      ∃ v, Next (slope (a + amountIn) (amp * 2 * 2) d)
        (constant (a + amountIn) (amp * 2 * 2) d) v ∧ v - 1 ≤ y ∧ (y : Int) ≤ v := by
  have hloop := solveY_eq_ok (solveY_of_computeY ha hb hamp hd h)
  rw [computeYLoop_eq, show maxIterations = 255 + 1 from rfl] at hloop
  exact settle_nextY rfl hb (divisor_pos ha hb hamp hd) (by decide) hloop

theorem near_computeY (h : computeY a amountIn b amp = .ok y) :
    Near (IsRoot (slope (a + amountIn) (amp * 2 * 2) d)
      (constant (a + amountIn) (amp * 2 * 2) d)) y := by
  obtain ⟨-, v, hv, hlow, hhigh⟩ := settledY_of_computeY ha hb hamp hd h
  have hnear := near_next (Int.natCast_nonneg _) hv hlow hhigh
  rwa [Int.cast_natCast] at hnear

theorem near_computeY_exact (h : computeY a amountIn b amp = .ok y) :
    Near (IsRoot ((a + amountIn) + d / (4 * amp) - d)
      (d ^ 3 / (4 * (a + amountIn) * (4 * amp)))) y := by
  obtain ⟨-, v, hv, hlow, hhigh⟩ := settledY_of_computeY ha hb hamp hd h
  have hd2 := two_le_computeD ha hb hamp hd
  have hle := Nat.div_mul_le_self d (amp * 2 * 2)
  have hlt := Nat.lt_div_mul_add (a := d) (b := amp * 2 * 2) (by omega)
  have hcubed := cubed_div (a := a + amountIn) (b := amp * 2 * 2) (d := d) (by omega) (by omega)
  have hnear := near_exact (q := (d / (amp * 2 * 2) : Nat)) (Int.natCast_nonneg _) hv (by omega)
    (by omega) (by omega) (by rw [mul_comm]; exact_mod_cast hle)
    (by rw [mul_comm, add_mul, one_mul]; exact_mod_cast hlt) hcubed
    (by rw [Outputs.slope, Nat.cast_add]) hlow hhigh
  push_cast at hnear
  rw [show (amp : ℝ) * 2 * 2 = 4 * amp by ring] at hnear
  exact hnear

end Compute

/-- In a pool whose one balance is not out of proportion to the other the
iteration of the invariant rests next to the root; in every pool it stays between
the root and the sum of the balances, and the iteration of the other reserve
rests next to the root of its equation. -/
theorem newton_converges (ha : 0 < a) (hb : 0 < b) (hamp : 0 < amp)
    (hfits : computeD a b amp ≠ .error .panic) :
    ∃ d, computeD a b amp = .ok d ∧ d ≤ a + b ∧
      (∀ r, IsInvariant amp a b r → r < d + 1) ∧
      (a ≤ 16 * amp * b → settledD a b amp = .ok (some d) ∧ Near (IsInvariant amp a b) d) ∧
      ∀ amountIn, computeY a amountIn b amp ≠ .error .panic →
        ∃ y, computeY a amountIn b amp = .ok y ∧
          settledY (a + amountIn) b (amp * 2 * 2) d = .ok (some y) ∧
          Near (IsRoot (slope (a + amountIn) (amp * 2 * 2) d)
            (constant (a + amountIn) (amp * 2 * 2) d)) y ∧
          Near (IsRoot ((a + amountIn) + d / (4 * amp) - d)
            (d ^ 3 / (4 * (a + amountIn) * (4 * amp)))) y := by
  obtain ⟨d, hd⟩ := exists_ok (computeD_ne_error ha hb hamp) hfits
  refine ⟨d, hd, computeD_le_sum ha hb hamp hd, fun r hr => lt_succ_computeD ha hb hamp hd hr,
    fun hratio => ?_, fun amountIn hfitsY => ?_⟩
  · exact ⟨(settledD_of_ratio ha hb hamp hd hratio).1, near_computeD ha hb hamp hd hratio⟩
  · obtain ⟨y, hy⟩ := exists_ok (computeY_ne_error ha hb hamp hd) hfitsY
    exact ⟨y, hy, (settledY_of_computeY ha hb hamp hd hy).1, near_computeY ha hb hamp hd hy,
      near_computeY_exact ha hb hamp hd hy⟩

theorem newton_converges_sample : ∃ d, computeD 1000 800 100 = .ok d ∧ d ≤ 1000 + 800 ∧
    (∀ r, IsInvariant (100 : Nat) (1000 : Nat) (800 : Nat) r → r < d + 1) ∧
    (1000 ≤ 16 * 100 * 800 → settledD 1000 800 100 = .ok (some d) ∧
      Near (IsInvariant (100 : Nat) (1000 : Nat) (800 : Nat)) d) ∧
    ∀ amountIn, computeY 1000 amountIn 800 100 ≠ .error .panic →
      ∃ y, computeY 1000 amountIn 800 100 = .ok y ∧
        settledY (1000 + amountIn) 800 (100 * 2 * 2) d = .ok (some y) ∧
        Near (IsRoot (slope (1000 + amountIn) (100 * 2 * 2) d)
          (constant (1000 + amountIn) (100 * 2 * 2) d)) y ∧
        Near (IsRoot (((1000 : Nat) + amountIn) + d / (4 * (100 : Nat)) - d)
          (d ^ 3 / (4 * ((1000 : Nat) + amountIn) * (4 * (100 : Nat))))) y :=
  newton_converges (by decide) (by decide) (by decide) (by decide +kernel)

/-- The guesses for 739 and 1 go back and forth between 192 and 194. -/
theorem lopsided_never_rests : computeD 739 1 1 = .ok 194 ∧ settledD 739 1 1 = .ok none ∧
    ∀ r, IsInvariant (1 : Int) (739 : Int) (1 : Int) r → 2 < |194 - r| := by
  refine ⟨by decide +kernel, by decide +kernel, fun r hr => ?_⟩
  have hlt : r < ((192 : Int) : ℝ) := by
    refine IsInvariant.lt (by decide) (by decide) (by decide) hr (by decide) ?_
    unfold Under
    decide
  push_cast at hlt
  exact lt_abs.mpr (.inl (by linarith))

end Suban.Stableswap.Convergence
