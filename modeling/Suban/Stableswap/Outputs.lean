import Suban.Basis.StableTrade
import Suban.Stableswap.Invariant

namespace Suban.Stableswap.Outputs

open Suban.Basis.Calls Suban.Basis.Iteration Suban.Basis.StableCurve Suban.Soroban.Host
open Suban.Basis.StableTrade (Slack)
open Suban.Stableswap.Contract Suban.Stableswap.Invariant

variable {amp ann b c d y w : Nat} {reserveIn amountIn reserveOut : Nat}

theorem nextY_ok (h : nextY b c d y = .ok w) : Basis.StableTrade.Round ((b : Int) - d) c y w := by
  simp only [nextY, bind_eq_ok, mulU_eq_ok, addU_eq_ok, subU_eq_ok, divU_eq_ok] at h
  obtain ⟨_, ⟨-, rfl⟩, _, ⟨-, rfl⟩, _, ⟨-, rfl⟩, _, ⟨-, rfl⟩, _, ⟨hsub, rfl⟩, hden, hw⟩ := h
  have hle := Nat.div_mul_le_self (y * y + c) (2 * y + b - d)
  have hlt := Nat.lt_div_mul_add (a := y * y + c) (Nat.pos_of_ne_zero hden)
  rw [hw] at hle hlt
  zify [hsub] at hle hlt
  exact ⟨by linarith, by linarith⟩

theorem nextY_ne_error (hdiv : 0 < 2 * (y : Int) + (b - d)) (e : Fault) :
    nextY b c d y ≠ .error (.error e) := by
  refine bind_ne_error (mulU_ne_error _ _ e) fun _ _ => ?_
  refine bind_ne_error (addU_ne_error _ _ e) fun _ _ => ?_
  refine bind_ne_error (mulU_ne_error _ _ e) fun twice htwice => ?_
  refine bind_ne_error (addU_ne_error _ _ e) fun sum hsum => ?_
  obtain ⟨-, rfl⟩ := mulU_eq_ok.mp htwice
  obtain ⟨-, rfl⟩ := addU_eq_ok.mp hsum
  refine bind_ne_error (subU_ne_error (by omega) e) fun denominator hden => ?_
  obtain ⟨-, rfl⟩ := subU_eq_ok.mp hden
  exact divU_ne_error (by omega) e

theorem computeYLoop_eq (rounds : Nat) :
    computeYLoop b c d rounds y = iterate (nextY b c d) close rounds y := by
  induction rounds generalizing y with
  | zero => rfl
  | succ rounds ih =>
    rw [computeYLoop, iterate]
    simp only [ih]

/-- What is known of the reserve that is left: the old one is no smaller, one unit
more is above the root, and something is left when a unit is below it. -/
structure Left (n : Int) (c reserveOut y : Nat) : Prop where
  le : y ≤ reserveOut
  above : (c : Int) < (y + 1) * (y + 1) + n * (y + 1)
  pos : n < c → 0 < y

section Loop

variable {n : Int} (hn : (b : Int) - d = n)

include hn

theorem round_of_nextY (h : nextY b c d y = .ok w) : Basis.StableTrade.Round n c y w :=
  hn ▸ nextY_ok h

theorem guess_of_nextY {e : Nat} (hy : Basis.StableTrade.Guess n c reserveOut y)
    (he : nextY b c d y = .ok e) (hclose : close e y = false) :
    Basis.StableTrade.Guess n c reserveOut e := by
  have hround := round_of_nextY hn he
  refine hround.guess (by omega) hy ?_
  rw [← close_iff, hclose]
  decide

variable (hout : 0 < reserveOut) (hslack : Slack n c reserveOut)

include hout hslack

theorem computeYLoop_ne_error (rounds : Nat) (e : Fault) :
    computeYLoop b c d rounds reserveOut ≠ .error (.error e) := by
  rw [computeYLoop_eq]
  refine iterate_ne_error (I := fun y : Nat => Basis.StableTrade.Guess n c reserveOut y)
    (fun y hy => ?_) (fun y e hy he hclose => guess_of_nextY hn hy he hclose)
    (Basis.StableTrade.guess_of_slack (by omega) hslack)
  refine nextY_ne_error ?_ e
  rw [hn]
  exact hy.divisor_pos (by omega)

theorem computeYLoop_le {rounds : Nat} (h : computeYLoop b c d rounds reserveOut = .ok y) :
    y ≤ reserveOut ∧ (c : Int) < (y + 1) * (y + 1) + n * (y + 1) := by
  rw [computeYLoop_eq] at h
  have hguess := Basis.StableTrade.guess_of_slack (by omega : (0 : Int) < reserveOut) hslack
  refine iterate_rule (I := fun rounds (y : Nat) => Basis.StableTrade.Guess n c reserveOut y)
    (R := fun y : Nat => y ≤ reserveOut ∧ (c : Int) < (y + 1) * (y + 1) + n * (y + 1))
    (fun y hy => ⟨by exact_mod_cast hy.le_top, hy.above⟩) (fun _ y e hy he _ => ?_)
    (fun _ y e hy he hclose => guess_of_nextY hn hy he hclose) hguess h
  have hround := round_of_nextY hn he
  have htop := hround.le_top (by omega) hy (by omega) hslack
  exact ⟨by omega, hround.above (hy.divisor_pos (by omega))⟩

/-- With a unit below the root no round goes to zero. -/
theorem computeYLoop_pos {rounds : Nat} (hone : n < c)
    (h : computeYLoop b c d rounds reserveOut = .ok y) : 0 < y := by
  rw [computeYLoop_eq] at h
  have hguess := Basis.StableTrade.guess_of_slack (by omega : (0 : Int) < reserveOut) hslack
  have hstep (y e : Nat) (hy : Basis.StableTrade.Guess n c reserveOut y)
      (he : nextY b c d y = .ok e) : 0 < e := by
    have hround := round_of_nextY hn he
    have hge : 1 ≤ (e : Int) := hround.ge (hy.divisor_pos (by omega)) (by omega)
    omega
  refine iterate_rule (R := fun y : Nat => 0 < y)
    (I := fun rounds (y : Nat) => Basis.StableTrade.Guess n c reserveOut y ∧ 0 < y)
    (fun _ hy => hy.2) (fun _ y e hy he _ => hstep y e hy.1 he)
    (fun _ y e hy he hclose => ⟨guess_of_nextY hn hy.1 he hclose, hstep y e hy.1 he⟩)
    ⟨hguess, hout⟩ h

theorem computeYLoop_left {rounds : Nat}
    (h : computeYLoop b c d rounds reserveOut = .ok y) : Left n c reserveOut y := by
  obtain ⟨hle, habove⟩ := computeYLoop_le hn hout hslack h
  exact ⟨hle, habove, fun hone => computeYLoop_pos hn hout hslack hone h⟩

end Loop

/-- The constant and the slope of the equation for the other reserve, with `x` in
the one that has grown. -/
def constant (x ann d : Nat) : Nat := d * d / (x * 2) * d / (ann * 2)

def slope (x ann d : Nat) : Int := ((x + d / ann : Nat) : Int) - d

theorem solveY_ne_error_of_loop {e : Fault} (hx : 0 < reserveIn + amountIn) (hann : 0 < ann)
    (h : computeYLoop (reserveIn + amountIn + d / ann) (constant (reserveIn + amountIn) ann d) d
      maxIterations reserveOut ≠ .error (.error e)) :
    solveY reserveIn amountIn reserveOut ann d ≠ .error (.error e) := by
  refine bind_ne_error (addU_ne_error _ _ e) fun x hx => ?_
  refine bind_ne_error (mulU_ne_error _ _ e) fun square hsquare => ?_
  refine bind_ne_error (mulU_ne_error _ _ e) fun twiceIn htwiceIn => ?_
  obtain ⟨-, rfl⟩ := addU_eq_ok.mp hx
  obtain ⟨-, rfl⟩ := mulU_eq_ok.mp hsquare
  obtain ⟨-, rfl⟩ := mulU_eq_ok.mp htwiceIn
  refine bind_ne_error (divU_ne_error (by omega) e) fun c hc => ?_
  refine bind_ne_error (mulU_ne_error _ _ e) fun product hproduct => ?_
  refine bind_ne_error (mulU_ne_error _ _ e) fun twiceAnn htwiceAnn => ?_
  obtain ⟨-, rfl⟩ := divU_eq_ok.mp hc
  obtain ⟨-, rfl⟩ := mulU_eq_ok.mp hproduct
  obtain ⟨-, rfl⟩ := mulU_eq_ok.mp htwiceAnn
  refine bind_ne_error (divU_ne_error (by omega) e) fun c hc => ?_
  refine bind_ne_error (divU_ne_error (by omega) e) fun part hpart => ?_
  refine bind_ne_error (addU_ne_error _ _ e) fun b hb => ?_
  obtain ⟨-, rfl⟩ := divU_eq_ok.mp hc
  obtain ⟨-, rfl⟩ := divU_eq_ok.mp hpart
  obtain ⟨-, rfl⟩ := addU_eq_ok.mp hb
  exact h

theorem solveY_eq_ok (h : solveY reserveIn amountIn reserveOut ann d = .ok y) :
    computeYLoop (reserveIn + amountIn + d / ann) (constant (reserveIn + amountIn) ann d) d
      maxIterations reserveOut = .ok y := by
  simp only [solveY, bind_eq_ok, addU_eq_ok, mulU_eq_ok, divU_eq_ok] at h
  obtain ⟨_, ⟨-, rfl⟩, _, ⟨-, rfl⟩, _, ⟨-, rfl⟩, _, ⟨-, rfl⟩, _, ⟨-, rfl⟩, _, ⟨-, rfl⟩, h⟩ := h
  obtain ⟨_, ⟨-, rfl⟩, _, ⟨-, rfl⟩, _, ⟨-, rfl⟩, h⟩ := h
  exact h

section Solve

variable (hin : 0 < reserveIn) (hout : 0 < reserveOut) (hamount : 0 < amountIn) (hamp : 0 < amp)
variable (hd : computeD reserveIn reserveOut amp = .ok d)

include hin hout hamount hamp hd

theorem slack_constant : Slack (slope (reserveIn + amountIn) (amp * 2 * 2) d)
    (constant (reserveIn + amountIn) (amp * 2 * 2) d) reserveOut := by
  have hd2 := two_le_computeD hin hout hamp hd
  have hwithin := computeD_within hin hout hamp hd
  have hlt := Nat.lt_div_mul_add (a := d) (b := amp * 2 * 2) (by omega)
  have hcubed := cubed_div (a := reserveIn + amountIn) (b := amp * 2 * 2) (d := d) (by omega)
    (by omega)
  have hweight : weight amp = ((amp * 2 * 2 : Nat) : Int) - 1 := by
    unfold weight
    omega
  have hstep : (d : Int) < ((amp * 2 * 2 : Nat) : Int) * ((d / (amp * 2 * 2) : Nat) + 1) := by
    rw [mul_add, mul_one, mul_comm]
    exact_mod_cast hlt
  rw [Basis.StableRoot.Within, hweight, sub_add_cancel] at hwithin
  have hslack := Basis.StableTrade.slack_of_under (a := reserveIn) (b := reserveOut) (by omega)
    (by omega) (by omega) (by omega) (by omega) hstep hcubed hwithin
  rw [slope, Nat.cast_add (reserveIn + amountIn)]
  exact hslack

theorem solveY_ne_error (e : Fault) :
    solveY reserveIn amountIn reserveOut (amp * 2 * 2) d ≠ .error (.error e) := by
  have hslack := slack_constant hin hout hamount hamp hd
  refine solveY_ne_error_of_loop (by omega) (by omega) ?_
  exact computeYLoop_ne_error rfl hout hslack maxIterations e

theorem solveY_left (h : solveY reserveIn amountIn reserveOut (amp * 2 * 2) d = .ok y) :
    Left (slope (reserveIn + amountIn) (amp * 2 * 2) d)
      (constant (reserveIn + amountIn) (amp * 2 * 2) d) reserveOut y := by
  have hslack := slack_constant hin hout hamount hamp hd
  exact computeYLoop_left rfl hout hslack (solveY_eq_ok h)

end Solve

section Compute

variable (hin : 0 < reserveIn) (hout : 0 < reserveOut) (hamount : 0 < amountIn) (hamp : 0 < amp)

include hin hout hamount hamp

theorem computeY_ne_error (e : Fault) :
    computeY reserveIn amountIn reserveOut amp ≠ .error (.error e) := by
  refine bind_ne_error (annFor_ne_error e) fun ann hann => ?_
  obtain ⟨-, rfl⟩ := annFor_eq_ok.mp hann
  refine bind_ne_error (computeD_ne_error hin hout hamp e) fun d hd => ?_
  have hd2 := two_le_computeD hin hout hamp hd
  rw [if_neg (by omega)]
  exact solveY_ne_error hin hout hamount hamp hd e

theorem computeY_ok (h : computeY reserveIn amountIn reserveOut amp = .ok y) :
    ∃ d, computeD reserveIn reserveOut amp = .ok d ∧
      Left (slope (reserveIn + amountIn) (amp * 2 * 2) d)
        (constant (reserveIn + amountIn) (amp * 2 * 2) d) reserveOut y := by
  simp only [computeY, bind_eq_ok, annFor_eq_ok] at h
  obtain ⟨_, ⟨-, rfl⟩, d, hd, h⟩ := h
  have hd2 := two_le_computeD hin hout hamp hd
  rw [if_neg (by omega)] at h
  exact ⟨d, hd, solveY_left hin hout hamount hamp hd h⟩

end Compute

/-- With two units more than what has to be left the invariant is back. -/
theorem Left.le_computeD {x v : Nat} (hx : 0 < x) (hamp : 0 < amp) (hd : 2 ≤ d)
    (hleft : Left (slope x (amp * 2 * 2) d) (constant x (amp * 2 * 2) d) reserveOut y)
    (hy : y ≤ v) (h : computeD x (v + 2) amp = .ok w) : d ≤ w := by
  have hcubed := cubed_div (a := x) (b := amp * 2 * 2) (d := d) hx (by omega)
  have hle := Nat.div_mul_le_self d (amp * 2 * 2)
  have hlt := Nat.lt_div_mul_add (a := d) (b := amp * 2 * 2) (by omega)
  have habove := hleft.above
  rw [slope, constant, Nat.cast_add] at habove
  generalize d / (amp * 2 * 2) = q at hle hlt habove
  have hunder := Basis.StableTrade.under_of_above (q := q) (y := y) (by omega) (by omega)
    (by omega) (by rw [mul_comm]; exact_mod_cast hle)
    (by rw [mul_comm, add_mul, one_mul]; exact_mod_cast hlt) hcubed (by omega) habove
  have hproduct : (x : Int) * (y + 2) ≤ x * ((v + 2 : Nat) : Int) :=
    mul_le_mul_of_nonneg_left (by omega) (by omega)
  have hweight : ((amp * 2 * 2 : Nat) : Int) = weight amp + 1 := by
    unfold weight
    omega
  rw [hweight, add_sub_cancel_right] at hunder
  have hsum : (weight amp + 1) * ((x : Int) + (y + 2)) ≤
      (weight amp + 1) * (x + ((v + 2 : Nat) : Int)) :=
    mul_le_mul_of_nonneg_left (by omega) (by omega)
  have hmore := hunder.mono (by positivity) (by omega) hproduct hsum
  have hge := computeD_ge hx (by omega) hamp (by omega) hmore h
  omega

end Suban.Stableswap.Outputs
