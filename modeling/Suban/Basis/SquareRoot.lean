import Mathlib.Data.Nat.Sqrt
import Mathlib.Tactic.Linarith
import Mathlib.Tactic.Ring

namespace Suban.Basis.SquareRoot

variable {n x : Nat}

/-- A step of the Babylonian method. -/
def improve (n x : Nat) : Nat := (x + n / x) / 2

theorem improve_pos (hx : 0 < x) (hle : x ≤ n) : 0 < improve n x := by
  have hq : 0 < n / x := Nat.div_pos hle hx
  unfold improve
  omega

theorem lt_improve_succ_sq (hx : 0 < x) : n < (improve n x + 1) * (improve n x + 1) := by
  have hq : n < (n / x + 1) * x := by
    rw [mul_comm]
    exact Nat.lt_mul_div_succ n hx
  have hmean : x + (n / x + 1) ≤ 2 * (improve n x + 1) := by
    unfold improve
    omega
  have hfour : 4 * n < 4 * ((improve n x + 1) * (improve n x + 1)) := by
    calc 4 * n < 4 * ((n / x + 1) * x) := by omega
      _ = 4 * x * (n / x + 1) := by ring
      _ ≤ (x + (n / x + 1)) ^ 2 := four_mul_le_sq_add x (n / x + 1)
      _ ≤ (2 * (improve n x + 1)) ^ 2 := Nat.pow_le_pow_left hmean 2
      _ = 4 * ((improve n x + 1) * (improve n x + 1)) := by ring
  omega

theorem sq_le_of_le_improve (h : x ≤ improve n x) : x * x ≤ n := by
  have hq : x ≤ n / x := by
    unfold improve at h
    omega
  calc x * x ≤ n / x * x := Nat.mul_le_mul_right x hq
    _ ≤ n := Nat.div_mul_le_self n x

theorem improve_sum_le (hx : 0 < x) (hle : x ≤ n) : x + n / x ≤ n + 1 := by
  have hq : 0 < n / x := Nat.div_pos hle hx
  have hprod := Nat.div_mul_le_self n x
  nlinarith

end Suban.Basis.SquareRoot
