import Suban.Stableswap.Books
import Suban.Stableswap.Convergence

namespace Suban.Stableswap.RoundTrip

open Suban.Basis.Calls Suban.Basis.Tables Suban.Basis.Runs Suban.Basis.StableCurve
open Suban.Basis.StableRoot Suban.Soroban.Host Suban.Stableswap.Contract
open Suban.Stableswap.Invariant Suban.Stableswap.Transitions Suban.Stableswap.Value
open Suban.Stableswap.Books Suban.Stableswap.Convergence

variable {Address W : Type} [DecidableEq Address] {contract : Address}
variable {T : Sep41 Address W} {env : Env Address contract} {s t u : Storage Address W} {amp : Nat}
variable {provider : Address} {a b x y shares n m : Int}

/-- So many new shares bring back the deposit and more of one of the tokens. -/
def TooMany (s : Storage Address W) (a b n : Int) : Prop :=
  (a * s.totalShares ≤ n * s.reserveA ∧ b * s.totalShares ≤ n * s.reserveB) ∧
    ((a + 1) * s.totalShares ≤ n * (s.reserveA - 1) ∨
      (b + 1) * s.totalShares ≤ n * (s.reserveB - 1))

def AtMost (amp : Nat) (a b z : Int) : Prop :=
  Under (weight amp) (a * b) ((weight amp + 1) * (a + b)) z

/-- `z` is more than the invariant of the reserves, or where the first of them is
out of proportion more than that of reserves with one unit more of each. -/
def Beyond (amp : Nat) (a b z : Int) : Prop :=
  (a ≤ 16 * amp * b → ¬ AtMost amp a b z) ∧
    (16 * amp * b < a → ¬ Within (weight amp) a b z)

/-- From a number below the invariant before the deposit to one above it after it
is less than the part that too many shares stand for. -/
def Fair (amp : Nat) (s : Storage Address W) (a b : Int) : Prop :=
  ∃ z₀ z₁, AtMost amp s.reserveA s.reserveB z₀ ∧
    Beyond amp (s.reserveA + a) (s.reserveB + b) z₁ ∧
    ∀ n, TooMany s a b n → (z₁ - z₀) * s.totalShares < n * z₀

theorem TooMany.mono (h : TooMany s a b n) (hA : 0 < s.reserveA) (hB : 0 < s.reserveB)
    (hnm : n ≤ m) : TooMany s a b m := by
  obtain ⟨⟨ha, hb⟩, hmore⟩ := h
  refine ⟨⟨ha.trans (mul_le_mul_of_nonneg_right hnm hA.le),
    hb.trans (mul_le_mul_of_nonneg_right hnm hB.le)⟩, hmore.imp ?_ ?_⟩
  · exact fun h => h.trans (mul_le_mul_of_nonneg_right hnm (by omega))
  · exact fun h => h.trans (mul_le_mul_of_nonneg_right hnm (by omega))

section Error

variable {ra rb d : Nat} (ha : 0 < ra) (hb : 0 < rb) (hamp : 0 < amp)
variable (h : computeD ra rb amp = .ok d)

include ha hb hamp h

theorem AtMost.le_computeD {z : Int} (hz : AtMost amp ra rb z) : z ≤ d := by
  obtain hnonneg | hneg := le_or_gt 0 z
  · exact computeD_ge ha hb hamp hnonneg hz h
  · exact hneg.le.trans (Int.natCast_nonneg d)

theorem Beyond.computeD_le {z : Int} (hz : Beyond amp ra rb z) : (d : Int) ≤ z := by
  have hn : 0 ≤ weight amp := by linarith [three_le_weight hamp]
  have hd2 := two_le_computeD ha hb hamp h
  by_contra hlt
  obtain hratio | hlopsided := le_or_gt (ra : Int) (16 * amp * rb)
  · have hsettled := (settledD_of_ratio ha hb hamp h (by exact_mod_cast hratio)).2
    exact hz.1 hratio (hsettled.of_le hn (by positivity) (by positivity) (by omega))
  · have hwithin := computeD_within ha hb hamp h
    exact hz.2 hlopsided (Under.of_le hn (by positivity) (by positivity) hwithin (by omega))

end Error

end Suban.Stableswap.RoundTrip
