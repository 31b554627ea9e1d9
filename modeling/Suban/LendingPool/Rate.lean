import Mathlib.Tactic.Linarith
import Mathlib.Tactic.Positivity.Basic
import Suban.Basis.Division
import Suban.LendingPool.Steps

namespace Suban.LendingPool.Rate

open Suban.Basis.Calls Suban.Basis.Division
open Suban.LendingPool.State Suban.LendingPool.Contract Suban.LendingPool.Steps

variable {Address W : Type} [DecidableEq Address] {s : Storage Address W}

/-- The borrows and reserves that the shares are priced against on top of the
supply itself. -/
def premium (s : Storage Address W) : Int := s.totalBorrows + s.totalReserves

def supplyWith (s : Storage Address W) (x : Int) : Int :=
  s.totalSupplies +
    if s.totalSupplies = 0 then x
    else (x * s.totalSupplies).tdiv (s.totalSupplies + premium s)

theorem bTokensFor_ok {x b : Int} (h : bTokensFor s x = .ok b) :
    s.totalSupplies + b = supplyWith s x := by
  unfold bTokensFor at h
  unfold supplyWith premium
  split at h
  next hz =>
    cases pure_eq_ok.mp h
    rw [if_pos hz]
  next hz =>
    simp only [bind_eq_ok, checked_eq_ok, checkedDiv_eq_ok] at h
    obtain ⟨_, ha, _, ⟨-, rfl⟩, -, -, rfl⟩ := h
    cases totalAssets_eq_ok ha
    rw [if_neg hz, add_assoc]

/-- A deposit of the amount gets one share for each unit: the pool is empty, or
it is not priced above its supply, nor below it by as much as a share. -/
def AtPar (s : Storage Address W) (x : Int) : Prop :=
  s.totalSupplies = 0 ∨ premium s ≤ 0 ∧ 0 < s.totalSupplies + (x + 1) * premium s

theorem supplyWith_eq_iff {x : Int} (hx : 0 < x) (hT : 0 ≤ s.totalSupplies) :
    supplyWith s x = s.totalSupplies + x ↔ AtPar s x := by
  unfold supplyWith AtPar
  rw [add_right_inj]
  obtain hz | hT := hT.eq_or_lt
  · simp [← hz]
  rw [if_neg hT.ne', or_iff_right hT.ne']
  have hnum : 0 ≤ x * s.totalSupplies := by positivity
  obtain hD | hD := le_or_gt (s.totalSupplies + premium s) 0
  · have hle : (x * s.totalSupplies).tdiv (s.totalSupplies + premium s) ≤ 0 :=
      Int.tdiv_nonpos_of_nonneg_of_nonpos hnum hD
    apply iff_of_false (by omega)
    rintro ⟨hR, hpos⟩
    nlinarith
  · rw [le_antisymm_iff, tdiv_le_iff hD hx.le, le_tdiv_iff hD hnum, and_comm]
    have hge : x * (s.totalSupplies + premium s) ≤ x * s.totalSupplies ↔ premium s ≤ 0 := by
      rw [mul_le_mul_iff_right₀ hx]
      omega
    have hlt : x * s.totalSupplies < (x + 1) * (s.totalSupplies + premium s) ↔
        0 < s.totalSupplies + (x + 1) * premium s := by
      rw [← sub_pos]
      ring_nf
    rw [hge, hlt]

end Suban.LendingPool.Rate
