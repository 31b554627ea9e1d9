import Mathlib.Algebra.BigOperators.Group.List.Basic
import Mathlib.Algebra.Order.Ring.Int
import Mathlib.Tactic.Basic

namespace Suban.Basis.Queues

structure Lot where
  since : Nat
  units : Int
  deriving DecidableEq

def units (lots : List Lot) : Int := (lots.map Lot.units).sum

def taken : Int → List Lot → List Lot
  | _, [] => []
  | n, lot :: lots => if n ≤ 0 then [] else lot :: taken (n - lot.units) lots

def left : Int → List Lot → List Lot
  | _, [] => []
  | n, lot :: lots =>
    if n ≤ 0 then lot :: lots
    else if lot.units ≤ n then left (n - lot.units) lots
    else ⟨lot.since, lot.units - n⟩ :: lots

/-- Lots in the order they came in, none of them empty. -/
structure Queue (lots : List Lot) : Prop where
  ordered : lots.Pairwise (fun a b => a.since ≤ b.since)
  positive : ∀ lot ∈ lots, 0 < lot.units

variable {lots : List Lot} {lot : Lot} {n : Int}

theorem units_cons : units (lot :: lots) = lot.units + units lots := rfl

theorem units_append (xs ys : List Lot) : units (xs ++ ys) = units xs + units ys := by
  simp [units]

theorem Queue.nil : Queue [] := ⟨.nil, fun _ h => absurd h List.not_mem_nil⟩

theorem Queue.tail (h : Queue (lot :: lots)) : Queue lots :=
  ⟨h.ordered.of_cons, fun l hl => h.positive l (List.mem_cons_of_mem _ hl)⟩

theorem Queue.head (h : Queue (lot :: lots)) : 0 < lot.units ∧ ∀ l ∈ lots, lot.since ≤ l.since :=
  ⟨h.positive lot List.mem_cons_self, fun _ hl => List.rel_of_pairwise_cons h.ordered hl⟩

theorem Queue.cons (h : Queue lots) (hpos : 0 < lot.units)
    (hle : ∀ l ∈ lots, lot.since ≤ l.since) : Queue (lot :: lots) :=
  ⟨.cons hle h.ordered, List.forall_mem_cons.mpr ⟨hpos, h.positive⟩⟩

theorem Queue.push (h : Queue lots) (hpos : 0 < lot.units)
    (hle : ∀ l ∈ lots, l.since ≤ lot.since) : Queue (lots ++ [lot]) := by
  refine ⟨List.pairwise_append.mpr ⟨h.ordered, List.pairwise_singleton _ _, ?_⟩, ?_⟩
  · intro l hl k hk
    cases List.mem_singleton.mp hk
    exact hle l hl
  · intro l hl
    obtain hl | hl := List.mem_append.mp hl
    · exact h.positive l hl
    · cases List.mem_singleton.mp hl
      exact hpos

theorem Queue.filter (h : Queue lots) (p : Lot → Bool) : Queue (lots.filter p) :=
  ⟨h.ordered.filter p, fun l hl => h.positive l (List.mem_of_mem_filter hl)⟩

theorem Queue.units_nonneg (h : Queue lots) : 0 ≤ units lots := by
  induction lots with
  | nil => exact le_rfl
  | cons lot lots ih => exact add_nonneg h.head.1.le (ih h.tail)

theorem forall_left {P : Nat → Prop} (h : ∀ lot ∈ lots, P lot.since) :
    ∀ lot ∈ left n lots, P lot.since := by
  induction lots generalizing n with
  | nil => exact h
  | cons lot lots ih =>
    obtain ⟨hlot, hlots⟩ := List.forall_mem_cons.mp h
    unfold left
    split
    · exact h
    · split
      · exact ih hlots
      · exact List.forall_mem_cons.mpr ⟨hlot, hlots⟩

theorem mem_of_mem_taken {l : Lot} (h : l ∈ taken n lots) : l ∈ lots := by
  induction lots generalizing n with
  | nil => cases h
  | cons lot lots ih =>
    unfold taken at h
    split at h
    · cases h
    · obtain rfl | h := List.mem_cons.mp h
      · exact List.mem_cons_self
      · exact List.mem_cons_of_mem _ (ih h)

theorem Queue.left (h : Queue lots) : Queue (left n lots) := by
  induction lots generalizing n with
  | nil => exact h
  | cons lot lots ih =>
    unfold Queues.left
    split
    · exact h
    · split
      next => exact ih h.tail
      next hn => exact h.tail.cons (by simpa using hn) h.head.2

theorem units_left (h0 : 0 ≤ n) (h : Queue lots) (hn : n ≤ units lots) :
    units (left n lots) = units lots - n := by
  induction lots generalizing n with
  | nil =>
    have hz : units [] = 0 := rfl
    rw [left, hz]
    omega
  | cons lot lots ih =>
    rw [units_cons] at hn ⊢
    unfold left
    split
    next => rw [units_cons]; omega
    next =>
      split
      next => rw [ih (by omega) h.tail (by omega)]; omega
      next => rw [units_cons]; simp only; omega

/-- The oldest lots that the units come from all meet a condition that only
older lots can meet exactly when the lots that meet it hold that many units. -/
theorem forall_taken_iff {P : Nat → Prop} [DecidablePred P] (hP : ∀ a b, a ≤ b → P b → P a)
    (h : Queue lots) (hn : n ≤ units lots) :
    (∀ lot ∈ taken n lots, P lot.since) ↔ n ≤ units (lots.filter (fun lot => P lot.since)) := by
  induction lots generalizing n with
  | nil => exact iff_of_true (fun _ h => absurd h List.not_mem_nil) hn
  | cons lot lots ih =>
    rw [units_cons] at hn
    unfold taken
    split
    next hz =>
      exact iff_of_true (fun _ h => absurd h List.not_mem_nil) (hz.trans (h.filter _).units_nonneg)
    next hz =>
      rw [List.forall_mem_cons]
      by_cases hlot : P lot.since
      · rw [List.filter_cons_of_pos (by simpa using hlot), units_cons, and_iff_right hlot,
          ih h.tail (by omega)]
        omega
      · have hnone : lots.filter (fun lot => P lot.since) = [] := by
          rw [List.filter_eq_nil_iff]
          intro l hl hp
          exact hlot (hP _ _ (h.head.2 l hl) (by simpa using hp))
        rw [List.filter_cons_of_neg (by simpa using hlot), hnone]
        exact iff_of_false (fun hall => hlot hall.1) hz

end Suban.Basis.Queues
