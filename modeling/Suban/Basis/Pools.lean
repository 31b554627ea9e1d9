import Mathlib.Algebra.Order.Ring.Int
import Mathlib.Tactic.Linarith
import Mathlib.Tactic.Positivity.Basic
import Mathlib.Tactic.Ring

namespace Suban.Basis.Pools

structure Pool where
  a : Int
  b : Int
  shares : Int

namespace Pool

variable {p q r : Pool}

def product (p : Pool) : Int := p.a * p.b

/-- The reserves and the shares are there together, or not at all. -/
def Stocked (p : Pool) : Prop :=
  p.shares = 0 ∧ p.a = 0 ∧ p.b = 0 ∨ 0 < p.shares ∧ 0 < p.a ∧ 0 < p.b

/-- A share of the second pool is worth at least one of the first, by the
product of the reserves behind it. -/
def KeepsValue (p q : Pool) : Prop :=
  p.product * (q.shares * q.shares) ≤ q.product * (p.shares * p.shares)

def Covered (p : Pool) : Prop := p.shares * p.shares ≤ p.product

theorem Stocked.shares_nonneg (h : p.Stocked) : 0 ≤ p.shares := by
  obtain ⟨h, -, -⟩ | ⟨h, -, -⟩ := h
  · exact h.ge
  · exact h.le

theorem Stocked.a_nonneg (h : p.Stocked) : 0 ≤ p.a := by
  obtain ⟨-, h, -⟩ | ⟨-, h, -⟩ := h
  · exact h.ge
  · exact h.le

theorem Stocked.b_nonneg (h : p.Stocked) : 0 ≤ p.b := by
  obtain ⟨-, -, h⟩ | ⟨-, -, h⟩ := h
  · exact h.ge
  · exact h.le

theorem Stocked.product_nonneg (h : p.Stocked) : 0 ≤ p.product :=
  mul_nonneg h.a_nonneg h.b_nonneg

theorem Stocked.of_shares (h : p.Stocked) (hp : 0 < p.shares) : 0 < p.a ∧ 0 < p.b := by
  obtain ⟨h, -, -⟩ | ⟨-, h⟩ := h
  · omega
  · exact h

theorem keepsValue_refl (p : Pool) : KeepsValue p p := le_rfl

theorem keepsValue_of_empty (hshares : p.shares = 0) (ha : p.a = 0) (q : Pool) :
    KeepsValue p q := by
  simp [KeepsValue, product, hshares, ha]

theorem keepsValue_of_parts (hp : p.Stocked) (hq : q.Stocked) (ha : p.a * q.shares ≤ q.a * p.shares)
    (hb : p.b * q.shares ≤ q.b * p.shares) : KeepsValue p q := by
  have hlow : 0 ≤ p.b * q.shares := mul_nonneg hp.b_nonneg hq.shares_nonneg
  have hhigh : 0 ≤ q.a * p.shares := mul_nonneg hq.a_nonneg hp.shares_nonneg
  calc p.a * p.b * (q.shares * q.shares) = p.a * q.shares * (p.b * q.shares) := by ring
    _ ≤ q.a * p.shares * (q.b * p.shares) := mul_le_mul ha hb hlow hhigh
    _ = q.a * q.b * (p.shares * p.shares) := by ring

theorem keepsValue_of_product (hshares : q.shares = p.shares) (h : p.product ≤ q.product) :
    KeepsValue p q := by
  rw [KeepsValue, hshares]
  exact mul_le_mul_of_nonneg_right h (mul_self_nonneg _)

theorem keepsValue_trans (hq : 0 < q.shares) (hpq : KeepsValue p q) (hqr : KeepsValue q r) :
    KeepsValue p r := by
  have hscale : 0 < q.shares * q.shares := mul_pos hq hq
  refine le_of_mul_le_mul_right ?_ hscale
  calc p.product * (r.shares * r.shares) * (q.shares * q.shares)
      = p.product * (q.shares * q.shares) * (r.shares * r.shares) := by ring
    _ ≤ q.product * (p.shares * p.shares) * (r.shares * r.shares) :=
        mul_le_mul_of_nonneg_right hpq (mul_self_nonneg _)
    _ = q.product * (r.shares * r.shares) * (p.shares * p.shares) := by ring
    _ ≤ r.product * (q.shares * q.shares) * (p.shares * p.shares) :=
        mul_le_mul_of_nonneg_right hqr (mul_self_nonneg _)
    _ = r.product * (p.shares * p.shares) * (q.shares * q.shares) := by ring

theorem Covered.keep (hp : p.Covered) (hpos : 0 < p.product) (hq : q.Stocked)
    (h : KeepsValue p q) : q.Covered := by
  refine le_of_mul_le_mul_left ?_ hpos
  calc p.product * (q.shares * q.shares) ≤ q.product * (p.shares * p.shares) := h
    _ ≤ q.product * p.product := mul_le_mul_of_nonneg_left hp hq.product_nonneg
    _ = p.product * q.product := mul_comm _ _

end Pool

variable {x y total part reserve amount : Int}

theorem floor_mul_le (ha : 0 ≤ x) (hd : 0 < y) : x.tdiv y * y ≤ x := by
  rw [Int.tdiv_eq_ediv_of_nonneg ha]
  exact Int.ediv_mul_le _ hd.ne'

theorem join_part (hr : 0 < reserve) (ha : 0 ≤ amount * total)
    (h : part ≤ (amount * total).tdiv reserve) :
    reserve * (total + part) ≤ (reserve + amount) * total := by
  have hround := floor_mul_le ha hr
  nlinarith

theorem leave_part (ht : 0 < total) (hp : 0 ≤ part * reserve) :
    reserve * (total - part) ≤ (reserve - (part * reserve).tdiv total) * total := by
  have hround := floor_mul_le hp ht
  nlinarith

theorem payout_lt (hp : 0 ≤ part) (hr : 0 < reserve) (hlt : part < total) :
    (part * reserve).tdiv total < reserve := by
  rw [Int.tdiv_eq_ediv_of_nonneg (mul_nonneg hp hr.le)]
  apply Int.ediv_lt_of_lt_mul (hp.trans_lt hlt)
  rw [mul_comm reserve]
  exact mul_lt_mul_of_pos_right hlt hr

theorem output_lt (hx : 0 < x) (hy : 0 < y) (ha : 0 ≤ amount) :
    (y * amount).tdiv (x + amount) < y := by
  rw [mul_comm y]
  exact payout_lt ha hy (by omega)

/-- A trade leaves the product of the reserves no smaller, whatever fee was
taken off the amount that came in. -/
theorem trade_product {paid : Int} (hx : 0 < x) (hy : 0 < y) (ha : 0 ≤ amount)
    (hfee : amount ≤ paid) : x * y ≤ (x + paid) * (y - (y * amount).tdiv (x + amount)) := by
  have hleft := (output_lt hx hy ha).le
  have hround := floor_mul_le (mul_nonneg hy.le ha) (add_pos_of_pos_of_nonneg hx ha)
  calc x * y ≤ (x + amount) * (y - (y * amount).tdiv (x + amount)) := by nlinarith
    _ ≤ (x + paid) * (y - (y * amount).tdiv (x + amount)) :=
        mul_le_mul_of_nonneg_right (by omega) (by omega)

theorem trade_cost {paid : Int} (hx : 0 < x) (hy : 0 < y) (ha : 0 ≤ amount)
    (hfee : amount ≤ paid) : (y * amount).tdiv (x + amount) * x ≤ paid * y := by
  have hnum : 0 ≤ y * amount := mul_nonneg hy.le ha
  have hdiv : 0 < x + amount := add_pos_of_pos_of_nonneg hx ha
  have hout : 0 ≤ (y * amount).tdiv (x + amount) := Int.tdiv_nonneg hnum hdiv.le
  calc (y * amount).tdiv (x + amount) * x
      ≤ (y * amount).tdiv (x + amount) * (x + amount) :=
        mul_le_mul_of_nonneg_left (by omega) hout
    _ ≤ y * amount := floor_mul_le hnum hdiv
    _ ≤ y * paid := mul_le_mul_of_nonneg_left hfee hy.le
    _ = paid * y := mul_comm _ _

theorem mul_le_mul_add_of_le {p q u v c : Int} (hq : 0 ≤ q) (hc : 0 ≤ c) (hv : 0 ≤ v) (hvu : v ≤ u)
    (h : p * u ≤ q * (u + c)) : p * v ≤ q * (v + c) := by
  obtain hpq | hpq := le_or_gt p q
  · calc p * v ≤ q * v := mul_le_mul_of_nonneg_right hpq hv
      _ ≤ q * (v + c) := mul_le_mul_of_nonneg_left (by omega) hq
  · have hless : (p - q) * v ≤ (p - q) * u := mul_le_mul_of_nonneg_left hvu (by omega)
    linarith

theorem trade_trans {x₁ y₁ y₂ paid net : Int} (hx : 0 ≤ x) (hnet : 0 ≤ net) (hfee : net ≤ paid)
    (hy : 0 ≤ y₂) (hamount : 0 ≤ amount) (h₁ : y * x ≤ y₁ * (x + net)) (hx₁ : x₁ = x + paid)
    (h₂ : y₁ * x₁ ≤ y₂ * (x₁ + amount)) : y * x ≤ y₂ * (x + (net + amount)) := by
  have hsmall := mul_le_mul_add_of_le hy hamount (by omega) (by omega : x + net ≤ x₁) h₂
  rw [← add_assoc]
  exact h₁.trans hsmall

theorem le_trade {out more : Int} (hx : 0 < x) (hy : 0 ≤ y) (ha : 0 ≤ amount)
    (hmore : amount ≤ more) (hout : out ≤ y) (h : y * x ≤ (y - out) * (x + amount)) :
    out ≤ (y * more).tdiv (x + more) := by
  have hdiv : 0 < x + more := by omega
  have hextra : out * (more - amount) ≤ y * (more - amount) :=
    mul_le_mul_of_nonneg_right hout (by omega)
  rw [Int.tdiv_eq_ediv_of_nonneg (mul_nonneg hy (by omega)), Int.le_ediv_iff_mul_le hdiv]
  linarith

end Suban.Basis.Pools
