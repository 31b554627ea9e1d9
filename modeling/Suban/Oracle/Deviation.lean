import Mathlib.Algebra.Order.Group.Unbundled.Int
import Suban.Oracle.Contract

namespace Suban.Oracle.Deviation

open Suban.Basis.Calls Suban.Basis.Tables Suban.Soroban.Host Suban.Hub.Types
open Suban.Oracle.Contract

variable {Address : Type} [DecidableEq Address] {s : Storage Address} {asset : Address}
variable {last : Price Address} {newPrice : Int} {maxDeviationBps : Nat}

/-- By how much a price differs from the last one, in parts of ten thousand of
the last one. -/
def deviation (last newPrice : Int) : Int := |newPrice - last| * 10000 / last

def Scalable (last newPrice : Int) : Prop := |newPrice - last| * 10000 < 2 ^ 128

instance (last newPrice : Int) : Decidable (Scalable last newPrice) :=
  inferInstanceAs (Decidable (|newPrice - last| * 10000 < 2 ^ 128))

/-- The difference is some multiple of 2³² times the last price, or so little
more that what is over stays within the threshold. -/
def Wraps (last newPrice : Int) (maxDeviationBps : Nat) : Prop :=
  ∃ k : Int, 1 ≤ k ∧ k * 2 ^ 32 * last ≤ |newPrice - last| * 10000 ∧
    |newPrice - last| * 10000 < (k * 2 ^ 32 + maxDeviationBps + 1) * last

theorem circuitBreakerCheck_eq (hlast : s.lastPrice.lookup asset = some last)
    (hpos : 0 < last.price) (hmax : last.price ≤ maxI128) (hnew : 0 < newPrice)
    (hnewMax : newPrice ≤ maxI128) :
    circuitBreakerCheck s asset newPrice maxDeviationBps =
      if Scalable last.price newPrice then
        .ok (decide (maxDeviationBps < deviation last.price newPrice % 2 ^ 32))
      else .error .panic := by
  have hdiff : minI128 ≤ newPrice - last.price ∧ newPrice - last.price ≤ maxI128 := by
    unfold minI128 maxI128 at *
    omega
  have habs : minI128 ≤ ((newPrice - last.price).natAbs : Int) ∧
      ((newPrice - last.price).natAbs : Int) ≤ maxI128 := by
    unfold minI128 maxI128 at *
    omega
  have hdivisor : ((last.price % 2 ^ 128).toNat : Int) = last.price := by
    unfold maxI128 at *
    omega
  have hscaled : (newPrice - last.price).natAbs * 10000 < 2 ^ 128 ↔
      Scalable last.price newPrice := by
    rw [Scalable, ← Int.natCast_natAbs]
    omega
  have hcompared : maxDeviationBps < (newPrice - last.price).natAbs * 10000 /
      (last.price % 2 ^ 128).toNat % 2 ^ 32 ↔
      maxDeviationBps < deviation last.price newPrice % 2 ^ 32 := by
    rw [← Int.ofNat_lt, Int.natCast_emod, Int.natCast_ediv, hdivisor, Int.natCast_mul,
      Int.natCast_natAbs]
    rfl
  rw [circuitBreakerCheck, hlast]
  simp only [if_neg hpos.ne', checked, if_pos hdiff, if_pos habs, checkedUInt, Int.toNat_natCast,
    hscaled, bind, Except.bind, pure, Except.pure]
  by_cases hfits : Scalable last.price newPrice
  · simp only [if_pos hfits, hcompared]
  · simp only [if_neg hfits]

/-- Only a deviation that wraps is compared wrongly. -/
theorem narrowed_iff {p : Int} (hpos : 0 < p) (hmax : maxDeviationBps < 2 ^ 32) :
    (maxDeviationBps < deviation p newPrice % 2 ^ 32 ↔ maxDeviationBps < deviation p newPrice) ↔
      ¬ Wraps p newPrice maxDeviationBps := by
  have hbounds (k : Int) : (k * 2 ^ 32 * p ≤ |newPrice - p| * 10000 ∧
      |newPrice - p| * 10000 < (k * 2 ^ 32 + maxDeviationBps + 1) * p) ↔
      k * 2 ^ 32 ≤ deviation p newPrice ∧
        deviation p newPrice < k * 2 ^ 32 + maxDeviationBps + 1 := by
    rw [deviation, Int.le_ediv_iff_mul_le hpos, Int.ediv_lt_iff_lt_mul hpos]
  have hnonneg : 0 ≤ deviation p newPrice :=
    Int.ediv_nonneg (mul_nonneg (abs_nonneg _) (by decide)) hpos.le
  simp only [Wraps, hbounds]
  generalize deviation p newPrice = d at hnonneg
  refine ⟨?_, fun h => ?_⟩
  · rintro h ⟨k, hk, hlow, hhigh⟩
    omega
  · by_contra hne
    exact h ⟨d / 2 ^ 32, by omega, by omega, by omega⟩

/-- The breaker compares the exact deviation just when the difference can be
scaled and the deviation does not wrap. -/
theorem exact_iff (hlast : s.lastPrice.lookup asset = some last) (hpos : 0 < last.price)
    (hmax : last.price ≤ maxI128) (hnew : 0 < newPrice) (hnewMax : newPrice ≤ maxI128)
    (hbps : maxDeviationBps < 2 ^ 32) :
    circuitBreakerCheck s asset newPrice maxDeviationBps =
        .ok (decide (maxDeviationBps < deviation last.price newPrice)) ↔
      Scalable last.price newPrice ∧ ¬ Wraps last.price newPrice maxDeviationBps := by
  rw [circuitBreakerCheck_eq hlast hpos hmax hnew hnewMax, ← narrowed_iff hpos hbps]
  by_cases hscaled : Scalable last.price newPrice
  · rw [if_pos hscaled, Except.ok.injEq, decide_eq_decide]
    exact ⟨fun h => ⟨hscaled, h⟩, fun h => h.2⟩
  · rw [if_neg hscaled]
    exact ⟨fun h => (nomatch h), fun h => absurd h.1 hscaled⟩

def sampleStorage : Storage Nat :=
  { Storage.fresh with admin := some 1, lastPrice := AList.insert 9 ⟨9, 1, 7, 5, 95⟩ ∅ }

theorem exact_iff_sample :
    circuitBreakerCheck sampleStorage 9 3 500 = .ok true ↔
      Scalable 1 3 ∧ ¬ Wraps 1 3 500 := by
  have hlast : sampleStorage.lastPrice.lookup 9 = some ⟨9, 1, 7, 5, 95⟩ := rfl
  exact exact_iff hlast (by decide) (by decide) (by decide) (by decide) (by decide)

/-- The breaker lets a price pass that is 429498 times the last one. -/
theorem jump_passes :
    circuitBreakerCheck sampleStorage 9 429498 5000 = .ok false ∧ 5000 < deviation 1 429498 :=
  ⟨rfl, by decide⟩

end Suban.Oracle.Deviation
