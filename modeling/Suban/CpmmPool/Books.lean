import Suban.Basis.Division
import Suban.Basis.Pools
import Suban.CpmmPool.Transitions

namespace Suban.CpmmPool.Books

open Suban.Basis.Calls Suban.Basis.Tables Suban.Basis.Runs Suban.Basis.Division
open Suban.Basis.Pools Suban.Basis.SquareRoot Suban.Soroban.Host
open Suban.CpmmPool.Contract Suban.CpmmPool.Transitions

variable {Address W : Type} [DecidableEq Address] {contract tokenA tokenB : Address}
variable {T : Sep41 Address W} {env : Env Address contract} {s t : Storage Address W}

def pool (s : Storage Address W) : Pool := ⟨s.reserveA, s.reserveB, s.totalShares⟩

/-- The shares are those of the providers, and they stand for the reserves. -/
structure Booked (tokenA tokenB : Address) (s : Storage Address W) : Prop where
  tokenA : s.tokenA = some tokenA
  tokenB : s.tokenB = some tokenB
  fee : s.feeBps ≤ 1000
  nonneg : ∀ a, 0 ≤ s.lpOf a
  sum : sum s.lpBalance = s.totalShares
  stocked : (pool s).Stocked

/-- The pool holds the reserves that it has recorded. -/
structure Held (T : Sep41 Address W) (contract tokenA tokenB : Address)
    (s : Storage Address W) : Prop where
  reserveA : s.reserveA ≤ T.balance s.world tokenA contract
  reserveB : s.reserveB ≤ T.balance s.world tokenB contract

/-- Nobody else takes from the holdings of the pool. -/
def Undisturbed (T : Sep41 Address W) (tokenA tokenB : Address) (s : Storage Address W) :
    Input Address W contract (Call Address) → Prop
  | .call _ _ => True
  | .world w => T.balance s.world tokenA contract ≤ T.balance w tokenA contract ∧
      T.balance s.world tokenB contract ≤ T.balance w tokenB contract

theorem Booked.total_nonneg (h : Booked tokenA tokenB s) : 0 ≤ s.totalShares :=
  h.stocked.shares_nonneg

theorem Booked.le_total (h : Booked tokenA tokenB s) (a : Address) : s.lpOf a ≤ s.totalShares :=
  h.sum ▸ le_sum s.lpBalance h.nonneg a

/-- Outside the reserves both count: a pool with a reserve has shares. -/
theorem Booked.positive (h : Booked tokenA tokenB s) (ha : s.reserveA ≠ 0) :
    0 < s.totalShares ∧ 0 < s.reserveA ∧ 0 < s.reserveB := by
  obtain ⟨-, hz, -⟩ | hpos := h.stocked
  · exact absurd hz ha
  · exact hpos

theorem Booked.move (h : Booked tokenA tokenB s) {provider : Address} {shares : Int}
    (h0 : 0 ≤ s.lpOf provider + shares) (hconfig : t.tokenA = s.tokenA ∧ t.tokenB = s.tokenB)
    (hfee : t.feeBps = s.feeBps)
    (htable : t.lpBalance = s.lpBalance.insert provider (s.lpOf provider + shares))
    (htotal : t.totalShares = s.totalShares + shares) (hstocked : (pool t).Stocked) :
    Booked tokenA tokenB t := by
  refine ⟨hconfig.1.trans h.tokenA, hconfig.2.trans h.tokenB, hfee ▸ h.fee, fun a => ?_, ?_,
    hstocked⟩
  · rw [Storage.lpOf, htable]
    exact forall_readOr_insert h.nonneg provider h0 a
  · rw [htable, sum_insert, h.sum, htotal, Storage.lpOf]
    ring

section Amounts

variable {amountA amountB amountIn sharesIn : Int}

theorem Booked.worth_nonneg (h : Booked tokenA tokenB s) (ha : 0 < amountA) (hb : 0 < amountB) :
    0 ≤ worth s amountA amountB := by
  have ht := h.total_nonneg
  unfold worth
  split
  · exact Int.natCast_nonneg _
  · apply le_min
    · exact Int.tdiv_nonneg (mul_nonneg ha.le ht) h.stocked.a_nonneg
    · exact Int.tdiv_nonneg (mul_nonneg hb.le ht) h.stocked.b_nonneg

theorem worth_pos (hz : s.totalShares = 0) (ha : 0 < amountA) (hb : 0 < amountB) :
    0 < worth s amountA amountB := by
  rw [worth, if_pos hz, Int.natCast_pos, Nat.sqrt_pos]
  exact Nat.mul_pos (by omega) (by omega)

theorem Booked.stocked_add (h : Booked tokenA tokenB s) (ha : 0 < amountA) (hb : 0 < amountB) :
    Pool.Stocked ⟨s.reserveA + amountA, s.reserveB + amountB,
      s.totalShares + worth s amountA amountB⟩ := by
  have hshares : 0 < s.totalShares + worth s amountA amountB := by
    obtain hz | hpos := h.total_nonneg.eq_or_lt
    · rw [← hz, zero_add]
      exact worth_pos hz.symm ha hb
    · exact add_pos_of_pos_of_nonneg hpos (h.worth_nonneg ha hb)
  exact .inr ⟨hshares, add_pos_of_nonneg_of_pos h.stocked.a_nonneg ha,
    add_pos_of_nonneg_of_pos h.stocked.b_nonneg hb⟩

theorem payout_all (hpos : 0 < s.totalShares) (reserve : Int) :
    payout s s.totalShares reserve = reserve :=
  Int.mul_tdiv_cancel_left reserve hpos.ne'

/-- The last shares take the reserves with them, and others leave some of each. -/
theorem Booked.stocked_remove (h : Booked tokenA tokenB s) (hpos : 0 < sharesIn)
    (hle : sharesIn ≤ s.totalShares) :
    Pool.Stocked ⟨s.reserveA - payout s sharesIn s.reserveA,
      s.reserveB - payout s sharesIn s.reserveB, s.totalShares - sharesIn⟩ := by
  have htotal : 0 < s.totalShares := hpos.trans_le hle
  obtain ⟨hra, hrb⟩ := h.stocked.of_shares htotal
  obtain rfl | hlt := hle.eq_or_lt
  · left
    rw [payout_all htotal, payout_all htotal]
    exact ⟨sub_self _, sub_self _, sub_self _⟩
  · right
    have houtA := payout_lt hpos.le hra hlt
    have houtB := payout_lt hpos.le hrb hlt
    exact ⟨sub_pos.mpr hlt, sub_pos.mpr houtA, sub_pos.mpr houtB⟩

theorem afterFee_bounds (hfee : s.feeBps ≤ 1000) (hpos : 0 < amountIn) :
    0 ≤ afterFee s amountIn ∧ afterFee s amountIn ≤ amountIn := by
  have hpart : (0 : Int) ≤ 10000 - s.feeBps := by omega
  refine ⟨Int.tdiv_nonneg (mul_nonneg hpos.le hpart) (by norm_num), ?_⟩
  rw [afterFee, tdiv_le_iff (by norm_num) hpos.le]
  nlinarith

theorem Booked.afterFee_bounds (h : Booked tokenA tokenB s) (hpos : 0 < amountIn) :
    0 ≤ afterFee s amountIn ∧ afterFee s amountIn ≤ amountIn :=
  Books.afterFee_bounds h.fee hpos

theorem Booked.output_lt (h : Booked tokenA tokenB s) {reserveIn reserveOut : Int}
    (hin : 0 < reserveIn) (hout : 0 < reserveOut) (hpos : 0 < amountIn) :
    output s reserveIn reserveOut amountIn < reserveOut :=
  Basis.Pools.output_lt hin hout (h.afterFee_bounds hpos).1

end Amounts

theorem booked_step {i : Input Address W contract (Call Address)} (h : step T s i = .ok t)
    (hs : Booked tokenA tokenB s) : Booked tokenA tokenB t := by
  cases i with
  | world w =>
    cases pure_eq_ok.mp h
    exact ⟨hs.tokenA, hs.tokenB, hs.fee, hs.nonneg, hs.sum, hs.stocked⟩
  | call env c =>
    cases invoke_transition hs.tokenA hs.tokenB h with
    | add provider amountA amountB minShares w hauth ha hb hreserves hmin hmoves =>
      have h0 := add_nonneg (hs.nonneg provider) (hs.worth_nonneg ha hb)
      exact hs.move h0 ⟨rfl, rfl⟩ rfl rfl rfl (hs.stocked_add ha hb)
    | remove provider sharesIn minA minB w hauth hpos hle htotal hminA hminB hmoves =>
      have h0 : 0 ≤ s.lpOf provider + -sharesIn := by omega
      exact hs.move h0 ⟨rfl, rfl⟩ rfl rfl rfl
        (hs.stocked_remove hpos (hle.trans (hs.le_total provider)))
    | swapAForB trader amountIn minOut w hauth hpos ha hb hmin hmoves =>
      obtain ⟨htotal, hra, hrb⟩ := hs.positive ha
      have hout := hs.output_lt hra hrb hpos
      refine ⟨hs.tokenA, hs.tokenB, hs.fee, hs.nonneg, hs.sum, .inr ⟨htotal, ?_, ?_⟩⟩
      · exact add_pos hra hpos
      · exact sub_pos.mpr hout
    | swapBForA trader amountIn minOut w hauth hpos hb ha hmin hmoves =>
      obtain ⟨htotal, hra, hrb⟩ := hs.positive ha
      have hout := hs.output_lt hrb hra hpos
      refine ⟨hs.tokenA, hs.tokenB, hs.fee, hs.nonneg, hs.sum, .inr ⟨htotal, ?_, ?_⟩⟩
      · exact sub_pos.mpr hout
      · exact add_pos hrb hpos

section Moves

variable {w w' : W} {token₁ token₂ a a₁ a₂ : Address} {n₁ n₂ : Int}

theorem first_in (h : Moves T w token₁ a contract n₁ token₂ a₁ a₂ n₂ w') (hne : token₁ ≠ token₂)
    (ha : a ≠ contract) : T.balance w' token₁ contract = T.balance w token₁ contract + n₁ := by
  obtain ⟨v, hv, hw⟩ := h
  rw [T.balance_other hw hne, T.balance_in hv ha]

theorem first_out (h : Moves T w token₁ contract a n₁ token₂ a₁ a₂ n₂ w') (hne : token₁ ≠ token₂)
    (ha : a ≠ contract) : T.balance w' token₁ contract = T.balance w token₁ contract - n₁ := by
  obtain ⟨v, hv, hw⟩ := h
  rw [T.balance_other hw hne, T.balance_out hv ha]

theorem second_in (h : Moves T w token₁ a₁ a₂ n₁ token₂ a contract n₂ w') (hne : token₁ ≠ token₂)
    (ha : a ≠ contract) : T.balance w' token₂ contract = T.balance w token₂ contract + n₂ := by
  obtain ⟨v, hv, hw⟩ := h
  rw [T.balance_in hw ha, T.balance_other hv hne.symm]

theorem second_out (h : Moves T w token₁ a₁ a₂ n₁ token₂ contract a n₂ w') (hne : token₁ ≠ token₂)
    (ha : a ≠ contract) : T.balance w' token₂ contract = T.balance w token₂ contract - n₂ := by
  obtain ⟨v, hv, hw⟩ := h
  rw [T.balance_out hw ha, T.balance_other hv hne.symm]

end Moves

theorem held_step {i : Input Address W contract (Call Address)} (h : step T s i = .ok t)
    (hne : tokenA ≠ tokenB) (hs : Booked tokenA tokenB s) (hheld : Held T contract tokenA tokenB s)
    (hE : Undisturbed T tokenA tokenB s i) : Held T contract tokenA tokenB t := by
  obtain ⟨hA, hB⟩ := hheld
  cases i with
  | world w =>
    cases pure_eq_ok.mp h
    exact ⟨hA.trans hE.1, hB.trans hE.2⟩
  | call env c =>
    cases invoke_transition hs.tokenA hs.tokenB h with
    | add provider amountA amountB minShares w hauth ha hb hreserves hmin hmoves =>
      refine ⟨?_, ?_⟩
      · exact (add_le_add_left hA amountA).trans_eq (first_in hmoves hne (ne_self hauth)).symm
      · exact (add_le_add_left hB amountB).trans_eq (second_in hmoves hne (ne_self hauth)).symm
    | remove provider sharesIn minA minB w hauth hpos hle htotal hminA hminB hmoves =>
      refine ⟨?_, ?_⟩
      · exact (sub_le_sub_right hA _).trans_eq (first_out hmoves hne (ne_self hauth)).symm
      · exact (sub_le_sub_right hB _).trans_eq (second_out hmoves hne (ne_self hauth)).symm
    | swapAForB trader amountIn minOut w hauth hpos ha hb hmin hmoves =>
      refine ⟨?_, ?_⟩
      · exact (add_le_add_left hA amountIn).trans_eq (first_in hmoves hne (ne_self hauth)).symm
      · exact (sub_le_sub_right hB _).trans_eq (second_out hmoves hne (ne_self hauth)).symm
    | swapBForA trader amountIn minOut w hauth hpos hb ha hmin hmoves =>
      refine ⟨?_, ?_⟩
      · exact (sub_le_sub_right hA _).trans_eq (second_out hmoves hne.symm (ne_self hauth)).symm
      · exact (add_le_add_left hB amountIn).trans_eq
          (first_in hmoves hne.symm (ne_self hauth)).symm

end Suban.CpmmPool.Books
