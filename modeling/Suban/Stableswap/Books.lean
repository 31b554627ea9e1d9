import Suban.Stableswap.Value

namespace Suban.Stableswap.Books

open Suban.Basis.Calls Suban.Basis.Tables Suban.Soroban.Host
open Suban.Stableswap.Contract Suban.Stableswap.Invariant Suban.Stableswap.Outputs
open Suban.Stableswap.Transitions Suban.Stableswap.Value

variable {Address W : Type} [DecidableEq Address] {contract : Address}
variable {T : Sep41 Address W} {env : Env Address contract} {s t : Storage Address W} {amp : Nat}

/-- The shares are those of the providers, and the amounts are neither negative
nor too large. -/
structure Booked (amp : Nat) (s : Storage Address W) : Prop where
  amplified : s.amplification = some amp
  amp_pos : 0 < amp
  fee : s.feeBps ≤ 1000
  nonneg : ∀ a, 0 ≤ s.lpOf a
  sum : sum s.lpBalance = s.totalShares
  total_le : s.totalShares ≤ maxI128
  reserveA : 0 ≤ s.reserveA ∧ s.reserveA ≤ maxI128
  reserveB : 0 ≤ s.reserveB ∧ s.reserveB ≤ maxI128

theorem Booked.total_nonneg (h : Booked amp s) : 0 ≤ s.totalShares :=
  h.sum ▸ sum_nonneg s.lpBalance h.nonneg

theorem Booked.le_total (h : Booked amp s) (a : Address) : s.lpOf a ≤ s.totalShares :=
  h.sum ▸ le_sum s.lpBalance h.nonneg a

theorem booked_initialise {w : W} {admin tokenA tokenB : Address}
    (h : initialise env (.fresh w) admin tokenA tokenB amp = .ok s) : Booked amp s := by
  simp only [initialise, bind_eq_ok, panicIf_eq_ok, pure_eq_ok] at h
  obtain ⟨_, -, _, -, _, -, _, hamp, _, -, rfl⟩ := h
  have hmax : (0 : Int) ≤ maxI128 := by decide
  have hfee : 30 ≤ 1000 := by decide
  exact ⟨rfl, Nat.pos_of_ne_zero hamp, hfee, fun _ => le_rfl, rfl, hmax, ⟨le_rfl, hmax⟩,
    ⟨le_rfl, hmax⟩⟩

theorem Booked.move (h : Booked amp s) {provider : Address} {shares : Int}
    (h0 : 0 ≤ s.lpOf provider + shares) (hsame : Same s t)
    (htable : t.lpBalance = s.lpBalance.insert provider (s.lpOf provider + shares))
    (htotal : t.totalShares = s.totalShares + shares) (hfits : t.totalShares ≤ maxI128)
    (hA : 0 ≤ t.reserveA ∧ t.reserveA ≤ maxI128) (hB : 0 ≤ t.reserveB ∧ t.reserveB ≤ maxI128) :
    Booked amp t := by
  refine ⟨hsame.amplification.trans h.amplified, h.amp_pos, hsame.feeBps ▸ h.fee, fun a => ?_, ?_,
    hfits, hA, hB⟩
  · rw [Storage.lpOf, htable]
    exact forall_readOr_insert h.nonneg provider h0 a
  · rw [htable, sum_insert, h.sum, htotal, Storage.lpOf]
    ring

theorem div_bounds {p q : Nat} (hq : 0 < q) :
    ((p / q : Nat) : Int) * q ≤ p ∧ (p : Int) < (((p / q : Nat) : Int) + 1) * q := by
  have hlow := Nat.div_mul_le_self p q
  have hhigh := Nat.lt_div_mul_add (a := p) hq
  rw [add_mul, one_mul]
  exact ⟨by exact_mod_cast hlow, by exact_mod_cast hhigh⟩

section Deposits

variable {x y shares : Int}

theorem first_worth (hamp : 0 < amp) (hz : s.totalShares = 0) (hx : 0 < x) (hx' : x ≤ maxI128)
    (hy : 0 < y) (hy' : y ≤ maxI128) (h : sharesFor s amp x y = .ok shares) : 0 < shares := by
  rw [sharesFor, if_pos hz] at h
  simp only [bind_eq_ok, pure_eq_ok] at h
  obtain ⟨d, hd, rfl⟩ := h
  have hxU := asU128_pos hx hx'
  have hyU := asU128_pos hy hy'
  have hd2 := two_le_computeD hxU hyU hamp hd
  rw [asI128_eq (computeD_lt hxU hyU hamp hd)]
  omega

theorem Booked.later_worth (hs : Booked amp s) (hne : s.totalShares ≠ 0)
    (h : sharesFor s amp x y = .ok shares) :
    0 < s.reserveA ∧ 0 < s.reserveB ∧ ∃ d₀ d₁ : Nat,
      computeD (asU128 s.reserveA) (asU128 s.reserveB) amp = .ok d₀ ∧
      computeD (asU128 (s.reserveA + x)) (asU128 (s.reserveB + y)) amp = .ok d₁ ∧
      0 < d₀ ∧ 0 ≤ shares ∧ shares * d₀ ≤ (d₁ - d₀) * s.totalShares ∧
      (d₁ - d₀) * s.totalShares < (shares + 1) * d₀ := by
  rw [sharesFor, if_neg hne] at h
  simp only [bind_eq_ok, checked_eq_ok, subU_eq_ok, mulU_eq_ok, divU_eq_ok, pure_eq_ok] at h
  obtain ⟨d₀, hd₀, _, ⟨-, rfl⟩, _, ⟨-, rfl⟩, d₁, hd₁, _, ⟨hle, rfl⟩, _, ⟨hscaled, rfl⟩, h⟩ := h
  obtain ⟨_, ⟨hd0, rfl⟩, rfl⟩ := h
  have hAeq := asU128_eq hs.reserveA.1 hs.reserveA.2
  have hBeq := asU128_eq hs.reserveB.1 hs.reserveB.2
  obtain ⟨hA, hB⟩ := pos_of_computeD hd0 hd₀
  have hd2 := two_le_computeD hA hB hs.amp_pos hd₀
  have htotal := asU128_eq hs.total_nonneg hs.total_le
  have hfits : (d₁ - d₀) * asU128 s.totalShares / d₀ < 2 ^ 127 := by
    rw [Nat.div_lt_iff_lt_mul (by omega)]
    omega
  obtain ⟨hlow, hhigh⟩ := div_bounds (p := (d₁ - d₀) * asU128 s.totalShares) (by omega : 0 < d₀)
  rw [asI128_eq hfits]
  rw [Nat.cast_mul, Nat.cast_sub hle, htotal] at hlow hhigh
  exact ⟨by omega, by omega, d₀, d₁, hd₀, hd₁, by omega, Int.natCast_nonneg _, hlow, hhigh⟩

end Deposits

theorem Booked.redeem_bounds (hs : Booked amp s) {n r amount : Int} (hn : 0 ≤ n)
    (hle : n ≤ s.totalShares) (hr : 0 ≤ r) (hr' : r ≤ maxI128) (h : redeem s n r = .ok amount) :
    0 ≤ amount ∧ amount * s.totalShares ≤ n * r ∧ n * r < (amount + 1) * s.totalShares := by
  have htotal := hs.total_le
  have hnU := asU128_eq hn (by omega)
  have hrU := asU128_eq hr hr'
  have htotalU := asU128_eq hs.total_nonneg htotal
  simp only [redeem, bind_eq_ok, mulU_eq_ok, divU_eq_ok, pure_eq_ok] at h
  obtain ⟨_, ⟨-, rfl⟩, _, ⟨hne, rfl⟩, rfl⟩ := h
  generalize asU128 n = a at hnU ⊢
  generalize asU128 r = b at hrU ⊢
  generalize asU128 s.totalShares = c at htotalU hne ⊢
  have hfits : a * b / c ≤ b := Nat.div_le_of_le_mul (Nat.mul_le_mul_right _ (by omega))
  obtain ⟨hlow, hhigh⟩ := div_bounds (p := a * b) (Nat.pos_of_ne_zero hne)
  rw [asI128_eq (by unfold maxI128 at hr'; omega), ← hnU, ← hrU, ← htotalU, ← Nat.cast_mul]
  exact ⟨Int.natCast_nonneg _, hlow, hhigh⟩

section Withdrawals

variable {n r amount total : Int}

theorem amount_le (htotal : 0 < total) (hn : n ≤ total) (hr : 0 ≤ r)
    (h : amount * total ≤ n * r) : amount ≤ r := by
  refine le_of_mul_le_mul_right ?_ htotal
  have hpart : n * r ≤ total * r := mul_le_mul_of_nonneg_right hn hr
  linarith

theorem amount_lt (htotal : 0 < total) (hn : n < total) (hr : 0 < r)
    (h : amount * total ≤ n * r) : amount < r := by
  refine lt_of_mul_lt_mul_right ?_ htotal.le
  have hpart : n * r < total * r := mul_lt_mul_of_pos_right hn hr
  linarith

end Withdrawals

section Steps

variable {provider tokenIn : Address} {amountA amountB amountIn amountOut shares sharesIn : Int}
variable {amp' : Nat} {d : Side Address}

theorem Booked.shares_nonneg (hs : Booked amp s)
    (h : Added s provider amountA amountB amp shares t) : 0 ≤ shares := by
  obtain ⟨hA, hB⟩ := h.positive
  obtain ⟨hfitsA, hfitsB, -⟩ := h.fits
  have hreserveA := hs.reserveA
  have hreserveB := hs.reserveB
  by_cases hz : s.totalShares = 0
  · exact (first_worth hs.amp_pos hz hA (by omega) hB (by omega) h.worth).le
  · obtain ⟨-, -, _, _, -, -, -, hnonneg, -, -⟩ := hs.later_worth hz h.worth
    exact hnonneg

theorem Booked.add (hs : Booked amp s) (h : Added s provider amountA amountB amp' shares t) :
    Booked amp t := by
  cases hs.amplified.symm.trans h.amplified
  obtain ⟨hA, hB⟩ := h.positive
  obtain ⟨hfitsA, hfitsB, hfits⟩ := h.fits
  obtain ⟨hreserveA, hreserveB⟩ := h.reserves
  have hshares := hs.shares_nonneg h
  have h0 := add_nonneg (hs.nonneg provider) hshares
  have hA0 := hs.reserveA.1
  have hB0 := hs.reserveB.1
  have htotal := h.total
  exact hs.move h0 h.same h.balance htotal (by omega) (by omega) (by omega)

theorem Booked.remove (hs : Booked amp s)
    (h : Removed s provider sharesIn amountA amountB t) : Booked amp t := by
  have hcovered := h.covered
  have hle := hcovered.trans (hs.le_total provider)
  have hpos := h.positive
  obtain ⟨hreserveA, hreserveB⟩ := h.reserves
  obtain ⟨hA0, hA⟩ := hs.reserveA
  obtain ⟨hB0, hB⟩ := hs.reserveB
  obtain ⟨ha, hlowA, -⟩ := hs.redeem_bounds hpos.le hle hA0 hA h.worth.1
  obtain ⟨hb, hlowB, -⟩ := hs.redeem_bounds hpos.le hle hB0 hB h.worth.2
  have htotal : 0 < s.totalShares := hpos.trans_le hle
  have haA := amount_le htotal hle hA0 hlowA
  have hbB := amount_le htotal hle hB0 hlowB
  have htotal' := h.total
  have hfits := hs.total_le
  refine hs.move ?_ h.same h.balance htotal' ?_ ?_ ?_ <;> omega

theorem Booked.filled (hs : Booked amp s)
    (h : Swapped s tokenIn amountIn d amp' amountOut t) : Filled d := by
  obtain ⟨hin, hout⟩ := h.reserves
  obtain ⟨hA0, hA⟩ := hs.reserveA
  obtain ⟨hB0, hB⟩ := hs.reserveB
  obtain ⟨-, hreserveIn, hreserveOut⟩ | ⟨-, hreserveIn, hreserveOut⟩ := side_ok h.side_eq
  · exact ⟨by omega, by omega, by omega, by omega⟩
  · exact ⟨by omega, by omega, by omega, by omega⟩

theorem Booked.swap (hs : Booked amp s) (h : Swapped s tokenIn amountIn d amp' amountOut t) :
    Booked amp t := by
  cases hs.amplified.symm.trans h.amplified
  have hd := hs.filled h
  obtain ⟨_, y, -, hleft, houtput⟩ := exists_left h hs.amp_pos hd
  have hin := hd.in_pos
  have hout := hd.out_pos
  have hout' := hd.out_le
  have hle := hleft.le
  have houtEq := asU128_eq hout.le hout'
  obtain ⟨hnet, hnet'⟩ := fee_bounds hs.fee (by omega : 0 ≤ d.reserveOut - y)
  rw [← houtput] at hnet hnet'
  have hreserveA := h.reserveA_eq
  have hreserveB := h.reserveB_eq
  have hfits := h.in_fits
  have hpos := h.positive
  obtain ⟨htotal, hbalance⟩ := h.shares
  refine ⟨h.same.amplification.trans hs.amplified, hs.amp_pos, h.same.feeBps ▸ hs.fee, fun a => ?_,
    ?_, htotal ▸ hs.total_le, ?_, ?_⟩
  · rw [Storage.lpOf, hbalance]
    exact hs.nonneg a
  · rw [hbalance, htotal]
    exact hs.sum
  · rw [hreserveA]
    split_ifs <;> omega
  · rw [hreserveB]
    split_ifs <;> omega

end Steps

theorem booked_step {i : Input Address W contract (Call Address)} (h : step T s i = .ok t)
    (hs : Booked amp s) : Booked amp t := by
  cases i with
  | world w =>
    cases pure_eq_ok.mp h
    exact ⟨hs.amplified, hs.amp_pos, hs.fee, hs.nonneg, hs.sum, hs.total_le, hs.reserveA,
      hs.reserveB⟩
  | call env c =>
    cases invoke_transition h with
    | setFee admin feeBps hfee =>
      exact ⟨hs.amplified, hs.amp_pos, hfee, hs.nonneg, hs.sum, hs.total_le, hs.reserveA,
        hs.reserveB⟩
    | add provider amountA amountB minShares amp shares t h => exact hs.add h
    | remove provider sharesIn minA minB amountA amountB t h => exact hs.remove h
    | swap trader tokenIn amountIn minOut d amp amountOut t h => exact hs.swap h

end Suban.Stableswap.Books
