import Mathlib.Algebra.Order.Ring.Abs
import Suban.LendingPool.Health
import Suban.LendingPool.Setup

namespace Suban.LendingPool.BorrowLimit

open Suban.Basis.Calls Suban.Basis.Tables Suban.Basis.Division Suban.Basis.Runs
open Suban.Soroban.Host Suban.LendingPool.State Suban.LendingPool.Contract
open Suban.LendingPool.Steps Suban.LendingPool.Setup Suban.LendingPool.Health

variable {Address W : Type} [DecidableEq Address] {contract : Address}
variable {M : Market Address W} {env : Env Address contract} {s t : Storage Address W}
variable {src user oracle : Address} {n cf lt : Int}

/-- What the user owes is worth no more than the share of its collateral that
the collateral factor sets, at the prices that the borrow meets. -/
structure WithinFactor (M : Market Address W) (env : Env Address contract)
    (s t : Storage Address W) (user : Address) : Prop where
  plain : s.priceOracle = none →
    t.borrowOf user * 10000 ≤ t.collateralOf user * t.collateralFactor
  quoted oracle : s.priceOracle = some oracle → ∀ pc pd, Quotes M env s oracle pc pd →
    t.borrowOf user * pd.price * 10000 ≤ t.collateralOf user * pc.price * t.collateralFactor

/-- A borrow that leads from one state to the other keeps to the factor, and the
user cannot be liquidated before prices or balances move. -/
structure KeepsToFactor (M : Market Address W) (env : Env Address contract)
    (s t : Storage Address W) (user : Address) : Prop where
  within : WithinFactor M env s t user
  healthy : (∀ oracle asset, M.getPrice t.world oracle asset = M.getPrice s.world oracle asset) →
    Healthy M env t user

/-- With these two settings every borrow of a user whose debt is not negative
keeps to the collateral factor. -/
def FactorRespected (cf lt : Int) : Prop :=
  ∀ (Address W : Type) [DecidableEq Address] (contract : Address) (M : Market Address W)
    (env : Env Address contract) (s t : Storage Address W) (src : Address) (n : Int),
    s.collateralFactor = cf → s.liquidationThreshold = lt → 0 ≤ s.borrowOf src →
      borrow M env s src n = .ok t → KeepsToFactor M env s t src

/-- No value of a debt that passes the check against the threshold is above what
the factor allows. -/
def NoValueBetween (cf lt : Int) : Prop :=
  ∀ c d, 0 < d → d * 10000 ≤ c * lt → c * lt * 10000 ≤ maxI128 → d * 10000 ≤ c * cf

/-- The threshold is not above the factor, or the health check lets no debt
through at all. Two negative settings, which nothing rules out, leave no multiple
of ten thousand between what they make of an amount. -/
def FactorCovers (cf lt : Int) : Prop :=
  lt = 0 ∨ 0 < lt ∧ lt ≤ cf ∨ maxI128 < |lt| * 10000 ∨
    lt < 0 ∧ cf < 0 ∧ ∀ c, 0 < c → c * -lt * 10000 ≤ maxI128 →
      c * -lt / 10000 * 10000 ≤ c * -cf

theorem noValueBetween_of_covers (h : FactorCovers cf lt) : NoValueBetween cf lt := by
  intro c d hd hle hmax
  have hpos : 0 < c * lt := by omega
  obtain rfl | ⟨hlt, hcf⟩ | hlarge | ⟨hlt, -, hbetween⟩ := h
  · rw [mul_zero] at hpos
    exact absurd hpos (lt_irrefl 0)
  · have hc : 0 < c := (pos_iff_pos_of_mul_pos hpos).mpr hlt
    exact hle.trans (mul_le_mul_of_nonneg_left hcf hc.le)
  · have hc : c ≠ 0 := by
      rintro rfl
      simp at hpos
    have hwhole : |lt| ≤ |c| * |lt| := le_mul_of_one_le_left (abs_nonneg lt) (Int.one_le_abs hc)
    rw [← abs_mul, abs_of_pos hpos] at hwhole
    omega
  · have hc : 0 < -c := by
      have := (neg_iff_neg_of_mul_pos hpos).mpr hlt
      omega
    have hsame : -c * -lt = c * lt := neg_mul_neg c lt
    have hcover := hbetween (-c) hc (by rwa [hsame])
    rw [hsame, neg_mul_neg] at hcover
    have hwhole : d ≤ c * lt / 10000 := (Int.le_ediv_iff_mul_le (by decide)).mpr hle
    omega

theorem covers_of_negative (hlt : lt < 0) (hmax : -lt * 10000 ≤ maxI128)
    (h : NoValueBetween cf lt) : FactorCovers cf lt := by
  have hscale : 10000 * 10000 * 10000 ≤ maxI128 := by decide
  have hcf : cf < 0 := by
    by_contra hnonneg
    obtain hsmall | hbig := lt_or_ge (-lt) 10000
    · have hwhole := h (-10000) (-lt) (by omega) (by omega) (by omega)
      omega
    · have hwhole := h (-1) (-lt / 10000) (by omega) (by omega) (by omega)
      omega
  refine .inr (.inr (.inr ⟨hlt, hcf, fun c hc hfits => ?_⟩))
  have hvalue : 0 ≤ c * -lt / 10000 :=
    Int.ediv_nonneg (mul_nonneg hc.le (neg_pos.mpr hlt).le) (by decide)
  obtain hzero | hpos := hvalue.eq_or_lt
  · rw [← hzero, zero_mul]
    exact mul_nonneg hc.le (neg_pos.mpr hcf).le
  · rw [mul_neg, ← neg_mul] at hfits hpos ⊢
    rw [mul_neg, ← neg_mul]
    exact h (-c) _ hpos (Int.ediv_mul_le _ (by decide)) hfits

theorem covers_of_noValueBetween (hcf : cf ≤ 8000) (h : NoValueBetween cf lt) :
    FactorCovers cf lt := by
  have hscale : 10000 * 10000 * 10000 ≤ maxI128 := by decide
  by_cases hlarge : maxI128 < |lt| * 10000
  · exact .inr (.inr (.inl hlarge))
  rw [not_lt] at hlarge
  obtain hlt | rfl | hlt := lt_trichotomy lt 0
  · rw [abs_of_neg hlt] at hlarge
    exact covers_of_negative hlt hlarge h
  · exact .inl rfl
  · rw [abs_of_pos hlt] at hlarge
    refine .inr (.inl ⟨hlt, ?_⟩)
    by_contra habove
    -- The debt that the threshold just lets through is above the factor.
    obtain hsmall | hbig := lt_or_ge lt 10000
    · have hwhole := h 10000 lt hlt (by omega) (by omega)
      omega
    · have hwhole := h 1 (lt / 10000) (by omega) (by omega) (by omega)
      omega

/-- What is healthy by the threshold is within the factor, where no value of a
debt lies between the two. -/
theorem within_of_healthy (hdebt : 0 < s.borrowOf user) (h : Healthy M env s user)
    (hbetween : NoValueBetween s.collateralFactor s.liquidationThreshold) :
    WithinFactor M env s s user := by
  obtain ⟨cv, bv, hvalues, hmax, hle⟩ := healthy_values hdebt.ne' h
  constructor
  case plain =>
    intro hnone
    obtain ⟨-, -, -, hplain⟩ := (plain_values_iff hnone).mp hvalues
    cases hplain
    exact hbetween _ _ hdebt (hle (by omega)) hmax
  case quoted =>
    intro oracle horacle pc pd hquotes
    obtain ⟨pc', pd', hread, hquoted⟩ := quoted_values horacle hvalues
    obtain ⟨rfl, rfl⟩ := hquotes.unique hread
    cases hquoted
    have hvalue : 0 < s.borrowOf user * pd.price :=
      mul_pos hdebt (readOraclePrice_pos hquotes.debt)
    exact hbetween _ _ hvalue (hle (by omega)) hmax

theorem keepsToFactor_of_borrow (hdebt : 0 ≤ s.borrowOf src) (h : borrow M env s src n = .ok t)
    (hbetween : NoValueBetween s.collateralFactor s.liquidationThreshold) :
    KeepsToFactor M env s t src := by
  cases borrow_effect h with
  | borrow _ _ w hpos hsrc hle hh hw =>
    have howed : (s.setBorrow src (s.borrowOf src + n)).borrowOf src = s.borrowOf src + n :=
      s.borrowOf_setBorrow_self _ _
    have hwithin := within_of_healthy (by omega) hh hbetween
    refine ⟨⟨hwithin.plain, fun oracle horacle pc pd hquotes => ?_⟩, fun hprices => ?_⟩
    · exact hwithin.quoted oracle horacle pc pd
        ⟨hquotes.collateral, hquotes.debt, hquotes.decimals⟩
    · refine healthy_of_same hh rfl (fun oracle _ asset => ?_) rfl rfl rfl rfl rfl
      simp only [readOraclePrice, getPrice]
      rw [hprices]
      rfl
  | configure hc => exact absurd hc id

theorem borrow_amounts (h : borrow M env s src n = .ok t) :
    t.borrowOf src = s.borrowOf src + n ∧ t.collateralOf src = s.collateralOf src ∧
      t.collateralFactor = s.collateralFactor := by
  cases borrow_effect h with
  | borrow => exact ⟨s.borrowOf_setBorrow_self _ _, rfl, rfl⟩
  | configure hc => exact absurd hc id

/-- User 2 has pledged the collateral. The pool has as much to lend as the debt
that the user is about to take up. -/
def pledged (cf lt collateral debt : Int) : Storage Nat (Nat → Nat → Nat) :=
  { Storage.fresh (fun token a => if token = 10 ∧ a = 0 then debt.toNat else 0) with
    collateralFactor := cf
    liquidationThreshold := lt
    totalSupplies := debt
    collateralAsset := some 10 }.setCollateral 2 collateral

variable {c d : Int}

theorem pledged_amounts : (pledged cf lt c d).borrowOf 2 = 0 ∧
    (pledged cf lt c d).collateralOf 2 = c :=
  ⟨rfl, Storage.collateralOf_setCollateral_self _ _ _⟩

theorem values_pledged (hd : 0 < d) (hle : d * 10000 ≤ c * lt) (hmax : c * lt * 10000 ≤ maxI128) :
    positionValues (bookMarket Nat) (Env.signed 0 0) ((pledged cf lt c d).setBorrow 2 d) c d =
      .ok (c * lt, d * 10000) := by
  have hcv := inRange_of_nonneg (show 0 ≤ c * lt by omega) (by omega)
  have hbv := inRange_of_nonneg (show 0 ≤ d * 10000 by omega) (by omega)
  exact (plain_values_iff rfl).mpr ⟨rfl, hcv, hbv, rfl⟩

theorem health_pledged (cf : Int) (hd : 0 < d) (hle : d * 10000 ≤ c * lt)
    (hmax : c * lt * 10000 ≤ maxI128) :
    Healthy (bookMarket Nat) (Env.signed 0 0) ((pledged cf lt c d).setBorrow 2 d) 2 := by
  have hbound : (c * lt * 10000).tdiv (d * 10000) ≤ c * lt * 10000 :=
    Int.tdiv_le_self _ (by omega)
  have hhealth : 10000 ≤ (c * lt * 10000).tdiv (d * 10000) := by
    rw [le_tdiv_iff (by omega) (by omega)]
    omega
  have howed : ((pledged cf lt c d).setBorrow 2 d).borrowOf 2 = d :=
    Storage.borrowOf_setBorrow_self _ _ _
  have hcollateral : ((pledged cf lt c d).setBorrow 2 d).collateralOf 2 = c := pledged_amounts.2
  refine ⟨_, ?_, hhealth⟩
  simp only [calculateHealthFactor, howed, hcollateral, if_neg hd.ne', values_pledged hd hle hmax,
    bind_eq_ok, checked_eq_ok, checkedDiv_eq_ok]
  have hscaled := inRange_of_nonneg (show 0 ≤ c * lt * 10000 by omega) hmax
  have hfits := inRange_of_nonneg (le_trans (by decide) hhealth) (hbound.trans hmax)
  exact ⟨(c * lt, d * 10000), rfl, _, ⟨hscaled, rfl⟩, by omega, hfits, rfl⟩

theorem borrow_pledged (cf : Int) (hd : 0 < d) (hle : d * 10000 ≤ c * lt)
    (hmax : c * lt * 10000 ≤ maxI128) :
    ∃ t, borrow (bookMarket Nat) (Env.signed 0 0) (pledged cf lt c d) 2 d = .ok t := by
  obtain ⟨health, hh, hhealth⟩ := health_pledged cf hd hle hmax
  have hfits := inRange_of_nonneg hd.le (by omega)
  have hfree : (pledged cf lt c d).totalSupplies - (pledged cf lt c d).totalBorrows = d :=
    sub_zero d
  have howed : (pledged cf lt c d).borrowOf 2 + d = d := zero_add d
  have hpaid : ∃ w, (bookMarket Nat).transfer (pledged cf lt c d).world 10 0 2 d = some w :=
    ⟨_, if_pos ⟨hd.le, Int.self_le_toNat d⟩⟩
  obtain ⟨w, hw⟩ := hpaid
  simp only [borrow, bind_eq_ok, rejectIf_eq_ok, requireAuth_eq_ok, checked_eq_ok,
    transfer_eq_ok, pure_eq_ok, hfree, howed]
  exact ⟨_, (), not_le.mpr hd, (), rfl, (), rfl, d, ⟨hfits, rfl⟩, (), lt_irrefl d, d,
    ⟨hfits, rfl⟩, health, hh, (), not_lt.mpr hhealth, _, ⟨(zero_add d).symm ▸ hfits, rfl⟩, _,
    ⟨w, hw, rfl⟩, rfl⟩

theorem noValueBetween_of_respected (h : FactorRespected cf lt) : NoValueBetween cf lt := by
  intro c d hd hle hmax
  obtain ⟨t, ht⟩ := borrow_pledged cf hd hle hmax
  have hwithin := (h _ _ _ _ _ _ _ _ _ rfl rfl le_rfl ht).within.plain rfl
  obtain ⟨howed, hcollateral, hfactor⟩ := borrow_amounts ht
  rwa [howed, hcollateral, hfactor, pledged_amounts.1, pledged_amounts.2, zero_add] at hwithin

/-- Every borrow keeps to the collateral factor exactly when the liquidation
threshold, which the borrow is checked against, is not above it. -/
theorem factorRespected_iff (hcf : cf ≤ 8000) : FactorRespected cf lt ↔ FactorCovers cf lt := by
  constructor
  · intro h
    exact covers_of_noValueBetween hcf (noValueBetween_of_respected h)
  · rintro h Address W _ contract M env s t src n rfl rfl hdebt ht
    exact keepsToFactor_of_borrow hdebt ht (noValueBetween_of_covers h)

theorem factorRespected_iff_sample : FactorRespected 8000 7500 :=
  (factorRespected_iff (by decide)).mpr (.inr (.inl (by decide)))

/-- User 2 has pledged 1000, of which the factor allows it to borrow 750. -/
def opened : Storage Nat (Nat → Nat → Nat) :=
  run (step (bookMarket Nat)) (.fresh sampleWorld) (samplePool ++
    [.call (Env.signed 0 0) (.deposit 2 1000), .call (Env.signed 0 0) (.setCollateral 2 1000)])

/-- A user borrows 800 with a factor of 7500 and a threshold of 8500. -/
theorem borrow_above_factor :
    opened.collateralFactor = 7500 ∧ opened.liquidationThreshold = 8500 ∧
      ∃ t, borrow (bookMarket Nat) (Env.signed 0 0) opened 2 800 = .ok t ∧
        ¬ WithinFactor (bookMarket Nat) (Env.signed 0 0) opened t 2 := by
  refine ⟨by decide +kernel, by decide +kernel, ?_⟩
  have haccepted : (borrow (bookMarket Nat) (Env.signed 0 0) opened 2 800).isOk = true := by
    decide +kernel
  obtain ⟨t, ht⟩ := exists_of_isOk haccepted
  obtain ⟨howed, hcollateral, hfactor⟩ := borrow_amounts ht
  refine ⟨t, ht, fun hwithin => ?_⟩
  have hplain := hwithin.plain (by decide +kernel)
  rw [howed, hcollateral, hfactor] at hplain
  exact absurd hplain (by decide +kernel)

end Suban.LendingPool.BorrowLimit
