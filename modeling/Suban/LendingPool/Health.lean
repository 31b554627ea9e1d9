import Suban.Basis.Division
import Suban.LendingPool.Steps

namespace Suban.LendingPool.Health

open Suban.Basis.Calls Suban.Basis.Division Suban.Soroban.Host
open Suban.LendingPool.State Suban.LendingPool.Contract Suban.LendingPool.Steps

variable {Address W : Type} [DecidableEq Address] {contract : Address}
variable {M : Market Address W} {env : Env Address contract} {s t : Storage Address W}
variable {user oracle : Address} {collateral borrow : Int} {values : Int × Int}

structure Quotes (M : Market Address W) (env : Env Address contract) (s : Storage Address W)
    (oracle : Address) (pc pd : Price) : Prop where
  collateral : readOraclePrice M env s oracle (collateralToken contract s) = .ok pc
  debt : readOraclePrice M env s oracle (poolAsset contract s) = .ok pd
  decimals : pc.decimals = pd.decimals

theorem readOraclePrice_pos {asset : Address} {p : Price}
    (h : readOraclePrice M env s oracle asset = .ok p) : 0 < p.price := by
  simp only [readOraclePrice, bind_eq_ok, rejectIf_eq_ok, pure_eq_ok] at h
  obtain ⟨_, -, _, hpos, _, -, _, -, rfl⟩ := h
  exact not_le.mp hpos

theorem Quotes.unique {pc pd pc' pd' : Price} (h : Quotes M env s oracle pc pd)
    (h' : Quotes M env s oracle pc' pd') : pc = pc' ∧ pd = pd' :=
  ⟨Except.ok.inj (h.collateral.symm.trans h'.collateral),
    Except.ok.inj (h.debt.symm.trans h'.debt)⟩

theorem readDebtPrice_eq_ok {ca da : Address} {pc pd : Price}
    (hpc : readOraclePrice M env s oracle ca = .ok pc) :
    readDebtPrice M env s oracle ca da pc = .ok pd ↔
      readOraclePrice M env s oracle da = .ok pd := by
  unfold readDebtPrice
  split
  next heq => rw [← heq, hpc, pure_eq_ok, Except.ok.injEq]
  next => rfl

theorem quoted_values_iff (horacle : s.priceOracle = some oracle) :
    positionValues M env s collateral borrow = .ok values ↔
      ∃ pc pd, Quotes M env s oracle pc pd ∧
        (minI128 ≤ collateral * pc.price ∧ collateral * pc.price ≤ maxI128) ∧
        (minI128 ≤ collateral * pc.price * s.liquidationThreshold ∧
          collateral * pc.price * s.liquidationThreshold ≤ maxI128) ∧
        (minI128 ≤ borrow * pd.price ∧ borrow * pd.price ≤ maxI128) ∧
        (minI128 ≤ borrow * pd.price * 10000 ∧ borrow * pd.price * 10000 ≤ maxI128) ∧
        values = (collateral * pc.price * s.liquidationThreshold, borrow * pd.price * 10000) := by
  simp only [positionValues, horacle, quotedValues, bind_eq_ok, rejectIf_eq_ok, checkedOr_eq_ok,
    pure_eq_ok]
  constructor
  · rintro ⟨pc, hpc, pd, hpd, _, hdecimals, _, ⟨hprice, rfl⟩, h⟩
    obtain ⟨_, ⟨hcv, rfl⟩, _, ⟨hdebt, rfl⟩, _, ⟨hbv, rfl⟩, rfl⟩ := h
    exact ⟨pc, pd, ⟨hpc, (readDebtPrice_eq_ok hpc).mp hpd, not_not.mp hdecimals⟩, hprice, hcv,
      hdebt, hbv, rfl⟩
  · rintro ⟨pc, pd, ⟨hpc, hpd, hdecimals⟩, hprice, hcv, hdebt, hbv, rfl⟩
    exact ⟨pc, hpc, pd, (readDebtPrice_eq_ok hpc).mpr hpd, (), not_not.mpr hdecimals, _,
      ⟨hprice, rfl⟩, _, ⟨hcv, rfl⟩, _, ⟨hdebt, rfl⟩, _, ⟨hbv, rfl⟩, rfl⟩

theorem quoted_values (horacle : s.priceOracle = some oracle)
    (h : positionValues M env s collateral borrow = .ok values) :
    ∃ pc pd, Quotes M env s oracle pc pd ∧
      values = (collateral * pc.price * s.liquidationThreshold, borrow * pd.price * 10000) := by
  obtain ⟨pc, pd, hquotes, -, -, -, -, hvalues⟩ := (quoted_values_iff horacle).mp h
  exact ⟨pc, pd, hquotes, hvalues⟩

theorem plain_values_iff (hnone : s.priceOracle = none) :
    positionValues M env s collateral borrow = .ok values ↔
      collateralToken contract s = poolAsset contract s ∧
        (minI128 ≤ collateral * s.liquidationThreshold ∧
          collateral * s.liquidationThreshold ≤ maxI128) ∧
        (minI128 ≤ borrow * 10000 ∧ borrow * 10000 ≤ maxI128) ∧
        values = (collateral * s.liquidationThreshold, borrow * 10000) := by
  simp only [positionValues, hnone, plainValues, bind_eq_ok, rejectIf_eq_ok, checked_eq_ok,
    pure_eq_ok]
  constructor
  · rintro ⟨_, hsame, _, ⟨hcv, rfl⟩, _, ⟨hbv, rfl⟩, rfl⟩
    exact ⟨not_not.mp hsame, hcv, hbv, rfl⟩
  · rintro ⟨hsame, hcv, hbv, rfl⟩
    exact ⟨(), not_not.mpr hsame, _, ⟨hcv, rfl⟩, _, ⟨hbv, rfl⟩, rfl⟩

theorem health_values {health : Int} (hdebt : s.borrowOf user ≠ 0)
    (h : calculateHealthFactor M env s user = .ok health) :
    ∃ cv bv, positionValues M env s (s.collateralOf user) (s.borrowOf user) = .ok (cv, bv) ∧
      cv * 10000 ≤ maxI128 ∧ health = (cv * 10000).tdiv bv := by
  simp only [calculateHealthFactor, if_neg hdebt, bind_eq_ok, checked_eq_ok,
    checkedDiv_eq_ok] at h
  obtain ⟨⟨cv, bv⟩, hvalues, _, ⟨⟨-, hmax⟩, rfl⟩, -, -, rfl⟩ := h
  exact ⟨cv, bv, hvalues, hmax, rfl⟩

/-- At a health of at least one the debt is worth no more than the collateral
counts for. -/
theorem healthy_values (hdebt : s.borrowOf user ≠ 0) (h : Healthy M env s user) :
    ∃ cv bv, positionValues M env s (s.collateralOf user) (s.borrowOf user) = .ok (cv, bv) ∧
      cv * 10000 ≤ maxI128 ∧ (0 < bv → bv ≤ cv) := by
  obtain ⟨health, hh, hle⟩ := h
  obtain ⟨cv, bv, hvalues, hmax, rfl⟩ := health_values hdebt hh
  refine ⟨cv, bv, hvalues, hmax, fun hbv => ?_⟩
  have hlow : ¬ (cv * 10000).tdiv bv ≤ 9999 := by omega
  rw [tdiv_le_iff hbv (by decide)] at hlow
  omega

theorem healthy_of_same (h : Healthy M env s user) (ho : t.priceOracle = s.priceOracle)
    (hp : ∀ oracle, s.priceOracle = some oracle → ∀ asset,
      readOraclePrice M env t oracle asset = readOraclePrice M env s oracle asset)
    (hc : t.collateralOf user = s.collateralOf user) (hb : t.borrowOf user = s.borrowOf user)
    (hl : t.liquidationThreshold = s.liquidationThreshold)
    (ha : t.collateralAsset = s.collateralAsset) (hk : t.collateralToken = s.collateralToken) :
    Healthy M env t user := by
  have hpool : poolAsset contract t = poolAsset contract s := by rw [poolAsset, poolAsset, ha]
  have htoken : Contract.collateralToken contract t = Contract.collateralToken contract s := by
    rw [Contract.collateralToken, Contract.collateralToken, hk, hpool]
  have hvalues (c b : Int) : positionValues M env t c b = positionValues M env s c b := by
    unfold positionValues
    rw [ho, hpool, htoken]
    cases horacle : s.priceOracle with
    | none => simp only [plainValues, hl]
    | some oracle => simp only [quotedValues, readDebtPrice, hp oracle horacle, hl]
  unfold Healthy at h ⊢
  rwa [calculateHealthFactor, hc, hb, hvalues]

theorem health_of_no_debt (h : s.borrowOf user = 0) :
    calculateHealthFactor M env s user = .ok maxI128 := by
  simp only [calculateHealthFactor, h]
  rfl

theorem liquidate_health {liquidator : Address} {repayAmount minCollateral : Int}
    (h : liquidate M env s liquidator user repayAmount minCollateral = .ok t) :
    ∃ health, calculateHealthFactor M env s user = .ok health ∧ health < 10000 := by
  simp only [liquidate, bind_eq_ok, rejectIf_eq_ok] at h
  obtain ⟨_, -, _, -, _, -, health, hh, _, hlt, -⟩ := h
  exact ⟨health, hh, not_le.mp hlt⟩

end Suban.LendingPool.Health
