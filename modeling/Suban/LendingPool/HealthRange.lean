import Suban.LendingPool.Health
import Suban.LendingPool.Setup

namespace Suban.LendingPool.HealthRange

open Suban.Basis.Calls Suban.Basis.Runs Suban.Soroban.Host
open Suban.LendingPool.State Suban.LendingPool.Contract Suban.LendingPool.Steps
open Suban.LendingPool.Setup Suban.LendingPool.Health

variable {Address W : Type} [DecidableEq Address] {contract : Address}
variable {M : Market Address W} {env : Env Address contract} {s : Storage Address W}
variable {user oracle : Address} {collateral borrow cv bv : Int}

/-- The oracle answers with a price for the collateral, and with one for the
debt where the pool goes on to ask for it. -/
structure Answers (M : Market Address W) (env : Env Address contract) (s : Storage Address W)
    (oracle : Address) : Prop where
  collateral : ∃ p, M.getPrice s.world oracle (collateralToken contract s) = .price p
  debt pc : readOraclePrice M env s oracle (collateralToken contract s) = .ok pc →
    collateralToken contract s ≠ poolAsset contract s →
    ∃ p, M.getPrice s.world oracle (poolAsset contract s) = .price p

/-- Neither the health factor of the user nor what reads it traps. -/
structure Total (M : Market Address W) (env : Env Address contract) (s : Storage Address W)
    (user : Address) : Prop where
  calculated : calculateHealthFactor M env s user ≠ .error .panic
  read : ∃ health, getHealthFactor M env s user = .ok health

/-- What the collateral counts for still fits when it is scaled to basis points.
Against an oracle it may also be so large that a value does not fit before, which
is an error. -/
structure ScaledFits (M : Market Address W) (env : Env Address contract)
    (s : Storage Address W) (user : Address) : Prop where
  plain : s.priceOracle = none → collateralToken contract s = poolAsset contract s →
    s.collateralOf user * s.liquidationThreshold * 10000 ≤ maxI128 ∧
      s.borrowOf user * 10000 ≤ maxI128
  answered oracle : s.priceOracle = some oracle → Answers M env s oracle
  quoted oracle : s.priceOracle = some oracle → ∀ pc pd, Quotes M env s oracle pc pd →
    s.collateralOf user * pc.price * s.liquidationThreshold * 10000 ≤ maxI128 ∨
      maxI128 < s.collateralOf user * pc.price * s.liquidationThreshold ∨
      maxI128 < s.borrowOf user * pd.price * 10000

theorem total_iff : Total M env s user ↔ calculateHealthFactor M env s user ≠ .error .panic := by
  refine ⟨Total.calculated, fun h => ⟨h, ?_⟩⟩
  unfold getHealthFactor
  match hh : calculateHealthFactor M env s user with
  | .ok health => exact ⟨health, rfl⟩
  | .error (.error e) => exact ⟨0, rfl⟩
  | .error .panic => exact absurd hh h

theorem ratio_traps_iff (hcv : 0 ≤ cv) (hbv : 0 < bv) :
    (checked (cv * 10000) >>= fun scaled => checkedDiv scaled bv : Outcome PoolError Int) =
      .error .panic ↔ maxI128 < cv * 10000 := by
  have hmin : minI128 ≤ 0 := by decide
  have hlow : 0 ≤ cv * 10000 := mul_nonneg hcv (by decide)
  simp only [bind_eq_error, checked_eq_panic, checked_eq_ok, checkedDiv_eq_panic]
  constructor
  · rintro (hout | ⟨_, ⟨⟨-, hmax⟩, rfl⟩, hzero | ⟨-, hout⟩⟩)
    · omega
    · omega
    · have hratio := Int.tdiv_nonneg hlow hbv.le
      have hle := Int.tdiv_le_self bv hlow
      exact absurd (inRange_of_nonneg hratio (hle.trans hmax)) hout
  · intro hmax
    exact .inl (by omega)

theorem health_traps_iff (hdebt : s.borrowOf user ≠ 0) :
    calculateHealthFactor M env s user = .error .panic ↔
      positionValues M env s (s.collateralOf user) (s.borrowOf user) = .error .panic ∨
      ∃ cv bv, positionValues M env s (s.collateralOf user) (s.borrowOf user) = .ok (cv, bv) ∧
        (checked (cv * 10000) >>= fun scaled => checkedDiv scaled bv : Outcome PoolError Int) =
          .error .panic := by
  simp only [calculateHealthFactor, if_neg hdebt, bind_eq_error (x := positionValues _ _ _ _ _),
    Prod.exists]

theorem readOraclePrice_traps_iff {asset : Address} :
    readOraclePrice M env s oracle asset = .error .panic ↔
      ¬ ∃ p, M.getPrice s.world oracle asset = .price p := by
  simp only [readOraclePrice, bind_eq_error, rejectIf_ne_panic, pure_ne_panic, and_false,
    exists_false, or_false]
  unfold getPrice
  cases hreply : M.getPrice s.world oracle asset with
  | price p => simp
  | error => simp
  | trap => simp

theorem readDebtPrice_traps_iff {ca da : Address} {pc : Price} :
    readDebtPrice M env s oracle ca da pc = .error .panic ↔
      ca ≠ da ∧ ¬ ∃ p, M.getPrice s.world oracle da = .price p := by
  unfold readDebtPrice
  split
  next hsame => exact iff_of_false pure_ne_panic fun h => h.1 hsame
  next hother => rw [readOraclePrice_traps_iff, and_iff_right hother]

/-- The values at an oracle's quotes trap only where the oracle does not answer:
all that is multiplied there is checked. -/
theorem quoted_traps_iff (horacle : s.priceOracle = some oracle) :
    positionValues M env s collateral borrow = .error .panic ↔ ¬ Answers M env s oracle := by
  simp only [positionValues, horacle, quotedValues, bind_eq_error, rejectIf_ne_panic,
    checkedOr_ne_panic, pure_ne_panic, and_false, exists_false, or_false,
    readOraclePrice_traps_iff, readDebtPrice_traps_iff]
  constructor
  · rintro (hmute | ⟨pc, hpc, hother, hmute⟩) hanswers
    · exact hmute hanswers.collateral
    · exact hmute (hanswers.debt pc hpc hother)
  · intro hmute
    by_contra hno
    rw [not_or] at hno
    refine hmute ⟨not_not.mp hno.1, fun pc hpc hother => ?_⟩
    by_contra hdebt
    exact hno.2 ⟨pc, hpc, hother, hdebt⟩

theorem plain_traps_iff (hnone : s.priceOracle = none) (hc : 0 ≤ collateral) (hb : 0 ≤ borrow)
    (hlt : 0 ≤ s.liquidationThreshold) :
    positionValues M env s collateral borrow = .error .panic ↔
      collateralToken contract s = poolAsset contract s ∧
        (maxI128 < collateral * s.liquidationThreshold ∨ maxI128 < borrow * 10000) := by
  have hmin : minI128 ≤ 0 := by decide
  have hcv : 0 ≤ collateral * s.liquidationThreshold := mul_nonneg hc hlt
  simp only [positionValues, hnone, plainValues, bind_eq_error, rejectIf_ne_panic, rejectIf_eq_ok,
    checked_eq_panic, checked_eq_ok, pure_ne_panic, false_or, and_false, exists_false, or_false]
  constructor
  · rintro ⟨_, hsame, hout | ⟨_, -, hout⟩⟩
    · exact ⟨not_not.mp hsame, .inl (by omega)⟩
    · exact ⟨not_not.mp hsame, .inr (by omega)⟩
  · rintro ⟨hsame, hout⟩
    refine ⟨(), not_not.mpr hsame, ?_⟩
    by_cases hfits : collateral * s.liquidationThreshold ≤ maxI128
    · exact .inr ⟨_, ⟨inRange_of_nonneg hcv hfits, rfl⟩, by omega⟩
    · exact .inl (by omega)

theorem plain_total_iff (hnone : s.priceOracle = none) (hc : 0 ≤ s.collateralOf user)
    (hb : 0 < s.borrowOf user) (hlt : 0 ≤ s.liquidationThreshold) :
    calculateHealthFactor M env s user ≠ .error .panic ↔
      (collateralToken contract s = poolAsset contract s →
        s.collateralOf user * s.liquidationThreshold * 10000 ≤ maxI128 ∧
          s.borrowOf user * 10000 ≤ maxI128) := by
  have hcv : 0 ≤ s.collateralOf user * s.liquidationThreshold := mul_nonneg hc hlt
  rw [ne_eq, health_traps_iff hb.ne', plain_traps_iff hnone hc hb.le hlt]
  constructor
  · intro h hsame
    by_contra hout
    by_cases hfits : s.collateralOf user * s.liquidationThreshold ≤ maxI128 ∧
      s.borrowOf user * 10000 ≤ maxI128
    · have hvalues : positionValues M env s (s.collateralOf user) (s.borrowOf user) =
          .ok (s.collateralOf user * s.liquidationThreshold, s.borrowOf user * 10000) :=
        (plain_values_iff hnone).mpr
          ⟨hsame, inRange_of_nonneg hcv hfits.1, inRange_of_nonneg (by omega) hfits.2, rfl⟩
      exact h (.inr ⟨_, _, hvalues, (ratio_traps_iff hcv (by omega)).mpr (by omega)⟩)
    · exact h (.inl ⟨hsame, by omega⟩)
  · rintro h (⟨hsame, hout⟩ | ⟨cv, bv, hvalues, htraps⟩)
    · have hfits := h hsame
      omega
    · obtain ⟨hsame, -, -, hpair⟩ := (plain_values_iff hnone).mp hvalues
      cases hpair
      rw [ratio_traps_iff hcv (by omega)] at htraps
      exact absurd (h hsame).1 (not_le.mpr htraps)

theorem quoted_total_iff (horacle : s.priceOracle = some oracle)
    (hc : 0 ≤ s.collateralOf user) (hb : 0 < s.borrowOf user) (hlt : 0 ≤ s.liquidationThreshold) :
    calculateHealthFactor M env s user ≠ .error .panic ↔
      Answers M env s oracle ∧ ∀ pc pd, Quotes M env s oracle pc pd →
        s.collateralOf user * pc.price * s.liquidationThreshold * 10000 ≤ maxI128 ∨
          maxI128 < s.collateralOf user * pc.price * s.liquidationThreshold ∨
          maxI128 < s.borrowOf user * pd.price * 10000 := by
  have hvalue (pc pd : Price) (hquotes : Quotes M env s oracle pc pd) :
      0 ≤ s.collateralOf user * pc.price ∧
        0 ≤ s.collateralOf user * pc.price * s.liquidationThreshold ∧
        0 < s.borrowOf user * pd.price := by
    have hpc := mul_nonneg hc (readOraclePrice_pos hquotes.collateral).le
    exact ⟨hpc, mul_nonneg hpc hlt, mul_pos hb (readOraclePrice_pos hquotes.debt)⟩
  rw [ne_eq, health_traps_iff hb.ne', not_or, quoted_traps_iff horacle, not_not]
  refine and_congr_right fun _ => ?_
  constructor
  · intro h pc pd hquotes
    obtain ⟨hpriced, hcv, hbv⟩ := hvalue pc pd hquotes
    by_contra hout
    simp only [not_or, not_le, not_lt] at hout
    obtain ⟨hscaled, hcvfits, hbvfits⟩ := hout
    have hone : 1 ≤ s.liquidationThreshold := by
      by_contra hnone
      have hzero : s.liquidationThreshold = 0 := by omega
      rw [hzero, mul_zero] at hscaled
      exact absurd hscaled (by decide)
    have hpricedfits := (le_mul_of_one_le_right hpriced hone).trans hcvfits
    have hvalues : positionValues M env s (s.collateralOf user) (s.borrowOf user) =
        .ok (s.collateralOf user * pc.price * s.liquidationThreshold,
          s.borrowOf user * pd.price * 10000) :=
      (quoted_values_iff horacle).mpr
        ⟨pc, pd, hquotes, inRange_of_nonneg hpriced hpricedfits, inRange_of_nonneg hcv hcvfits,
          inRange_of_nonneg hbv.le (by omega), inRange_of_nonneg (by omega) hbvfits, rfl⟩
    exact h ⟨_, _, hvalues, (ratio_traps_iff hcv (by omega)).mpr hscaled⟩
  · rintro h ⟨cv, bv, hvalues, htraps⟩
    obtain ⟨pc, pd, hquotes, -, hcvfits, -, hbvfits, hpair⟩ :=
      (quoted_values_iff horacle).mp hvalues
    obtain ⟨hpriced, hcv, hbv⟩ := hvalue pc pd hquotes
    cases hpair
    rw [ratio_traps_iff hcv (by omega)] at htraps
    have hscaled := h pc pd hquotes
    omega

/-- For a position that is not negative the health factor does not trap exactly
when the user owes nothing, or the oracle answers and what the collateral counts
for still fits once it is scaled. -/
theorem total_iff_scaledFits (hc : 0 ≤ s.collateralOf user) (hb : 0 ≤ s.borrowOf user)
    (hlt : 0 ≤ s.liquidationThreshold) :
    Total M env s user ↔ s.borrowOf user = 0 ∨ ScaledFits M env s user := by
  rw [total_iff]
  obtain hzero | hdebt := hb.eq_or_lt
  · rw [health_of_no_debt hzero.symm]
    exact iff_of_true nofun (.inl hzero.symm)
  rw [or_iff_right hdebt.ne']
  cases horacle : s.priceOracle with
  | none =>
    rw [plain_total_iff horacle hc hdebt hlt]
    have hno (oracle : Address) : s.priceOracle ≠ some oracle := by
      rw [horacle]
      exact nofun
    refine ⟨fun h => ⟨fun _ => h, ?_, ?_⟩, fun h => h.plain horacle⟩
    · exact fun oracle hsome => absurd hsome (hno oracle)
    · exact fun oracle hsome => absurd hsome (hno oracle)
  | some oracle =>
    rw [quoted_total_iff horacle hc hdebt hlt]
    have hsame (oracle' : Address) (hsome : s.priceOracle = some oracle') : oracle' = oracle :=
      Option.some.inj (hsome.symm.trans horacle)
    refine ⟨fun h => ⟨fun hnone => ?_, fun oracle' hsome => ?_, fun oracle' hsome => ?_⟩,
      fun h => ⟨h.answered oracle horacle, h.quoted oracle horacle⟩⟩
    · exact nomatch horacle.symm.trans hnone
    · exact hsame oracle' hsome ▸ h.1
    · exact hsame oracle' hsome ▸ h.2

def modest : Storage Nat (Nat → Nat → Nat) :=
  run (step (bookMarket Nat)) (.fresh sampleWorld) (samplePool ++
    [.call (Env.signed 0 0) (.deposit 2 1000), .call (Env.signed 0 0) (.setCollateral 2 1000),
      .call (Env.signed 0 0) (.borrow 2 500)])

theorem total_iff_scaledFits_sample : Total (bookMarket Nat) (Env.signed 0 0) modest 2 ↔
    modest.borrowOf 2 = 0 ∨ ScaledFits (bookMarket Nat) (Env.signed 0 0) modest 2 :=
  total_iff_scaledFits (by decide +kernel) (by decide +kernel) (by decide +kernel)

/-- Where the health factor of a user traps, the user cannot withdraw and nobody
can liquidate it. -/
theorem blocked_of_trap {liquidator : Address} {n repayAmount minCollateral : Int}
    (h : calculateHealthFactor M env s user = .error .panic) :
    (withdraw M env s user n).isOk = false ∧
      (liquidate M env s liquidator user repayAmount minCollateral).isOk = false := by
  constructor
  · cases hw : withdraw M env s user n with
    | error => rfl
    | ok result =>
      obtain ⟨underlying, t⟩ := result
      cases withdraw_effect hw with
      | withdraw _ _ _ _ _ _ _ _ _ hh =>
        obtain ⟨health, hh, -⟩ := hh
        cases h.symm.trans hh
      | configure hc => exact absurd hc id
  · cases hl : liquidate M env s liquidator user repayAmount minCollateral with
    | error => rfl
    | ok t =>
      obtain ⟨health, hh, -⟩ := liquidate_health hl
      cases h.symm.trans hh

/-- User 2 owes one unit and has ten to the 31st of collateral, which is the
pool asset itself. -/
def rich : Storage Nat (Nat → Nat → Nat) :=
  run (step (bookMarket Nat)) (.fresh fun token a => if token = 10 ∧ a = 2 then 10 ^ 32 else 0)
    (samplePool ++ [.call (Env.signed 0 0) (.deposit 2 1000),
      .call (Env.signed 0 0) (.setCollateral 2 1000), .call (Env.signed 0 0) (.borrow 2 1),
      .call (Env.signed 0 0) (.depositCollateral 2 (10 ^ 31))])

theorem health_traps : 0 ≤ rich.collateralOf 2 ∧ rich.borrowOf 2 = 1 ∧
    rich.liquidationThreshold = 8500 ∧ rich.priceOracle = none ∧
    ¬ Total (bookMarket Nat) (Env.signed 0 0) rich 2 ∧
    (withdraw (bookMarket Nat) (Env.signed 0 0) rich 2 1).isOk = false ∧
    (liquidate (bookMarket Nat) (Env.signed 0 0) rich 3 2 1 0).isOk = false := by
  have htrap : calculateHealthFactor (bookMarket Nat) (Env.signed 0 0) rich 2 =
      .error .panic := by
    decide +kernel
  refine ⟨by decide +kernel, by decide +kernel, by decide +kernel, by decide +kernel, ?_⟩
  exact ⟨fun h => h.calculated htrap, blocked_of_trap htrap⟩

end Suban.LendingPool.HealthRange
