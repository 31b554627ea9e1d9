import Suban.LendingPool.Contract

namespace Suban.LendingPool.Steps

open Suban.Basis.Calls Suban.Basis.Tables Suban.Soroban.Host
open Suban.LendingPool.State Suban.LendingPool.Contract

variable {Address W : Type} [DecidableEq Address] {contract : Address}
variable {M : Market Address W} {env : Env Address contract} {s t : Storage Address W}

/-- The call changes settings other than the two assets of the pool. -/
def Configures : Call Address → Prop
  | .setPaused _ _ | .updateConfig _ _ _ _ _ _ | .setPriceOracle _ _ _ | .clearPriceOracle _ =>
    True
  | _ => False

/-- Nothing but settings differs, and the two assets are as they were. -/
structure SameBooks (s t : Storage Address W) : Prop where
  totalSupplies : t.totalSupplies = s.totalSupplies
  totalBorrows : t.totalBorrows = s.totalBorrows
  totalReserves : t.totalReserves = s.totalReserves
  userDeposits : t.userDeposits = s.userDeposits
  userBorrows : t.userBorrows = s.userBorrows
  userCollateral : t.userCollateral = s.userCollateral
  collateralAsset : t.collateralAsset = s.collateralAsset
  collateralToken : t.collateralToken = s.collateralToken
  events : t.events = s.events
  world : t.world = s.world

def Healthy (M : Market Address W) (env : Env Address contract) (s : Storage Address W)
    (user : Address) : Prop :=
  ∃ health, calculateHealthFactor M env s user = .ok health ∧ 10000 ≤ health

def interestFor (s : Storage Address W) (ledgersPassed : Nat) : Int :=
  (s.totalBorrows * s.interestRate * ledgersPassed).tdiv 1000000000

def reserveShareFor (s : Storage Address W) (ledgersPassed : Nat) : Int :=
  (interestFor s ledgersPassed * s.reserveFactor).tdiv 10000

/-- Everything that an accepted call can do. -/
inductive Effect (M : Market Address W) (env : Env Address contract) (s : Storage Address W) :
    Call Address → Storage Address W → Prop where
  | initialise (admin : Address) (cf lt lb ir rf : Int) :
      Effect M env s (.initialise admin cf lt lb ir rf) { s with
        poolAdmin := some admin
        collateralFactor := cf
        liquidationThreshold := lt
        liquidationBonus := lb
        interestRate := ir
        reserveFactor := rf
        poolPaused := false
        totalSupplies := 0
        totalBorrows := 0
        totalReserves := 0
        lastAccrual := env.sequence }
  | deposit (src : Address) (amount bTokens : Int) (w : W) (hpos : 0 < amount)
      (hsrc : src ≠ contract) (hb : bTokensFor s amount = .ok bTokens)
      (hw : M.transfer s.world (poolAsset contract s) src contract amount = some w) :
      Effect M env s (.deposit src amount)
        ({ s.setDeposit src (s.depositOf src + amount) with
          totalSupplies := s.totalSupplies + bTokens
          world := w }.report src (.deposit src amount bTokens))
  | withdraw (src : Address) (n underlying : Int) (w : W) (hpos : 0 < n) (hsrc : src ≠ contract)
      (hz : s.totalSupplies ≠ 0)
      (hu : underlying =
        (n * (s.totalSupplies + s.totalBorrows + s.totalReserves)).tdiv s.totalSupplies)
      (hle : n ≤ s.depositOf src) (hh : Healthy M env s src)
      (hw : M.transfer s.world (poolAsset contract s) contract src underlying = some w) :
      Effect M env s (.withdraw src n)
        ({ s.setDeposit src (s.depositOf src - n) with
          totalSupplies := s.totalSupplies - n
          world := w }.report src (.withdraw src n underlying))
  | borrow (src : Address) (n : Int) (w : W) (hpos : 0 < n) (hsrc : src ≠ contract)
      (hle : n ≤ s.totalSupplies - s.totalBorrows)
      (hh : Healthy M env (s.setBorrow src (s.borrowOf src + n)) src)
      (hw : M.transfer s.world (poolAsset contract s) contract src n = some w) :
      Effect M env s (.borrow src n)
        ({ s.setBorrow src (s.borrowOf src + n) with
          totalBorrows := s.totalBorrows + n
          world := w }.report src (.borrow src n))
  | repay (src : Address) (amount n : Int) (w : W) (hpos : 0 < amount) (hsrc : src ≠ contract)
      (hn : n = min amount (s.borrowOf src))
      (hw : M.transfer s.world (poolAsset contract s) src contract n = some w) :
      Effect M env s (.repay src amount)
        ({ s.setBorrow src (s.borrowOf src - n) with
          totalBorrows := s.totalBorrows - n
          world := w }.report src (.repay src n))
  | setCollateral (user : Address) (n : Int) (hle : n ≤ s.depositOf user)
      (hh : Healthy M env (s.setCollateral user n) user) :
      Effect M env s (.setCollateral user n) ((s.setCollateral user n).report user (.setCol user n))
  | liquidate (liquidator borrower : Address) (repayAmount minCollateral n seize : Int) (v w : W)
      (hpos : 0 < repayAmount) (hsrc : liquidator ≠ contract)
      (hn : n = min repayAmount (s.borrowOf borrower))
      (hs : seize = (n * (10000 + s.liquidationBonus)).tdiv 10000)
      (hle : seize ≤ s.collateralOf borrower)
      (hv : M.transfer s.world (poolAsset contract s) liquidator contract n = some v)
      (hw : M.transfer v (collateralToken contract s) contract liquidator seize = some w) :
      Effect M env s (.liquidate liquidator borrower repayAmount minCollateral)
        ({ (s.setBorrow borrower (s.borrowOf borrower - n)).setCollateral borrower
            (s.collateralOf borrower - seize) with
          totalBorrows := s.totalBorrows - n
          world := w }.report borrower (.liquidate liquidator borrower n seize))
  | upToDate (hz : env.sequence - s.lastAccrual = 0) : Effect M env s .accrueInterest s
  | accrue (n : Nat) (hn : n = env.sequence - s.lastAccrual) :
      Effect M env s .accrueInterest
        ({ s with
          totalBorrows := s.totalBorrows + interestFor s n
          totalReserves := s.totalReserves + reserveShareFor s n
          lastAccrual := env.sequence }.publish
            (.accrue (interestFor s n) (reserveShareFor s n) (s.totalBorrows + interestFor s n)
              (s.totalReserves + reserveShareFor s n) env.sequence))
  | configure {c} {t} (hc : Configures c) (ht : SameBooks s t) : Effect M env s c t
  | setCollateralAsset (admin asset : Address) :
      Effect M env s (.setCollateralAsset admin asset) { s with collateralAsset := some asset }
  | setCollateralToken (admin asset : Address) :
      Effect M env s (.setCollateralToken admin asset) { s with collateralToken := some asset }
  | depositCollateral (src : Address) (n : Int) (w : W) (hpos : 0 < n) (hsrc : src ≠ contract)
      (hw : M.transfer s.world (collateralToken contract s) src contract n = some w) :
      Effect M env s (.depositCollateral src n)
        ({ s.setCollateral src (s.collateralOf src + n) with world := w }.report src
          (.depCol src n))
  | withdrawCollateral (src : Address) (n : Int) (w : W) (hpos : 0 < n) (hsrc : src ≠ contract)
      (hle : n ≤ s.collateralOf src)
      (hh : Healthy M env (s.setCollateral src (s.collateralOf src - n)) src)
      (hw : M.transfer s.world (collateralToken contract s) contract src n = some w) :
      Effect M env s (.withdrawCollateral src n)
        ({ s.setCollateral src (s.collateralOf src - n) with world := w }.report src
          (.wdCol src n))

theorem transfer_eq_ok {token src dst : Address} {n : Int} :
    transfer M s token src dst n = .ok t ↔
      ∃ w, M.transfer s.world token src dst n = some w ∧ { s with world := w } = t := by
  simp only [transfer, bind_eq_ok, unwrap_eq_ok, pure_eq_ok]

theorem totalAssets_eq_ok {n : Int} (h : totalAssets s = .ok n) :
    n = s.totalSupplies + s.totalBorrows + s.totalReserves := by
  simp only [totalAssets, bind_eq_ok, checked_eq_ok] at h
  obtain ⟨_, ⟨-, rfl⟩, -, rfl⟩ := h
  rfl

theorem deposit_effect {src : Address} {amount b : Int}
    (h : deposit M env s src amount = .ok (b, t)) : Effect M env s (.deposit src amount) t := by
  simp only [deposit, bind_eq_ok, rejectIf_eq_ok, requireAuth_eq_ok, checked_eq_ok,
    transfer_eq_ok, pure_eq_ok, Prod.mk.injEq] at h
  obtain ⟨_, hpos, _, -, _, hauth, b, hb, _, ⟨-, rfl⟩, h⟩ := h
  obtain ⟨_, ⟨-, rfl⟩, h⟩ := h
  obtain ⟨_, ⟨w, hw, rfl⟩, -, rfl⟩ := h
  exact .deposit src amount b w (not_le.mp hpos) (ne_self hauth) hb hw

theorem withdraw_effect {src : Address} {n underlying : Int}
    (h : withdraw M env s src n = .ok (underlying, t)) : Effect M env s (.withdraw src n) t := by
  simp only [withdraw, bind_eq_ok, rejectIf_eq_ok, requireAuth_eq_ok, checked_eq_ok,
    checkedDiv_eq_ok, transfer_eq_ok, pure_eq_ok, Prod.mk.injEq] at h
  obtain ⟨_, hpos, _, -, _, hauth, _, ha, _, ⟨-, rfl⟩, h⟩ := h
  obtain ⟨_, ⟨hz, -, rfl⟩, h⟩ := h
  obtain ⟨_, hle, health, hh, _, hge, _, ⟨-, rfl⟩, h⟩ := h
  obtain ⟨_, ⟨-, rfl⟩, h⟩ := h
  obtain ⟨_, ⟨w, hw, rfl⟩, -, rfl⟩ := h
  cases totalAssets_eq_ok ha
  exact .withdraw src n _ w (not_le.mp hpos) (ne_self hauth) hz rfl (not_lt.mp hle)
    ⟨health, hh, not_lt.mp hge⟩ hw

theorem borrow_effect {src : Address} {n : Int} (h : borrow M env s src n = .ok t) :
    Effect M env s (.borrow src n) t := by
  simp only [borrow, bind_eq_ok, rejectIf_eq_ok, requireAuth_eq_ok, checked_eq_ok,
    transfer_eq_ok, pure_eq_ok] at h
  obtain ⟨_, hpos, _, -, _, hauth, _, ⟨-, rfl⟩, h⟩ := h
  obtain ⟨_, hle, _, ⟨-, rfl⟩, h⟩ := h
  obtain ⟨health, hh, _, hge, _, ⟨-, rfl⟩, h⟩ := h
  obtain ⟨_, ⟨w, hw, rfl⟩, rfl⟩ := h
  exact .borrow src n w (not_le.mp hpos) (ne_self hauth) (not_lt.mp hle)
    ⟨health, hh, not_lt.mp hge⟩ hw

theorem repay_effect {src : Address} {amount n : Int}
    (h : repay M env s src amount = .ok (n, t)) : Effect M env s (.repay src amount) t := by
  simp only [repay, bind_eq_ok, rejectIf_eq_ok, requireAuth_eq_ok, checked_eq_ok,
    transfer_eq_ok, pure_eq_ok, Prod.mk.injEq] at h
  obtain ⟨_, hpos, _, -, _, hauth, _, ⟨-, rfl⟩, h⟩ := h
  obtain ⟨_, ⟨-, rfl⟩, h⟩ := h
  obtain ⟨_, ⟨w, hw, rfl⟩, -, rfl⟩ := h
  exact .repay src amount _ w (not_le.mp hpos) (ne_self hauth) rfl hw

theorem setCollateral_effect {user : Address} {n : Int}
    (h : setCollateral M env s user n = .ok t) : Effect M env s (.setCollateral user n) t := by
  simp only [setCollateral, bind_eq_ok, rejectIf_eq_ok, pure_eq_ok] at h
  obtain ⟨_, -, _, -, _, hle, health, hh, _, hge, rfl⟩ := h
  exact .setCollateral user n (not_lt.mp hle) ⟨health, hh, not_lt.mp hge⟩

theorem liquidate_effect {liquidator borrower : Address} {n m : Int}
    (h : liquidate M env s liquidator borrower n m = .ok t) :
    Effect M env s (.liquidate liquidator borrower n m) t := by
  simp only [liquidate, bind_eq_ok, rejectIf_eq_ok, requireAuth_eq_ok, checked_eq_ok,
    checkedDiv_eq_ok, transfer_eq_ok, pure_eq_ok] at h
  obtain ⟨_, hpos, _, -, _, hauth, _, -, _, -, _, ⟨-, rfl⟩, h⟩ := h
  obtain ⟨_, ⟨-, rfl⟩, h⟩ := h
  obtain ⟨_, ⟨-, -, rfl⟩, h⟩ := h
  obtain ⟨_, -, _, hle, _, ⟨-, rfl⟩, h⟩ := h
  obtain ⟨_, ⟨-, rfl⟩, h⟩ := h
  obtain ⟨_, ⟨-, rfl⟩, h⟩ := h
  obtain ⟨_, ⟨v, hv, rfl⟩, h⟩ := h
  obtain ⟨_, ⟨w, hw, rfl⟩, rfl⟩ := h
  exact .liquidate liquidator borrower n m _ _ v w (not_le.mp hpos) (ne_self hauth) rfl rfl
    (not_lt.mp hle) hv hw

theorem accrueInterest_effect (h : accrueInterest env s = .ok t) :
    Effect M env s .accrueInterest t := by
  simp only [accrueInterest, bind_eq_ok] at h
  obtain ⟨_, -, h⟩ := h
  split at h
  next hz =>
    cases pure_eq_ok.mp h
    exact .upToDate hz
  next =>
    simp only [accrueLedgers, bind_eq_ok, checked_eq_ok, checkedDiv_eq_ok, pure_eq_ok] at h
    obtain ⟨_, ⟨-, rfl⟩, h⟩ := h
    obtain ⟨_, ⟨-, rfl⟩, h⟩ := h
    obtain ⟨_, ⟨-, -, rfl⟩, h⟩ := h
    obtain ⟨_, ⟨-, rfl⟩, h⟩ := h
    obtain ⟨_, ⟨-, -, rfl⟩, h⟩ := h
    obtain ⟨_, ⟨-, rfl⟩, h⟩ := h
    obtain ⟨_, ⟨-, rfl⟩, rfl⟩ := h
    exact .accrue _ rfl

theorem depositCollateral_effect {src : Address} {n : Int}
    (h : depositCollateral M env s src n = .ok t) :
    Effect M env s (.depositCollateral src n) t := by
  simp only [depositCollateral, bind_eq_ok, rejectIf_eq_ok, requireAuth_eq_ok, checked_eq_ok,
    transfer_eq_ok, pure_eq_ok] at h
  obtain ⟨_, hpos, _, -, _, hauth, _, ⟨w, hw, rfl⟩, _, ⟨-, rfl⟩, rfl⟩ := h
  exact .depositCollateral src n w (not_le.mp hpos) (ne_self hauth) hw

theorem withdrawCollateral_effect {src : Address} {n : Int}
    (h : withdrawCollateral M env s src n = .ok t) :
    Effect M env s (.withdrawCollateral src n) t := by
  simp only [withdrawCollateral, bind_eq_ok, rejectIf_eq_ok, requireAuth_eq_ok, checked_eq_ok,
    transfer_eq_ok, pure_eq_ok] at h
  obtain ⟨_, hpos, _, -, _, hauth, _, hle, _, ⟨-, rfl⟩, h⟩ := h
  obtain ⟨health, hh, _, hge, _, ⟨w, hw, rfl⟩, rfl⟩ := h
  exact .withdrawCollateral src n w (not_le.mp hpos) (ne_self hauth) (not_lt.mp hle)
    ⟨health, hh, not_lt.mp hge⟩ hw

theorem invoke_effect {c : Call Address} (h : invoke M env s c = .ok t) :
    Effect M env s c t := by
  cases c with
  | initialise admin cf lt lb ir rf =>
    simp only [invoke, initialise, bind_eq_ok, pure_eq_ok] at h
    obtain ⟨_, -, _, -, rfl⟩ := h
    exact .initialise admin cf lt lb ir rf
  | deposit src amount =>
    simp only [invoke, bind_eq_ok, pure_eq_ok] at h
    obtain ⟨⟨_, _⟩, h, rfl⟩ := h
    exact deposit_effect h
  | withdraw src n =>
    simp only [invoke, bind_eq_ok, pure_eq_ok] at h
    obtain ⟨⟨_, _⟩, h, rfl⟩ := h
    exact withdraw_effect h
  | borrow src n => exact borrow_effect h
  | repay src amount =>
    simp only [invoke, bind_eq_ok, pure_eq_ok] at h
    obtain ⟨⟨_, _⟩, h, rfl⟩ := h
    exact repay_effect h
  | setCollateral user n => exact setCollateral_effect h
  | liquidate liquidator borrower n m => exact liquidate_effect h
  | accrueInterest => exact accrueInterest_effect h
  | setPaused admin paused =>
    simp only [invoke, setPaused, bind_eq_ok, pure_eq_ok] at h
    obtain ⟨_, -, rfl⟩ := h
    exact .configure trivial ⟨rfl, rfl, rfl, rfl, rfl, rfl, rfl, rfl, rfl, rfl⟩
  | updateConfig admin cf lt lb ir rf =>
    simp only [invoke, updateConfig, bind_eq_ok, pure_eq_ok] at h
    obtain ⟨_, -, _, -, _, -, rfl⟩ := h
    exact .configure trivial ⟨rfl, rfl, rfl, rfl, rfl, rfl, rfl, rfl, rfl, rfl⟩
  | setCollateralAsset admin asset =>
    simp only [invoke, Contract.setCollateralAsset, bind_eq_ok, pure_eq_ok] at h
    obtain ⟨_, -, rfl⟩ := h
    exact .setCollateralAsset admin asset
  | setCollateralToken admin asset =>
    simp only [invoke, Contract.setCollateralToken, bind_eq_ok, pure_eq_ok] at h
    obtain ⟨_, -, rfl⟩ := h
    exact .setCollateralToken admin asset
  | setPriceOracle admin oracle maxAge =>
    simp only [invoke, setPriceOracle, bind_eq_ok, pure_eq_ok] at h
    obtain ⟨_, -, _, -, rfl⟩ := h
    exact .configure trivial ⟨rfl, rfl, rfl, rfl, rfl, rfl, rfl, rfl, rfl, rfl⟩
  | clearPriceOracle admin =>
    simp only [invoke, clearPriceOracle, bind_eq_ok, pure_eq_ok] at h
    obtain ⟨_, -, rfl⟩ := h
    exact .configure trivial ⟨rfl, rfl, rfl, rfl, rfl, rfl, rfl, rfl, rfl, rfl⟩
  | depositCollateral src n => exact depositCollateral_effect h
  | withdrawCollateral src n => exact withdrawCollateral_effect h

theorem interestFor_nonneg (hrate : 0 ≤ s.interestRate) (hborrows : 0 ≤ s.totalBorrows) (n : Nat) :
    0 ≤ interestFor s n :=
  Int.tdiv_nonneg (mul_nonneg (mul_nonneg hborrows hrate) (Int.natCast_nonneg n)) (by decide)

def rateAfter (s : Storage Address W) : Call Address → Int
  | .initialise _ _ _ _ ir _ => ir
  | .updateConfig _ _ _ _ ir _ => ir.getD s.interestRate
  | _ => s.interestRate

def accrualAfter (env : Env Address contract) (s : Storage Address W) : Call Address → Nat
  | .initialise _ _ _ _ _ _ => env.sequence
  | .accrueInterest => max s.lastAccrual env.sequence
  | _ => s.lastAccrual

theorem accrueInterest_ok (h : accrueInterest env s = .ok t) :
    t.totalBorrows = s.totalBorrows + interestFor s (env.sequence - s.lastAccrual) ∧
      t.interestRate = s.interestRate ∧ t.lastAccrual = max s.lastAccrual env.sequence := by
  simp only [accrueInterest, bind_eq_ok] at h
  obtain ⟨_, -, h⟩ := h
  split at h
  next hz =>
    cases pure_eq_ok.mp h
    have hnone : interestFor s 0 = 0 := by rw [interestFor, Nat.cast_zero, mul_zero, Int.zero_tdiv]
    exact ⟨by rw [hz, hnone, add_zero], rfl, (max_eq_left (Nat.le_of_sub_eq_zero hz)).symm⟩
  next hz =>
    simp only [accrueLedgers, bind_eq_ok, checked_eq_ok, checkedDiv_eq_ok, pure_eq_ok] at h
    obtain ⟨_, ⟨-, rfl⟩, _, ⟨-, rfl⟩, _, ⟨-, -, rfl⟩, _, -, _, -, h⟩ := h
    obtain ⟨_, ⟨-, rfl⟩, _, -, rfl⟩ := h
    have hlt : s.lastAccrual < env.sequence := Nat.lt_of_sub_ne_zero hz
    exact ⟨rfl, rfl, (max_eq_right hlt.le).symm⟩

theorem settings_invoke {c : Call Address} (h : invoke M env s c = .ok t) :
    t.interestRate = rateAfter s c ∧ t.lastAccrual = accrualAfter env s c := by
  cases c with
  | accrueInterest => exact (accrueInterest_ok h).2
  | setPaused admin paused =>
    simp only [invoke, setPaused, bind_eq_ok, pure_eq_ok] at h
    obtain ⟨_, -, rfl⟩ := h
    exact ⟨rfl, rfl⟩
  | updateConfig admin cf lt lb ir rf =>
    simp only [invoke, updateConfig, bind_eq_ok, pure_eq_ok] at h
    obtain ⟨_, -, _, -, _, -, rfl⟩ := h
    exact ⟨rfl, rfl⟩
  | setPriceOracle admin oracle maxAge =>
    simp only [invoke, setPriceOracle, bind_eq_ok, pure_eq_ok] at h
    obtain ⟨_, -, _, -, rfl⟩ := h
    exact ⟨rfl, rfl⟩
  | clearPriceOracle admin =>
    simp only [invoke, clearPriceOracle, bind_eq_ok, pure_eq_ok] at h
    obtain ⟨_, -, rfl⟩ := h
    exact ⟨rfl, rfl⟩
  | _ =>
    cases invoke_effect h with
    | configure hc => exact absurd hc id
    | _ => exact ⟨rfl, rfl⟩

end Suban.LendingPool.Steps
