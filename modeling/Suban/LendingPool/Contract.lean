import Suban.LendingPool.State

namespace Suban.LendingPool.Contract

open Suban.Basis.Calls Suban.Basis.Tables Suban.Soroban.Host Suban.LendingPool.State

variable {Address W : Type} [DecidableEq Address] {contract : Address}
variable (M : Market Address W) (env : Env Address contract) (s : Storage Address W)

def initialise (admin : Address) (collateralFactor liquidationThreshold liquidationBonus
    interestRate reserveFactor : Int) : Outcome PoolError (Storage Address W) := do
  rejectIf (8000 < collateralFactor) .collateralFactorTooHigh
  rejectIf (5000 < reserveFactor) .reserveFactorTooHigh
  pure { s with
    poolAdmin := some admin
    collateralFactor := collateralFactor
    liquidationThreshold := liquidationThreshold
    liquidationBonus := liquidationBonus
    interestRate := interestRate
    reserveFactor := reserveFactor
    poolPaused := false
    totalSupplies := 0
    totalBorrows := 0
    totalReserves := 0
    lastAccrual := env.sequence }

def requireNotPaused : Outcome PoolError Unit := rejectIf s.poolPaused .poolPaused

/-- The asset that deposits and borrows are counted in. Until one is set it is
the pool's own address. -/
def poolAsset (contract : Address) (s : Storage Address W) : Address :=
  s.collateralAsset.getD contract

/-- The collateral is the pool asset itself until a token is set for it. -/
def collateralToken (contract : Address) (s : Storage Address W) : Address :=
  s.collateralToken.getD (poolAsset contract s)

def transfer (token src dst : Address) (amount : Int) :
    Outcome PoolError (Storage Address W) := do
  let world ← unwrap (M.transfer s.world token src dst amount)
  pure { s with world := world }

/-- An oracle that answers with an error takes the caller down with it: only an
answer comes back. -/
def getPrice (oracle asset : Address) : Outcome PoolError Price :=
  match M.getPrice s.world oracle asset with
  | .price p => .ok p
  | .error | .trap => .error .panic

def readOraclePrice (oracle asset : Address) : Outcome PoolError Price := do
  let price ← getPrice M s oracle asset
  rejectIf (price.price ≤ 0) .invalidOraclePrice
  let now := env.sequence
  rejectIf (now < price.timestamp) .invalidOraclePrice
  rejectIf (s.oracleMaxAge < now - price.timestamp) .oracleUnavailable
  pure price

/-- The debt is priced by the same reading when it is the same asset. -/
def readDebtPrice (oracle collateralAsset debtAsset : Address) (collateralPrice : Price) :
    Outcome PoolError Price :=
  if collateralAsset = debtAsset then pure collateralPrice
  else readOraclePrice M env s oracle debtAsset

def quotedValues (oracle collateralAsset debtAsset : Address) (collateral borrow : Int) :
    Outcome PoolError (Int × Int) := do
  let collateralPrice ← readOraclePrice M env s oracle collateralAsset
  let debtPrice ← readDebtPrice M env s oracle collateralAsset debtAsset collateralPrice
  rejectIf (collateralPrice.decimals ≠ debtPrice.decimals) .invalidOraclePrice
  let priced ← checkedOr (collateral * collateralPrice.price) .invalidOraclePrice
  let collateralValue ← checkedOr (priced * s.liquidationThreshold) .invalidOraclePrice
  let priced ← checkedOr (borrow * debtPrice.price) .invalidOraclePrice
  let borrowValue ← checkedOr (priced * 10000) .invalidOraclePrice
  pure (collateralValue, borrowValue)

def plainValues (collateralAsset debtAsset : Address) (collateral borrow : Int) :
    Outcome PoolError (Int × Int) := do
  rejectIf (collateralAsset ≠ debtAsset) .oracleUnavailable
  let collateralValue ← checked (collateral * s.liquidationThreshold)
  let borrowValue ← checked (borrow * 10000)
  pure (collateralValue, borrowValue)

def positionValues (collateral borrow : Int) : Outcome PoolError (Int × Int) :=
  let collateralAsset := collateralToken contract s
  let debtAsset := poolAsset contract s
  match s.priceOracle with
  | some oracle => quotedValues M env s oracle collateralAsset debtAsset collateral borrow
  | none => plainValues s collateralAsset debtAsset collateral borrow

/-- The health factor in basis points. A user without debt is as healthy as can
be. -/
def calculateHealthFactor (user : Address) : Outcome PoolError Int :=
  let collateral := s.collateralOf user
  let borrow := s.borrowOf user
  if borrow = 0 then pure maxI128
  else do
    let (collateralValue, borrowValue) ← positionValues M env s collateral borrow
    let scaled ← checked (collateralValue * 10000)
    checkedDiv scaled borrowValue

def getPosition (user : Address) : UserPosition := s.readUserPosition user

/-- An error reads as zero, and a trap is one. -/
def getHealthFactor (user : Address) : Outcome PoolError Int :=
  match calculateHealthFactor M env s user with
  | .ok health => .ok health
  | .error (.error _) => .ok 0
  | .error .panic => .error .panic

/-- What deposits and withdrawals take the pool to be worth. -/
def totalAssets : Outcome PoolError Int := do
  let owed ← checked (s.totalSupplies + s.totalBorrows)
  checked (owed + s.totalReserves)

def bTokensFor (amount : Int) : Outcome PoolError Int :=
  if s.totalSupplies = 0 then pure amount
  else do
    let assets ← totalAssets s
    let scaled ← checked (amount * s.totalSupplies)
    checkedDiv scaled assets

/-- The user is credited with the amount, the supply with the shares. -/
def deposit (src : Address) (amount : Int) : Outcome PoolError (Int × Storage Address W) := do
  rejectIf (amount ≤ 0) .zeroAmount
  requireNotPaused s
  requireAuth env src
  let totalSupply := s.totalSupplies
  let bTokens ← bTokensFor s amount
  let credited ← checked (s.depositOf src + amount)
  let s := s.setDeposit src credited
  let supplies ← checked (totalSupply + bTokens)
  let s := { s with totalSupplies := supplies }
  let s ← transfer M s (poolAsset contract s) src contract amount
  pure (bTokens, s.report src (.deposit src amount bTokens))

def withdraw (src : Address) (bTokenAmount : Int) :
    Outcome PoolError (Int × Storage Address W) := do
  rejectIf (bTokenAmount ≤ 0) .zeroAmount
  requireNotPaused s
  requireAuth env src
  let totalSupply := s.totalSupplies
  let assets ← totalAssets s
  let scaled ← checked (bTokenAmount * assets)
  let underlying ← checkedDiv scaled totalSupply
  let userBalance := s.depositOf src
  rejectIf (userBalance < bTokenAmount) .insufficientBalance
  let health ← calculateHealthFactor M env s src
  rejectIf (health < 10000) .healthFactorBelowOne
  let kept ← checked (userBalance - bTokenAmount)
  let s := s.setDeposit src kept
  let supplies ← checked (totalSupply - bTokenAmount)
  let s := { s with totalSupplies := supplies }
  let s ← transfer M s (poolAsset contract s) contract src underlying
  pure (underlying, s.report src (.withdraw src bTokenAmount underlying))

def borrow (src : Address) (amount : Int) : Outcome PoolError (Storage Address W) := do
  rejectIf (amount ≤ 0) .zeroAmount
  requireNotPaused s
  requireAuth env src
  let totalBorrows := s.totalBorrows
  let available ← checked (s.totalSupplies - totalBorrows)
  rejectIf (available < amount) .zeroAmount
  let owed ← checked (s.borrowOf src + amount)
  let s := s.setBorrow src owed
  let health ← calculateHealthFactor M env s src
  rejectIf (health < 10000) .healthFactorBelowOne
  let borrows ← checked (totalBorrows + amount)
  let s := { s with totalBorrows := borrows }
  let s ← transfer M s (poolAsset contract s) contract src amount
  pure (s.report src (.borrow src amount))

def repay (src : Address) (amount : Int) : Outcome PoolError (Int × Storage Address W) := do
  rejectIf (amount ≤ 0) .zeroAmount
  requireNotPaused s
  requireAuth env src
  let currentBorrow := s.borrowOf src
  let repayAmount := min amount currentBorrow
  let owed ← checked (currentBorrow - repayAmount)
  let s := s.setBorrow src owed
  let borrows ← checked (s.totalBorrows - repayAmount)
  let s := { s with totalBorrows := borrows }
  let s ← transfer M s (poolAsset contract s) src contract repayAmount
  pure (repayAmount, s.report src (.repay src repayAmount))

/-- The pledge replaces the recorded collateral and moves no tokens. -/
def setCollateral (user : Address) (amount : Int) : Outcome PoolError (Storage Address W) := do
  requireNotPaused s
  requireAuth env user
  rejectIf (s.depositOf user < amount) .insufficientBalance
  let s := s.setCollateral user amount
  let health ← calculateHealthFactor M env s user
  rejectIf (health < 10000) .healthFactorBelowOne
  pure (s.report user (.setCol user amount))

def liquidate (liquidator borrower : Address) (repayAmount minCollateral : Int) :
    Outcome PoolError (Storage Address W) := do
  rejectIf (repayAmount ≤ 0) .zeroAmount
  requireNotPaused s
  requireAuth env liquidator
  let health ← calculateHealthFactor M env s borrower
  rejectIf (10000 ≤ health) .liquidationNotProfitable
  let borrowerBorrow := s.borrowOf borrower
  let actualRepay := min repayAmount borrowerBorrow
  let rate ← checked (10000 + s.liquidationBonus)
  let scaled ← checked (actualRepay * rate)
  let collateralSeize ← checkedDiv scaled 10000
  rejectIf (collateralSeize < minCollateral) .slippageExceeded
  let borrowerCollateral := s.collateralOf borrower
  rejectIf (borrowerCollateral < collateralSeize) .insufficientCollateral
  let owed ← checked (borrowerBorrow - actualRepay)
  let s := s.setBorrow borrower owed
  let left ← checked (borrowerCollateral - collateralSeize)
  let s := s.setCollateral borrower left
  let borrows ← checked (s.totalBorrows - actualRepay)
  let s := { s with totalBorrows := borrows }
  let s ← transfer M s (poolAsset contract s) liquidator contract actualRepay
  let s ← transfer M s (collateralToken contract s) contract liquidator collateralSeize
  pure (s.report borrower (.liquidate liquidator borrower actualRepay collateralSeize))

def accrueLedgers (ledgersPassed : Nat) : Outcome PoolError (Storage Address W) := do
  let scaled ← checked (s.totalBorrows * s.interestRate)
  let scaled ← checked (scaled * ledgersPassed)
  let interest ← checkedDiv scaled (10000 * 100000)
  let scaled ← checked (interest * s.reserveFactor)
  let reserveShare ← checkedDiv scaled 10000
  let borrows ← checked (s.totalBorrows + interest)
  let reserves ← checked (s.totalReserves + reserveShare)
  let s := { s with
    totalBorrows := borrows
    totalReserves := reserves
    lastAccrual := env.sequence }
  pure (s.publish (.accrue interest reserveShare borrows reserves env.sequence))

def accrueInterest : Outcome PoolError (Storage Address W) := do
  requireNotPaused s
  let ledgersPassed := env.sequence - s.lastAccrual
  if ledgersPassed = 0 then pure s else accrueLedgers env s ledgersPassed

def requireAdmin (admin : Address) : Outcome PoolError Unit := do
  let storedAdmin ← unwrap s.poolAdmin
  rejectIf (admin ≠ storedAdmin) .notAdmin
  requireAuth env admin

def setPaused (admin : Address) (paused : Bool) : Outcome PoolError (Storage Address W) := do
  requireAdmin env s admin
  pure { s with poolPaused := paused }

def updateConfig (admin : Address) (collateralFactor liquidationThreshold liquidationBonus
    interestRate reserveFactor : Option Int) : Outcome PoolError (Storage Address W) := do
  requireAdmin env s admin
  rejectIf (∃ cf ∈ collateralFactor, 8000 < cf) .collateralFactorTooHigh
  rejectIf (∃ rf ∈ reserveFactor, 5000 < rf) .reserveFactorTooHigh
  pure { s with
    collateralFactor := collateralFactor.getD s.collateralFactor
    liquidationThreshold := liquidationThreshold.getD s.liquidationThreshold
    liquidationBonus := liquidationBonus.getD s.liquidationBonus
    interestRate := interestRate.getD s.interestRate
    reserveFactor := reserveFactor.getD s.reserveFactor }

def setCollateralAsset (admin asset : Address) : Outcome PoolError (Storage Address W) := do
  requireAdmin env s admin
  pure { s with collateralAsset := some asset }

def setCollateralToken (admin asset : Address) : Outcome PoolError (Storage Address W) := do
  requireAdmin env s admin
  pure { s with collateralToken := some asset }

def setPriceOracle (admin oracle : Address) (maxAgeLedgers : Nat) :
    Outcome PoolError (Storage Address W) := do
  requireAdmin env s admin
  rejectIf (maxAgeLedgers = 0) .invalidOraclePrice
  pure { s with priceOracle := some oracle, oracleMaxAge := maxAgeLedgers }

def clearPriceOracle (admin : Address) : Outcome PoolError (Storage Address W) := do
  requireAdmin env s admin
  pure { s with priceOracle := none }

def depositCollateral (src : Address) (amount : Int) :
    Outcome PoolError (Storage Address W) := do
  rejectIf (amount ≤ 0) .zeroAmount
  requireNotPaused s
  requireAuth env src
  let s ← transfer M s (collateralToken contract s) src contract amount
  let pledged ← checked (s.collateralOf src + amount)
  let s := s.setCollateral src pledged
  pure (s.report src (.depCol src amount))

def withdrawCollateral (src : Address) (amount : Int) :
    Outcome PoolError (Storage Address W) := do
  rejectIf (amount ≤ 0) .zeroAmount
  requireNotPaused s
  requireAuth env src
  let current := s.collateralOf src
  rejectIf (current < amount) .insufficientCollateral
  let left ← checked (current - amount)
  let s := s.setCollateral src left
  let health ← calculateHealthFactor M env s src
  rejectIf (health < 10000) .healthFactorBelowOne
  let s ← transfer M s (collateralToken contract s) contract src amount
  pure (s.report src (.wdCol src amount))

inductive Call (Address : Type) where
  | initialise (admin : Address) (collateralFactor liquidationThreshold liquidationBonus
      interestRate reserveFactor : Int)
  | deposit (src : Address) (amount : Int)
  | withdraw (src : Address) (bTokenAmount : Int)
  | borrow (src : Address) (amount : Int)
  | repay (src : Address) (amount : Int)
  | setCollateral (user : Address) (amount : Int)
  | liquidate (liquidator borrower : Address) (repayAmount minCollateral : Int)
  | accrueInterest
  | setPaused (admin : Address) (paused : Bool)
  | updateConfig (admin : Address) (collateralFactor liquidationThreshold liquidationBonus
      interestRate reserveFactor : Option Int)
  | setCollateralAsset (admin asset : Address)
  | setCollateralToken (admin asset : Address)
  | setPriceOracle (admin oracle : Address) (maxAgeLedgers : Nat)
  | clearPriceOracle (admin : Address)
  | depositCollateral (src : Address) (amount : Int)
  | withdrawCollateral (src : Address) (amount : Int)

def invoke : Call Address → Outcome PoolError (Storage Address W)
  | .initialise admin cf lt lb ir rf => initialise env s admin cf lt lb ir rf
  | .deposit src amount => do
    let (_, s) ← deposit M env s src amount
    pure s
  | .withdraw src bTokenAmount => do
    let (_, s) ← withdraw M env s src bTokenAmount
    pure s
  | .borrow src amount => borrow M env s src amount
  | .repay src amount => do
    let (_, s) ← repay M env s src amount
    pure s
  | .setCollateral user amount => setCollateral M env s user amount
  | .liquidate liquidator borrower repayAmount minCollateral =>
    liquidate M env s liquidator borrower repayAmount minCollateral
  | .accrueInterest => accrueInterest env s
  | .setPaused admin paused => setPaused env s admin paused
  | .updateConfig admin cf lt lb ir rf => updateConfig env s admin cf lt lb ir rf
  | .setCollateralAsset admin asset => setCollateralAsset env s admin asset
  | .setCollateralToken admin asset => setCollateralToken env s admin asset
  | .setPriceOracle admin oracle maxAge => setPriceOracle env s admin oracle maxAge
  | .clearPriceOracle admin => clearPriceOracle env s admin
  | .depositCollateral src amount => depositCollateral M env s src amount
  | .withdrawCollateral src amount => withdrawCollateral M env s src amount

def step (s : Storage Address W) : Input Address W contract (Call Address) →
    Outcome PoolError (Storage Address W)
  | .call env c => invoke M env s c
  | .world w => pure { s with world := w }

end Suban.LendingPool.Contract
