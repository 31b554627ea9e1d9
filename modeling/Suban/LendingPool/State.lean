import Suban.Basis.Tables
import Suban.Soroban.Host

namespace Suban.LendingPool.State

open Suban.Basis.Calls Suban.Basis.Tables Suban.Soroban.Host

inductive PoolError where
  | notAdmin
  | poolPaused
  | insufficientBalance
  | insufficientCollateral
  | healthFactorBelowOne
  | liquidationNotProfitable
  | slippageExceeded
  | zeroAmount
  | reserveFactorTooHigh
  | collateralFactorTooHigh
  | oracleUnavailable
  | invalidOraclePrice
  deriving DecidableEq

structure UserPosition where
  deposit : Int
  borrow : Int
  collateral : Int

structure PoolTotals where
  supplies : Int
  borrows : Int
  reserves : Int

/-- What the pool publishes, with the position and the totals as the operation
leaves them. -/
inductive Event (Address : Type) where
  | deposit (src : Address) (amount bTokens : Int) (after : UserPosition) (totals : PoolTotals)
  | withdraw (src : Address) (bTokenAmount underlying : Int) (after : UserPosition)
      (totals : PoolTotals)
  | borrow (src : Address) (amount : Int) (after : UserPosition) (totals : PoolTotals)
  | repay (src : Address) (repayAmount : Int) (after : UserPosition) (totals : PoolTotals)
  | setCol (user : Address) (amount : Int) (after : UserPosition) (totals : PoolTotals)
  | liquidate (liquidator borrower : Address) (actualRepay collateralSeize : Int)
      (after : UserPosition) (totals : PoolTotals)
  | accrue (interest reserveShare totalBorrows totalReserves : Int) (ledger : Nat)
  | depCol (src : Address) (amount : Int) (after : UserPosition) (totals : PoolTotals)
  | wdCol (src : Address) (amount : Int) (after : UserPosition) (totals : PoolTotals)

structure Price where
  price : Int
  decimals : Nat
  timestamp : Nat

/-- What an oracle answers when it is asked for a price. -/
inductive Reply where
  | price (p : Price)
  | error
  | trap

/-- The token contracts and the oracles that a pool can be pointed at. -/
structure Market (Address W : Type) [DecidableEq Address] extends Sep41 Address W where
  getPrice : W → Address → Address → Reply

def bookMarket (Address : Type) [DecidableEq Address] :
    Market Address (Address → Address → Nat) where
  toSep41 := bookToken Address
  getPrice _ _ _ := .price ⟨1, 7, 0⟩

/-- The instance storage of a pool, next to the rest of the chain. An entry that
was never written reads as its default. -/
structure Storage (Address W : Type) [DecidableEq Address] where
  poolAdmin : Option Address
  collateralFactor : Int
  liquidationThreshold : Int
  liquidationBonus : Int
  interestRate : Int
  reserveFactor : Int
  poolPaused : Bool
  totalSupplies : Int
  totalBorrows : Int
  totalReserves : Int
  lastAccrual : Nat
  userDeposits : Table Address Int
  userBorrows : Table Address Int
  userCollateral : Table Address Int
  collateralAsset : Option Address
  collateralToken : Option Address
  priceOracle : Option Address
  oracleMaxAge : Nat
  events : List (Event Address)
  world : W

variable {Address W : Type} [DecidableEq Address]

namespace Storage

def fresh (world : W) : Storage Address W where
  poolAdmin := none
  collateralFactor := 8000
  liquidationThreshold := 8500
  liquidationBonus := 500
  interestRate := 500
  reserveFactor := 1000
  poolPaused := false
  totalSupplies := 0
  totalBorrows := 0
  totalReserves := 0
  lastAccrual := 0
  userDeposits := ∅
  userBorrows := ∅
  userCollateral := ∅
  collateralAsset := none
  collateralToken := none
  priceOracle := none
  oracleMaxAge := 10
  events := []
  world := world

variable (s : Storage Address W)

def publish (e : Event Address) : Storage Address W := { s with events := s.events ++ [e] }

def depositOf (user : Address) : Int := readOr s.userDeposits user 0

def borrowOf (user : Address) : Int := readOr s.userBorrows user 0

def collateralOf (user : Address) : Int := readOr s.userCollateral user 0

def setDeposit (user : Address) (amount : Int) : Storage Address W :=
  { s with userDeposits := s.userDeposits.insert user amount }

def setBorrow (user : Address) (amount : Int) : Storage Address W :=
  { s with userBorrows := s.userBorrows.insert user amount }

def setCollateral (user : Address) (amount : Int) : Storage Address W :=
  { s with userCollateral := s.userCollateral.insert user amount }

def readUserPosition (user : Address) : UserPosition :=
  ⟨s.depositOf user, s.borrowOf user, s.collateralOf user⟩

def readPoolTotals : PoolTotals := ⟨s.totalSupplies, s.totalBorrows, s.totalReserves⟩

theorem depositOf_setDeposit (user v : Address) (n : Int) :
    (s.setDeposit user n).depositOf v = if v = user then n else s.depositOf v :=
  readOr_insert _ _ _ _ _

theorem borrowOf_setBorrow (user v : Address) (n : Int) :
    (s.setBorrow user n).borrowOf v = if v = user then n else s.borrowOf v :=
  readOr_insert _ _ _ _ _

theorem collateralOf_setCollateral (user v : Address) (n : Int) :
    (s.setCollateral user n).collateralOf v = if v = user then n else s.collateralOf v :=
  readOr_insert _ _ _ _ _

@[simp] theorem depositOf_setDeposit_self (user : Address) (n : Int) :
    (s.setDeposit user n).depositOf user = n :=
  (s.depositOf_setDeposit user user n).trans (if_pos rfl)

@[simp] theorem borrowOf_setBorrow_self (user : Address) (n : Int) :
    (s.setBorrow user n).borrowOf user = n :=
  (s.borrowOf_setBorrow user user n).trans (if_pos rfl)

@[simp] theorem collateralOf_setCollateral_self (user : Address) (n : Int) :
    (s.setCollateral user n).collateralOf user = n :=
  (s.collateralOf_setCollateral user user n).trans (if_pos rfl)

theorem sum_setDeposit (user : Address) (n : Int) :
    sum (s.setDeposit user n).userDeposits = sum s.userDeposits - s.depositOf user + n :=
  sum_insert _ _ _

theorem sum_setBorrow (user : Address) (n : Int) :
    sum (s.setBorrow user n).userBorrows = sum s.userBorrows - s.borrowOf user + n :=
  sum_insert _ _ _

theorem sum_setCollateral (user : Address) (n : Int) :
    sum (s.setCollateral user n).userCollateral =
      sum s.userCollateral - s.collateralOf user + n :=
  sum_insert _ _ _

/-- An event carries the user's position and the totals as they now are. -/
def report (user : Address) (e : UserPosition → PoolTotals → Event Address) :
    Storage Address W :=
  s.publish (e (s.readUserPosition user) s.readPoolTotals)

end Storage

end Suban.LendingPool.State
