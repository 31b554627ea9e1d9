import Suban.Basis.Tables
import Suban.Soroban.Host

namespace Suban.CpmmPool.Contract

open Suban.Basis.Calls Suban.Basis.Tables Suban.Soroban.Host

inductive PoolError where
  | notAdmin
  | insufficientLiquidity
  | slippageExceeded
  | zeroAmount
  | sameToken
  | invalidFee
  | insufficientLpShares
  deriving DecidableEq

/-- A call is refused by the pool, or it divides by zero. The other traps are
not told apart. -/
inductive Fault where
  | pool (e : PoolError)
  | divisionByZero
  deriving DecidableEq

/-- What the call did, then the tokens of the pool with its state after it. -/
inductive Event (Address : Type) where
  | addLiq (provider : Address) (amountA amountB shares : Int) (tokenA tokenB : Address)
      (reserveA reserveB totalShares : Int)
  | rmLiq (provider : Address) (amountA amountB sharesIn : Int) (tokenA tokenB : Address)
      (reserveA reserveB totalShares : Int)
  | swap (trader : Address) (amountIn amountOut : Int) (tokenIn tokenOut : Address)
      (reserveA reserveB : Int) (feeBps : Nat) (totalShares : Int) (tokenA tokenB : Address)

/-- The instance storage of the pool, next to the rest of the chain. An entry
that was never written reads as its default. -/
structure Storage (Address W : Type) [DecidableEq Address] where
  admin : Option Address
  tokenA : Option Address
  tokenB : Option Address
  reserveA : Int
  reserveB : Int
  totalShares : Int
  feeBps : Nat
  lpBalance : Table Address Int
  events : List (Event Address)
  world : W

variable {Address W : Type} [DecidableEq Address] {contract : Address}

namespace Storage

def fresh (world : W) : Storage Address W where
  admin := none
  tokenA := none
  tokenB := none
  reserveA := 0
  reserveB := 0
  totalShares := 0
  feeBps := 30
  lpBalance := ∅
  events := []
  world := world

variable (s : Storage Address W)

def publish (e : Event Address) : Storage Address W := { s with events := s.events ++ [e] }

def lpOf (owner : Address) : Int := readOr s.lpBalance owner 0

end Storage

def quotient (a b : Int) : Outcome Fault Int :=
  if b = 0 then .error (.error .divisionByZero) else checked (a.tdiv b)

def quotientU (a b : Nat) : Outcome Fault Nat :=
  if b = 0 then .error (.error .divisionByZero) else .ok (a / b)

/-- The Babylonian method, as long as its guess gets smaller. -/
def isqrtLoop (n x y : Nat) : Outcome Fault Nat :=
  if y < x then do
    let q ← quotientU n y
    let sum ← checkedUInt 128 (y + q)
    isqrtLoop n y (sum / 2)
  else pure x
termination_by x

def isqrt (n : Nat) : Outcome Fault Nat :=
  if n = 0 then pure 0
  else do
    let sum ← checkedUInt 128 (n + 1)
    isqrtLoop n n (sum / 2)

variable (T : Sep41 Address W) (env : Env Address contract) (s : Storage Address W)

def initialise (admin tokenA tokenB : Address) (feeBps : Nat) :
    Outcome Fault (Storage Address W) := do
  panicIf s.admin.isSome
  requireAuth env admin
  panicIf (tokenA = tokenB)
  panicIf (1000 < feeBps)
  pure { s with
    admin := some admin
    tokenA := some tokenA
    tokenB := some tokenB
    reserveA := 0
    reserveB := 0
    totalShares := 0
    feeBps := feeBps }

/-- The shares that a deposit is worth: of an empty pool the square root of the
product, later the smaller of the two parts. -/
def sharesFor (amountA amountB : Int) : Outcome Fault Int :=
  if s.totalShares = 0 then do
    let product ← checkedUInt 128 (amountA.toNat * amountB.toNat)
    let root ← isqrt product
    pure root
  else do
    let scaledA ← checked (amountA * s.totalShares)
    let sharesA ← quotient scaledA s.reserveA
    let scaledB ← checked (amountB * s.totalShares)
    let sharesB ← quotient scaledB s.reserveB
    pure (min sharesA sharesB)

def addLiquidity (provider : Address) (amountA amountB minSharesOut : Int) :
    Outcome Fault (Int × Storage Address W) := do
  requireAuth env provider
  rejectIf (amountA ≤ 0 ∨ amountB ≤ 0) (.pool .zeroAmount)
  let shares ← sharesFor s amountA amountB
  rejectIf (shares < minSharesOut) (.pool .slippageExceeded)
  let tokenA ← unwrap s.tokenA
  let tokenB ← unwrap s.tokenB
  let world ← unwrap (T.transfer s.world tokenA provider contract amountA)
  let world ← unwrap (T.transfer world tokenB provider contract amountB)
  let held ← checked (s.lpOf provider + shares)
  let reserveA ← checked (s.reserveA + amountA)
  let reserveB ← checked (s.reserveB + amountB)
  let totalShares ← checked (s.totalShares + shares)
  let s := { s with
    lpBalance := s.lpBalance.insert provider held
    reserveA := reserveA
    reserveB := reserveB
    totalShares := totalShares
    world := world }
  pure (shares, s.publish
    (.addLiq provider amountA amountB shares tokenA tokenB reserveA reserveB totalShares))

def redeem (sharesIn reserve : Int) : Outcome Fault Int := do
  let scaled ← checked (sharesIn * reserve)
  quotient scaled s.totalShares

def removeLiquidity (provider : Address) (sharesIn minAOut minBOut : Int) :
    Outcome Fault ((Int × Int) × Storage Address W) := do
  requireAuth env provider
  rejectIf (sharesIn ≤ 0) (.pool .zeroAmount)
  rejectIf (s.lpOf provider < sharesIn) (.pool .insufficientLpShares)
  rejectIf (s.totalShares = 0) (.pool .insufficientLiquidity)
  let amountA ← redeem s sharesIn s.reserveA
  let amountB ← redeem s sharesIn s.reserveB
  rejectIf (amountA < minAOut ∨ amountB < minBOut) (.pool .slippageExceeded)
  let tokenA ← unwrap s.tokenA
  let tokenB ← unwrap s.tokenB
  let held ← checked (s.lpOf provider - sharesIn)
  let reserveA ← checked (s.reserveA - amountA)
  let reserveB ← checked (s.reserveB - amountB)
  let totalShares ← checked (s.totalShares - sharesIn)
  let world ← unwrap (T.transfer s.world tokenA contract provider amountA)
  let world ← unwrap (T.transfer world tokenB contract provider amountB)
  let s := { s with
    lpBalance := s.lpBalance.insert provider held
    reserveA := reserveA
    reserveB := reserveB
    totalShares := totalShares
    world := world }
  pure ((amountA, amountB), s.publish
    (.rmLiq provider amountA amountB sharesIn tokenA tokenB reserveA reserveB totalShares))

structure Side (Address : Type) where
  reserveIn : Int
  reserveOut : Int
  tokenOut : Address
  swapToA : Bool

def side (tokenIn : Address) : Outcome Fault (Side Address) := do
  let tokenA ← unwrap s.tokenA
  let tokenB ← unwrap s.tokenB
  if tokenIn = tokenA then pure ⟨s.reserveA, s.reserveB, tokenB, false⟩
  else if tokenIn = tokenB then pure ⟨s.reserveB, s.reserveA, tokenA, true⟩
  else .error (.error (.pool .invalidFee))

/-- The output at constant product, after the fee has come off the input. -/
def outputFor (reserveIn reserveOut amountIn : Int) : Outcome Fault Int := do
  rejectIf (reserveIn = 0 ∨ reserveOut = 0) (.pool .insufficientLiquidity)
  panicIf (10000 < s.feeBps)
  let scaledIn ← checked (amountIn * (10000 - s.feeBps))
  let amountInAfterFee := scaledIn.tdiv 10000
  let scaledOut ← checked (reserveOut * amountInAfterFee)
  let divisor ← checked (reserveIn + amountInAfterFee)
  quotient scaledOut divisor

def swap (trader tokenIn : Address) (amountIn minAmountOut : Int) :
    Outcome Fault (Int × Storage Address W) := do
  requireAuth env trader
  rejectIf (amountIn ≤ 0) (.pool .zeroAmount)
  let d ← side s tokenIn
  let amountOut ← outputFor s d.reserveIn d.reserveOut amountIn
  rejectIf (amountOut < minAmountOut) (.pool .slippageExceeded)
  let world ← unwrap (T.transfer s.world tokenIn trader contract amountIn)
  let reserveOut ← checked (d.reserveOut - amountOut)
  let reserveIn ← checked (d.reserveIn + amountIn)
  let world ← unwrap (T.transfer world d.tokenOut contract trader amountOut)
  let s := { s with
    reserveA := if d.swapToA then reserveOut else reserveIn
    reserveB := if d.swapToA then reserveIn else reserveOut
    world := world }
  let tokenA ← unwrap s.tokenA
  let tokenB ← unwrap s.tokenB
  pure (amountOut, s.publish (.swap trader amountIn amountOut tokenIn d.tokenOut s.reserveA
    s.reserveB s.feeBps s.totalShares tokenA tokenB))

def reservesFor (tokenIn : Address) : Outcome Fault (Int × Int) := do
  let tokenA ← unwrap s.tokenA
  let tokenB ← unwrap s.tokenB
  if tokenIn = tokenA then pure (s.reserveA, s.reserveB)
  else if tokenIn = tokenB then pure (s.reserveB, s.reserveA)
  else .error (.error (.pool .invalidFee))

def getQuote (tokenIn : Address) (amountIn : Int) : Outcome Fault Int := do
  let (reserveIn, reserveOut) ← reservesFor s tokenIn
  rejectIf (reserveIn = 0 ∨ reserveOut = 0) (.pool .insufficientLiquidity)
  panicIf (10000 < s.feeBps)
  let scaledIn ← checked (amountIn * (10000 - s.feeBps))
  let amountInAfterFee := scaledIn.tdiv 10000
  let scaledOut ← checked (reserveOut * amountInAfterFee)
  let divisor ← checked (reserveIn + amountInAfterFee)
  quotient scaledOut divisor

inductive Call (Address : Type) where
  | addLiquidity (provider : Address) (amountA amountB minSharesOut : Int)
  | removeLiquidity (provider : Address) (sharesIn minAOut minBOut : Int)
  | swap (trader tokenIn : Address) (amountIn minAmountOut : Int)

def invoke : Call Address → Outcome Fault (Storage Address W)
  | .addLiquidity provider amountA amountB minSharesOut => do
    let (_, s) ← addLiquidity T env s provider amountA amountB minSharesOut
    pure s
  | .removeLiquidity provider sharesIn minAOut minBOut => do
    let (_, s) ← removeLiquidity T env s provider sharesIn minAOut minBOut
    pure s
  | .swap trader tokenIn amountIn minAmountOut => do
    let (_, s) ← swap T env s trader tokenIn amountIn minAmountOut
    pure s

def step (s : Storage Address W) : Input Address W contract (Call Address) →
    Outcome Fault (Storage Address W)
  | .call env c => invoke T env s c
  | .world w => pure { s with world := w }

end Suban.CpmmPool.Contract
