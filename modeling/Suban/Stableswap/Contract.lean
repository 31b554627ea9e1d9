import Suban.Basis.Tables
import Suban.Soroban.Host

namespace Suban.Stableswap.Contract

open Suban.Basis.Calls Suban.Basis.Tables Suban.Soroban.Host

inductive StableswapError where
  | notAdmin
  | zeroAmount
  | slippageExceeded
  | insufficientLiquidity
  | insufficientLpShares
  | sameToken
  | invalidFee
  deriving DecidableEq

/-- A call is refused by the pool, divides by zero or subtracts more than there
is. The other traps are not told apart. -/
inductive Fault where
  | pool (e : StableswapError)
  | divisionByZero
  | underflow
  deriving DecidableEq

/-- What the call did, then the tokens of the pool with its state after it. -/
inductive Event (Address : Type) where
  | ssAdd (provider : Address) (amountA amountB shares : Int) (tokenA tokenB : Address)
      (reserveA reserveB totalShares : Int) (amp : Nat)
  | ssRm (provider : Address) (amountA amountB sharesIn : Int) (tokenA tokenB : Address)
      (reserveA reserveB totalShares : Int) (amp : Nat)
  | ssSwap (trader : Address) (amountIn amountOutNet : Int) (tokenIn tokenOut : Address)
      (reserveA reserveB : Int) (feeBps : Nat) (totalShares : Int) (tokenA tokenB : Address)
      (amp : Nat)

def addU (a b : Nat) : Outcome Fault Nat := checkedUInt 128 (a + b)

def mulU (a b : Nat) : Outcome Fault Nat := checkedUInt 128 (a * b)

def subU (a b : Nat) : Outcome Fault Nat :=
  if a < b then .error (.error .underflow) else .ok (a - b)

def divU (a b : Nat) : Outcome Fault Nat :=
  if b = 0 then .error (.error .divisionByZero) else .ok (a / b)

/-- A cast takes over the bits. -/
def asU128 (n : Int) : Nat := (n % 2 ^ 128).toNat

def asI128 (n : Nat) : Int := if n < 2 ^ 127 then n else n - 2 ^ 128

def maxIterations : Nat := 256

def maxAmplification : Nat := 1000000

def close (d prev : Nat) : Bool := decide (if prev < d then d - prev ≤ 1 else prev - d ≤ 1)

section Invariant

variable (reserveA reserveB ann s : Nat)

def nextD (d : Nat) : Outcome Fault Nat := do
  let square ← mulU d d
  let twiceA ← mulU reserveA 2
  let dP ← divU square twiceA
  let product ← mulU dP d
  let twiceB ← mulU reserveB 2
  let dP ← divU product twiceB
  let annS ← mulU ann s
  let twiceP ← mulU dP 2
  let sum ← addU annS twiceP
  let numerator ← mulU sum d
  let annLess ← subU ann 1
  let left ← mulU annLess d
  let right ← mulU 3 dP
  let denominator ← addU left right
  divU numerator denominator

def computeDLoop : Nat → Nat → Outcome Fault Nat
  | 0, d => pure d
  | rounds + 1, d => do
    let next ← nextD reserveA reserveB ann s d
    if close next d then pure next else computeDLoop rounds next

end Invariant

def annFor (amp : Nat) : Outcome Fault Nat := do
  let twice ← mulU amp 2
  mulU twice 2

def computeD (reserveA reserveB amp : Nat) : Outcome Fault Nat := do
  let s ← addU reserveA reserveB
  if s = 0 then pure 0
  else do
    let ann ← annFor amp
    computeDLoop reserveA reserveB ann s maxIterations s

section Output

variable (b c d : Nat)

def nextY (y : Nat) : Outcome Fault Nat := do
  let square ← mulU y y
  let numerator ← addU square c
  let twice ← mulU 2 y
  let sum ← addU twice b
  let denominator ← subU sum d
  divU numerator denominator

def computeYLoop : Nat → Nat → Outcome Fault Nat
  | 0, y => pure y
  | rounds + 1, y => do
    let next ← nextY b c d y
    if close next y then pure next else computeYLoop rounds next

end Output

def solveY (reserveIn amountIn reserveOut ann d : Nat) : Outcome Fault Nat := do
  let newReserveIn ← addU reserveIn amountIn
  let square ← mulU d d
  let twiceIn ← mulU newReserveIn 2
  let c ← divU square twiceIn
  let product ← mulU c d
  let twiceAnn ← mulU ann 2
  let c ← divU product twiceAnn
  let part ← divU d ann
  let b ← addU newReserveIn part
  computeYLoop b c d maxIterations reserveOut

/-- The reserve that keeps the invariant after the other one has grown. -/
def computeY (reserveIn amountIn reserveOut amp : Nat) : Outcome Fault Nat := do
  let ann ← annFor amp
  let d ← computeD reserveIn reserveOut amp
  if d = 0 then pure 0 else solveY reserveIn amountIn reserveOut ann d

/-- The instance storage of the pool, next to the rest of the chain. An entry
that was never written reads as its default. -/
structure Storage (Address W : Type) [DecidableEq Address] where
  admin : Option Address
  tokenA : Option Address
  tokenB : Option Address
  reserveA : Int
  reserveB : Int
  totalShares : Int
  amplification : Option Nat
  feeBps : Nat
  lpBalance : Table Address Int
  events : List (Event Address)
  world : W

variable {Address W : Type} [DecidableEq Address] {contract : Address}

namespace Storage

def fresh (world : W) : Storage Address W where
  admin := none
  tokenA := none
  tokenB := none
  reserveA := 0
  reserveB := 0
  totalShares := 0
  amplification := none
  feeBps := 30
  lpBalance := ∅
  events := []
  world := world

variable (s : Storage Address W)

def publish (e : Event Address) : Storage Address W := { s with events := s.events ++ [e] }

def lpOf (owner : Address) : Int := readOr s.lpBalance owner 0

end Storage

variable (T : Sep41 Address W) (env : Env Address contract) (s : Storage Address W)

def initialise (admin tokenA tokenB : Address) (amplification : Nat) :
    Outcome Fault (Storage Address W) := do
  panicIf s.admin.isSome
  requireAuth env admin
  panicIf (tokenA = tokenB)
  panicIf (amplification = 0)
  panicIf (maxAmplification < amplification)
  pure { s with
    admin := some admin
    tokenA := some tokenA
    tokenB := some tokenB
    reserveA := 0
    reserveB := 0
    totalShares := 0
    amplification := some amplification
    feeBps := 30 }

def setFee (admin : Address) (feeBps : Nat) : Outcome Fault (Storage Address W) := do
  let stored ← unwrap s.admin
  rejectIf (admin ≠ stored) (.pool .notAdmin)
  requireAuth env admin
  rejectIf (1000 < feeBps) (.pool .invalidFee)
  pure { s with feeBps := feeBps }

/-- The shares that a deposit is worth: of an empty pool its invariant, later
the part that the invariant grows by. -/
def sharesFor (amp : Nat) (amountA amountB : Int) : Outcome Fault Int :=
  if s.totalShares = 0 then do
    let d ← computeD (asU128 amountA) (asU128 amountB) amp
    pure (asI128 d)
  else do
    let d0 ← computeD (asU128 s.reserveA) (asU128 s.reserveB) amp
    let reserveA ← checked (s.reserveA + amountA)
    let reserveB ← checked (s.reserveB + amountB)
    let d1 ← computeD (asU128 reserveA) (asU128 reserveB) amp
    let growth ← subU d1 d0
    let scaled ← mulU growth (asU128 s.totalShares)
    let shares ← divU scaled d0
    pure (asI128 shares)

def addLiquidity (provider : Address) (amountA amountB minSharesOut : Int) :
    Outcome Fault (Int × Storage Address W) := do
  requireAuth env provider
  rejectIf (amountA ≤ 0 ∨ amountB ≤ 0) (.pool .zeroAmount)
  let amp ← unwrap s.amplification
  let shares ← sharesFor s amp amountA amountB
  rejectIf (shares < minSharesOut) (.pool .slippageExceeded)
  let tokenA ← unwrap s.tokenA
  let tokenB ← unwrap s.tokenB
  let world ← unwrap (T.transfer s.world tokenA provider contract amountA)
  let world ← unwrap (T.transfer world tokenB provider contract amountB)
  let held ← checked (s.lpOf provider + shares)
  let reserveA ← checked (s.reserveA + amountA)
  let reserveB ← checked (s.reserveB + amountB)
  let totalShares ← checked (s.totalShares + shares)
  let s := { s with
    lpBalance := s.lpBalance.insert provider held
    reserveA := reserveA
    reserveB := reserveB
    totalShares := totalShares
    world := world }
  pure (shares, s.publish
    (.ssAdd provider amountA amountB shares tokenA tokenB reserveA reserveB totalShares amp))

def redeem (sharesIn reserve : Int) : Outcome Fault Int := do
  let scaled ← mulU (asU128 sharesIn) (asU128 reserve)
  let amount ← divU scaled (asU128 s.totalShares)
  pure (asI128 amount)

def removeLiquidity (provider : Address) (sharesIn minAOut minBOut : Int) :
    Outcome Fault ((Int × Int) × Storage Address W) := do
  requireAuth env provider
  rejectIf (sharesIn ≤ 0) (.pool .zeroAmount)
  rejectIf (s.lpOf provider < sharesIn) (.pool .insufficientLpShares)
  rejectIf (s.totalShares = 0) (.pool .insufficientLiquidity)
  let amountA ← redeem s sharesIn s.reserveA
  let amountB ← redeem s sharesIn s.reserveB
  rejectIf (amountA < minAOut ∨ amountB < minBOut) (.pool .slippageExceeded)
  let tokenA ← unwrap s.tokenA
  let tokenB ← unwrap s.tokenB
  let held ← checked (s.lpOf provider - sharesIn)
  let reserveA ← checked (s.reserveA - amountA)
  let reserveB ← checked (s.reserveB - amountB)
  let totalShares ← checked (s.totalShares - sharesIn)
  let world ← unwrap (T.transfer s.world tokenA contract provider amountA)
  let world ← unwrap (T.transfer world tokenB contract provider amountB)
  let amp ← unwrap s.amplification
  let s := { s with
    lpBalance := s.lpBalance.insert provider held
    reserveA := reserveA
    reserveB := reserveB
    totalShares := totalShares
    world := world }
  pure ((amountA, amountB), s.publish
    (.ssRm provider amountA amountB sharesIn tokenA tokenB reserveA reserveB totalShares amp))

/-- The pool as a trade in one of its tokens sees it. -/
structure Side (Address : Type) where
  reserveIn : Int
  reserveOut : Int
  tokenOut : Address
  swapAToB : Bool

def side (tokenIn : Address) : Outcome Fault (Side Address) := do
  let tokenA ← unwrap s.tokenA
  let tokenB ← unwrap s.tokenB
  if tokenIn = tokenA then pure ⟨s.reserveA, s.reserveB, tokenB, true⟩
  else if tokenIn = tokenB then pure ⟨s.reserveB, s.reserveA, tokenA, false⟩
  else .error (.error (.pool .invalidFee))

def outputFor (amp : Nat) (reserveIn reserveOut amountIn : Int) : Outcome Fault Int := do
  let newReserveOut ← computeY (asU128 reserveIn) (asU128 amountIn) (asU128 reserveOut) amp
  let amountOut ← subU (asU128 reserveOut) newReserveOut
  let scaled ← checked (asI128 amountOut * (10000 - s.feeBps))
  pure (scaled.tdiv 10000)

def swap (trader tokenIn : Address) (amountIn minAmountOut : Int) :
    Outcome Fault (Int × Storage Address W) := do
  requireAuth env trader
  rejectIf (amountIn ≤ 0) (.pool .zeroAmount)
  let d ← side s tokenIn
  rejectIf (d.reserveIn = 0 ∨ d.reserveOut = 0) (.pool .insufficientLiquidity)
  let amp ← unwrap s.amplification
  let amountOutNet ← outputFor s amp d.reserveIn d.reserveOut amountIn
  rejectIf (amountOutNet < minAmountOut) (.pool .slippageExceeded)
  let world ← unwrap (T.transfer s.world tokenIn trader contract amountIn)
  let reserveIn ← checked (d.reserveIn + amountIn)
  let reserveOut ← checked (d.reserveOut - amountOutNet)
  let world ← unwrap (T.transfer world d.tokenOut contract trader amountOutNet)
  let s := { s with
    reserveA := if d.swapAToB then reserveIn else reserveOut
    reserveB := if d.swapAToB then reserveOut else reserveIn
    world := world }
  let tokenA ← unwrap s.tokenA
  let tokenB ← unwrap s.tokenB
  pure (amountOutNet, s.publish (.ssSwap trader amountIn amountOutNet tokenIn d.tokenOut
    s.reserveA s.reserveB s.feeBps s.totalShares tokenA tokenB amp))

def getQuote (tokenIn : Address) (amountIn : Int) : Outcome Fault Int := do
  let d ← side s tokenIn
  rejectIf (d.reserveIn = 0 ∨ d.reserveOut = 0) (.pool .insufficientLiquidity)
  let amp ← unwrap s.amplification
  outputFor s amp d.reserveIn d.reserveOut amountIn

inductive Call (Address : Type) where
  | setFee (admin : Address) (feeBps : Nat)
  | addLiquidity (provider : Address) (amountA amountB minSharesOut : Int)
  | removeLiquidity (provider : Address) (sharesIn minAOut minBOut : Int)
  | swap (trader tokenIn : Address) (amountIn minAmountOut : Int)

def invoke : Call Address → Outcome Fault (Storage Address W)
  | .setFee admin feeBps => setFee env s admin feeBps
  | .addLiquidity provider amountA amountB minSharesOut => do
    let (_, s) ← addLiquidity T env s provider amountA amountB minSharesOut
    pure s
  | .removeLiquidity provider sharesIn minAOut minBOut => do
    let (_, s) ← removeLiquidity T env s provider sharesIn minAOut minBOut
    pure s
  | .swap trader tokenIn amountIn minAmountOut => do
    let (_, s) ← swap T env s trader tokenIn amountIn minAmountOut
    pure s

def step (s : Storage Address W) : Input Address W contract (Call Address) →
    Outcome Fault (Storage Address W)
  | .call env c => invoke T env s c
  | .world w => pure { s with world := w }

end Suban.Stableswap.Contract
