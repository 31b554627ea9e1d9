import Suban.Basis.Tables
import Suban.Soroban.Host

namespace Suban.SwapRouter.Contract

open Suban.Basis.Calls Suban.Basis.Tables Suban.Soroban.Host

structure PoolRoute (Address : Type) where
  poolAddress : Address
  tokenA : Address
  tokenB : Address
  feeBps : Nat
  deriving DecidableEq

structure SwapStep (Address : Type) where
  poolAddress : Address
  tokenIn : Address
  tokenOut : Address
  deriving DecidableEq

inductive RouterError where
  | notAdmin
  | alreadyInitialized
  | poolNotFound
  | noPathFound
  | invalidToken
  | invalidFee
  deriving DecidableEq

inductive Event (Address : Type) where
  | rtrAdd (poolId : Nat) (tokenA tokenB : Address)

structure Storage (Address : Type) where
  admin : Option Address
  poolCount : Nat
  pool : Table Nat (PoolRoute Address)
  events : List (Event Address)

variable {Address : Type} [DecidableEq Address] {contract : Address}

namespace Storage

def fresh : Storage Address := ⟨none, 0, ∅, []⟩

def readAdmin (s : Storage Address) : Outcome RouterError Address := unwrap s.admin

end Storage

variable (env : Env Address contract) (s : Storage Address)

def initialise (admin : Address) : Outcome RouterError (Storage Address) := do
  panicIf s.admin.isSome
  requireAuth env admin
  pure { s with admin := some admin, poolCount := 0 }

def registerPool (admin poolAddress tokenA tokenB : Address) (feeBps : Nat) :
    Outcome RouterError (Nat × Storage Address) := do
  let currentAdmin ← s.readAdmin
  rejectIf (admin ≠ currentAdmin) .notAdmin
  requireAuth env admin
  rejectIf (1000 < feeBps) .invalidFee
  let count := s.poolCount
  let poolCount ← checkedUInt 32 (count + 1)
  pure (count, { s with
    pool := s.pool.insert count ⟨poolAddress, tokenA, tokenB, feeBps⟩
    poolCount := poolCount
    events := s.events ++ [.rtrAdd count tokenA tokenB] })

def PoolRoute.matches (route : PoolRoute Address) (tokenIn tokenOut : Address) : Bool :=
  route.tokenA = tokenIn && route.tokenB = tokenOut ||
    route.tokenB = tokenIn && route.tokenA = tokenOut

section Search

variable (tokenIn tokenOut : Address)

/-- The loop over the pools, from some id on. -/
def findPoolFrom : List Nat → Outcome RouterError (PoolRoute Address)
  | [] => .error (.error .noPathFound)
  | i :: is => do
    let route ← okOr (s.pool.lookup i) .poolNotFound
    if route.matches tokenIn tokenOut then pure route else findPoolFrom is

def findPool : Outcome RouterError (PoolRoute Address) :=
  findPoolFrom s tokenIn tokenOut (List.range s.poolCount)

def PoolRoute.intermediate (route : PoolRoute Address) (tokenIn : Address) : Option Address :=
  if route.tokenA = tokenIn then some route.tokenB
  else if route.tokenB = tokenIn then some route.tokenA
  else none

/-- The loop over the first pools of a path with two steps. -/
def findPathFrom : List Nat → Outcome RouterError (SwapStep Address × Option (SwapStep Address))
  | [] => .error (.error .noPathFound)
  | i :: is => do
    let route ← okOr (s.pool.lookup i) .poolNotFound
    match route.intermediate tokenIn with
    | none => findPathFrom is
    | some inter =>
      match findPool s inter tokenOut with
      | .ok route2 => pure (⟨route.poolAddress, tokenIn, inter⟩,
          some ⟨route2.poolAddress, inter, tokenOut⟩)
      | .error .panic => .error .panic
      | .error (.error _) => findPathFrom is

def findPath : Outcome RouterError (SwapStep Address × Option (SwapStep Address)) :=
  match findPool s tokenIn tokenOut with
  | .ok route => pure (⟨route.poolAddress, tokenIn, tokenOut⟩, none)
  | .error .panic => .error .panic
  | .error (.error _) => findPathFrom s tokenIn tokenOut (List.range s.poolCount)

end Search

def listPools : List (PoolRoute Address) := (List.range s.poolCount).filterMap s.pool.lookup

structure Invocation (Address : Type) (contract : Address) where
  env : Env Address contract
  admin : Address
  poolAddress : Address
  tokenA : Address
  tokenB : Address
  feeBps : Nat

def step (s : Storage Address) (i : Invocation Address contract) :
    Outcome RouterError (Storage Address) := do
  let (_, s) ← registerPool i.env s i.admin i.poolAddress i.tokenA i.tokenB i.feeBps
  pure s

end Suban.SwapRouter.Contract
