import Mathlib.Order.Defs.LinearOrder
import Suban.Basis.Tables
import Suban.Soroban.Host

namespace Suban.PoolFactory.Contract

open Suban.Basis.Calls Suban.Basis.Tables Suban.Soroban.Host

variable {Address Bytes32 : Type} [LinearOrder Address] {contract : Address}

inductive PoolType where
  | constantProduct
  | stableswap
  deriving DecidableEq

structure PoolInfo (Address : Type) where
  poolId : Nat
  poolAddress : Address
  tokenA : Address
  tokenB : Address
  poolType : PoolType
  feeBps : Nat
  creator : Address
  name : String
  active : Bool
  deriving DecidableEq

inductive FactoryError where
  | notAdmin
  | poolNotFound
  | pairAlreadyExists
  | invalidFee
  | notCreator
  deriving DecidableEq

inductive Event (Address : Type) where
  | poolNew (poolId : Nat) (tokenA tokenB : Address)
  | poolReg (poolId : Nat) (tokenA tokenB : Address)
  | poolRm (poolId : Nat) (poolAddress : Address)

structure Storage (Address : Type) where
  admin : Option Address
  poolCount : Nat
  pool : Table Nat (PoolInfo Address)
  pairIndex : Table (Address × Address) Nat
  events : List (Event Address)

/-- The pool that the host's deployer makes from a salt and a code hash, at one
moment. It makes none where the deployment fails. -/
abbrev Deployer (Bytes32 Address : Type) := Bytes32 → Bytes32 → Option Address

namespace Storage

def fresh : Storage Address := ⟨none, 0, ∅, ∅, []⟩

def readAdmin (s : Storage Address) : Outcome FactoryError Address := unwrap s.admin

def readPool (s : Storage Address) (poolId : Nat) : Outcome FactoryError (PoolInfo Address) :=
  okOr (s.pool.lookup poolId) .poolNotFound

def writePool (s : Storage Address) (poolId : Nat) (info : PoolInfo Address) : Storage Address :=
  { s with pool := s.pool.insert poolId info }

def writePair (s : Storage Address) (key : Address × Address) (poolId : Nat) : Storage Address :=
  { s with pairIndex := s.pairIndex.insert key poolId }

def publish (s : Storage Address) (e : Event Address) : Storage Address :=
  { s with events := s.events ++ [e] }

end Storage

def nextPoolId (s : Storage Address) : Outcome FactoryError (Storage Address × Nat) := do
  let after ← checkedUInt 32 (s.poolCount + 1)
  pure ({ s with poolCount := after }, s.poolCount)

def pairKey (a b : Address) : Address × Address := if a < b then (a, b) else (b, a)

def poolTypeOf : Nat → Outcome FactoryError PoolType
  | 0 => .ok .constantProduct
  | 1 => .ok .stableswap
  | _ => .error (.error .invalidFee)

variable (env : Env Address contract) (s : Storage Address)

def initialise (admin : Address) : Outcome FactoryError (Storage Address) := do
  panicIf s.admin.isSome
  requireAuth env admin
  pure { s with admin := some admin, poolCount := 0 }

def createPool (deployer : Deployer Bytes32 Address) (caller : Address)
    (wasmHash salt : Bytes32) (tokenA tokenB : Address) (poolType feeBps : Nat) (name : String) :
    Outcome FactoryError (Storage Address × Nat × Address) := do
  requireAuth env caller
  rejectIf (feeBps > 1000) .invalidFee
  let ptype ← poolTypeOf poolType
  let idxKey := pairKey tokenA tokenB
  rejectIf (s.pairIndex.lookup idxKey).isSome .pairAlreadyExists
  let poolAddress ← unwrap (deployer salt wasmHash)
  let (s, poolId) ← nextPoolId s
  let info : PoolInfo Address :=
    ⟨poolId, poolAddress, tokenA, tokenB, ptype, feeBps, caller, name, true⟩
  let s := (s.writePool poolId info).writePair idxKey poolId
  pure (s.publish (.poolNew poolId tokenA tokenB), poolId, poolAddress)

/-- The name of a pool that was deployed elsewhere is fixed. -/
def registerPool (admin poolAddress tokenA tokenB : Address) (poolType feeBps : Nat) :
    Outcome FactoryError (Storage Address × Nat) := do
  let currentAdmin ← s.readAdmin
  rejectIf (admin ≠ currentAdmin) .notAdmin
  requireAuth env admin
  rejectIf (feeBps > 1000) .invalidFee
  let ptype ← poolTypeOf poolType
  let idxKey := pairKey tokenA tokenB
  rejectIf (s.pairIndex.lookup idxKey).isSome .pairAlreadyExists
  let (s, poolId) ← nextPoolId s
  let info : PoolInfo Address :=
    ⟨poolId, poolAddress, tokenA, tokenB, ptype, feeBps, admin, "legacy", true⟩
  let s := (s.writePool poolId info).writePair idxKey poolId
  pure (s.publish (.poolReg poolId tokenA tokenB), poolId)

def removePool (caller : Address) (poolId : Nat) : Outcome FactoryError (Storage Address) := do
  requireAuth env caller
  let info ← s.readPool poolId
  let admin ← s.readAdmin
  rejectIf (caller ≠ info.creator ∧ caller ≠ admin) .notCreator
  let s := s.writePool poolId { info with active := false }
  pure (s.publish (.poolRm poolId info.poolAddress))

def reactivatePool (admin : Address) (poolId : Nat) :
    Outcome FactoryError (Storage Address) := do
  let currentAdmin ← s.readAdmin
  rejectIf (admin ≠ currentAdmin) .notAdmin
  requireAuth env admin
  let info ← s.readPool poolId
  pure (s.writePool poolId { info with active := true })

def getPool (poolId : Nat) : Outcome FactoryError (PoolInfo Address) := s.readPool poolId

def findPool (tokenA tokenB : Address) : Outcome FactoryError (PoolInfo Address) := do
  let poolId ← okOr (s.pairIndex.lookup (pairKey tokenA tokenB)) .poolNotFound
  s.readPool poolId

/-- The loop of the listings: the ids below the counter in order, where `keep`
says which of the pools found are wanted. -/
def collect (keep : PoolInfo Address → Bool) (pools : List (PoolInfo Address)) (i : Nat) :
    List (PoolInfo Address) :=
  match s.pool.lookup i with
  | some info => if keep info then pools ++ [info] else pools
  | none => pools

def listPools : List (PoolInfo Address) :=
  (List.range s.poolCount).foldl (collect s (fun info => info.active)) []

def listAllPools : List (PoolInfo Address) :=
  (List.range s.poolCount).foldl (collect s (fun _ => true)) []

inductive Call (Bytes32 Address : Type) where
  | createPool (caller : Address) (wasmHash salt : Bytes32) (tokenA tokenB : Address)
      (poolType feeBps : Nat) (name : String)
  | registerPool (admin poolAddress tokenA tokenB : Address) (poolType feeBps : Nat)
  | removePool (caller : Address) (poolId : Nat)
  | reactivatePool (admin : Address) (poolId : Nat)

structure Invocation (Bytes32 Address : Type) (contract : Address) where
  env : Env Address contract
  deployer : Deployer Bytes32 Address
  call : Call Bytes32 Address

def step (s : Storage Address) (i : Invocation Bytes32 Address contract) :
    Outcome FactoryError (Storage Address) :=
  match i.call with
  | .createPool caller wasmHash salt tokenA tokenB poolType feeBps name => do
    let r ← createPool i.env s i.deployer caller wasmHash salt tokenA tokenB poolType feeBps name
    pure r.1
  | .registerPool admin poolAddress tokenA tokenB poolType feeBps => do
    let r ← registerPool i.env s admin poolAddress tokenA tokenB poolType feeBps
    pure r.1
  | .removePool caller poolId => removePool i.env s caller poolId
  | .reactivatePool admin poolId => reactivatePool i.env s admin poolId

end Suban.PoolFactory.Contract
