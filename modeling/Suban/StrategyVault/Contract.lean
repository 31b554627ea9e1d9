import Suban.Basis.Tables
import Suban.Soroban.Host

namespace Suban.StrategyVault.Contract

open Suban.Basis.Calls Suban.Basis.Tables Suban.Soroban.Host

inductive VaultError where
  | notAdmin
  | paused
  | zeroAmount
  | depositCapExceeded
  | insufficientShares
  | strategyAlreadySet
  | vaultNotEmpty
  | invalidCap
  deriving DecidableEq

inductive Event (Address : Type) where
  | strategy (admin strategy : Address)
  | cap (admin : Address) (depositCap : Int)
  | pause (admin : Address) (paused : Bool)
  | deposit (src : Address) (amount shares totalAssets totalShares : Int)
  | withdraw (src : Address) (shares assets totalAssets totalShares : Int)

structure Storage (Address W : Type) [DecidableEq Address] where
  admin : Option Address
  asset : Option Address
  strategy : Option Address
  depositCap : Int
  totalAssets : Int
  totalShares : Int
  paused : Bool
  shares : Table Address Int
  events : List (Event Address)
  world : W

variable {Address W : Type} [DecidableEq Address] {contract : Address}

namespace Storage

def fresh (world : W) : Storage Address W where
  admin := none
  asset := none
  strategy := none
  depositCap := 0
  totalAssets := 0
  totalShares := 0
  paused := false
  shares := ∅
  events := []
  world := world

variable (s : Storage Address W)

def publish (e : Event Address) : Storage Address W := { s with events := s.events ++ [e] }

def readAdmin : Outcome VaultError Address := unwrap s.admin

def readAsset : Outcome VaultError Address := unwrap s.asset

def readShares (user : Address) : Int := readOr s.shares user 0

def writeShares (user : Address) (shares : Int) : Storage Address W :=
  { s with shares := s.shares.insert user shares }

end Storage

variable (T : Sep41 Address W) (env : Env Address contract) (s : Storage Address W)

def initialise (admin asset : Address) (depositCap : Int) :
    Outcome VaultError (Storage Address W) := do
  panicIf s.admin.isSome
  requireAuth env admin
  panicIf (depositCap ≤ 0)
  pure { s with
    admin := some admin
    asset := some asset
    depositCap := depositCap
    totalAssets := 0
    totalShares := 0
    paused := false }

def requireNotPaused : Outcome VaultError Unit := rejectIf s.paused .paused

def requireAdmin (admin : Address) : Outcome VaultError Unit := do
  let stored ← s.readAdmin
  rejectIf (admin ≠ stored) .notAdmin
  requireAuth env admin

def setStrategy (admin strategy : Address) : Outcome VaultError (Storage Address W) := do
  requireAdmin env s admin
  requireNotPaused s
  rejectIf (s.totalAssets ≠ 0) .vaultNotEmpty
  rejectIf s.strategy.isSome .strategyAlreadySet
  pure ({ s with strategy := some strategy }.publish (.strategy admin strategy))

def setDepositCap (admin : Address) (depositCap : Int) :
    Outcome VaultError (Storage Address W) := do
  requireAdmin env s admin
  rejectIf (depositCap ≤ 0 ∨ depositCap < s.totalAssets) .invalidCap
  pure ({ s with depositCap := depositCap }.publish (.cap admin depositCap))

def setPaused (admin : Address) (paused : Bool) : Outcome VaultError (Storage Address W) := do
  requireAdmin env s admin
  pure ({ s with paused := paused }.publish (.pause admin paused))

def transfer (src dst : Address) (amount : Int) : Outcome VaultError (Storage Address W) := do
  let asset ← s.readAsset
  let world ← unwrap (T.transfer s.world asset src dst amount)
  pure { s with world := world }

def sharesFor (amount : Int) : Outcome VaultError Int :=
  if s.totalShares = 0 then pure amount
  else do
    let scaled ← checked (amount * s.totalShares)
    checkedDiv scaled s.totalAssets

def deposit (src : Address) (amount : Int) : Outcome VaultError (Int × Storage Address W) := do
  requireNotPaused s
  requireAuth env src
  rejectIf (amount ≤ 0) .zeroAmount
  let totalAssets ← checked (s.totalAssets + amount)
  rejectIf (s.depositCap < totalAssets) .depositCapExceeded
  let shares ← sharesFor s amount
  rejectIf (shares ≤ 0) .zeroAmount
  let s ← transfer T s src contract amount
  let held ← checked (s.readShares src + shares)
  let s := s.writeShares src held
  let totalShares ← checked (s.totalShares + shares)
  let s := { s with totalAssets := totalAssets, totalShares := totalShares }
  pure (shares, s.publish (.deposit src amount shares totalAssets totalShares))

/-- A pause does not keep anyone from withdrawing. -/
def withdraw (src : Address) (shares : Int) : Outcome VaultError (Int × Storage Address W) := do
  requireAuth env src
  rejectIf (shares ≤ 0) .zeroAmount
  let userShares := s.readShares src
  rejectIf (userShares < shares) .insufficientShares
  let scaled ← checked (shares * s.totalAssets)
  let assets ← checkedDiv scaled s.totalShares
  rejectIf (assets ≤ 0) .zeroAmount
  let left ← checked (userShares - shares)
  let s := s.writeShares src left
  let totalAssets ← checked (s.totalAssets - assets)
  let totalShares ← checked (s.totalShares - shares)
  let s := { s with totalAssets := totalAssets, totalShares := totalShares }
  let s ← transfer T s contract src assets
  pure (assets, s.publish (.withdraw src shares assets totalAssets totalShares))

inductive Call (Address : Type) where
  | setStrategy (admin strategy : Address)
  | setDepositCap (admin : Address) (depositCap : Int)
  | setPaused (admin : Address) (paused : Bool)
  | deposit (src : Address) (amount : Int)
  | withdraw (src : Address) (shares : Int)

def invoke : Call Address → Outcome VaultError (Storage Address W)
  | .setStrategy admin strategy => setStrategy env s admin strategy
  | .setDepositCap admin depositCap => setDepositCap env s admin depositCap
  | .setPaused admin paused => setPaused env s admin paused
  | .deposit src amount => do
    let (_, s) ← deposit T env s src amount
    pure s
  | .withdraw src shares => do
    let (_, s) ← withdraw T env s src shares
    pure s

def step (s : Storage Address W) : Input Address W contract (Call Address) →
    Outcome VaultError (Storage Address W)
  | .call env c => invoke T env s c
  | .world w => pure { s with world := w }

end Suban.StrategyVault.Contract
