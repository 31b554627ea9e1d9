import Suban.Basis.Tables
import Suban.Soroban.Host

namespace Suban.UsdcVault.Contract

open Suban.Basis.Calls Suban.Basis.Tables Suban.Soroban.Host

inductive VaultError where
  | notAdmin
  | paused
  | insufficientBalance
  | insufficientVaultBalance
  | belowReserveMinimum
  | invalidAmount
  | usdcTokenNotSet
  | alreadyInitialized
  deriving DecidableEq

inductive Event (Address : Type) where
  | deposit (depositor : Address) (amount : Int)
  | release (recipient : Address) (amount : Int)
  | withdraw (admin destination : Address) (amount : Int)

structure Storage (Address W : Type) [DecidableEq Address] where
  admin : Option Address
  paused : Bool
  usdcToken : Option Address
  totalDeposited : Int
  totalReleased : Int
  deposits : Table Address Int
  reserveBalance : Int
  events : List (Event Address)
  world : W

variable {Address W : Type} [DecidableEq Address] {contract : Address}

namespace Storage

def fresh (world : W) : Storage Address W where
  admin := none
  paused := false
  usdcToken := none
  totalDeposited := 0
  totalReleased := 0
  deposits := ∅
  reserveBalance := 0
  events := []
  world := world

variable (s : Storage Address W)

def publish (e : Event Address) : Storage Address W := { s with events := s.events ++ [e] }

def readAdmin : Outcome VaultError Address := unwrap s.admin

def readUserDeposit (user : Address) : Int := readOr s.deposits user 0

end Storage

variable (T : Sep41 Address W) (env : Env Address contract) (s : Storage Address W)

def initialise (admin usdcToken : Address) : Outcome VaultError (Storage Address W) := do
  panicIf s.admin.isSome
  requireAuth env admin
  pure { s with
    admin := some admin
    usdcToken := some usdcToken
    paused := false
    totalDeposited := 0
    totalReleased := 0
    reserveBalance := 0 }

def requireAdmin (admin : Address) : Outcome VaultError Unit := do
  let currentAdmin ← s.readAdmin
  rejectIf (admin ≠ currentAdmin) .notAdmin
  requireAuth env admin

def deposit (depositor : Address) (amount : Int) : Outcome VaultError (Storage Address W) := do
  rejectIf s.paused .paused
  rejectIf (amount ≤ 0) .invalidAmount
  requireAuth env depositor
  let usdc ← okOr s.usdcToken .usdcTokenNotSet
  let world ← unwrap (T.transfer s.world usdc depositor contract amount)
  let total ← checked (s.totalDeposited + amount)
  let userTotal ← checked (s.readUserDeposit depositor + amount)
  pure ({ s with
    totalDeposited := total
    deposits := s.deposits.insert depositor userTotal
    world := world }.publish (.deposit depositor amount))

/-- What a release and a withdrawal share: the vault pays what it holds above
the reserve minimum. -/
def payOut (contract : Address) (recipient : Address) (amount : Int) : Outcome VaultError W := do
  rejectIf (amount ≤ 0) .invalidAmount
  let usdc ← okOr s.usdcToken .usdcTokenNotSet
  let vaultBalance := T.balance s.world usdc contract
  rejectIf (vaultBalance < amount) .insufficientVaultBalance
  rejectIf (vaultBalance - amount < s.reserveBalance) .belowReserveMinimum
  unwrap (T.transfer s.world usdc contract recipient amount)

def release (admin recipient : Address) (amount : Int) :
    Outcome VaultError (Storage Address W) := do
  requireAdmin env s admin
  rejectIf s.paused .paused
  let world ← payOut T s contract recipient amount
  let released ← checked (s.totalReleased + amount)
  pure ({ s with totalReleased := released, world := world }.publish (.release recipient amount))

/-- A pause does not keep the administrator from withdrawing, and a withdrawal
is not counted as a release. -/
def adminWithdraw (admin destination : Address) (amount : Int) :
    Outcome VaultError (Storage Address W) := do
  requireAdmin env s admin
  let world ← payOut T s contract destination amount
  pure ({ s with world := world }.publish (.withdraw admin destination amount))

def setReserveMinimum (admin : Address) (reserveMinimum : Int) :
    Outcome VaultError (Storage Address W) := do
  requireAdmin env s admin
  pure { s with reserveBalance := reserveMinimum }

def setPaused (admin : Address) (paused : Bool) : Outcome VaultError (Storage Address W) := do
  requireAdmin env s admin
  pure { s with paused := paused }

def setAdmin (admin newAdmin : Address) : Outcome VaultError (Storage Address W) := do
  requireAdmin env s admin
  pure { s with admin := some newAdmin }

def vaultBalance (contract : Address) : Int :=
  match s.usdcToken with
  | some usdc => T.balance s.world usdc contract
  | none => 0

def availableBalance (contract : Address) : Outcome VaultError Int :=
  let balance := vaultBalance T s contract
  if balance < s.reserveBalance then pure 0 else checked (balance - s.reserveBalance)

inductive Call (Address : Type) where
  | initialise (admin usdcToken : Address)
  | deposit (depositor : Address) (amount : Int)
  | release (admin recipient : Address) (amount : Int)
  | adminWithdraw (admin destination : Address) (amount : Int)
  | setReserveMinimum (admin : Address) (reserveMinimum : Int)
  | setPaused (admin : Address) (paused : Bool)
  | setAdmin (admin newAdmin : Address)

def invoke : Call Address → Outcome VaultError (Storage Address W)
  | .initialise admin usdcToken => initialise env s admin usdcToken
  | .deposit depositor amount => deposit T env s depositor amount
  | .release admin recipient amount => release T env s admin recipient amount
  | .adminWithdraw admin destination amount => adminWithdraw T env s admin destination amount
  | .setReserveMinimum admin reserveMinimum => setReserveMinimum env s admin reserveMinimum
  | .setPaused admin paused => setPaused env s admin paused
  | .setAdmin admin newAdmin => setAdmin env s admin newAdmin

def step : Input Address W contract (Call Address) → Outcome VaultError (Storage Address W)
  | .call env c => invoke T env s c
  | .world w => pure { s with world := w }

end Suban.UsdcVault.Contract
