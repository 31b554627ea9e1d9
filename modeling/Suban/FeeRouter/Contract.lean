import Suban.Basis.Tables
import Suban.Hub.Types
import Suban.Soroban.Host

namespace Suban.FeeRouter.Contract

open Suban.Basis.Calls Suban.Basis.Tables Suban.Soroban.Host Suban.Hub.Types

abbrev Symbol := String

inductive FeeError where
  | notAdmin
  | invalidBps
  | noRoutes
  | totalBpsMismatch
  deriving DecidableEq

inductive Event (Address : Type) where
  | feeCfg (feeType : Symbol) (config : FeeConfig)
  | feeRt (feeType : Symbol) (source dst : Address) (amount : Int)

structure Storage (Address W : Type) where
  admin : Option Address
  feeConfig : Table Symbol FeeConfig
  events : List (Event Address)
  world : W

variable {Address W : Type} {contract : Address}

namespace Storage

def fresh (world : W) : Storage Address W where
  admin := none
  feeConfig := ∅
  events := []
  world := world

variable (s : Storage Address W)

def publish (e : Event Address) : Storage Address W := { s with events := s.events ++ [e] }

def readAdmin : Outcome FeeError Address := unwrap s.admin

end Storage

variable [DecidableEq Address] (T : Sep41 Address W) (env : Env Address contract)
variable (s : Storage Address W)

def initialise (admin : Address) : Outcome FeeError (Storage Address W) := do
  panicIf s.admin.isSome
  requireAuth env admin
  pure { s with admin := some admin }

/-- The shares are added up in 32 bits. -/
def totalShare (config : FeeConfig) : Outcome FeeError Nat := do
  let total ← checkedUInt 32 (config.lpShare + config.protocolShare)
  let total ← checkedUInt 32 (total + config.backstopShare)
  checkedUInt 32 (total + config.platformShare)

def setFeeConfig (admin : Address) (feeType : Symbol) (config : FeeConfig) :
    Outcome FeeError (Storage Address W) := do
  let currentAdmin ← s.readAdmin
  rejectIf (admin ≠ currentAdmin) .notAdmin
  requireAuth env admin
  let total ← totalShare config
  rejectIf (total ≠ 10000) .totalBpsMismatch
  pure ({ s with feeConfig := s.feeConfig.insert feeType config }.publish (.feeCfg feeType config))

def getFeeConfig (feeType : Symbol) : Option FeeConfig := s.feeConfig.lookup feeType

def shareOf (totalFee : Int) (share : Nat) : Outcome FeeError Int := do
  let scaled ← checked (totalFee * share)
  checkedDiv scaled 10000

structure Fee (Address : Type) where
  source : Address
  token : Address
  feeType : Symbol

def send (f : Fee Address) (dst : Address) (amount : Int) (routed : Int × Storage Address W) :
    Outcome FeeError (Int × Storage Address W) :=
  if 0 < amount then do
    let world ← unwrap (T.transfer routed.2.world f.token f.source dst amount)
    let total ← checked (routed.1 + amount)
    pure (total, { routed.2 with world := world }.publish (.feeRt f.feeType f.source dst amount))
  else pure routed

structure Destinations (Address : Type) where
  lp : Address
  protocol : Address
  backstop : Address
  platform : Address

/-- The last share is what the other three leave. -/
def routeFees (f : Fee Address) (totalFee : Int) (dsts : Destinations Address) :
    Outcome FeeError (Storage Address W) := do
  let config ← okOr (s.feeConfig.lookup f.feeType) .noRoutes
  let lpAmount ← shareOf totalFee config.lpShare
  let protocolAmount ← shareOf totalFee config.protocolShare
  let backstopAmount ← shareOf totalFee config.backstopShare
  let afterLp ← checked (totalFee - lpAmount)
  let afterProtocol ← checked (afterLp - protocolAmount)
  let platformAmount ← checked (afterProtocol - backstopAmount)
  let routed ← send T f dsts.lp lpAmount (0, s)
  let routed ← send T f dsts.protocol protocolAmount routed
  let routed ← send T f dsts.backstop backstopAmount routed
  let routed ← send T f dsts.platform platformAmount routed
  panicIf (routed.1 ≠ totalFee)
  pure routed.2

def setAdmin (admin newAdmin : Address) : Outcome FeeError (Storage Address W) := do
  let currentAdmin ← s.readAdmin
  rejectIf (admin ≠ currentAdmin) .notAdmin
  requireAuth env admin
  pure { s with admin := some newAdmin }

inductive Call (Address : Type) where
  | setFeeConfig (admin : Address) (feeType : Symbol) (config : FeeConfig)
  | routeFees (f : Fee Address) (totalFee : Int) (dsts : Destinations Address)
  | setAdmin (admin newAdmin : Address)

def invoke : Call Address → Outcome FeeError (Storage Address W)
  | .setFeeConfig admin feeType config => setFeeConfig env s admin feeType config
  | .routeFees f totalFee dsts => routeFees T s f totalFee dsts
  | .setAdmin admin newAdmin => setAdmin env s admin newAdmin

def step (s : Storage Address W) : Input Address W contract (Call Address) →
    Outcome FeeError (Storage Address W)
  | .call env c => invoke T env s c
  | .world w => pure { s with world := w }

end Suban.FeeRouter.Contract
