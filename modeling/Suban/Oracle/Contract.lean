import Suban.Basis.Tables
import Suban.Hub.Types
import Suban.Soroban.Host

namespace Suban.Oracle.Contract

open Suban.Basis.Calls Suban.Basis.Tables Suban.Soroban.Host Suban.Hub.Types

inductive Event (Address : Type) where
  | price (asset : Address) (price : Int) (decimals confidence ledger : Nat)

/-- The instance storage of the oracle. An entry that was never written reads
as its default. -/
structure Storage (Address : Type) [DecidableEq Address] where
  admin : Option Address
  price : Table Address (Price Address)
  lastPrice : Table Address (Price Address)
  maxAgeLedgers : Nat
  circuitBreakerThresholdBps : Nat
  events : List (Event Address)

variable {Address : Type} [DecidableEq Address] {contract : Address}

def Storage.fresh : Storage Address where
  admin := none
  price := ∅
  lastPrice := ∅
  maxAgeLedgers := 10
  circuitBreakerThresholdBps := 500
  events := []

variable (env : Env Address contract) (s : Storage Address)

def initialise (admin : Address) (maxAgeLedgers circuitBreakerThresholdBps : Nat) :
    Outcome HubError (Storage Address) := do
  panicIf s.admin.isSome
  requireAuth env admin
  panicIf (circuitBreakerThresholdBps = 0 ∨ 10000 < circuitBreakerThresholdBps)
  pure { s with
    admin := some admin
    maxAgeLedgers := maxAgeLedgers
    circuitBreakerThresholdBps := circuitBreakerThresholdBps }

def requireAdmin (admin : Address) : Outcome HubError Unit := do
  let storedAdmin ← unwrap s.admin
  rejectIf (admin ≠ storedAdmin) .unauthorized
  requireAuth env admin

/-- The first price of an asset is its last known one as well. Later prices
are so when they are committed. -/
def setPrice (admin asset : Address) (price : Int) (decimals confidence : Nat) :
    Outcome HubError (Storage Address) := do
  requireAdmin env s admin
  rejectIf (price ≤ 0) .invalidArgument
  let ledger := env.sequence
  let priceData : Price Address := ⟨asset, price, decimals, ledger, confidence⟩
  pure { s with
    price := s.price.insert asset priceData
    lastPrice := if (s.lastPrice.lookup asset).isSome then s.lastPrice
      else s.lastPrice.insert asset priceData
    events := s.events ++ [.price asset price decimals confidence ledger] }

def commitPrice (admin asset : Address) : Outcome HubError (Storage Address) := do
  requireAdmin env s admin
  let current ← okOr (s.price.lookup asset) .notFound
  pure { s with lastPrice := s.lastPrice.insert asset current }

def getPrice (asset : Address) : Outcome HubError (Price Address) :=
  okOr (s.price.lookup asset) .notFound

def getPriceFresh (asset : Address) (maxAgeLedgers : Nat) : Outcome HubError (Price Address) := do
  let price ← okOr (s.price.lookup asset) .notFound
  rejectIf (maxAgeLedgers < env.sequence - price.timestamp) .oracleStale
  pure price

def isStale (asset : Address) (maxAgeLedgers : Nat) : Bool :=
  match s.price.lookup asset with
  | some price => maxAgeLedgers < env.sequence - price.timestamp
  | none => true

/-- The deviation is cut down to 32 bits before it is compared. -/
def circuitBreakerCheck (asset : Address) (newPrice : Int) (maxDeviationBps : Nat) :
    Outcome HubError Bool :=
  match s.lastPrice.lookup asset with
  | none => pure false
  | some last =>
    if last.price = 0 then pure false
    else do
      let difference ← checked (newPrice - last.price)
      let diff ← checked difference.natAbs
      let scaled ← checkedUInt 128 (diff.toNat * 10000)
      let divisor := (last.price % 2 ^ 128).toNat
      let deviationBps := scaled / divisor % 2 ^ 32
      pure (maxDeviationBps < deviationBps)

def getLastPrice (asset : Address) : Option (Price Address) := s.lastPrice.lookup asset

def setMaxAge (admin : Address) (maxAgeLedgers : Nat) : Outcome HubError (Storage Address) := do
  requireAdmin env s admin
  pure { s with maxAgeLedgers := maxAgeLedgers }

def setBreakerThreshold (admin : Address) (thresholdBps : Nat) :
    Outcome HubError (Storage Address) := do
  requireAdmin env s admin
  rejectIf (thresholdBps = 0 ∨ 10000 < thresholdBps) .invalidArgument
  pure { s with circuitBreakerThresholdBps := thresholdBps }

def setAdmin (admin newAdmin : Address) : Outcome HubError (Storage Address) := do
  requireAdmin env s admin
  pure { s with admin := some newAdmin }

inductive Call (Address : Type) where
  | setPrice (admin asset : Address) (price : Int) (decimals confidence : Nat)
  | commitPrice (admin asset : Address)
  | setMaxAge (admin : Address) (maxAgeLedgers : Nat)
  | setBreakerThreshold (admin : Address) (thresholdBps : Nat)
  | setAdmin (admin newAdmin : Address)

def invoke : Call Address → Outcome HubError (Storage Address)
  | .setPrice admin asset price decimals confidence =>
    setPrice env s admin asset price decimals confidence
  | .commitPrice admin asset => commitPrice env s admin asset
  | .setMaxAge admin maxAgeLedgers => setMaxAge env s admin maxAgeLedgers
  | .setBreakerThreshold admin thresholdBps => setBreakerThreshold env s admin thresholdBps
  | .setAdmin admin newAdmin => setAdmin env s admin newAdmin

end Suban.Oracle.Contract
