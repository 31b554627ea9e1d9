import Suban.Basis.Tables
import Suban.Soroban.Host

namespace Suban.WpiToken.Contract

open Suban.Basis.Calls Suban.Basis.Tables Suban.Soroban.Host

variable {Address : Type} [DecidableEq Address] {contract : Address}

inductive WpiError where
  | notAdmin
  | paused
  | insufficientBalance
  | insufficientAllowance
  | invalidAmount
  deriving DecidableEq

inductive Event (Address : Type) where
  | transfer (src dst : Address) (amount : Int)
  | mint (admin dst : Address) (amount : Int)
  | burn (admin src : Address) (amount : Int)
  | approve (owner spender : Address) (amount : Int)

/-- The instance storage of the token. A balance or an allowance without an
entry reads as zero. -/
structure Storage (Address : Type) [DecidableEq Address] where
  admin : Option Address
  paused : Bool
  balance : Table Address Int
  allowance : Table (Address × Address) Int
  totalSupply : Int
  events : List (Event Address)

namespace Storage

def fresh : Storage Address := ⟨none, false, ∅, ∅, 0, []⟩

def readAdmin (s : Storage Address) : Outcome WpiError Address := unwrap s.admin

def readBalance (s : Storage Address) (a : Address) : Int := readOr s.balance a 0

def writeBalance (s : Storage Address) (a : Address) (amount : Int) : Storage Address :=
  { s with balance := s.balance.insert a amount }

def readAllowance (s : Storage Address) (src spender : Address) : Int :=
  readOr s.allowance (src, spender) 0

def writeAllowance (s : Storage Address) (src spender : Address) (amount : Int) :
    Storage Address :=
  { s with allowance := s.allowance.insert (src, spender) amount }

def writeTotalSupply (s : Storage Address) (amount : Int) : Storage Address :=
  { s with totalSupply := amount }

def publish (s : Storage Address) (e : Event Address) : Storage Address :=
  { s with events := s.events ++ [e] }

end Storage

variable (env : Env Address contract) (s : Storage Address)

def initialise (admin : Address) : Outcome WpiError (Storage Address) := do
  panicIf s.admin.isSome
  requireAuth env admin
  pure { s with admin := some admin, paused := false }

def approve (owner spender : Address) (amount : Int) : Outcome WpiError (Storage Address) := do
  rejectIf s.paused .paused
  requireAuth env owner
  pure ((s.writeAllowance owner spender amount).publish (.approve owner spender amount))

/-- Both balances are read before either of them is written. -/
def transferInternal (src dst : Address) (amount : Int) :
    Outcome WpiError (Storage Address) := do
  rejectIf (amount < 0) .insufficientBalance
  let srcBalance := s.readBalance src
  rejectIf (srcBalance < amount) .insufficientBalance
  let dstBalance := s.readBalance dst
  let srcAfter ← checked (srcBalance - amount)
  let s := s.writeBalance src srcAfter
  let dstAfter ← checked (dstBalance + amount)
  let s := s.writeBalance dst dstAfter
  pure (s.publish (.transfer src dst amount))

def transfer (src dst : Address) (amount : Int) : Outcome WpiError (Storage Address) := do
  rejectIf s.paused .paused
  requireAuth env src
  transferInternal s src dst amount

def transferFrom (spender src dst : Address) (amount : Int) :
    Outcome WpiError (Storage Address) := do
  rejectIf s.paused .paused
  requireAuth env spender
  let currentAllowance := s.readAllowance src spender
  rejectIf (currentAllowance < amount) .insufficientAllowance
  let allowanceAfter ← checked (currentAllowance - amount)
  transferInternal (s.writeAllowance src spender allowanceAfter) src dst amount

def mint (admin dst : Address) (amount : Int) : Outcome WpiError (Storage Address) := do
  let currentAdmin ← s.readAdmin
  rejectIf (admin ≠ currentAdmin) .notAdmin
  requireAuth env admin
  rejectIf (amount ≤ 0) .invalidAmount
  let dstBalance := s.readBalance dst
  let total := s.totalSupply
  let dstAfter ← checked (dstBalance + amount)
  let totalAfter ← checked (total + amount)
  pure (((s.writeBalance dst dstAfter).writeTotalSupply totalAfter).publish
    (.mint admin dst amount))

def burn (admin src : Address) (amount : Int) : Outcome WpiError (Storage Address) := do
  let currentAdmin ← s.readAdmin
  rejectIf (admin ≠ currentAdmin) .notAdmin
  requireAuth env admin
  rejectIf (amount ≤ 0) .invalidAmount
  let srcBalance := s.readBalance src
  rejectIf (srcBalance < amount) .insufficientBalance
  let total := s.totalSupply
  let srcAfter ← checked (srcBalance - amount)
  let totalAfter ← checked (total - amount)
  pure (((s.writeBalance src srcAfter).writeTotalSupply totalAfter).publish
    (.burn admin src amount))

def setAdmin (admin newAdmin : Address) : Outcome WpiError (Storage Address) := do
  let currentAdmin ← s.readAdmin
  rejectIf (admin ≠ currentAdmin) .notAdmin
  requireAuth env admin
  pure { s with admin := some newAdmin }

def setPaused (admin : Address) (paused : Bool) : Outcome WpiError (Storage Address) := do
  let currentAdmin ← s.readAdmin
  rejectIf (admin ≠ currentAdmin) .notAdmin
  requireAuth env admin
  pure { s with paused := paused }

inductive Call (Address : Type) where
  | approve (owner spender : Address) (amount : Int)
  | transfer (src dst : Address) (amount : Int)
  | transferFrom (spender src dst : Address) (amount : Int)
  | mint (admin dst : Address) (amount : Int)
  | burn (admin src : Address) (amount : Int)
  | setAdmin (admin newAdmin : Address)
  | setPaused (admin : Address) (paused : Bool)

/-- One invocation of the token, by whoever `env` says has authorised it. -/
def step (s : Storage Address) (i : Env Address contract × Call Address) :
    Outcome WpiError (Storage Address) :=
  match i.2 with
  | .approve owner spender amount => approve i.1 s owner spender amount
  | .transfer src dst amount => transfer i.1 s src dst amount
  | .transferFrom spender src dst amount => transferFrom i.1 s spender src dst amount
  | .mint admin dst amount => mint i.1 s admin dst amount
  | .burn admin src amount => burn i.1 s admin src amount
  | .setAdmin admin newAdmin => setAdmin i.1 s admin newAdmin
  | .setPaused admin paused => setPaused i.1 s admin paused

end Suban.WpiToken.Contract
