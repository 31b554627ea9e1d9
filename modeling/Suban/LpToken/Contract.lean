import Suban.Basis.Tables
import Suban.Soroban.Host

namespace Suban.LpToken.Contract

open Suban.Basis.Calls Suban.Basis.Tables Suban.Soroban.Host

variable {Address : Type} [DecidableEq Address] {contract : Address}

inductive LpError where
  | notAdmin
  | paused
  | insufficientBalance
  | insufficientAllowance
  | invalidAmount
  deriving DecidableEq

inductive Event (Address : Type) where
  | transfer (src dst : Address) (amount : Int)
  | mint (admin dst : Address) (amount : Int)
  | burn (admin src : Address) (amount : Int)

/-- The instance storage of the token. A balance or an allowance without an
entry reads as zero. -/
structure Storage (Address : Type) [DecidableEq Address] where
  admin : Option Address
  paused : Bool
  totalSupply : Int
  balance : Table Address Int
  allowance : Table (Address × Address) Int
  events : List (Event Address)

namespace Storage

def fresh : Storage Address := ⟨none, false, 0, ∅, ∅, []⟩

def readAdmin (s : Storage Address) : Outcome LpError Address := unwrap s.admin

def readBalance (s : Storage Address) (a : Address) : Int := readOr s.balance a 0

def writeBalance (s : Storage Address) (a : Address) (amount : Int) : Storage Address :=
  { s with balance := s.balance.insert a amount }

def readAllowance (s : Storage Address) (src spender : Address) : Int :=
  readOr s.allowance (src, spender) 0

def writeAllowance (s : Storage Address) (src spender : Address) (amount : Int) :
    Storage Address :=
  { s with allowance := s.allowance.insert (src, spender) amount }

def writeTotalSupply (s : Storage Address) (amount : Int) : Storage Address :=
  { s with totalSupply := amount }

def publish (s : Storage Address) (e : Event Address) : Storage Address :=
  { s with events := s.events ++ [e] }

end Storage

variable (env : Env Address contract) (s : Storage Address)

def initialise (admin : Address) : Outcome LpError (Storage Address) := do
  panicIf s.admin.isSome
  requireAuth env admin
  pure { s with admin := some admin, paused := false, totalSupply := 0 }

/-- The recipient's balance is read after the sender's has been written. -/
def moveBalance (src dst : Address) (amount : Int) : Outcome LpError (Storage Address) := do
  let srcAfter ← checked (s.readBalance src - amount)
  let s := s.writeBalance src srcAfter
  let dstAfter ← checked (s.readBalance dst + amount)
  let s := s.writeBalance dst dstAfter
  pure (s.publish (.transfer src dst amount))

def transfer (src dst : Address) (amount : Int) : Outcome LpError (Storage Address) := do
  rejectIf s.paused .paused
  rejectIf (amount ≤ 0) .invalidAmount
  requireAuth env src
  rejectIf (s.readBalance src < amount) .insufficientBalance
  moveBalance s src dst amount

def transferFrom (spender src dst : Address) (amount : Int) :
    Outcome LpError (Storage Address) := do
  rejectIf s.paused .paused
  rejectIf (amount ≤ 0) .invalidAmount
  requireAuth env spender
  let allowance := s.readAllowance src spender
  rejectIf (allowance < amount) .insufficientAllowance
  rejectIf (s.readBalance src < amount) .insufficientBalance
  let allowanceAfter ← checked (allowance - amount)
  moveBalance (s.writeAllowance src spender allowanceAfter) src dst amount

def approve (owner spender : Address) (amount : Int) : Outcome LpError (Storage Address) := do
  rejectIf s.paused .paused
  requireAuth env owner
  pure (s.writeAllowance owner spender amount)

def mint (admin dst : Address) (amount : Int) : Outcome LpError (Storage Address) := do
  let currentAdmin ← s.readAdmin
  rejectIf (admin ≠ currentAdmin) .notAdmin
  requireAuth env admin
  rejectIf (amount ≤ 0) .invalidAmount
  let dstAfter ← checked (s.readBalance dst + amount)
  let s := s.writeBalance dst dstAfter
  let totalAfter ← checked (s.totalSupply + amount)
  pure ((s.writeTotalSupply totalAfter).publish (.mint admin dst amount))

def burn (admin src : Address) (amount : Int) : Outcome LpError (Storage Address) := do
  let currentAdmin ← s.readAdmin
  rejectIf (admin ≠ currentAdmin) .notAdmin
  requireAuth env admin
  rejectIf (amount ≤ 0) .invalidAmount
  let bal := s.readBalance src
  rejectIf (bal < amount) .insufficientBalance
  let srcAfter ← checked (bal - amount)
  let s := s.writeBalance src srcAfter
  let totalAfter ← checked (s.totalSupply - amount)
  pure ((s.writeTotalSupply totalAfter).publish (.burn admin src amount))

def setPaused (admin : Address) (paused : Bool) : Outcome LpError (Storage Address) := do
  let currentAdmin ← s.readAdmin
  rejectIf (admin ≠ currentAdmin) .notAdmin
  requireAuth env admin
  pure { s with paused := paused }

inductive Call (Address : Type) where
  | transfer (src dst : Address) (amount : Int)
  | transferFrom (spender src dst : Address) (amount : Int)
  | approve (owner spender : Address) (amount : Int)
  | mint (admin dst : Address) (amount : Int)
  | burn (admin src : Address) (amount : Int)
  | setPaused (admin : Address) (paused : Bool)

/-- One invocation of the token, by whoever `env` says has authorised it. -/
def step (s : Storage Address) (i : Env Address contract × Call Address) :
    Outcome LpError (Storage Address) :=
  match i.2 with
  | .transfer src dst amount => transfer i.1 s src dst amount
  | .transferFrom spender src dst amount => transferFrom i.1 s spender src dst amount
  | .approve owner spender amount => approve i.1 s owner spender amount
  | .mint admin dst amount => mint i.1 s admin dst amount
  | .burn admin src amount => burn i.1 s admin src amount
  | .setPaused admin paused => setPaused i.1 s admin paused

end Suban.LpToken.Contract
