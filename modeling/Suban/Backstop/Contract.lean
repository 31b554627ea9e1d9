import Suban.Basis.Tables
import Suban.Soroban.Host

namespace Suban.Backstop.Contract

open Suban.Basis.Calls Suban.Basis.Tables Suban.Soroban.Host

inductive BackstopError where
  | notAdmin
  | paused
  | zeroAmount
  | insufficientBalance
  | depositTooSmall
  | depositTooLarge
  | noShares
  | claimPending
  | claimExpired
  | noBadDebt
  deriving DecidableEq

structure ClaimRequest (Address : Type) where
  depositor : Address
  shares : Int
  requestedAt : Nat

/-- The instance storage of the backstop, next to the rest of the chain. An
entry that was never written reads as its default. -/
structure Storage (Address W : Type) [DecidableEq Address] where
  poolAdmin : Option Address
  poolAddress : Option Address
  backstopAsset : Option Address
  claimRequests : Table Address (ClaimRequest Address)
  backstopBalance : Int
  backstopTarget : Int
  depositors : Table Address Int
  depositorShares : Table Address Int
  totalShares : Int
  totalDeposits : Int
  paused : Bool
  claimDelay : Nat
  maxDeposit : Int
  minDeposit : Int
  world : W

variable {Address W : Type} [DecidableEq Address] {contract : Address}

namespace Storage

def fresh (world : W) : Storage Address W where
  poolAdmin := none
  poolAddress := none
  backstopAsset := none
  claimRequests := ∅
  backstopBalance := 0
  backstopTarget := 0
  depositors := ∅
  depositorShares := ∅
  totalShares := 0
  totalDeposits := 0
  paused := false
  claimDelay := 0
  maxDeposit := maxI128
  minDeposit := 0
  world := world

variable (s : Storage Address W)

def sharesOf (depositor : Address) : Int := readOr s.depositorShares depositor 0

def depositOf (depositor : Address) : Int := readOr s.depositors depositor 0

def setShares (depositor : Address) (shares : Int) : Storage Address W :=
  { s with depositorShares := s.depositorShares.insert depositor shares }

def setDeposit (depositor : Address) (amount : Int) : Storage Address W :=
  { s with depositors := s.depositors.insert depositor amount }

end Storage

variable (T : Sep41 Address W) (env : Env Address contract) (s : Storage Address W)

/-- Nothing looks at whether the module was initialised before, and nobody
authorises it. -/
def initialise (admin pool asset : Address) (target : Int) (claimDelay : Nat)
    (maxDeposit minDeposit : Int) : Outcome BackstopError (Storage Address W) := do
  rejectIf (target ≤ 0) .zeroAmount
  pure { s with
    poolAdmin := some admin
    poolAddress := some pool
    backstopAsset := some asset
    backstopTarget := target
    claimDelay := claimDelay
    maxDeposit := maxDeposit
    minDeposit := minDeposit
    backstopBalance := 0
    totalShares := 0
    totalDeposits := 0
    paused := false }

def requireNotPaused : Outcome BackstopError Unit := rejectIf s.paused .paused

/-- The asset that is insured. Until one is set it is the module's own address. -/
def backstopAsset (contract : Address) (s : Storage Address W) : Address :=
  s.backstopAsset.getD contract

def transfer (contract src dst : Address) (amount : Int) :
    Outcome BackstopError (Storage Address W) := do
  let world ← unwrap (T.transfer s.world (backstopAsset contract s) src dst amount)
  pure { s with world := world }

def sharesFor (amount : Int) : Outcome BackstopError Int :=
  if s.totalShares = 0 then pure amount
  else do
    let scaled ← checked (amount * s.totalShares)
    checkedDiv scaled s.totalDeposits

def deposit (src : Address) (amount : Int) :
    Outcome BackstopError (Int × Storage Address W) := do
  rejectIf (amount ≤ 0) .zeroAmount
  requireNotPaused s
  requireAuth env src
  rejectIf (amount < s.minDeposit) .depositTooSmall
  rejectIf (s.maxDeposit < amount) .depositTooLarge
  let shares ← sharesFor s amount
  let held ← checked (s.sharesOf src + shares)
  let s := s.setShares src held
  let totalShares ← checked (s.totalShares + shares)
  let totalDeposits ← checked (s.totalDeposits + amount)
  let s := { s with totalShares := totalShares, totalDeposits := totalDeposits }
  let balance ← checked (s.backstopBalance + amount)
  let s := { s with backstopBalance := balance }
  let deposited ← checked (s.depositOf src + amount)
  let s := s.setDeposit src deposited
  let s ← transfer T s contract src contract amount
  pure (shares, s)

/-- The payout comes off the deposits, and the balance stays as it is. -/
def withdraw (src : Address) (shares : Int) :
    Outcome BackstopError (Int × Storage Address W) := do
  rejectIf (shares ≤ 0) .zeroAmount
  requireNotPaused s
  requireAuth env src
  let currentShares := s.sharesOf src
  rejectIf (currentShares < shares) .insufficientBalance
  let scaled ← checked (shares * s.totalDeposits)
  let amount ← checkedDiv scaled s.totalShares
  let left ← checked (currentShares - shares)
  let s := s.setShares src left
  let totalShares ← checked (s.totalShares - shares)
  let totalDeposits ← checked (s.totalDeposits - amount)
  let s := { s with totalShares := totalShares, totalDeposits := totalDeposits }
  let deposited ← checked (s.depositOf src - amount)
  let s := s.setDeposit src deposited
  let s ← transfer T s contract contract src amount
  pure (amount, s)

def requestClaim (src : Address) (shares : Int) : Outcome BackstopError (Storage Address W) := do
  rejectIf (shares ≤ 0) .zeroAmount
  requireNotPaused s
  requireAuth env src
  pure { s with claimRequests := s.claimRequests.insert src ⟨src, shares, env.sequence⟩ }

def payoutFor (shares : Int) : Outcome BackstopError Int :=
  if 0 < s.totalShares then do
    let scaled ← checked (shares * s.backstopBalance)
    checkedDiv scaled s.totalShares
  else pure 0

def claim (src : Address) (shares : Int) : Outcome BackstopError (Int × Storage Address W) := do
  rejectIf (shares ≤ 0) .zeroAmount
  requireNotPaused s
  requireAuth env src
  let request ← okOr (s.claimRequests.lookup src) .claimPending
  let due ← checkedUInt 32 (request.requestedAt + s.claimDelay)
  rejectIf (env.sequence < due) .claimPending
  let s := { s with claimRequests := s.claimRequests.erase src }
  let currentShares := s.sharesOf src
  rejectIf (currentShares < shares) .insufficientBalance
  let payout ← payoutFor s shares
  rejectIf (payout ≤ 0) .noBadDebt
  let left ← checked (currentShares - shares)
  let s := s.setShares src left
  let totalShares ← checked (s.totalShares - shares)
  let totalDeposits ← checked (s.totalDeposits - payout)
  let s := { s with totalShares := totalShares, totalDeposits := totalDeposits }
  let balance ← checked (s.backstopBalance - payout)
  let s := { s with backstopBalance := balance }
  let s ← transfer T s contract contract src payout
  pure (payout, s)

/-- What is covered comes off the balance, and the deposits stay as they are. -/
def absorbBadDebt (amount : Int) : Outcome BackstopError (Storage Address W) := do
  requireNotPaused s
  let pool ← unwrap s.poolAddress
  requireAuth env pool
  let covered := if s.backstopBalance < amount then s.backstopBalance else amount
  let balance ← checked (s.backstopBalance - covered)
  let s := { s with backstopBalance := balance }
  transfer T s contract contract pool covered

def setPaused (admin : Address) (paused : Bool) : Outcome BackstopError (Storage Address W) := do
  let storedAdmin ← unwrap s.poolAdmin
  rejectIf (admin ≠ storedAdmin) .notAdmin
  requireAuth env admin
  pure { s with paused := paused }

inductive Call (Address : Type) where
  | initialise (admin pool asset : Address) (target : Int) (claimDelay : Nat)
      (maxDeposit minDeposit : Int)
  | deposit (src : Address) (amount : Int)
  | withdraw (src : Address) (shares : Int)
  | requestClaim (src : Address) (shares : Int)
  | claim (src : Address) (shares : Int)
  | absorbBadDebt (amount : Int)
  | setPaused (admin : Address) (paused : Bool)

def invoke : Call Address → Outcome BackstopError (Storage Address W)
  | .initialise admin pool asset target claimDelay maxDeposit minDeposit =>
    initialise s admin pool asset target claimDelay maxDeposit minDeposit
  | .deposit src amount => do
    let (_, s) ← deposit T env s src amount
    pure s
  | .withdraw src shares => do
    let (_, s) ← withdraw T env s src shares
    pure s
  | .requestClaim src shares => requestClaim env s src shares
  | .claim src shares => do
    let (_, s) ← claim T env s src shares
    pure s
  | .absorbBadDebt amount => absorbBadDebt T env s amount
  | .setPaused admin paused => setPaused env s admin paused

def step (s : Storage Address W) : Input Address W contract (Call Address) →
    Outcome BackstopError (Storage Address W)
  | .call env c => invoke T env s c
  | .world w => pure { s with world := w }

end Suban.Backstop.Contract
