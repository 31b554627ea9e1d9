import Suban.Basis.Tables
import Suban.Soroban.Host

namespace Suban.LiquidityMining.Contract

open Suban.Basis.Calls Suban.Basis.Tables Suban.Soroban.Host

structure FarmInfo (Address : Type) where
  rewardToken : Address
  rewardPerLedger : Int
  totalStaked : Int
  lastLedger : Nat
  accumulatedRewardsPerShare : Int

structure StakeInfo where
  amount : Int
  rewardDebt : Int

inductive MiningError where
  | notAdmin
  | alreadyInitialized
  | zeroAmount
  | insufficientStake
  | noRewards
  deriving DecidableEq

inductive Event (Address : Type) where
  | rateSet (newRate : Int)
  | staked (user : Address) (amount : Int)
  | unstake (user : Address) (amount pending : Int)
  | claimed (user : Address) (pending : Int)

structure Storage (Address W : Type) [DecidableEq Address] where
  admin : Option Address
  farm : Option (FarmInfo Address)
  stake : Table Address StakeInfo
  events : List (Event Address)
  world : W

variable {Address W : Type} [DecidableEq Address] {contract : Address}

namespace Storage

def fresh (world : W) : Storage Address W := ⟨none, none, ∅, [], world⟩

variable (s : Storage Address W)

def publish (e : Event Address) : Storage Address W := { s with events := s.events ++ [e] }

def readAdmin : Outcome MiningError Address := unwrap s.admin

def readFarm : Outcome MiningError (FarmInfo Address) := unwrap s.farm

def writeFarm (farm : FarmInfo Address) : Storage Address W := { s with farm := some farm }

def readStake (user : Address) : StakeInfo := readOr s.stake user ⟨0, 0⟩

def writeStake (user : Address) (stake : StakeInfo) : Storage Address W :=
  { s with stake := s.stake.insert user stake }

end Storage

variable (T : Sep41 Address W) (env : Env Address contract) (s : Storage Address W)

def accumulate (farm : FarmInfo Address) (ledgersPassed : Nat) : Outcome MiningError Int := do
  let reward ← checked (farm.rewardPerLedger * ledgersPassed)
  let scaled ← checked (reward * 1000000)
  let perShare ← checkedDiv scaled farm.totalStaked
  checked (farm.accumulatedRewardsPerShare + perShare)

def accrueLedgers (farm : FarmInfo Address) (ledgersPassed : Nat) :
    Outcome MiningError (FarmInfo Address) := do
  let accumulated ← accumulate farm ledgersPassed
  pure { farm with accumulatedRewardsPerShare := accumulated, lastLedger := env.sequence }

/-- The farm, accrued up to the current ledger. While nobody stakes, its last
ledger stays where it was. -/
def accrueFarm (farm : FarmInfo Address) : Outcome MiningError (FarmInfo Address) :=
  if farm.totalStaked = 0 then pure farm
  else if 0 < env.sequence - farm.lastLedger then
    accrueLedgers env farm (env.sequence - farm.lastLedger)
  else pure farm

def accrueRewards : Outcome MiningError (Storage Address W) := do
  let farm ← s.readFarm
  let farm ← accrueFarm env farm
  pure (s.writeFarm farm)

def initialise (admin rewardToken : Address) (rewardPerLedger : Int) :
    Outcome MiningError (Storage Address W) := do
  panicIf s.admin.isSome
  requireAuth env admin
  panicIf (rewardPerLedger < 0)
  let farm :=
    { rewardToken := rewardToken
      rewardPerLedger := rewardPerLedger
      totalStaked := 0
      lastLedger := env.sequence
      accumulatedRewardsPerShare := 0 }
  pure ({ s with admin := some admin }.writeFarm farm)

def setRewardPerLedger (admin : Address) (newRate : Int) :
    Outcome MiningError (Storage Address W) := do
  let current ← s.readAdmin
  rejectIf (admin ≠ current) .notAdmin
  requireAuth env admin
  rejectIf (newRate < 0) .zeroAmount
  let s ← accrueRewards env s
  let farm ← s.readFarm
  let s := s.writeFarm { farm with rewardPerLedger := newRate }
  pure (s.publish (.rateSet newRate))

def transfer (token src dst : Address) (amount : Int) :
    Outcome MiningError (Storage Address W) := do
  let world ← unwrap (T.transfer s.world token src dst amount)
  pure { s with world := world }

def shareOf (amount accumulated : Int) : Outcome MiningError Int := do
  let scaled ← checked (amount * accumulated)
  checkedDiv scaled 1000000

def pendingOf (stake : StakeInfo) (accumulated : Int) : Outcome MiningError Int := do
  let share ← shareOf stake.amount accumulated
  checked (share - stake.rewardDebt)

/-- Rewards are paid in the token that is staked, out of the same balance. -/
def payPending (contract token user : Address) (pending : Int) :
    Outcome MiningError (Storage Address W) :=
  if 0 < pending then transfer T s token contract user pending else pure s

def stake (user : Address) (amount : Int) : Outcome MiningError (Storage Address W) := do
  requireAuth env user
  rejectIf (amount ≤ 0) .zeroAmount
  let s ← accrueRewards env s
  let farm ← s.readFarm
  let userStake := s.readStake user
  let s ← transfer T s farm.rewardToken user contract amount
  let pending ← pendingOf userStake farm.accumulatedRewardsPerShare
  let s ← payPending T s contract farm.rewardToken user pending
  let staked ← checked (userStake.amount + amount)
  let rewardDebt ← shareOf staked farm.accumulatedRewardsPerShare
  let s := s.writeStake user ⟨staked, rewardDebt⟩
  let totalStaked ← checked (farm.totalStaked + amount)
  let s := s.writeFarm { farm with totalStaked := totalStaked }
  pure (s.publish (.staked user amount))

def unstake (user : Address) (amount : Int) :
    Outcome MiningError (Int × Storage Address W) := do
  requireAuth env user
  rejectIf (amount ≤ 0) .zeroAmount
  let s ← accrueRewards env s
  let farm ← s.readFarm
  let userStake := s.readStake user
  rejectIf (userStake.amount < amount) .insufficientStake
  let pending ← pendingOf userStake farm.accumulatedRewardsPerShare
  let staked ← checked (userStake.amount - amount)
  let rewardDebt ← shareOf staked farm.accumulatedRewardsPerShare
  let s := s.writeStake user ⟨staked, rewardDebt⟩
  let totalStaked ← checked (farm.totalStaked - amount)
  let s := s.writeFarm { farm with totalStaked := totalStaked }
  let s ← transfer T s farm.rewardToken contract user amount
  let s ← payPending T s contract farm.rewardToken user pending
  pure (pending, s.publish (.unstake user amount pending))

def claim (user : Address) : Outcome MiningError (Int × Storage Address W) := do
  requireAuth env user
  let s ← accrueRewards env s
  let farm ← s.readFarm
  let userStake := s.readStake user
  let pending ← pendingOf userStake farm.accumulatedRewardsPerShare
  rejectIf (pending ≤ 0) .noRewards
  let rewardDebt ← shareOf userStake.amount farm.accumulatedRewardsPerShare
  let s := s.writeStake user ⟨userStake.amount, rewardDebt⟩
  let s ← transfer T s farm.rewardToken contract user pending
  pure (pending, s.publish (.claimed user pending))

def simulateAccrual (farm : FarmInfo Address) : Outcome MiningError Int :=
  let ledgersPassed := env.sequence - farm.lastLedger
  if 0 < ledgersPassed ∧ 0 < farm.totalStaked then accumulate farm ledgersPassed
  else pure farm.accumulatedRewardsPerShare

def pendingRewards (user : Address) : Outcome MiningError Int := do
  let farm ← s.readFarm
  let userStake := s.readStake user
  if userStake.amount = 0 then pure 0
  else do
    let accumulated ← simulateAccrual env farm
    pendingOf userStake accumulated

inductive Call (Address : Type) where
  | setRewardPerLedger (admin : Address) (newRate : Int)
  | stake (user : Address) (amount : Int)
  | unstake (user : Address) (amount : Int)
  | claim (user : Address)

def invoke : Call Address → Outcome MiningError (Storage Address W)
  | .setRewardPerLedger admin newRate => setRewardPerLedger env s admin newRate
  | .stake user amount => stake T env s user amount
  | .unstake user amount => do
    let (_, s) ← unstake T env s user amount
    pure s
  | .claim user => do
    let (_, s) ← claim T env s user
    pure s

def step (s : Storage Address W) : Input Address W contract (Call Address) →
    Outcome MiningError (Storage Address W)
  | .call env c => invoke T env s c
  | .world w => pure { s with world := w }

end Suban.LiquidityMining.Contract
