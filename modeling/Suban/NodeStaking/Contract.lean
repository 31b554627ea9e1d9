import Suban.Basis.Tables
import Suban.Soroban.Host

namespace Suban.NodeStaking.Contract

open Suban.Basis.Calls Suban.Basis.Tables Suban.Soroban.Host

structure NodeInfo (Address : Type) where
  operator : Address
  staked : Int
  rewardsAccrued : Int
  active : Bool
  joinedAt : Nat

inductive StakingError where
  | notAdmin
  | alreadyInitialized
  | nodeNotFound
  | nodeAlreadyRegistered
  | belowMinStake
  | insufficientBalance
  | nodeNotActive
  | nothingToUnstake
  deriving DecidableEq

inductive Event (Address : Type) where
  | ndReg (operator : Address) (stakeAmount : Int)
  | ndUnstke (operator : Address) (payout : Int)
  | ndClaim (operator : Address) (paid : Int)
  | ndSlash (operator : Address) (slashed : Int)

structure Storage (Address W : Type) [DecidableEq Address] where
  admin : Option Address
  token : Option Address
  node : Table Address (NodeInfo Address)
  totalStaked : Int
  totalNodes : Nat
  minStake : Int
  rewardRateBps : Nat
  slashedAmount : Int
  rewardPool : Int
  events : List (Event Address)
  world : W

variable {Address W : Type} [DecidableEq Address] {contract : Address}

namespace Storage

def fresh (world : W) : Storage Address W where
  admin := none
  token := none
  node := ∅
  totalStaked := 0
  totalNodes := 0
  minStake := 1000000000
  rewardRateBps := 50
  slashedAmount := 0
  rewardPool := 0
  events := []
  world := world

variable (s : Storage Address W)

def publish (e : Event Address) : Storage Address W := { s with events := s.events ++ [e] }

def readAdmin : Outcome StakingError Address := unwrap s.admin

def readToken : Outcome StakingError Address := unwrap s.token

def getNode (operator : Address) : Outcome StakingError (NodeInfo Address) :=
  okOr (s.node.lookup operator) .nodeNotFound

def setNode (operator : Address) (node : NodeInfo Address) : Storage Address W :=
  { s with node := s.node.insert operator node }

end Storage

variable (T : Sep41 Address W) (env : Env Address contract) (s : Storage Address W)

def initialise (admin token : Address) (minStake : Int) (rewardRateBps : Nat) :
    Outcome StakingError (Storage Address W) := do
  panicIf s.admin.isSome
  requireAuth env admin
  pure { s with
    admin := some admin
    token := some token
    totalStaked := 0
    totalNodes := 0
    minStake := minStake
    rewardRateBps := rewardRateBps
    slashedAmount := 0
    rewardPool := 0 }

def transfer (src dst : Address) (amount : Int) : Outcome StakingError (Storage Address W) := do
  let token ← s.readToken
  let world ← unwrap (T.transfer s.world token src dst amount)
  pure { s with world := world }

/-- The reward for a stake is credited when the stake is made. -/
def rewardFor (amount : Int) : Outcome StakingError Int := do
  let scaled ← checked (amount * s.rewardRateBps)
  checkedDiv scaled 10000

def registerNode (operator : Address) (stakeAmount : Int) :
    Outcome StakingError (Storage Address W) := do
  requireAuth env operator
  rejectIf (s.node.lookup operator).isSome .nodeAlreadyRegistered
  rejectIf (stakeAmount < s.minStake) .belowMinStake
  let rewardsAccrued ← rewardFor s stakeAmount
  let s := s.setNode operator
    { operator := operator
      staked := stakeAmount
      rewardsAccrued := rewardsAccrued
      active := true
      joinedAt := env.timestamp }
  let totalStaked ← checked (s.totalStaked + stakeAmount)
  let totalNodes ← checkedUInt 32 (s.totalNodes + 1)
  let s := { s with totalStaked := totalStaked, totalNodes := totalNodes }
  let s ← transfer T s operator contract stakeAmount
  pure (s.publish (.ndReg operator stakeAmount))

def addStake (operator : Address) (amount : Int) : Outcome StakingError (Storage Address W) := do
  requireAuth env operator
  let node ← s.getNode operator
  rejectIf (node.active = false) .nodeNotActive
  let staked ← checked (node.staked + amount)
  let reward ← rewardFor s amount
  let rewardsAccrued ← checked (node.rewardsAccrued + reward)
  let s := s.setNode operator { node with staked := staked, rewardsAccrued := rewardsAccrued }
  let totalStaked ← checked (s.totalStaked + amount)
  let s := { s with totalStaked := totalStaked }
  transfer T s operator contract amount

/-- The accrued rewards are paid out along with the stake, and the reward pool
stays as it is. -/
def unstake (operator : Address) (amount : Int) :
    Outcome StakingError (Int × Storage Address W) := do
  requireAuth env operator
  let node ← s.getNode operator
  rejectIf (amount ≤ 0) .nothingToUnstake
  rejectIf (node.staked < amount) .insufficientBalance
  let staked ← checked (node.staked - amount)
  let payout ← checked (amount + node.rewardsAccrued)
  let s := s.setNode operator
    { node with staked := staked, active := decide (s.minStake ≤ staked), rewardsAccrued := 0 }
  let totalStaked ← checked (s.totalStaked - amount)
  let s := { s with totalStaked := totalStaked }
  let s := s.publish (.ndUnstke operator payout)
  let s ← transfer T s contract operator payout
  pure (payout, s)

def payRewards (contract operator : Address) (node : NodeInfo Address) :
    Outcome StakingError (Int × Storage Address W) := do
  let pool := s.rewardPool
  let paid := if node.rewardsAccrued ≤ pool then node.rewardsAccrued else pool
  let rewardsAccrued ← checked (node.rewardsAccrued - paid)
  let s := s.setNode operator { node with rewardsAccrued := rewardsAccrued }
  let rewardPool ← checked (pool - paid)
  let s := { s with rewardPool := rewardPool }
  let s ← transfer T s contract operator paid
  pure (paid, s.publish (.ndClaim operator paid))

def claimRewards (operator : Address) : Outcome StakingError (Int × Storage Address W) := do
  requireAuth env operator
  let node ← s.getNode operator
  if 0 < node.rewardsAccrued then payRewards T s contract operator node else pure (0, s)

def distributeRewards (admin : Address) (amount : Int) :
    Outcome StakingError (Storage Address W) := do
  let current ← s.readAdmin
  rejectIf (admin ≠ current) .notAdmin
  requireAuth env admin
  let rewardPool ← checked (s.rewardPool + amount)
  let s := { s with rewardPool := rewardPool }
  transfer T s admin contract amount

def slash (admin operator : Address) (amount : Int) :
    Outcome StakingError (Storage Address W) := do
  let current ← s.readAdmin
  rejectIf (admin ≠ current) .notAdmin
  requireAuth env admin
  let node ← s.getNode operator
  let slashed := min amount node.staked
  let staked ← checked (node.staked - slashed)
  let s := s.setNode operator
    { node with staked := staked, active := decide (s.minStake ≤ staked) }
  let slashedAmount ← checked (s.slashedAmount + slashed)
  let totalStaked ← checked (s.totalStaked - slashed)
  let s := { s with slashedAmount := slashedAmount, totalStaked := totalStaked }
  let s ← transfer T s contract admin slashed
  pure (s.publish (.ndSlash operator slashed))

inductive Call (Address : Type) where
  | registerNode (operator : Address) (stakeAmount : Int)
  | addStake (operator : Address) (amount : Int)
  | unstake (operator : Address) (amount : Int)
  | claimRewards (operator : Address)
  | distributeRewards (admin : Address) (amount : Int)
  | slash (admin operator : Address) (amount : Int)

def invoke : Call Address → Outcome StakingError (Storage Address W)
  | .registerNode operator stakeAmount => registerNode T env s operator stakeAmount
  | .addStake operator amount => addStake T env s operator amount
  | .unstake operator amount => do
    let (_, s) ← unstake T env s operator amount
    pure s
  | .claimRewards operator => do
    let (_, s) ← claimRewards T env s operator
    pure s
  | .distributeRewards admin amount => distributeRewards T env s admin amount
  | .slash admin operator amount => slash T env s admin operator amount

def step (s : Storage Address W) : Input Address W contract (Call Address) →
    Outcome StakingError (Storage Address W)
  | .call env c => invoke T env s c
  | .world w => pure { s with world := w }

end Suban.NodeStaking.Contract
