import Mathlib.Tactic.Basic

namespace Suban.Hub.Types

inductive HubError where
  | unauthorized
  | invalidArgument
  | notFound
  | paused
  | escrowNotFound
  | milestoneNotApprovable
  | deadlineNotReached
  | deadlineAlreadyPassed
  | insufficientEscrowBalance
  | milestoneAlreadySubmitted
  | invalidEscrowStatus
  | oracleStale
  | feeBpsExceedsMaximum
  deriving DecidableEq

structure Price (Address : Type) where
  asset : Address
  price : Int
  decimals : Nat
  timestamp : Nat
  confidence : Nat

structure Milestone (Address : Type) where
  description : BitVec 256
  amount : Int
  approver : Address

inductive MilestoneStatus where
  | pending
  | submitted
  | approved
  | rejected
  deriving DecidableEq

inductive EscrowStatus where
  | active
  | completed
  | refunded
  | disputed
  deriving DecidableEq

structure EscrowConfig (Address : Type) where
  funder : Address
  receiver : Address
  arbitrator : Address
  asset : Address
  milestones : List (Milestone Address)
  feeBps : Nat
  deadlineLedger : Nat

structure EscrowState (Address : Type) where
  escrowId : Nat
  config : EscrowConfig Address
  totalDeposited : Int
  totalReleased : Int
  milestonesCompleted : Nat
  milestoneStatuses : List MilestoneStatus
  status : EscrowStatus

structure FeeConfig where
  lpShare : Nat
  protocolShare : Nat
  backstopShare : Nat
  platformShare : Nat
  deriving DecidableEq

end Suban.Hub.Types
