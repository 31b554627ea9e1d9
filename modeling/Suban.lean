import Suban.WpiToken.Conservation
import Suban.BridgeMultisig.Pause
import Suban.BridgeMultisig.Volume
import Suban.BridgeMultisig.Quorum
import Suban.Bridges.Signers
import Suban.BridgeBurnMint.RateLimit
import Suban.BridgeBurnMint.SourceBurns
import Suban.ArcBridge.Validators
import Suban.ArcBridge.Replay
import Suban.ArcBridge.MintCap
import Suban.ArcBridge.Supply
import Suban.LendingPool.Custody
import Suban.LendingPool.RoundTrip
import Suban.LendingPool.Shares
import Suban.LendingPool.Solvency
import Suban.LendingPool.Backing
import Suban.LendingPool.Seizure
import Suban.LendingPool.Signs
import Suban.LendingPool.Debt
import Suban.LendingPool.Interest
import Suban.LendingPool.Accrual
import Suban.LendingPool.BorrowLimit
import Suban.LendingPool.HealthRange
import Suban.Backstop.Accounting
import Suban.Backstop.Authority
import Suban.NodeStaking.Solvency
import Suban.NodeStaking.Bookkeeping
import Suban.LiquidityMining.Principal
import Suban.StrategyVault.Shares
import Suban.CpmmPool.Value
import Suban.CpmmPool.Deposits
import Suban.CpmmPool.Quotes
import Suban.LpToken.Conservation
import Suban.PoolFactory.Registry
import Suban.Oracle.Breaker
import Suban.Escrow.Closing
import Suban.Escrow.Disputes
import Suban.Relayer.Completeness
import Suban.Relayer.Redelivery
import Suban.Relayer.EventIds
import Suban.Relayer.Conservation
import Suban.Indexer.Replay
import Suban.Indexer.Outbox
import Suban.Indexer.Ledgers
import Suban.Indexer.Deliveries
import Suban.Indexer.Freshness
import Suban.Indexer.HorizonClient
import Suban.Indexer.Payloads
import Suban.Indexer.Positions
import Suban.Indexer.LpPositions
import Suban.LiquidationBot.Risk
import Suban.LiquidationBot.Discovery
import Suban.Soroban.Ledgers
import Suban.BridgeMultisig.Recovery
import Suban.BridgeMultisig.DepositIds
import Suban.BridgeMultisig.Deadlines
import Suban.Backstop.Delay
import Suban.Backstop.Requests
import Suban.LiquidityMining.Rewards
import Suban.LiquidityMining.Emission
import Suban.LiquidityMining.Touches
import Suban.StrategyVault.Withdrawals
import Suban.Oracle.Deviation
import Suban.FeeRouter.Routing
import Suban.SwapRouter.Paths
import Suban.CpmmPool.Splitting
import Suban.Stableswap.Reserves
import Suban.Stableswap.RoundTrip
import Suban.CpmmPool.FirstDeposit
import Suban.Relayer.FeeSplit
import Suban.Indexer.Liquidations
import Suban.Basis.StableRest
import Suban.Basis.StableReal
import Suban.Stableswap.Convergence
import Suban.Basis.Timestamps
import Suban.Indexer.Intervals
import Suban.Indexer.PoolStates
import Suban.Indexer.Encodings
import Suban.Indexer.Quotas
import Suban.Indexer.Retries
import Suban.UsdcVault.Reserve
import Suban.EventRegistry
import Suban.IdentityResolver
import Suban.PauseRegistry
import Suban.EscrowFactory
import Suban.LiquidationBot.Exposure
import Suban.Relayer.Stats
import Suban.Relayer.ArcDelivery
import Suban.Indexer.Paging
import Suban.Indexer.Volumes
import Suban.Indexer.Overview
import Suban.CpmmPool.OverTokens
import Suban.Indexer.LendingAccounts
import Suban.Indexer.Access
import Suban.LiquidationBot.Environment
