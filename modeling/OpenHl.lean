import OpenHl.Clearing.Accounts
import OpenHl.Clearing.ApplyFill
import OpenHl.Clearing.FreeCollateral
import OpenHl.Clearing.SplitFills
import OpenHl.Clob.BestLevel
import OpenHl.Clob.Book
import OpenHl.Clob.Cancel
import OpenHl.Clob.Invariant
import OpenHl.Clob.Matching
import OpenHl.Clob.PriceTime
import OpenHl.Clob.Reference
import OpenHl.Clob.Takers
import OpenHl.Consensus.Chain
import OpenHl.Consensus.Cluster
import OpenHl.Consensus.ClusterSafety
import OpenHl.Consensus.ClusterStreams
import OpenHl.Consensus.ConsensusBridge
import OpenHl.Consensus.EngineApp
import OpenHl.Consensus.EngineLoop
import OpenHl.Consensus.FillRouting
import OpenHl.Consensus.LiveLoop
import OpenHl.Consensus.OpenHlCodec
import OpenHl.Consensus.Outgoing
import OpenHl.Consensus.Replication
import OpenHl.Consensus.Signing
import OpenHl.Consensus.Streams
import OpenHl.Consensus.Validators
import OpenHl.Core.BigEndian
import OpenHl.Core.Calls
import OpenHl.Core.Codec
import OpenHl.Core.Framing
import OpenHl.Core.FuelLoop
import OpenHl.Core.Greedy
import OpenHl.Core.Journal
import OpenHl.Core.Keyed
import OpenHl.Core.LatestWins
import OpenHl.Core.LockOrder
import OpenHl.Core.Machine
import OpenHl.Core.Majority
import OpenHl.Core.MapOf
import OpenHl.Core.Numbered
import OpenHl.Core.QueueMap
import OpenHl.Core.Ranked
import OpenHl.Core.ReplicatedLog
import OpenHl.Core.Reservoir
import OpenHl.Core.RoundRobin
import OpenHl.Core.Savepoint
import OpenHl.Core.SortedMap
import OpenHl.Core.StableRank
import OpenHl.Core.TwoKey
import OpenHl.Core.Waterfall
import OpenHl.Devnet.BlockBooks
import OpenHl.Devnet.ChainHistory
import OpenHl.Devnet.Collateral
import OpenHl.Devnet.CommitHook
import OpenHl.Devnet.ExchangeBooks
import OpenHl.Devnet.FilledSizes
import OpenHl.Devnet.ForcedCloses
import OpenHl.Devnet.MarginHealth
import OpenHl.Devnet.OpenInterest
import OpenHl.Devnet.PeerAddresses
import OpenHl.Devnet.Restarts
import OpenHl.Devnet.ValidatorFile
import OpenHl.Evm.AccountPrecompiles
import OpenHl.Evm.BlockExecution
import OpenHl.Evm.Bridge
import OpenHl.Evm.Bridges
import OpenHl.Evm.Locks
import OpenHl.Evm.Margin
import OpenHl.Evm.Payload
import OpenHl.Evm.Precompiles
import OpenHl.Evm.Proposal
import OpenHl.Evm.Quotes
import OpenHl.Evm.RevertGuard
import OpenHl.Evm.SignedWords
import OpenHl.Evm.Snapshot
import OpenHl.Evm.WithdrawHealth
import OpenHl.Evm.Withdrawals
import OpenHl.Funding.Clock
import OpenHl.Funding.Redistribution
import OpenHl.Funding.Saturation
import OpenHl.Liquidation.Absorption
import OpenHl.Liquidation.Adl
import OpenHl.Liquidation.Classification
import OpenHl.Liquidation.FundFlow
import OpenHl.Liquidation.Margin
import OpenHl.Liquidation.Monotonicity
import OpenHl.Liquidation.Scanner
import OpenHl.Node.Freshness
import OpenHl.Node.FundingSpacing
import OpenHl.Node.Ingestion
import OpenHl.Node.Snapshot
import OpenHl.Node.Tick
import OpenHl.Oracle.Authenticity
import OpenHl.Oracle.Robustness
import OpenHl.Oracle.State
import OpenHl.Vault.Ledger
import OpenHl.Vault.Redemption
import OpenHl.Vault.Shares
import OpenHl.Vault.State
