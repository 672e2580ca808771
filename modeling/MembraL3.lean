import MembraL3.Crypto
import MembraL3.Clock
import MembraL3.Lib.HashTree
import MembraL3.Lib.Runs
import MembraL3.Lib.Account
import MembraL3.Lib.Lock
import MembraL3.Lib.Store
import MembraL3.MerkleProvenance
import MembraL3.MerkleCompleteness
import MembraL3.RewardVault
import MembraL3.RewardVaultPool
import MembraL3.RewardVaultReceipts
import MembraL3.RewardVaultDailyCap
import MembraL3.RewardVaultLock
import MembraL3.ComputeStaking
import MembraL3.GasVault
import MembraL3.GasCredits
import MembraL3.GasReimbursement
import MembraL3.WalletBalance
import MembraL3.ReimbursementDecisions
import MembraL3.ReimbursementTotals
import MembraL3.Lib.Words
import MembraL3.Lib.Latch
import MembraL3.GasPool
import MembraL3.GasPoolReservations
import MembraL3.GasPoolClients
import MembraL3.ComputeFutures
import MembraL3.ComputeFutureIds
import MembraL3.WalletPreservation
import MembraL3.PreservationFreeze
import MembraL3.RestoreAuthorisation
import MembraL3.PreservationCounts
import MembraL3.ZKCompute
import MembraL3.ZKComputeTotals
import MembraL3.ZKComputeRoot
import MembraL3.ComputeResources
import MembraL3.ComputeResourceConservation
import MembraL3.Lib.HashChain
import MembraL3.ProofBook
import MembraL3.ProofBookTampering
import MembraL3.IntentNetwork
import MembraL3.IntentLifecycle
import MembraL3.IntentNonces
import MembraL3.FuturesPositions
import MembraL3.FuturesLifecycle
import MembraL3.FuturesLoss
import MembraL3.ProofOfInference
import MembraL3.InferenceRewards
import MembraL3.GasCompensationOnce
import MembraL3.Lib.Windows
import MembraL3.GasCompensationCap
import MembraL3.ArtifactRegistry
import MembraL3.RewardVaultSolvency
import MembraL3.GasVaultLimits
import MembraL3.StakingRuns
import MembraL3.StakingCredits
import MembraL3.StakingOrder
import MembraL3.GasPoolIsolation
import MembraL3.GeneratedIds
import MembraL3.PreservationGovernance
import MembraL3.RewardDistribution
import MembraL3.ZKGasReimbursement
import MembraL3.TerminalOutcomes
import MembraL3.WalletSnapshots
import MembraL3.MerkleRecursion
import MembraL3.Lib.SymbolicTree
import MembraL3.MerkleSoundness
import MembraL3.Lib.RingBuffer
import MembraL3.MempoolGovernor
import MembraL3.VolatilityOracle
import MembraL3.MerklePairing
import MembraL3.MarketCap
import MembraL3.VolatilityWindow
import MembraL3.ComputePriceHistory
import MembraL3.FuturesValuation
import MembraL3.StakingAllowance
import MembraL3.ReimbursementAmounts
import MembraL3.ReimbursementPricing
import MembraL3.PendingReimbursements
import MembraL3.RewardCalculators
import MembraL3.RewardHistory
import MembraL3.ZKTaskCompletion
import MembraL3.IntentSettlement
import MembraL3.IntentClaimTimes
import MembraL3.IntentHash
import MembraL3.ReceiptSignatures
import MembraL3.ArtifactDetection
import MembraL3.ArtifactUniqueness
import MembraL3.CompensationRange
import MembraL3.MempoolObservation
import MembraL3.MempoolRecommendations
import MembraL3.PolicyCompliance
import MembraL3.ArtifactQueries
import MembraL3.SnapshotHashes
import MembraL3.GasVaultThreads
import MembraL3.FuturesThreads
import MembraL3.NodeThreads
import MembraL3.GasVaultSerial
import MembraL3.Lib.Replay
import MembraL3.CompensationHistory
import MembraL3.IntentHistory
import MembraL3.Lib.Json
import MembraL3.MempoolResponses
import MembraL3.IntentThreads
import MembraL3.ProofThreads
import MembraL3.InferenceThreads
import MembraL3.Lib.RelyGuarantee
import MembraL3.FuturesSightings
import MembraL3.FuturesSerial
