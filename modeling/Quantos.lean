import Quantos.AtomicCleanup
import Quantos.CheckpointBinding
import Quantos.CrossShardAuth
import Quantos.CrossShardCounts
import Quantos.DagCommonAncestor
import Quantos.DagFinality
import Quantos.DagTips
import Quantos.DirectRuns
import Quantos.FinalityChain
import Quantos.FinalityErrors
import Quantos.FinalityProofs
import Quantos.L0Equivocation
import Quantos.LedgerTree
import Quantos.MountainRange
import Quantos.MvccSerial
import Quantos.OptimisticConsensus
import Quantos.ParallelMerge
import Quantos.PathEquivalence
import Quantos.PrivateTransfer
import Quantos.PublishedRoot
import Quantos.Qn12
import Quantos.Qn8Failures
import Quantos.RlpRoundTrip
import Quantos.Serializability
import Quantos.ShardPartition
import Quantos.ShieldedPool
import Quantos.SidechainBridge
import Quantos.SignatureAggregation
import Quantos.SignedBytes
import Quantos.SigningBinding
import Quantos.SlashingSafety
import Quantos.Speculation
import Quantos.SpvProofs
import Quantos.Stm
import Quantos.SyncIngress
import Quantos.VertexBuilder
import Quantos.VertexProduction
import Quantos.VotingPower
import Quantos.WfqScheduler
