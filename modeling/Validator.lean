import Validator.Data.FifoGrant
import Validator.Data.ListOrder
import Validator.Data.Trace
import Validator.Data.BitSet
import Validator.Data.LoopFrame
import Validator.UnifiedScheduler.Basic
import Validator.UnifiedScheduler.UsageQueue
import Validator.UnifiedScheduler.Requests
import Validator.UnifiedScheduler.Invariant
import Validator.UnifiedScheduler.Session
import Validator.UnifiedScheduler.Safety
import Validator.UnifiedScheduler.Progress
import Validator.BankingStage.ThreadAwareAccountLocks
import Validator.BankingStage.ThreadSetSpec
import Validator.BankingStage.AccountLocksSpec
import Validator.BankingStage.AccountLocksLoops
import Validator.BankingStage.AccountLocksSession
import Validator.Data.PrefixAt
import Validator.TransactionView.Bytes
import Validator.TransactionView.Frames
import Validator.TransactionView.Wire
import Validator.TransactionView.BytesSpec
import Validator.TransactionView.FramesSpec
import Validator.TransactionView.TransactionSpec
import Validator.Data.SortedMap
import Validator.ForkChoice.Basic
import Validator.ForkChoice.Operations
import Validator.Data.Assoc
import Validator.ForkChoice.Tree
import Validator.ForkChoice.Replay
import Validator.ForkChoice.Votes
import Validator.ForkChoice.AddVotes
import Validator.ForkChoice.Leaf
import Validator.ForkChoice.Runs
import Validator.AccountsDb.RollingBitField
import Validator.Turbine.RetransmitTree
import Validator.CostModel.CostTracker
import Validator.CostModel.Books
import Validator.Data.Bincode
import Validator.Ledger.ShredIndex
import Validator.Data.FirstBySender
import Validator.WenRestart.LastVotedForkSlotsAggregate
import Validator.WenRestart.HeaviestForkAggregate
import Validator.Ledger.ShredIndexSpec
import Validator.Ledger.Blockstore
import Validator.Ledger.DataSets
import Validator.Ledger.BlockstoreSpec
import Validator.TransactionView.Sanitize
import Validator.TransactionView.SanitizeSpec
import Validator.Perf.Sigverify
import Validator.Perf.SigverifySpec
import Validator.Vote.Lockout
import Validator.Consensus.TowerVoteState
import Validator.Consensus.TowerVoteStateSpec
import Validator.Vote.VoteState
import Validator.Vote.ProposedVoteStateSpec
import Validator.Vote.VoteStateSpec
import Validator.BankingStage.PrioGraphScheduler
import Validator.BankingStage.PrioGraphSchedulerSpec
import Validator.TransactionView.IteratorSpec
import Validator.Data.IndexMap
import Validator.Gossip.Crds
import Validator.Gossip.CrdsIndex
import Validator.Gossip.CrdsInsert
import Validator.Gossip.CrdsRemove
import Validator.Data.WeightedMean
import Validator.Data.HashTree
import Validator.StakeProgram.Merge
import Validator.UnifiedScheduler.Panics
import Validator.Ledger.MerkleTree
import Validator.Ledger.MerkleTreeSpec
import Validator.Data.DoubleEnded
import Validator.Ledger.BitVecSlice
import Validator.Ledger.BitVecSliceSpec
import Validator.Consensus.Tower
import Validator.Consensus.TowerSpec
import Validator.ComputeBudget.InstructionDetails
import Validator.ComputeBudget.InstructionDetailsSpec
import Validator.Data.SumTree
import Validator.Gossip.WeightedShuffle
import Validator.Gossip.WeightedShufflePool
import Validator.Gossip.WeightedShuffleSpec
import Validator.Gossip.WeightedShuffleRefinement
import Validator.Gossip.WeightedShuffleSlow
