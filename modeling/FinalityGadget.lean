import FinalityGadget.Foundation.BlockTree
import FinalityGadget.Foundation.Bytes
import FinalityGadget.Foundation.CommonPrefix
import FinalityGadget.Foundation.CyclicWindow
import FinalityGadget.Foundation.Fallible
import FinalityGadget.Foundation.OrderedStore
import FinalityGadget.Foundation.Pool
import FinalityGadget.Foundation.LinkedChain
import FinalityGadget.Foundation.MatchingChains
import FinalityGadget.Foundation.Interleaving
import FinalityGadget.Foundation.Reader
import FinalityGadget.Foundation.ReadThrough
import FinalityGadget.Foundation.Run
import FinalityGadget.Foundation.Scan
import FinalityGadget.Foundation.Text
import FinalityGadget.Foundation.Varint
import FinalityGadget.Types.Certificates
import FinalityGadget.Network.Messages
import FinalityGadget.Types.BaseLibrary
import FinalityGadget.Types.Reference
import FinalityGadget.Network.Validation
import FinalityGadget.Network.Framing
import FinalityGadget.Network.Transport
import FinalityGadget.Network.Delivery
import FinalityGadget.Network.ValidatorNetwork
import FinalityGadget.TxSystem.FGP
import FinalityGadget.TxSystem.Reference
import FinalityGadget.TxSystem.Finality
import FinalityGadget.TxSystem.Calls
import FinalityGadget.TxSystem.Views
import FinalityGadget.TxSystem.NilHash
import FinalityGadget.TxSystem.Snapshot
import FinalityGadget.TxSystem.Heights
import FinalityGadget.Pow.IPCClient
import FinalityGadget.Partition.Node
import FinalityGadget.Partition.ShardConfStore
import FinalityGadget.Partition.ShardConfCache
import FinalityGadget.Partition.Certificate
import FinalityGadget.Partition.Proposal
import FinalityGadget.Partition.Recovery
import FinalityGadget.Partition.Loop
import FinalityGadget.Partition.EpochFrame
import FinalityGadget.Partition.Segment
import FinalityGadget.Partition.Startup
import FinalityGadget.Partition.Frame
import FinalityGadget.Partition.Reference
import FinalityGadget.Partition.Epoch
import FinalityGadget.Partition.RootNodes
import FinalityGadget.Partition.RoundTimer
import FinalityGadget.Partition.Coherence
import FinalityGadget.Partition.Restart
import FinalityGadget.Partition.Signing
import FinalityGadget.Partition.Ledger
import FinalityGadget.Partition.Pending
import FinalityGadget.Partition.Extension
import FinalityGadget.Partition.Agreement
import FinalityGadget.Partition.Replay
import FinalityGadget.Partition.FastForward
import FinalityGadget.Partition.Serving
import FinalityGadget.Partition.FetchLimit
import FinalityGadget.Partition.Batch
import FinalityGadget.Partition.Silence
import FinalityGadget.Partition.Redelivery
import FinalityGadget.Partition.Moves
import FinalityGadget.Partition.Lifetimes
import FinalityGadget.Partition.Canonical
import FinalityGadget.Partition.Durability
import FinalityGadget.Partition.OneLedger
import FinalityGadget.Partition.CatchUp
import FinalityGadget.Partition.Traffic
import FinalityGadget.Partition.Answers
import FinalityGadget.Partition.Votes
import FinalityGadget.Partition.Shard
import FinalityGadget.Partition.Progress
import FinalityGadget.Partition.LeaderTimer
import FinalityGadget.Partition.Deployment
import FinalityGadget.Partition.Cluster
