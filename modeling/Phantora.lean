import Phantora.Netsim.Cluster
import Phantora.Lib.PriorityQueue
import Phantora.Netsim.FlowState
import Phantora.Netsim.Simulator
import Phantora.CudaCall
import Phantora.EventQueue.Model
import Phantora.Netsim.Frame
import Phantora.Netsim.Ledger
import Phantora.Netsim.Progress
import Phantora.EventQueue.Run
import Phantora.EventQueue.Causality
import Phantora.EventQueue.Rollback
import Phantora.EventQueue.CausalRuns
import Phantora.Estimator
import Phantora.NcclOps
import Phantora.Simulator.State
import Phantora.Simulator.Streams
import Phantora.Lib.Grouping
import Phantora.Simulator.Handle
import Phantora.EventQueue.Graph
import Phantora.Simulator.Frame
import Phantora.Simulator.StreamOrder
import Phantora.Simulator.StreamRuns
import Phantora.EventQueue.Agenda
import Phantora.EventQueue.Wakeups
import Phantora.Netsim.Index
import Phantora.Netsim.Representation
import Phantora.Simulator.Acts
import Phantora.Simulator.Named
import Phantora.Simulator.Communicators
import Phantora.Netsim.RepresentationRuns
import Phantora.Lib.WaterFilling
import Phantora.Lib.LongestPath
import Phantora.EventQueue.Schedule
import Phantora.Netsim.MaxMin
import Phantora.Lib.Ranking
import Phantora.Simulator.Identifiers
import Phantora.Simulator.Splits
import Phantora.Simulator.Partitions
import Phantora.Simulator.Client
import Phantora.Simulator.Deliveries
import Phantora.Simulator.Pairing
import Phantora.Lib.SortedMap
import Phantora.Device.Pinned
import Phantora.Device.Memory
import Phantora.Lib.Codec
import Phantora.Timeline.Framing
import Phantora.Wire.Message
import Phantora.Simulator.EventHandles
import Phantora.Netsim.Fairness
import Phantora.Netsim.Application
import Phantora.Netsim.Reports
import Phantora.Netsim.Totality
import Phantora.Netsim.Steps
import Phantora.Netsim.Grouped
import Phantora.Netsim.RateLimits
import Phantora.Lib.Walks
import Phantora.Netsim.Topology
import Phantora.Netsim.Architecture
import Phantora.Netsim.TopoArgs
import Phantora.Netsim.Routing
import Phantora.Netsim.Multipath
import Phantora.Netsim.Replay
import Phantora.EventQueue.Recording
import Phantora.Simulator.Recording
import Phantora.Timeline.Visualizer
import Phantora.Client.Groups
import Phantora.Client.Clock
import Phantora.RingTraffic
import Phantora.SequenceCache
import Phantora.Simulator.Sequences
import Phantora.Simulator.UniqueIds
import Phantora.Lib.HexText
import Phantora.Device.PciBusId
import Phantora.Shims.TensorMeta
import Phantora.Shims.ExpertLayout
import Phantora.Netsim.Members
import Phantora.Netsim.Sequence
import Phantora.Netsim.AppGroupRuns
import Phantora.Netsim.FlowSets
import Phantora.Netsim.VmPairs
import Phantora.Client.EventTimes
import Phantora.Lib.Rounds
import Phantora.Simulator.Matching
import Phantora.Lib.Fifo
import Phantora.Simulator.PointToPoint
import Phantora.Simulator.Replies
import Phantora.EventQueue.Repair
import Phantora.Netsim.FluidTraffic
import Phantora.Netsim.FluidReplay
import Phantora.Simulator.TimelineRuns
import Phantora.Simulator.Deadlock
import Phantora.EventQueue.Ends
import Phantora.Simulator.Answers
