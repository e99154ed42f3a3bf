import SttRuby.Lib.Runs
import SttRuby.Cache.Memory
import SttRuby.Cache.Routing
import SttRuby.Cache.Index
import SttRuby.Cache.Retention
import SttRuby.Lib.Slicc
import SttRuby.Protocol.L1Cache
import SttRuby.Protocol.L2Cache
import SttRuby.Protocol.Directory
import SttRuby.Protocol.System
import SttRuby.Protocol.L2Effect
import SttRuby.Protocol.Home
import SttRuby.Protocol.Tenure
import SttRuby.Protocol.DMAWrite
import SttRuby.Protocol.Bank
import SttRuby.Cache.Redirection
import SttRuby.Cache.Victim
import SttRuby.Cache.L1Config
import SttRuby.Protocol.AckCount
import SttRuby.Cache.Frame
import SttRuby.Protocol.Lines
import SttRuby.Protocol.Refresh
import SttRuby.Cache.Packed
import SttRuby.Protocol.Shape
import SttRuby.Protocol.Representation
import SttRuby.Protocol.L2Stalls
import SttRuby.Protocol.L1Stalls
import SttRuby.Protocol.Kinds
import SttRuby.Protocol.Roles
import SttRuby.Protocol.Phases
import SttRuby.Protocol.Serving
import SttRuby.Protocol.Coherence
import SttRuby.Protocol.Grants
import SttRuby.Cache.TreePLRU
import SttRuby.Cache.Banks
import SttRuby.Cache.Charging
import SttRuby.Cache.RoutingStats
import SttRuby.Cache.Zombies
import SttRuby.Protocol.L1Caches
import SttRuby.Protocol.DataValue
import SttRuby.Protocol.DMAMerge
import SttRuby.Lib.Tables
import SttRuby.System.Sequencer
import SttRuby.System.Cores
import SttRuby.Lib.Histories
import SttRuby.System.Atomicity
import SttRuby.System.Refinement
import SttRuby.Network.Consumer
import SttRuby.Network.MessageBuffer
import SttRuby.Network.Inbox
import SttRuby.Network.Untimed
import SttRuby.Lib.Paths
import SttRuby.Network.Topology
import SttRuby.Network.SimpleNetwork
import SttRuby.Network.Delivery
