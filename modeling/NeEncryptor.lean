import NeEncryptor.Lib.Transition
import NeEncryptor.Lib.WrapCounter
import NeEncryptor.Lib.Copies
import NeEncryptor.Crypto.PacketCrypto
import NeEncryptor.Crypto.TrafficCrypto
import NeEncryptor.Pqc.Binding
import NeEncryptor.Pqc.Feed
import NeEncryptor.Pqc.ReplayDetection
import NeEncryptor.Pqc.Worker
import NeEncryptor.Pqc.World
import NeEncryptor.Pqc.Cutover
import NeEncryptor.Pqc.CutoverInv
import NeEncryptor.Pqc.Effects
import NeEncryptor.Pqc.InitiatorRefinement
import NeEncryptor.Pqc.ResponderRefinement
import NeEncryptor.Pqc.Refinement
import NeEncryptor.Pqc.Possession
import NeEncryptor.Pqc.CommitWait
import NeEncryptor.Pqc.HelloSections
import NeEncryptor.Pqc.CommitRuns
import NeEncryptor.Pqc.KeyOverlap
import NeEncryptor.Db.Config
import NeEncryptor.Db.InboundGate
import NeEncryptor.Crypto.CryptoRuntime
import NeEncryptor.Crypto.KeyCopies
import NeEncryptor.Crypto.KeyAgreement
import NeEncryptor.Crypto.KeyRuns
import NeEncryptor.Crypto.SoundTables
import NeEncryptor.Pqc.PolicyBindings
import NeEncryptor.Pqc.CellInv
import NeEncryptor.Crypto.SessionKeys
import NeEncryptor.Crypto.SessionRuns
import NeEncryptor.Lib.SerialNumber
import NeEncryptor.Dataplane.UdpReorder
import NeEncryptor.Dataplane.ReorderMoves
import NeEncryptor.Dataplane.ReorderItems
import NeEncryptor.Dataplane.ReorderWorker
import NeEncryptor.Dataplane.ReorderWindow
import NeEncryptor.Dataplane.ReorderRuns
import NeEncryptor.Dataplane.ReorderOrder
import NeEncryptor.Dataplane.ReorderFlows
import NeEncryptor.Dataplane.ReorderSound
import NeEncryptor.Dataplane.ReorderOverrun
import NeEncryptor.Lib.Ways
import NeEncryptor.Dataplane.CryptoRoute
import NeEncryptor.Dataplane.RouteNumbers
import NeEncryptor.Dataplane.RouteTables
import NeEncryptor.Forwarder.WanConfig
import NeEncryptor.Forwarder.WanScheduler
import NeEncryptor.Forwarder.FlowTable
import NeEncryptor.Forwarder.WanPick
import NeEncryptor.Forwarder.WanReload
import NeEncryptor.Forwarder.WanSlots
import NeEncryptor.Forwarder.WanRuns
import NeEncryptor.Forwarder.WanUsable
import NeEncryptor.Forwarder.ConfigReload
import NeEncryptor.Forwarder.ReloadRuns
import NeEncryptor.Lib.Buffer
import NeEncryptor.Crypto.EthParse
import NeEncryptor.Crypto.L2Udp
import NeEncryptor.Crypto.UdpFrames
import NeEncryptor.Crypto.Reassembly
import NeEncryptor.Crypto.SplitRoundTrip
import NeEncryptor.Crypto.ReassemblyRuns
import NeEncryptor.Crypto.L2Plain
import NeEncryptor.Dataplane.WanIngress
import NeEncryptor.Dataplane.Classification
import NeEncryptor.Dataplane.ReloadGrace
import NeEncryptor.Forwarder.ReloadPairing
import NeEncryptor.Dataplane.RouteRaces
import NeEncryptor.Lib.RingBuffer
import NeEncryptor.Iface.NeRing
import NeEncryptor.Iface.RingRuns
import NeEncryptor.Iface.UmemFrames
import NeEncryptor.Pqc.WorkerReload
import NeEncryptor.Pqc.ReloadSteps
import NeEncryptor.Pqc.ReloadKeys
import NeEncryptor.Pqc.ReloadStops
import NeEncryptor.Iface.UmemMoves
import NeEncryptor.Iface.UmemAttach
import NeEncryptor.Iface.UmemRuns
import NeEncryptor.Lib.WeightedRounds
import NeEncryptor.Forwarder.SwrrRounds
import NeEncryptor.Lib.OnesComplement
import NeEncryptor.Crypto.TcpClamp
import NeEncryptor.Crypto.SplitMtu
import NeEncryptor.Lib.BucketChains
import NeEncryptor.Flow.MacTable
import NeEncryptor.Flow.MacRuns
import NeEncryptor.Pqc.ReloadBinds
import NeEncryptor.Crypto.KeyLifetime
import NeEncryptor.Crypto.LifetimeRuns
import NeEncryptor.Forwarder.TxSlots
import NeEncryptor.Lib.Custody
import NeEncryptor.Dataplane.Edge
import NeEncryptor.Dataplane.LocalEgress
import NeEncryptor.Dataplane.PeerFilter
import NeEncryptor.Dataplane.WanDelivery
import NeEncryptor.Crypto.Base64
import NeEncryptor.Crypto.ResilientDecrypt
import NeEncryptor.Failover.CfmDiag
import NeEncryptor.Lib.KeyedLists
import NeEncryptor.Db.ChangeDetection
import NeEncryptor.Lib.FirstBest
import NeEncryptor.Db.Selection
import NeEncryptor.Dataplane.FragmentPolicy
import NeEncryptor.Dataplane.MssBound
import NeEncryptor.Lib.EvenShares
import NeEncryptor.Forwarder.PoolWeights
import NeEncryptor.Lib.CText
import NeEncryptor.Flow.MacLog
import NeEncryptor.Flow.MacPersist
import NeEncryptor.Db.PolicyText
import NeEncryptor.Db.DbConfig
import NeEncryptor.Db.PolicyMeaning
import NeEncryptor.Db.RuleOrder
import NeEncryptor.Db.MalformedRules
import NeEncryptor.Dataplane.ReorderStuck
import NeEncryptor.Dataplane.FrameCustody
import NeEncryptor.Dataplane.FrameConservation
import NeEncryptor.Dataplane.EgressPolicy
import NeEncryptor.Dataplane.IngressPolicy
import NeEncryptor.Dataplane.PolicyRuns
import NeEncryptor.Dataplane.EndToEnd
import NeEncryptor.Dataplane.DatagramDelivery
import NeEncryptor.Lib.Resequencer
import NeEncryptor.Dataplane.ReorderInOrder
import NeEncryptor.Dataplane.ReorderStreams
import NeEncryptor.Dataplane.OrderedDelivery
import NeEncryptor.Flow.MacIndex
import NeEncryptor.Forwarder.FlowSpread
import NeEncryptor.Forwarder.FlowSlots
import NeEncryptor.Forwarder.JoinRamps
