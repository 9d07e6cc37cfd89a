import Wren.Babel.Feasibility
import Wren.Babel.Packet
import Wren.Rip.Agreement
import Wren.Bgp.RoundTrip
import Wren.Bgp.EndOfRib
import Wren.Bgp.EvpnImport
import Wren.Ospf.Flood
import Wren.Ospf.Headers
import Wren.Daemon.Router.Export
import Wren.Daemon.Router.Redistribute
import Wren.Daemon.Router.Coalesce
import Wren.Daemon.Router.Retry
import Wren.Daemon.Bgp.AdjRibOut
import Wren.Daemon.Bgp.Ownership
import Wren.Daemon.Bgp.GracefulRestart
import Wren.Daemon.Bgp.AddPathAgreement
import Wren.Daemon.Bgp.OriginValidation
import Wren.Daemon.Bgp.RouteLeak
import Wren.Daemon.Bgp.Reflection
import Wren.Daemon.Bgp.Framing
import Wren.Daemon.Bgp.Queues
import Wren.Ospf.Election
import Wren.Ospf.Stability
import Wren.Isis.Sync
import Wren.Isis.ShortestPaths
import Wren.Daemon.Isis.Summaries
import Wren.Daemon.Isis.Leaks
import Wren.Daemon.Isis.Succession
import Wren.Daemon.Isis.Lan
import Wren.Ha.Generations
import Wren.Ha.Votes
import Wren.Ha.Leases
import Wren.Ospf.Ecmp
import Wren.Ospfv3.ShortestPaths
import Wren.Daemon.Ospf.Negotiation
import Wren.Daemon.Ospf.Passes
import Wren.Bfd.Handshake
import Wren.Daemon.Bfd.Wakeup
import Wren.Daemon.Bfd.Recovery
import Wren.Daemon.Ospf.Retransmission
import Wren.Daemon.Ospf.Reaping
import Wren.Daemon.Ospf.Helping
import Wren.Daemon.Ospf3.Echo
import Wren.Daemon.Ospf.Quiescence
import Wren.Daemon.Ospf.Asbr
import Wren.Rip.Ng
import Wren.Babel.Compression
import Wren.Vrrp.Election
import Wren.Daemon.Vrrp.Ownership
import Wren.Bgp.EvpnKeys
import Wren.Igmp.Receivers
import Wren.Daemon.Igmp.Agreement
import Wren.Daemon.Igmp.Runner
import Wren.Daemon.Bfd.Delivery
import Wren.Pim.History
import Wren.Daemon.Pim.Mirror
import Wren.Filter.Rewriting
import Wren.Bgp.EvpnSelection
import Wren.Bgp.As4Path
import Wren.Filter.Grammar
import Wren.Bgp.MacMobility
import Wren.Bgp.TreatAsWithdraw
import Wren.Daemon.Bgp.Aggregation
import Wren.Bgp.Wire
import Wren.Daemon.Bgp.Sendable
import Wren.Daemon.Bgp.LoopAvoidance
import Wren.Lib.Tlv
import Wren.Lib.Argmin
import Wren.Bgp.EvpnCodec
import Wren.Bgp.FlowSpec
import Wren.Bgp.Formats
import Wren.Lib.OrdMap
import Wren.Daemon.Bgp.Splitting
import Wren.Daemon.Bgp.Receivable
import Wren.Bgp.EvpnNormal
import Wren.Bgp.Multiprotocol
import Wren.Ospf.Packet
import Wren.Ospf.Gateways
import Wren.Ospf.OnLink
import Wren.Ospf.RoundTrip
import Wren.Isis.RoundTrip
import Wren.Isis.Reencode
import Wren.Isis.Served
import Wren.Isis.Renumbering
import Wren.Ospf.Overflow
import Wren.Bfd.Replay
import Wren.Isis.Sealing
import Wren.Ospfv3.External
import Wren.Ospfv3.RoundTrip
import Wren.Ospfv3.Multipath
import Wren.Ha.Budget
import Wren.Ha.Promotion
import Wren.Daemon.Ospf.Datagrams
import Wren.Daemon.Babel.Loops
