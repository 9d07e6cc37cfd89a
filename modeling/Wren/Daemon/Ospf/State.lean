import Wren.Daemon.Ospf.Exchange
import Wren.Daemon.Router.Basic
import Wren.Ospf.Election
import Wren.Ospf.Flood
import Wren.Ospf.Packet
import Wren.Ospf.Spf

/-! The state of the OSPFv2 task. A hash map of the source is an ordered map here, and a hash set a list without
duplicates. -/

namespace Wren.Daemon
open Wren.Core Wren.Ospf OrdMap

namespace Ospf

def maxGracePeriod : ℕ := 1800

/-- The backbone. -/
def backbone : Ipv4Addr := 0

/-- The key of sequence numbers which are not those of an area. -/
def asScope : Ipv4Addr := 0xffffffff

def initialSequenceNumber : Int32 := -0x7fffffff

def optE : UInt8 := 0x02

def optNp : UInt8 := 0x08

def rtrFlagB : UInt8 := 0x01

def rtrFlagE : UInt8 := 0x02

def lenToMask (len : UInt8) : Ipv4Addr := if len = 0 then 0 else BitVec.allOnes 32 <<< (32 - len.toNat)

/-- What the task is configured with. The authentication, BFD and the table of the routes are left out. -/
structure OspfConfig where
  routerId : Ipv4Addr
  ifaceType : InterfaceType
  priority : UInt8
  cost : UInt16
  helloInterval : UInt16
  deadInterval : UInt32
  redistributeMetric : UInt32
  stubAreas : List Ipv4Addr
  stubDefaultCost : UInt32
  nssaAreas : List Ipv4Addr
  totallyStubbyAreas : List Ipv4Addr
  totallyNssaAreas : List Ipv4Addr
  nssaDefaultAreas : List Ipv4Addr

namespace OspfConfig

/-- What a block says nothing of. -/
def default (routerId : Ipv4Addr) (ifaceType : InterfaceType) : OspfConfig where
  routerId
  ifaceType
  priority := 1
  cost := 10
  helloInterval := 10
  deadInterval := 40
  redistributeMetric := 20
  stubAreas := []
  stubDefaultCost := 1
  nssaAreas := []
  totallyStubbyAreas := []
  totallyNssaAreas := []
  nssaDefaultAreas := []

variable (c : OspfConfig) (area : Ipv4Addr)

def isStub : Bool := area ∈ c.stubAreas

def isNssa : Bool := area ∈ c.nssaAreas

def isTotallyStubby : Bool := area ∈ c.totallyStubbyAreas

def isTotallyNssa : Bool := area ∈ c.totallyNssaAreas

def wantsNssaDefault : Bool := c.isTotallyNssa area || area ∈ c.nssaDefaultAreas

def noSummary : Bool := c.isTotallyStubby area || c.isTotallyNssa area

/-- There are no AS-external LSAs in the area. -/
def noExternals : Bool := c.isStub area || c.isNssa area

def areaOptions : UInt8 := if c.isNssa area then optNp else if c.isStub area then 0 else optE

end OspfConfig

/-- A neighbour: its state machine, the exchange with it, and what it has not acknowledged. -/
structure OspfNeighbor extends DbExchange.Adjacency LsaKey where
  routerId : Ipv4Addr
  priority : UInt8
  declaredDr : Ipv4Addr
  declaredBdr : Ipv4Addr
  addr : Ipv4Addr
  lastSeen : ℕ
  retransmitList : BTreeMap LsaKey Lsa

namespace OspfNeighbor

def new (routerId addr : Ipv4Addr) (now : ℕ) : OspfNeighbor where
  state := .down
  ddSeq := 0
  master := false
  summarySent := false
  requestList := []
  routerId
  priority := 0
  declaredDr := 0
  declaredBdr := 0
  addr
  lastSeen := now
  retransmitList := ∅

def isFull (n : OspfNeighbor) : Bool := n.state = .full

end OspfNeighbor

/-- What of an interface never changes. -/
structure Link where
  ifindex : UInt32
  addr : Ipv4Addr
  maskLen : UInt8
  area : Ipv4Addr
  isPassive : Bool

structure Iface extends Link where
  fsm : Interface
  neighbors : BTreeMap Ipv4Addr OspfNeighbor
  waitDeadline : Option ℕ

namespace Link

def network (i : Link) : Ipv4Addr := i.addr &&& lenToMask i.maskLen

def onLink (i : Link) (addr : Ipv4Addr) : Bool := addr &&& lenToMask i.maskLen = i.addr &&& lenToMask i.maskLen

end Link

namespace Iface

/-- The neighbours in the order of their keys. -/
def values (i : Iface) : List OspfNeighbor := i.neighbors.toList.map Prod.snd

/-- The neighbours that take part in the election. -/
def candidates (i : Iface) : List Candidate :=
  (i.values.filter fun n => n.state.isBidirectional).map fun n => ⟨n.routerId, n.priority, n.declaredDr, n.declaredBdr⟩

def mapNeighbors (i : Iface) (f : OspfNeighbor → OspfNeighbor) : Iface :=
  { i with neighbors := i.neighbors.map fun _ n => f n }

def modifyNeighbor (i : Iface) (k : Ipv4Addr) (f : OspfNeighbor → OspfNeighbor) : Iface :=
  { i with neighbors := i.neighbors.modify k f }

end Iface

structure Area where
  lsdb : Lsdb
  originatedNetworks : List LsaKey
  originatedSummaries : List LsaKey
  originatedNssa : List LsaKey

def Area.new : Area := ⟨.new, [], [], []⟩

structure GrHelper where
  deadline : ℕ
  seenAtEntry : ℕ

/-- A packet that went out on an interface. -/
structure Sent where
  ifindex : UInt32
  dst : Ipv4Addr
  packet : Packet

end Ospf

open Ospf

/-- The routes that were announced are left out; `sent` is what went out so far. -/
structure Ospf where
  cfg : OspfConfig
  ifaces : List Iface
  areas : BTreeMap Ipv4Addr Area
  externalLsdb : Lsdb
  externals : BTreeMap Prefix UInt32
  originatedExternals : List LsaKey
  originatedTranslated : List LsaKey
  lsaSeqs : BTreeMap (Ipv4Addr × LsaKey) Int32
  lsaInstalledAt : BTreeMap (Ipv4Addr × LsaKey) ℕ
  nextDdSeq : UInt32
  helping : BTreeMap Ipv4Addr GrHelper
  sent : List Sent

namespace Ospf
variable (s : Ospf)

/-- The database of an area, empty where the router has no such area. -/
def areaLsdb (area : Ipv4Addr) : Lsdb := ((s.areas[area]?).map Area.lsdb).getD .new

/-- AS-external LSAs are in a database of their own. -/
def lsdbFor (area : Ipv4Addr) (t : LsType) : Lsdb := if t = .asExternal then s.externalLsdb else s.areaLsdb area

def modifyArea (area : Ipv4Addr) (f : Area → Area) : Ospf := { s with areas := s.areas.modify area f }

def iface? (idx : ℕ) : Option Iface := s.ifaces[idx]?

def modifyIface (idx : ℕ) (f : Iface → Iface) : Ospf := { s with ifaces := s.ifaces.modify idx f }

def neighbor? (idx : ℕ) (nbrId : Ipv4Addr) : Option OspfNeighbor := (s.iface? idx).bind fun i => i.neighbors[nbrId]?

def modifyNeighbor (idx : ℕ) (nbrId : Ipv4Addr) (f : OspfNeighbor → OspfNeighbor) : Ospf :=
  s.modifyIface idx fun i => i.modifyNeighbor nbrId f

/-- Whether the router has interfaces in more than one area. -/
def isAbr : Bool :=
  match s.ifaces with
  | [] => false
  | i :: is => is.any fun j => j.area ≠ i.area

def isAsbr : Bool := !s.externals.isEmpty

def needLsa (area : Ipv4Addr) (h : LsaHeader) : Bool :=
  match (s.lsdbFor area h.lsType).header h.key with
  | none => true
  | some cur => h.compareRecency cur = .gt

def anyNeighborExchanging : Bool :=
  s.ifaces.any fun i => i.values.any fun n => n.state = .exchange ∨ n.state = .loading

/-- What is described on an adjacency in an area. -/
def dbHeaders (area : Ipv4Addr) : List LsaHeader :=
  (s.areaLsdb area).iter.map Lsa.header ++ if s.cfg.noExternals area then [] else s.externalLsdb.iter.map Lsa.header

def databases (area : Ipv4Addr) : DbExchange.Databases LsaHeader LsaKey where
  headers := s.dbHeaders area
  key := LsaHeader.key
  needLsa := s.needLsa area

def packet (area : Ipv4Addr) (body : Body) : Packet := ⟨⟨s.cfg.routerId, area⟩, body⟩

/-- Send a packet out of an interface, under the area of the interface. -/
def send (i : Iface) (dst : Ipv4Addr) (body : Body) : Ospf :=
  { s with sent := s.sent ++ [⟨i.ifindex, dst, s.packet i.area body⟩] }

def addrToRouterId (i : Iface) (addr : Ipv4Addr) : Ipv4Addr :=
  if addr = 0 then 0
  else if addr = i.addr then s.cfg.routerId
  else ((i.values.find? fun n => n.addr = addr).map OspfNeighbor.routerId).getD 0

def routerIdToAddr (i : Iface) (rid : Ipv4Addr) : Ipv4Addr :=
  if rid = 0 then 0
  else if rid = s.cfg.routerId then i.addr
  else ((i.values.find? fun n => n.routerId = rid).map OspfNeighbor.addr).getD 0

end Ospf
end Wren.Daemon
