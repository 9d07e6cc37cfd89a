import Wren.Core.Prefix

/-! Routes, their origin protocols and the best-path comparison. -/

namespace Wren.Core

inductive Protocol where
  | connected
  | static
  | kernel
  | rip
  | ospf
  | isis
  | babel
  | bgp
deriving DecidableEq

def Protocol.defaultPreference : Protocol → UInt32
  | .connected => 240
  | .static => 200
  | .ospf => 150
  | .isis => 145
  | .rip => 120
  | .babel => 115
  | .bgp => 100
  | .kernel => 10

structure NextHop where
  gateway : Option IpAddr
  iface : Option String
  weight : UInt16
deriving DecidableEq

def NextHop.via (gateway : IpAddr) : NextHop := ⟨some gateway, none, 1⟩

def NextHop.dev (iface : String) : NextHop := ⟨none, some iface, 1⟩

/-- The kernel's main table, the default VRF. -/
def rtTableMain : UInt32 := 254

/-- A table (VRF) and a destination in it. The RIB and the FIB are keyed by these. -/
abbrev FibKey := UInt32 × Prefix

/-- A candidate route, as offered by one protocol instance. -/
structure Route where
  pfx : Prefix
  table : UInt32
  nexthops : List NextHop
  protocol : Protocol
  preference : UInt32
  metric : UInt32
  source : UInt64
  communities : List UInt32
  largeCommunities : List (UInt32 × UInt32 × UInt32)
  extCommunities : List (Vector UInt8 8)
deriving DecidableEq

namespace Route

def new (pfx : Prefix) (protocol : Protocol) (nexthops : List NextHop) (metric : UInt32) : Route where
  pfx := pfx
  table := rtTableMain
  nexthops := nexthops
  protocol := protocol
  preference := protocol.defaultPreference
  metric := metric
  source := 0
  communities := []
  largeCommunities := []
  extCommunities := []

/-- The identity within one RIB entry: a second route with the same key replaces the first. -/
def key (r : Route) : Protocol × UInt64 := (r.protocol, r.source)

def fibKey (r : Route) : FibKey := (r.table, r.pfx)

/-- Higher preference first, then lower metric. -/
def isBetterThan (r other : Route) : Bool :=
  match compare r.preference other.preference with
  | .gt => true
  | .lt => false
  | .eq => r.metric < other.metric

end Route

namespace Sample

/-- The network `10.0.0.0/8`. -/
def net : Prefix := ⟨.v4 0x0a000000, 8, Prefix.net10_len_le, Prefix.net10_masked⟩

/-- A route to it by way of `192.0.2.1`. -/
def route (protocol : Protocol) : Route := Route.new net protocol [.via (.v4 0xc0000201)] 0

end Sample
end Wren.Core
