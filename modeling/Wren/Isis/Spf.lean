import Wren.Isis.Lsdb
import Wren.Core.Route
import Wren.Lib.Dijkstra

/-! The shortest-path calculation over the database of one level. -/

namespace Wren.Isis
open OrdMap Wren.Core

/-- A link at the largest metric is drained and takes no part in the calculation. -/
def maxLinkMetric : UInt32 := 0x00ffffff

structure VertexInfo where
  dist : UInt32
  v4 : List Ipv4Addr
  v6 : List Ipv6Addr
deriving DecidableEq

structure SpfRoute where
  pfx : Prefix
  cost : UInt32
  gateways : List IpAddr
deriving DecidableEq

def SpfRoute.toRoute (r : SpfRoute) : Route :=
  Route.new r.pfx .isis (if r.gateways = [] then [⟨none, none, 1⟩] else r.gateways.map NextHop.via) r.cost

structure SpfResult where
  routes : List SpfRoute
  nodes : BTreeMap NodeId UInt32
  nodeV4Nexthops : BTreeMap NodeId (List Ipv4Addr)
  nodeV6Nexthops : BTreeMap NodeId (List Ipv6Addr)

def saturatingAdd (a b : UInt32) : UInt32 := UInt32.ofNat (min (a.toNat + b.toNat) 4294967295)

/-- Add what is not there yet, in order. -/
def mergeInto {α : Type} [DecidableEq α] (into extra : List α) : List α :=
  extra.foldl (fun into g => if g ∈ into then into else into ++ [g]) into

def isLinkLocal (a : Ipv6Addr) : Bool := (a >>> 112).setWidth 16 &&& 0xffc0 = (0xfe80 : BitVec 16)

def v4Hops (v4 : List Ipv4Addr) : List IpAddr := v4.map IpAddr.v4

/-- Link-local addresses are left out as soon as there is a global one. -/
def v6Hops (v6 : List Ipv6Addr) : List IpAddr :=
  let hasGlobal := v6.any fun a => !isLinkLocal a
  (v6.filter fun a => !hasGlobal || !isLinkLocal a).map IpAddr.v6

def defaultV4 : Prefix := ⟨.v4 0, 0, Prefix.anyV4_len_le, Prefix.anyV4_masked⟩

def defaultV6 : Prefix := ⟨.v6 0, 0, Prefix.anyV6_len_le, Prefix.anyV6_masked⟩

/-- A lower cost replaces a route, an equal one adds its next hops to it. -/
def addRoute (m : BTreeMap Prefix SpfRoute) (r : SpfRoute) : BTreeMap Prefix SpfRoute :=
  Offer.offer (fun r : SpfRoute => r.cost.toNat)
    (fun e i => { e with gateways := mergeInto e.gateways i.gateways }) m r.pfx r

structure Spf where
  db : Lsdb
  root : NodeId
  level : IsLevel

namespace Spf

/-- The LSPs of a node that are not purged. -/
def fragments (s : Spf) (node : NodeId) : List Lsp :=
  s.db.iter.filter fun l =>
    l.lspId.systemId = node.systemId ∧ l.lspId.pseudonode = node.pseudonode ∧ 0 < l.remainingLifetime

def nodeAlive (s : Spf) (node : NodeId) : Bool := (s.fragments node).head?.isSome

def isReach (s : Spf) (node : NodeId) : List (NodeId × UInt32) :=
  (s.fragments node).flatMap fun frag => frag.tlvs.flatMap fun
    | .extendedIsReachability reaches => reaches.map fun r => (r.neighborId, r.metric)
    | _ => []

def hasReachTo (s : Spf) (source target : NodeId) : Bool := (s.isReach source).any fun e => e.1 = target

def fragmentZero (s : Spf) (node : NodeId) : Option Lsp := (s.fragments node).find? fun l => l.lspId.fragment = 0

def overloaded (s : Spf) (node : NodeId) : Bool := (s.fragmentZero node).any fun l => l.overload

def attached (s : Spf) (node : NodeId) : Bool := (s.fragmentZero node).any fun l => l.attached ≠ 0

def supports (s : Spf) (node : NodeId) (nlpid : UInt8) : Bool :=
  (s.fragments node).any fun frag => frag.tlvs.any fun
    | .protocolsSupported ids => nlpid ∈ ids
    | _ => false

def ifaceV4 (s : Spf) (node : NodeId) : List Ipv4Addr :=
  (s.fragments node).flatMap fun frag => frag.tlvs.flatMap fun
    | .ipv4InterfaceAddresses addrs => addrs
    | _ => []

def ifaceV6 (s : Spf) (node : NodeId) : List Ipv6Addr :=
  (s.fragments node).flatMap fun frag => frag.tlvs.flatMap fun
    | .ipv6InterfaceAddresses addrs => addrs
    | _ => []

/-- The links of a node whose far end is alive and has a link back. An overloaded node is not passed through. -/
def neighbors (s : Spf) (node : NodeId) : List (NodeId × UInt32) :=
  if node ≠ s.root ∧ s.overloaded node then []
  else (s.isReach node).filter fun e => e.2 ≠ maxLinkMetric ∧ s.nodeAlive e.1 ∧ s.hasReachTo e.1 node

/-- Next hops are passed down, and those of a vertex at the edge of the root are its own addresses. -/
def initialNexthops (s : Spf) (cur : VertexInfo) (w : NodeId) : List Ipv4Addr × List Ipv6Addr :=
  if cur.v4 ≠ [] ∨ cur.v6 ≠ [] then (cur.v4, cur.v6)
  else if w.pseudonode ≠ 0 then ([], [])
  else (s.ifaceV4 w, s.ifaceV6 w)

/-- Settled and candidate vertices, the nearest first and ties in the order of the IDs. -/
def search (s : Spf) : Dijkstra.Search NodeId ℕ UInt32 VertexInfo NodeId where
  root := s.root
  start := ⟨0, [], []⟩
  out := s.neighbors
  extend d c := min (d + c.toNat) 4294967295
  dist i := i.dist.toNat
  visit _ cur w cost := ⟨saturatingAdd cur.dist cost, (s.initialNexthops cur w).1, (s.initialNexthops cur w).2⟩
  merge e i := { e with v4 := mergeInto e.v4 i.v4, v6 := mergeInto e.v6 i.v6 }
  rank := id

/-- What one TLV of a node at a distance has to say about prefixes. -/
def tlvRoutes (info : VertexInfo) : Tlv → List SpfRoute
  | .extendedIpReachability reaches => reaches.filterMap fun r =>
      (Prefix.new (.v4 r.pfx) r.prefixLen).toOption.map fun pfx =>
        ⟨pfx, saturatingAdd info.dist r.metric, v4Hops info.v4⟩
  | .ipv6Reachability reaches => reaches.filterMap fun r =>
      (Prefix.new (.v6 r.pfx) r.prefixLen).toOption.map fun pfx =>
        ⟨pfx, saturatingAdd info.dist r.metric, v6Hops info.v6⟩
  | _ => []

/-- At Level 1 a node that is attached to the backbone draws default routes. -/
def defaultRoutes (s : Spf) (node : NodeId) (info : VertexInfo) : List SpfRoute :=
  if s.level = .l1 ∧ node ≠ s.root ∧ s.attached node then
    (if s.supports node nlpidIpv4 then [⟨defaultV4, info.dist, v4Hops info.v4⟩] else []) ++
      if s.supports node nlpidIpv6 then [⟨defaultV6, info.dist, v6Hops info.v6⟩] else []
  else []

def nodeRoutes (s : Spf) (e : NodeId × VertexInfo) : List SpfRoute :=
  ((s.fragments e.1).flatMap fun frag => frag.tlvs.flatMap (tlvRoutes e.2)) ++ s.defaultRoutes e.1 e.2

def harvest (s : Spf) (tree : BTreeMap NodeId VertexInfo) : SpfResult where
  routes := (((tree.toList.flatMap s.nodeRoutes).foldl addRoute ∅).toList).map Prod.snd
  nodes := tree.map fun _ info => info.dist
  nodeV4Nexthops := tree.map fun _ info => info.v4
  nodeV6Nexthops := tree.map fun _ info => info.v6

/-- Every vertex but the root is alive, so it settles no more of them than there are LSPs. -/
def run (s : Spf) : SpfResult := ((s.search.run (s.db.len + 1)).map s.harvest).getD ⟨[], ∅, ∅, ∅⟩

end Spf

def compute (db : Lsdb) (root : SystemId) (level : IsLevel) : SpfResult := Spf.run ⟨db, ⟨root, 0⟩, level⟩

end Wren.Isis
