import Wren.Ospfv3.Lsa
import Wren.Lib.RouteTree

/-! The shortest-path calculation of OSPFv3: topology from Router- and Network-LSAs, prefixes from the
Intra-Area-Prefix-LSAs that refer to them, and gateways from Link-LSAs. -/

namespace Wren.Ospfv3
open OrdMap RouteTree
open Wren.Ospf (Ipv4Addr maxAge)

/-- A router, or a transit network by the Router ID and the interface ID of its DR. -/
inductive Vertex where
  | router (rid : Ipv4Addr)
  | network (drRid : Ipv4Addr) (drIf : UInt32)
deriving DecidableEq

namespace Vertex

def key : Vertex → ℕ ×ₗ ℕ ×ₗ ℕ
  | router rid => toLex (0, toLex (rid.toNat, 0))
  | network drRid drIf => toLex (1, toLex (drRid.toNat, drIf.toNat))

theorem key_injective : Function.Injective key := by
  rintro (r | ⟨r, i⟩) (s | ⟨s, j⟩) h
  · have hpair := toLex.injective (congrArg Prod.snd (toLex.injective h))
    have hr : r = s := BitVec.eq_of_toNat_eq (congrArg Prod.fst hpair)
    rw [hr]
  · exact absurd (congrArg Prod.fst (toLex.injective h)) Nat.zero_ne_one
  · exact absurd (congrArg Prod.fst (toLex.injective h)) Nat.one_ne_zero
  · have hpair := toLex.injective (congrArg Prod.snd (toLex.injective h))
    have hr : r = s := BitVec.eq_of_toNat_eq (congrArg Prod.fst hpair)
    have hi : i = j := UInt32.toNat_inj.mp (congrArg Prod.snd hpair)
    rw [hr, hi]

instance : LinearOrder Vertex := LinearOrder.lift' key key_injective

instance : Std.LawfulEqOrd Vertex where
  eq_of_compare h := compare_eq_iff_eq.mp h

def routerId : Vertex → Option Ipv4Addr
  | router rid => some rid
  | network _ _ => none

theorem routerId_eq_some (v : Vertex) (rid : Ipv4Addr) : v.routerId = some rid ↔ v = router rid := by
  cases v <;> simp [routerId]

end Vertex

/-- A link-local gateway with the interface of the root that leads to it. -/
structure SpfNextHop where
  gateway : Ipv6Addr
  ifaceId : UInt32
deriving DecidableEq

structure SpfRoute where
  pfx : Core.Prefix
  cost : UInt32
  gateways : List SpfNextHop
deriving DecidableEq

structure SpfResult where
  routes : List SpfRoute
  routers : BTreeMap Ipv4Addr UInt32
  routerNexthops : BTreeMap Ipv4Addr (List SpfNextHop)

def toCorePrefix (p : Prefix) : Option Core.Prefix := (Core.Prefix.new (.v6 p.ipv6) p.length).toOption

def LsaBody.routerLinks : LsaBody → List RouterLink
  | .router r => r.links
  | _ => []

def RouterLink.joins (l : RouterLink) (rid : Ipv4Addr) : Bool :=
  (l.linkType = .pointToPoint ∨ l.linkType = .virtual) ∧ l.neighborRouterId = rid

def RouterLink.attaches (l : RouterLink) (drRid : Ipv4Addr) (drIf : UInt32) : Bool :=
  l.linkType = .transit ∧ l.neighborRouterId = drRid ∧ l.neighborInterfaceId = drIf

/-- The databases of an area and of its links. -/
structure Spf where
  area : Lsdb
  links : Lsdb
  root : Ipv4Addr

namespace Spf

/-- All links of a router, which it may split over several Router-LSAs. -/
def routerLinks (s : Spf) (rid : Ipv4Addr) : List RouterLink :=
  ((s.area.iterType .router).filter fun lsa => lsa.header.advertisingRouter = rid ∧ lsa.header.lsAge < maxAge).flatMap
    fun lsa => LsaBody.routerLinks lsa.body

def networkLsa (s : Spf) (drRid : Ipv4Addr) (drIf : UInt32) : Option NetworkLsa := do
  let lsa ← s.area.get (.network, BitVec.ofNat 32 drIf.toNat, drRid)
  if maxAge ≤ lsa.header.lsAge then none
  else match lsa.body with
    | .network n => some n
    | _ => none

def routerAlive (s : Spf) (rid : Ipv4Addr) : Bool :=
  (s.area.iterType .router).any fun lsa => lsa.header.advertisingRouter = rid ∧ lsa.header.lsAge < maxAge

def networkAlive (s : Spf) (drRid : Ipv4Addr) (drIf : UInt32) : Bool := (s.networkLsa drRid drIf).isSome

def routerLinksToRouter (s : Spf) (w v : Ipv4Addr) : Bool := (s.routerLinks w).any (RouterLink.joins · v)

def routerLinksToNetwork (s : Spf) (w drRid : Ipv4Addr) (drIf : UInt32) : Bool :=
  (s.routerLinks w).any (RouterLink.attaches · drRid drIf)

def networkListsRouter (s : Spf) (drRid : Ipv4Addr) (drIf : UInt32) (rid : Ipv4Addr) : Bool :=
  (s.networkLsa drRid drIf).any fun nl => rid ∈ nl.attachedRouters

/-- Neighbours that exist, are not MaxAge and have a link back. -/
def neighbors (s : Spf) : Vertex → List (Vertex × UInt32)
  | .router rid => (s.routerLinks rid).filterMap fun l =>
    match l.linkType with
    | .pointToPoint | .virtual =>
      let w := l.neighborRouterId
      if s.routerAlive w && s.routerLinksToRouter w rid then some (.router w, l.metric.toUInt32) else none
    | .transit =>
      let drRid := l.neighborRouterId
      let drIf := l.neighborInterfaceId
      if s.networkAlive drRid drIf && s.networkListsRouter drRid drIf rid then
        some (.network drRid drIf, l.metric.toUInt32)
      else none
  | .network drRid drIf =>
    match s.networkLsa drRid drIf with
    | none => []
    | some nl => nl.attachedRouters.filterMap fun w =>
      if s.routerAlive w && s.routerLinksToNetwork w drRid drIf then some (.router w, 0) else none

/-- The interface IDs of the neighbour and of the root on the link from the root. -/
def rootLinkTo (s : Spf) (w : Ipv4Addr) : Option (UInt32 × UInt32) :=
  ((s.routerLinks s.root).find? (RouterLink.joins · w)).map fun l => (l.neighborInterfaceId, l.interfaceId)

def routerInterfaceOnNetwork (s : Spf) (w drRid : Ipv4Addr) (drIf : UInt32) : Option UInt32 :=
  ((s.routerLinks w).find? (RouterLink.attaches · drRid drIf)).map (·.interfaceId)

def linkLocalOf (s : Spf) (router : Ipv4Addr) (interfaceId : UInt32) : Option Ipv6Addr := do
  let lsa ← s.links.get (.link, BitVec.ofNat 32 interfaceId.toNat, router)
  if maxAge ≤ lsa.header.lsAge then none
  else match lsa.body with
    | .link l => some l.linkLocalAddress
    | _ => none

/-- Gateways are passed down, and resolved anew at the edge of the root. -/
def initialGateways (s : Spf) (v : Vertex) (vGateways : List SpfNextHop) (w : Vertex) : List SpfNextHop :=
  if vGateways ≠ [] then vGateways
  else
    match v, w with
    | .router rid, .router wId =>
      if rid = s.root then
        ((s.rootLinkTo wId).bind fun (nbrIf, localIf) =>
          (s.linkLocalOf wId nbrIf).map fun gateway => [⟨gateway, localIf⟩]).getD []
      else []
    | .network drRid drIf, .router wId =>
      match s.routerInterfaceOnNetwork s.root drRid drIf with
      | none => []
      | some localIf =>
        (((s.routerInterfaceOnNetwork wId drRid drIf).bind (s.linkLocalOf wId)).map fun gateway =>
          [⟨gateway, localIf⟩]).getD []
    | _, _ => []

/-- The type, Link State ID and advertising router by which a prefix refers to a vertex. -/
def wanted : Vertex → UInt16 × Ipv4Addr × Ipv4Addr
  | .router rid => (LsType.router.asU16, 0, rid)
  | .network drRid drIf => (LsType.network.asU16, BitVec.ofNat 32 drIf.toNat, drRid)

/-- The prefixes that refer to a vertex. -/
def intraPrefixesFor (s : Spf) (vertex : Vertex) : List (List IntraPrefix) :=
  let (wantType, wantLsid, wantAdv) := wanted vertex
  (s.area.iterType .intraAreaPrefix).filterMap fun lsa =>
    if maxAge ≤ lsa.header.lsAge then none
    else match lsa.body with
      | .intraAreaPrefix p =>
        if p.referencedLsType = wantType ∧ p.referencedLinkStateId = wantLsid ∧
            p.referencedAdvertisingRouter = wantAdv then some p.prefixes
        else none
      | _ => none

def announces (s : Spf) (vertex : Vertex) : List (Core.Prefix × UInt32) :=
  (s.intraPrefixesFor vertex).flatMap fun prefixes => prefixes.filterMap fun entry =>
    if entry.pfx.options &&& prefixNu ≠ 0 then none
    else (toCorePrefix entry.pfx).map fun p => (p, entry.metric.toUInt32)

def topology (s : Spf) : Topology Vertex SpfNextHop Core.Prefix Vertex where
  root := .router s.root
  neighbors := s.neighbors
  initialGateways := s.initialGateways
  announces := s.announces
  rank := id

def harvest (s : Spf) (tree : BTreeMap Vertex (Info SpfNextHop)) : SpfResult where
  routes := (s.topology.routes tree).toList.map fun r => ⟨r.1, r.2.dist, r.2.gateways⟩
  routers := collect tree Vertex.routerId Info.dist
  routerNexthops := collect tree Vertex.routerId Info.gateways

/-- Every vertex but the root was found in an LSA, so there are no more of them than LSAs. -/
def run (s : Spf) : SpfResult :=
  ((s.topology.search.run (s.area.len + 1)).map s.harvest).getD ⟨[], ∅, ∅⟩

end Spf

def compute (area links : Lsdb) (root : Ipv4Addr) : SpfResult := Spf.run ⟨area, links, root⟩

end Wren.Ospfv3
