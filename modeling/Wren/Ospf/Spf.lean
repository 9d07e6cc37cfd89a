import Wren.Core.Prefix
import Wren.Ospf.Lsdb
import Wren.Lib.RouteTree

/-! The intra-area shortest-path calculation of OSPFv2. -/

namespace Wren.Ospf
open OrdMap RouteTree

/-- A router, or a transit network by the interface address of its DR. -/
inductive Vertex where
  | router (rid : Ipv4Addr)
  | network (dr : Ipv4Addr)
deriving DecidableEq

namespace Vertex

def key : Vertex → ℕ ×ₗ ℕ
  | router rid => toLex (0, rid.toNat)
  | network dr => toLex (1, dr.toNat)

theorem key_injective : Function.Injective key := by
  rintro (r | r) (s | s) h
  · have hr : r = s := BitVec.eq_of_toNat_eq (congrArg Prod.snd (toLex.injective h))
    rw [hr]
  · exact absurd (congrArg Prod.fst (toLex.injective h)) Nat.zero_ne_one
  · exact absurd (congrArg Prod.fst (toLex.injective h)) Nat.one_ne_zero
  · have hr : r = s := BitVec.eq_of_toNat_eq (congrArg Prod.snd (toLex.injective h))
    rw [hr]

instance : LinearOrder Vertex := LinearOrder.lift' key key_injective

instance : Std.LawfulEqOrd Vertex where
  eq_of_compare h := compare_eq_iff_eq.mp h

def routerId : Vertex → Option Ipv4Addr
  | router rid => some rid
  | network _ => none

theorem routerId_eq_some (v : Vertex) (rid : Ipv4Addr) : v.routerId = some rid ↔ v = router rid := by
  cases v <;> simp [routerId]

/-- At equal distance transit networks are settled before the routers on them. -/
def settleRank : Vertex → ℕ
  | network _ => 0
  | router _ => 1

end Vertex

structure SpfRoute where
  pfx : Core.Prefix
  cost : UInt32
  gateways : List Ipv4Addr
deriving DecidableEq

structure SpfResult where
  routes : List SpfRoute
  routers : BTreeMap Ipv4Addr UInt32
  routerNexthops : BTreeMap Ipv4Addr (List Ipv4Addr)

/-- The number of leading ones. -/
def maskLen (mask : Ipv4Addr) : UInt8 := UInt8.ofNat ((List.range 32).takeWhile fun i => mask.getMsbD i).length

/-- A link to another router. -/
def RouterLink.joins (l : RouterLink) (rid : Ipv4Addr) : Bool :=
  (l.linkType = .pointToPoint ∨ l.linkType = .virtual) ∧ l.linkId = rid

def RouterLink.attaches (l : RouterLink) (dr : Ipv4Addr) : Bool := l.linkType = .transit ∧ l.linkId = dr

structure Spf where
  db : Lsdb
  root : Ipv4Addr

namespace Spf

/-- The Router-LSA of a router, whatever its age. -/
def routerLsa (s : Spf) (rid : Ipv4Addr) : Option RouterLsa := do
  match (← s.db.get (.router, rid, rid)).body with
  | .router r => some r
  | _ => none

/-- The first Network-LSA with the Link State ID that is not at MaxAge. -/
def networkLsa (s : Spf) (dr : Ipv4Addr) : Option NetworkLsa :=
  (s.db.iterType .network).findSome? fun lsa =>
    if lsa.header.linkStateId = dr ∧ lsa.header.lsAge < maxAge then
      match lsa.body with
      | .network n => some n
      | _ => none
    else none

def routerAlive (s : Spf) (rid : Ipv4Addr) : Bool :=
  (s.db.get (.router, rid, rid)).any fun l => l.header.lsAge < maxAge

def networkAlive (s : Spf) (dr : Ipv4Addr) : Bool := (s.networkLsa dr).isSome

def routerLinksToRouter (s : Spf) (w v : Ipv4Addr) : Bool := (s.routerLsa w).any fun rl => rl.links.any (RouterLink.joins · v)

def routerLinksToNetwork (s : Spf) (w dr : Ipv4Addr) : Bool :=
  (s.routerLsa w).any fun rl => rl.links.any (RouterLink.attaches · dr)

def networkListsRouter (s : Spf) (dr rid : Ipv4Addr) : Bool := (s.networkLsa dr).any fun nl => rid ∈ nl.attachedRouters

/-- Neighbours that exist, are not MaxAge and have a link back. -/
def neighbors (s : Spf) : Vertex → List (Vertex × UInt32)
  | .router rid =>
    match s.routerLsa rid with
    | none => []
    | some rl => rl.links.filterMap fun l =>
      match l.linkType with
      | .pointToPoint | .virtual =>
        if s.routerAlive l.linkId && s.routerLinksToRouter l.linkId rid then
          some (.router l.linkId, l.metric.toUInt32)
        else none
      | .transit =>
        if s.networkAlive l.linkId && s.networkListsRouter l.linkId rid then
          some (.network l.linkId, l.metric.toUInt32)
        else none
      | .stub => none
  | .network dr =>
    match s.networkLsa dr with
    | none => []
    | some nl => nl.attachedRouters.filterMap fun w =>
      if s.routerAlive w && s.routerLinksToNetwork w dr then some (.router w, 0) else none

/-- The far end's address on the link from `peer` back to `target`. -/
def reverseP2pAddress (s : Spf) (peer target : Ipv4Addr) : Option Ipv4Addr := do
  let rl ← s.routerLsa peer
  ((rl.links.find? (RouterLink.joins · target)).map (·.linkData)).filter fun a => a ≠ 0

def routerIfaceOnNetwork (s : Spf) (w dr : Ipv4Addr) : Option Ipv4Addr := do
  let rl ← s.routerLsa w
  ((rl.links.find? (RouterLink.attaches · dr)).map (·.linkData)).filter fun a => a ≠ 0

/-- Gateways are passed down, and resolved anew at the edge of the root. -/
def initialGateways (s : Spf) (v : Vertex) (vGateways : List Ipv4Addr) (w : Vertex) : List Ipv4Addr :=
  if vGateways ≠ [] then vGateways
  else
    match v, w with
    | .router rid, .router wId => if rid = s.root then (s.reverseP2pAddress wId rid).toList else []
    | .network dr, .router wId => (s.routerIfaceOnNetwork wId dr).toList
    | _, _ => []

/-- The stub links of a router, and the prefix of a transit network. -/
def announces (s : Spf) : Vertex → List (Core.Prefix × UInt32)
  | .router rid =>
    match s.routerLsa rid with
    | none => []
    | some rl => rl.links.filterMap fun l =>
      if l.linkType = .stub then
        (Core.Prefix.new (.v4 l.linkId) (maskLen l.linkData)).toOption.map fun p => (p, l.metric.toUInt32)
      else none
  | .network dr =>
    match s.networkLsa dr with
    | none => []
    | some nl => ((Core.Prefix.new (.v4 dr) (maskLen nl.networkMask)).toOption.map fun p => (p, 0)).toList

def topology (s : Spf) : Topology Vertex Ipv4Addr Core.Prefix (ℕ ×ₗ Vertex) where
  root := .router s.root
  neighbors := s.neighbors
  initialGateways := s.initialGateways
  announces := s.announces
  rank v := toLex (v.settleRank, v)

def harvest (s : Spf) (tree : BTreeMap Vertex (Info Ipv4Addr)) : SpfResult where
  routes := (s.topology.routes tree).toList.map fun r => ⟨r.1, r.2.dist, r.2.gateways⟩
  routers := collect tree Vertex.routerId Info.dist
  routerNexthops := collect tree Vertex.routerId Info.gateways

/-- Every vertex but the root was found in an LSA, so there are no more of them than LSAs. -/
def run (s : Spf) : SpfResult := ((s.topology.search.run (s.db.len + 1)).map s.harvest).getD ⟨[], ∅, ∅⟩

end Spf

def compute (db : Lsdb) (root : Ipv4Addr) : SpfResult := Spf.run ⟨db, root⟩

end Wren.Ospf
