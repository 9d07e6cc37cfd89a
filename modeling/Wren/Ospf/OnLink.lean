import Wren.Ospf.Gateways

/-! Whether OSPFv2 keeps on-link what is attached to the root. -/

namespace Wren.Ospf
open OrdMap RouteTree

section Statement
variable (db : Lsdb) (root : Ipv4Addr)

/-- The prefix of a stub link of the root, or of a network that the root is on, at the cost of the link. -/
def DirectAt (p : Core.Prefix) (d : ℕ) : Prop :=
  (∃ m, Announces db (FirstNetwork db) (.router root) p m ∧ d = m.toNat) ∨
    ∃ dr c m, Link db (.router root) (.network dr) c ∧ Announces db (FirstNetwork db) (.network dr) p m ∧
      d = c.toNat + m.toNat

/-- The router is on a network of the root, over which the shortest way to it goes. -/
def Shares (dr w : Ipv4Addr) : Prop :=
  ∃ c, Link db (.router root) (.network dr) c ∧ Link db (.network dr) (.router w) 0 ∧ w ≠ root ∧
    LeastCost (Link db) (.router root) (.router w) c.toNat

/-- What is attached to the root has no gateway, and routers on its networks have their address there. -/
structure OnLink : Prop where
  attached : ∀ r ∈ (compute db root).routes, DirectAt db root r.pfx r.cost.toNat → r.gateways = []
  shared : ∀ dr w, Shares db root dr w → ∃ gs, (compute db root).routerNexthops[w]? = some gs ∧
    ∃ l, Links db w l ∧ l.attaches dr = true ∧ l.linkData ∈ gs

/-- Nothing is resolved on the shortest paths to the vertex. -/
abbrev Unresolved (v : Vertex) : Prop := Silent (Link db) (.router root) (Spf.mk db root).resolve v

/-- The address of a router on a network comes from another edge of a shortest path to the router. -/
def Coincides (dr w : Ipv4Addr) : Prop :=
  ∃ l u x, Links db w l ∧ l.attaches dr = true ∧ (u, x) ≠ (.network dr, .router w) ∧ Unresolved db root u ∧
    Tight (Link db) (.router root) u x ∧ (Spf.mk db root).resolve u x = some l.linkData ∧
    Relation.ReflTransGen (Tight (Link db) (.router root)) x (.router w)

/-- What is attached is not also reached through another router at the same cost, and routers on the networks of the
root have an address there. -/
structure Untied (Else : Ipv4Addr → Ipv4Addr → Prop) : Prop where
  attached : ∀ p d, DirectAt db root p d →
    IsLeast (Set.ofPred (Available (Link db) (.router root) (Announces db (FirstNetwork db)) p)) d →
    ∀ v e m, LeastCost (Link db) (.router root) v e → Announces db (FirstNetwork db) v p m → d = e + m.toNat →
      Unresolved db root v
  shared : ∀ dr w, Shares db root dr w →
    (Unresolved db root (.network dr) ∧ ∃ a, (Spf.mk db root).routerIfaceOnNetwork w dr = some a) ∨ Else dr w

end Statement

variable {db : Lsdb} {root : Ipv4Addr}

/-- The network that a router shares with the root is one edge in front of it. -/
theorem Shares.tight {dr w : Ipv4Addr} (h : Shares db root dr w) :
    ∃ c : UInt32, Link db (.router root) (.network dr) c ∧ LeastCost (Link db) (.router root) (.network dr) c.toNat ∧
      LeastCost (Link db) (.router root) (.router w) c.toNat ∧
      Tight (Link db) (.router root) (.network dr) (.router w) := by
  obtain ⟨c, honto, hoff, -, hw⟩ := h
  have hwalk : Walk (Link db) (.router root) (.network dr) c.toNat := by
    have hstep : Walk (Link db) (.router root) (.network dr) (0 + c.toNat) := .step .root honto
    rwa [Nat.zero_add] at hstep
  have hnet : LeastCost (Link db) (.router root) (.network dr) c.toNat := LeastCost.of_step hw hwalk hoff
  exact ⟨c, honto, hnet, hw, c.toNat, 0, hnet, hoff, hw⟩

section Run
variable (hfits : Fits32 db (FirstNetwork db) root) {fuel : ℕ} {tree : BTreeMap Vertex (Info Ipv4Addr)}
  (hrun : (Spf.mk db root).topology.search.run fuel = some tree)
  (hcompute : compute db root = (Spf.mk db root).harvest tree)
include hfits hrun hcompute

/-- The network is settled before the routers on it, which are given their addresses there. -/
theorem Shares.address {dr w a : Ipv4Addr} (h : Shares db root dr w) (hnone : Unresolved db root (.network dr))
    (ha : (Spf.mk db root).routerIfaceOnNetwork w dr = some a) :
    ∃ gs, (compute db root).routerNexthops[w]? = some gs ∧ ∃ l, Links db w l ∧ l.attaches dr = true ∧ l.linkData ∈ gs := by
  have hm := (Spf.mk db root).models
  have hres := (Spf.mk db root).resolves
  have hleast := hm.leastCost_iff hfits hrun
  obtain ⟨c, honto, hnet, hw, htight⟩ := h.tight
  obtain ⟨-, -, -, hne, -⟩ := h
  obtain ⟨i, hi, hdi⟩ := (hleast _ _).mp hnet
  obtain ⟨info, hinfo, hd⟩ := (hleast _ _).mp hw
  have hroot : Vertex.router w ≠ Vertex.router root := fun heq => hne (Vertex.router.inj heq)
  obtain ⟨idx, hord⟩ := Dijkstra.Search.exists_settleOrder (Topology.lawful (hm.bounded hfits)) hrun
  have hstart : tree[Vertex.router root]? = some ⟨0, []⟩ := Dijkstra.Search.getElem?_root_of_run hrun
  have hlt : idx (.network dr) < idx (.router w) := by
    refine hord.lt_of_offered hstart hinfo (hord.root_lt _ (Dijkstra.Search.mem_of_getElem? hinfo) hroot)
      ((hm.edge _ _ c).mpr honto) ?_
    change toLex (0 + c.toNat, toLex (0, Vertex.network dr)) < toLex (info.dist.toNat, toLex (1, Vertex.router w))
    rw [hd, Nat.zero_add, Prod.Lex.toLex_lt_toLex, Prod.Lex.toLex_lt_toLex]
    exact .inr ⟨rfl, .inl Nat.zero_lt_one⟩
  have hnil : i.gateways = [] := Topology.gateways_nil_of_silent hm hfits hres hrun hi hnone
  have hmem : a ∈ info.gateways := by
    rw [Topology.mem_gateways_iff_before hm hfits hres hrun hord hinfo hroot]
    exact ⟨_, i, hi, hlt, htight, .inr ⟨hnil, ha⟩⟩
  obtain ⟨l, hl, hattaches, hdata⟩ := Spf.of_routerIfaceOnNetwork ha
  exact ⟨_, (routerNexthops_eq_some hcompute).mpr ⟨info, hinfo, rfl⟩, l, hl, hattaches, hdata ▸ hmem⟩

/-- A direct prefix has no gateway if no vertex that has it at its cost has any. -/
theorem attached_of_unresolved (h : ∀ p d, DirectAt db root p d →
    IsLeast (Set.ofPred (Available (Link db) (.router root) (Announces db (FirstNetwork db)) p)) d →
    ∀ v e m, LeastCost (Link db) (.router root) v e → Announces db (FirstNetwork db) v p m → d = e + m.toNat →
      Unresolved db root v) :
    ∀ r ∈ (compute db root).routes, DirectAt db root r.pfx r.cost.toNat → r.gateways = [] := by
  have hm := (Spf.mk db root).models
  intro r hr hdirect
  rw [route_gateways_nil_iff hcompute hfits hrun hr]
  intro v info m hv ha hd
  have hleast := (exists_route_iff hcompute hfits hrun r.pfx r.cost.toNat).mp ⟨r, hr, rfl, rfl⟩
  have hcost := (hm.leastCost_iff hfits hrun v _).mpr ⟨info, hv, rfl⟩
  exact Topology.gateways_nil_of_silent hm hfits (Spf.mk db root).resolves hrun hv
    (h r.pfx _ hdirect hleast v _ m hcost ha hd)

theorem Untied.onLink (h : Untied db root fun _ _ => False) : OnLink db root := by
  refine ⟨attached_of_unresolved hfits hrun hcompute h.attached, ?_⟩
  intro dr w hw
  obtain ⟨hnone, a, ha⟩ | hfalse := h.shared dr w hw
  · exact hw.address hfits hrun hcompute hnone ha
  · exact hfalse.elim

variable (hpos : Positive db)
include hpos

/-- With positive metrics a router has what is resolved on its shortest paths. -/
theorem Untied.onLink_of_positive (h : Untied db root (Coincides db root)) : OnLink db root := by
  have hm := (Spf.mk db root).models
  have hres := (Spf.mk db root).resolves
  refine ⟨attached_of_unresolved hfits hrun hcompute h.attached, ?_⟩
  intro dr w hw
  obtain ⟨hnone, a, ha⟩ | ⟨l, u, x, hl, hattaches, -, hnone, htight, hres', hpath⟩ := h.shared dr w hw
  · exact hw.address hfits hrun hcompute hnone ha
  · obtain ⟨c, -, -, hleast, -⟩ := hw.tight
    obtain ⟨info, hinfo, -⟩ := (hm.leastCost_iff hfits hrun _ _).mp hleast
    have hmem := (Topology.mem_gateways_iff_learns hm hfits hres hrun (Spf.ascending (s := ⟨db, root⟩) hpos) hinfo _).mpr
      (learns_iff.mpr ⟨u, x, hnone, htight, hres', hpath⟩)
    exact ⟨_, (routerNexthops_eq_some hcompute).mpr ⟨info, hinfo, rfl⟩, l, hl, hattaches, hmem⟩

theorem OnLink.untied (h : OnLink db root) : Untied db root (Coincides db root) := by
  have hm := (Spf.mk db root).models
  have hres := (Spf.mk db root).resolves
  have hasc := Spf.ascending (s := ⟨db, root⟩) hpos
  constructor
  · intro p d hdirect hleast v e m hv ha hd
    obtain ⟨r, hr, rfl, rfl⟩ := (exists_route_iff hcompute hfits hrun p d).mpr hleast
    obtain ⟨info, hinfo, rfl⟩ := (hm.leastCost_iff hfits hrun v e).mp hv
    have hnil := (route_gateways_nil_iff hcompute hfits hrun hr).mp (h.attached r hr hdirect) v info m hinfo ha hd
    exact (Topology.gateways_nil_iff hm hfits hres hrun hasc hinfo).mp hnil
  · intro dr w hw
    obtain ⟨gs, hgs, l, hl, hattaches, hmem⟩ := h.shared dr w hw
    obtain ⟨info, hinfo, rfl⟩ := (routerNexthops_eq_some hcompute).mp hgs
    obtain ⟨u, x, hnone, htight, hres', hpath⟩ :=
      learns_iff.mp ((Topology.mem_gateways_iff_learns hm hfits hres hrun hasc hinfo _).mp hmem)
    by_cases hedge : (u, x) = (.network dr, .router w)
    · obtain ⟨rfl, rfl⟩ := Prod.mk.inj hedge
      exact .inl ⟨hnone, _, hres'⟩
    · exact .inr ⟨l, u, x, hl, hattaches, hedge, hnone, htight, hres', hpath⟩

end Run

/-- The network is two away from the root, and also through the second router. -/
def tiedDb : Lsdb :=
  ((Lsdb.new.put (routerWith 1 [⟨2, 12, .pointToPoint, 1⟩, ⟨9, 19, .transit, 2⟩])).put
    (routerWith 2 [⟨1, 21, .pointToPoint, 1⟩, ⟨9, 29, .transit, 1⟩])).put (networkOn 9 2 [1, 2])

end Wren.Ospf
