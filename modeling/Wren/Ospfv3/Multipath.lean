import Wren.Lib.Gateways
import Wren.Ospfv3.ShortestPaths

/-! Whether the next hops of OSPFv3 are the first hops of all shortest paths. A router at the distance of a network is
settled before it, and of several links to one neighbour the first in the list gives the next hop. -/

namespace Wren.Ospfv3
open OrdMap RouteTree
open Wren.Ospf (Ipv4Addr maxAge)
open Dijkstra (Search)

namespace Vertex

theorem router_lt_network (rid r : Ipv4Addr) (i : UInt32) : router rid < network r i := by
  show toLex (0, toLex (rid.toNat, 0)) < toLex (1, toLex (r.toNat, i.toNat))
  rw [Prod.Lex.toLex_lt_toLex]
  exact .inl Nat.zero_lt_one

theorem not_network_lt_router (r : Ipv4Addr) (i : UInt32) (rid : Ipv4Addr) : ¬ network r i < router rid :=
  not_lt.mpr (router_lt_network rid r i).le

end Vertex

section Statement
variable (area links : Lsdb) (root : Ipv4Addr)

/-- A link of a router that leads to a vertex, with a link back. -/
inductive LeadsTo (u : Ipv4Addr) (l : RouterLink) : Vertex → Prop
  | across {w : Ipv4Addr} {back : RouterLink} : Links area u l → l.joins w = true → Alive area w → Links area w back →
    back.joins u = true → LeadsTo u l (.router w)
  | onto {r : Ipv4Addr} {i : UInt32} : Links area u l → l.attaches r i = true → Lists area r i u →
    LeadsTo u l (.network r i)

/-- A path that starts with a link of the root, over these vertices, the last one first. -/
inductive PathOver (l : RouterLink) : Vertex → List Vertex → ℕ → Prop
  | start {v : Vertex} : LeadsTo area root l v → PathOver l v [v] l.metric.toNat
  | step {u w : Vertex} {p : List Vertex} {d : ℕ} {c : UInt32} : PathOver l u p d → Edge area u w c →
    PathOver l w (w :: p) (d + c.toNat)

abbrev Shortest : Vertex → ℕ → Prop := LeastCost (Edge area) (.router root)

def ShortestPathOver (l : RouterLink) (v : Vertex) (p : List Vertex) : Prop :=
  ∃ d, Shortest area root v d ∧ PathOver area root l v p d

/-- The Link-LSA of a router for one of its interfaces has this address. -/
def LinkLocal (w : Ipv4Addr) (i : UInt32) (a : Ipv6Addr) : Prop :=
  ∃ lsa b, links.get (.link, BitVec.ofNat 32 i.toNat, w) = some lsa ∧ lsa.header.lsAge < maxAge ∧ lsa.body = .link b ∧
    b.linkLocalAddress = a

/-- The address of the first router of a path that starts with this link. -/
def Gateway (l : RouterLink) : List Vertex → Ipv6Addr → Prop
  | .router w :: _, a => LinkLocal links w l.neighborInterfaceId a
  | .network r i :: .router w :: _, a => ∃ back, LeadsTo area w back (.network r i) ∧ LinkLocal links w back.interfaceId a
  | _, _ => False

/-- A next hop of the shortest paths: the address of the first router, and the interface of the root. -/
def FirstHop (v : Vertex) (g : SpfNextHop) : Prop :=
  ∃ l p, ShortestPathOver area root l v p ∧ Gateway area links l p.reverse g.gateway ∧ g.ifaceId = l.interfaceId

/-- The last edge of a shortest path. -/
abbrev LastEdge : Vertex → Vertex → Prop := Tight (Edge area) (.router root)

/-- Metrics are positive, neighbours have their Link-LSAs, and no network of the root is also reached through another
router. -/
structure Regular : Prop where
  metric : ∀ rid l, Links area rid l → 1 ≤ l.metric.toNat
  across : ∀ l w, LeadsTo area root l (.router w) → w ≠ root → ∃ a, LinkLocal links w l.neighborInterfaceId a
  onto : ∀ l r i w back, LeadsTo area root l (.network r i) → LeadsTo area w back (.network r i) → w ≠ root →
    ∃ a, LinkLocal links w back.interfaceId a
  attached : ∀ r i u, LastEdge area root (.router root) (.network r i) → LastEdge area root u (.network r i) →
    u = .router root

/-- The root, or a network that it is on. -/
def Direct : Vertex → Prop
  | .router rid => rid = root
  | .network r i => LastEdge area root (.router root) (.network r i)

/-- The near end is settled first: it is a router, or else it comes first of all that lead to the far end. -/
def InTime (u w : Vertex) : Prop :=
  LastEdge area root u w ∧ (u.routerId.isSome ∨ ∀ x, LastEdge area root x w → u ≤ x)

end Statement

/-- The next hop that the first links in the list give. -/
def Spf.resolve (s : Spf) : Vertex → Vertex → Option SpfNextHop
  | .router rid, .router w =>
    if rid = s.root then
      (s.rootLinkTo w).bind fun (nbrIf, localIf) => (s.linkLocalOf w nbrIf).map fun gateway => ⟨gateway, localIf⟩
    else none
  | .network drRid drIf, .router w =>
    (s.routerInterfaceOnNetwork s.root drRid drIf).bind fun localIf =>
      ((s.routerInterfaceOnNetwork w drRid drIf).bind (s.linkLocalOf w)).map fun gateway => ⟨gateway, localIf⟩
  | _, .network _ _ => none

section Statement
variable (area links : Lsdb) (root : Ipv4Addr)

/-- Every first hop comes over an edge whose near end is settled in time, and what the first links in the list give is a
first hop. -/
structure Undisturbed : Prop where
  kept : ∀ v g, FirstHop area links root v g → ∃ u, InTime area root u v ∧
    (FirstHop area links root u g ∨ Direct area root u ∧ (Spf.mk area links root).resolve u v = some g)
  used : ∀ u v g, Direct area root u → InTime area root u v → (Spf.mk area links root).resolve u v = some g →
    FirstHop area links root v g

/-- The next hops of every router that can be reached are the first hops of its shortest paths. -/
def NextHopsComplete : Prop :=
  ∀ rid d, Shortest area root (.router rid) d → rid ≠ root →
    ∃ gs, (compute area links root).routerNexthops[rid]? = some gs ∧ ∀ g, g ∈ gs ↔ FirstHop area links root (.router rid) g

end Statement

section Paths
variable {area links : Lsdb} {root : Ipv4Addr}

theorem edge_router_iff {u : Ipv4Addr} {x : Vertex} {c : UInt32} :
    Edge area (.router u) x c ↔ ∃ l, LeadsTo area u l x ∧ l.metric.toUInt32 = c := by
  constructor
  · intro h
    cases h with
    | @between _ _ l _ hl hjoins halive hb hback => exact ⟨l, .across hl hjoins halive hb hback, rfl⟩
    | @onto _ _ _ l hl hattaches hlists => exact ⟨l, .onto hl hattaches hlists, rfl⟩
  · rintro ⟨l, h, rfl⟩
    cases h with
    | across hl hjoins halive hb hback => exact .between hl hjoins halive hb hback
    | onto hl hattaches hlists => exact .onto hl hattaches hlists

theorem LeadsTo.mem {u : Ipv4Addr} {l : RouterLink} {x : Vertex} (h : LeadsTo area u l x) : Links area u l := by
  cases h with
  | across hl _ _ _ _ => exact hl
  | onto hl _ _ => exact hl

theorem Links.alive {rid : Ipv4Addr} {l : RouterLink} (h : Links area rid l) : Alive area rid := by
  obtain ⟨lsa, r, hlive, hadv, -, -⟩ := h
  exact ⟨lsa, hlive, hadv⟩

theorem edge_network_iff {r : Ipv4Addr} {i : UInt32} {x : Vertex} {c : UInt32} :
    Edge area (.network r i) x c ↔ c = 0 ∧ ∃ w back, x = .router w ∧ LeadsTo area w back (.network r i) := by
  constructor
  · intro h
    cases h with
    | @off w _ _ back hlists _ hb hattaches => exact ⟨rfl, w, back, rfl, .onto hb hattaches hlists⟩
  · rintro ⟨rfl, w, back, rfl, h⟩
    cases h with
    | onto hb hattaches hlists => exact .off hlists hb.alive hb hattaches

theorem PathOver.walk {l : RouterLink} {v : Vertex} {p : List Vertex} {d : ℕ} (h : PathOver area root l v p d) :
    Walk (Edge area) (.router root) v d := by
  induction h with
  | start h =>
    have hwalk := Walk.step Walk.root (edge_router_iff.mpr ⟨l, h, rfl⟩)
    rwa [UInt16.toNat_toUInt32, Nat.zero_add] at hwalk
  | step _ hedge ih => exact ih.step hedge

theorem Gateway.append {l : RouterLink} {q : List Vertex} {a : Ipv6Addr} (h : Gateway area links l q a) (r : List Vertex) :
    Gateway area links l (q ++ r) a := by
  match q with
  | [] => cases h
  | .router _ :: _ => exact h
  | [.network _ _] => cases h
  | .network _ _ :: .router _ :: _ => exact h
  | .network _ _ :: .network _ _ :: _ => cases h

/-- The first router of a path is not the network at its end. -/
theorem Gateway.of_append {l : RouterLink} {q : List Vertex} {a : Ipv6Addr} {r : Ipv4Addr} {i : UInt32}
    (h : Gateway area links l (q ++ [.network r i]) a) : Gateway area links l q a := by
  match q with
  | [] => cases h
  | .router _ :: _ => exact h
  | [.network _ _] => cases h
  | .network _ _ :: .router _ :: _ => exact h
  | .network _ _ :: .network _ _ :: _ => cases h

/-- First hops are passed down. -/
theorem FirstHop.of_lastEdge {u w : Vertex} {g : SpfNextHop} (hu : FirstHop area links root u g)
    (h : LastEdge area root u w) : FirstHop area links root w g := by
  obtain ⟨l, p, ⟨d, hd, hp⟩, hg, hi⟩ := hu
  obtain ⟨d', c, hd', hedge, hw⟩ := h
  obtain rfl := hd.unique hd'
  refine ⟨l, w :: p, ⟨_, hw, hp.step hedge⟩, ?_, hi⟩
  rw [List.reverse_cons]
  exact hg.append [w]

/-- The first hops of a network are those of the routers in front of it. -/
theorem FirstHop.exists_lastEdge {r : Ipv4Addr} {i : UInt32} {g : SpfNextHop}
    (h : FirstHop area links root (.network r i) g) :
    ∃ u, LastEdge area root u (.network r i) ∧ FirstHop area links root u g := by
  obtain ⟨l, p, ⟨d, hd, hp⟩, hg, hi⟩ := h
  cases hp with
  | start _ => cases hg
  | @step u _ p d c hp hedge =>
    have hu := hd.of_step hp.walk hedge
    rw [List.reverse_cons] at hg
    exact ⟨u, ⟨d, c, hu, hedge, hd⟩, l, p, ⟨d, hu, hp⟩, hg.of_append, hi⟩

namespace Regular
variable (hreg : Regular area links root)
include hreg

/-- An edge goes up in cost, or from a network to a router on it. -/
theorem cost {u w : Vertex} {c : UInt32} (h : Edge area u w c) :
    u.routerId.isSome ∧ 1 ≤ c.toNat ∨ (∃ r i, u = .network r i) ∧ (∃ rid, w = .router rid) ∧ c.toNat = 0 := by
  cases u with
  | router u =>
    obtain ⟨l, hl, rfl⟩ := edge_router_iff.mp h
    have hm := hreg.metric u l hl.mem
    rw [UInt16.toNat_toUInt32]
    exact .inl ⟨rfl, hm⟩
  | network r i =>
    obtain ⟨rfl, rid, back, rfl, -⟩ := edge_network_iff.mp h
    exact .inr ⟨⟨r, i, rfl⟩, ⟨rid, rfl⟩, rfl⟩

theorem pos_of_pathOver {l : RouterLink} {v : Vertex} {p : List Vertex} {d : ℕ} (h : PathOver area root l v p d) :
    1 ≤ d := by
  induction h with
  | start h => exact hreg.metric root l h.mem
  | step _ _ ih => omega

theorem not_pathOver_root {l : RouterLink} {p : List Vertex} {d : ℕ} (hd : Shortest area root (.router root) d) :
    ¬ PathOver area root l (.router root) p d := by
  intro h
  have hpos := hreg.pos_of_pathOver h
  have hzero : d ≤ 0 := hd.2 Walk.root
  omega

/-- What is next to the root has no router in front. -/
theorem not_firstHop_of_direct {v : Vertex} (hv : Direct area root v) (g : SpfNextHop) :
    ¬ FirstHop area links root v g := by
  rintro ⟨l, p, ⟨d, hd, hp⟩, hg, -⟩
  cases v with
  | router rid =>
    obtain rfl : rid = root := hv
    exact hreg.not_pathOver_root hd hp
  | network r i =>
    cases hp with
    | start _ => cases hg
    | @step u _ p d c hp hedge =>
      have hu := hd.of_step hp.walk hedge
      obtain rfl := hreg.attached r i u hv ⟨d, c, hu, hedge, hd⟩
      exact hreg.not_pathOver_root hu hp

/-- No shortest path comes back to the root. -/
theorem ne_root_of_lastEdge {u w : Vertex} (h : LastEdge area root u w) : w ≠ .router root := by
  rintro rfl
  obtain ⟨d, c, hu, hedge, hw⟩ := h
  have hzero : d + c.toNat ≤ 0 := hw.2 Walk.root
  rcases hreg.cost hedge with ⟨-, hpos⟩ | ⟨⟨r, i, rfl⟩, -, -⟩
  · omega
  · have hd : d = 0 := by omega
    subst hd
    generalize he : 0 = e at hu
    cases hu.1 with
    | @step x _ d c hx hxu =>
      rcases hreg.cost hxu with ⟨-, hpos⟩ | ⟨-, ⟨rid, hrid⟩, -⟩
      · omega
      · cases hrid

end Regular
end Paths

namespace Spf
variable {s : Spf}

theorem linkLocalOf_eq_some {w : Ipv4Addr} {i : UInt32} {a : Ipv6Addr} :
    s.linkLocalOf w i = some a ↔ LinkLocal s.links w i a := by
  unfold linkLocalOf LinkLocal
  simp only [Option.bind_eq_bind, Option.bind_eq_some_iff]
  refine exists_congr fun lsa => ?_
  constructor
  · rintro ⟨hget, hbody⟩
    split_ifs at hbody with hage
    cases hb : lsa.body with
    | link b =>
      rw [hb] at hbody
      exact ⟨b, hget, UInt16.not_le.mp hage, rfl, Option.some.inj hbody⟩
    | _ =>
      rw [hb] at hbody
      cases hbody
  · rintro ⟨b, hget, hage, hb, rfl⟩
    refine ⟨hget, ?_⟩
    rw [if_neg (UInt16.not_le.mpr hage), hb]

theorem resolves (s : Spf) : s.topology.Resolves s.resolve := by
  intro u gs w
  change s.initialGateways u gs w = _
  unfold initialGateways
  congr 1
  cases u with
  | router rid =>
    cases w with
    | router w =>
      change (if rid = s.root then _ else _) = (if rid = s.root then _ else _ : Option SpfNextHop).toList
      split_ifs
      · cases s.rootLinkTo w with
        | none => rfl
        | some ids =>
          change ((s.linkLocalOf w ids.1).map _).getD [] = ((s.linkLocalOf w ids.1).map _).toList
          cases s.linkLocalOf w ids.1 <;> rfl
      · rfl
    | network _ _ => rfl
  | network r i =>
    cases w with
    | router w =>
      dsimp only [resolve]
      cases s.routerInterfaceOnNetwork s.root r i with
      | none => rfl
      | some localIf =>
        change (((s.routerInterfaceOnNetwork w r i).bind (s.linkLocalOf w)).map _).getD [] =
          (((s.routerInterfaceOnNetwork w r i).bind (s.linkLocalOf w)).map _).toList
        cases (s.routerInterfaceOnNetwork w r i).bind (s.linkLocalOf w) <;> rfl
    | network _ _ => rfl

theorem exists_rootLinkTo {l : RouterLink} {w : Ipv4Addr} (h : LeadsTo s.area s.root l (.router w)) :
    ∃ first, LeadsTo s.area s.root first (.router w) ∧
      s.rootLinkTo w = some (first.neighborInterfaceId, first.interfaceId) := by
  cases h with
  | across hl hjoins halive hb hback =>
    have hfound : ((s.routerLinks s.root).find? (RouterLink.joins · w)).isSome := by
      rw [List.find?_isSome]
      exact ⟨l, mem_routerLinks.mpr hl, hjoins⟩
    obtain ⟨first, hfirst⟩ := Option.isSome_iff_exists.mp hfound
    have hjoins' : first.joins w = true := @List.find?_some _ (RouterLink.joins · w) first _ hfirst
    refine ⟨first, .across (mem_routerLinks.mp (List.mem_of_find?_eq_some hfirst)) hjoins' halive hb hback, ?_⟩
    rw [rootLinkTo, hfirst]
    rfl

theorem exists_routerInterfaceOnNetwork {l : RouterLink} {w r : Ipv4Addr} {i : UInt32}
    (h : LeadsTo s.area w l (.network r i)) : ∃ first, LeadsTo s.area w first (.network r i) ∧
      s.routerInterfaceOnNetwork w r i = some first.interfaceId := by
  cases h with
  | onto hl hattaches hlists =>
    have hfound : ((s.routerLinks w).find? (RouterLink.attaches · r i)).isSome := by
      rw [List.find?_isSome]
      exact ⟨l, mem_routerLinks.mpr hl, hattaches⟩
    obtain ⟨first, hfirst⟩ := Option.isSome_iff_exists.mp hfound
    have hattaches' : first.attaches r i = true := @List.find?_some _ (RouterLink.attaches · r i) first _ hfirst
    refine ⟨first, .onto (mem_routerLinks.mp (List.mem_of_find?_eq_some hfirst)) hattaches' hlists, ?_⟩
    rw [routerInterfaceOnNetwork, hfirst]
    rfl

section Run
variable (hreg : Regular s.area s.links s.root)
include hreg

/-- The next hop to a router that the root leads to, directly or over a network of its own, can be resolved. -/
theorem exists_resolve {u : Vertex} {w : Ipv4Addr} (hu : Direct s.area s.root u) (h : LastEdge s.area s.root u (.router w)) :
    ∃ g, s.resolve u (.router w) = some g := by
  have hw : w ≠ s.root := fun hw => hreg.ne_root_of_lastEdge h (congrArg Vertex.router hw)
  obtain ⟨d, c, -, hedge, -⟩ := h
  cases u with
  | router rid =>
    obtain rfl : rid = s.root := hu
    obtain ⟨l, hl, -⟩ := edge_router_iff.mp hedge
    obtain ⟨first, hfirst, hroot⟩ := exists_rootLinkTo hl
    obtain ⟨a, ha⟩ := hreg.across first w hfirst hw
    refine ⟨⟨a, first.interfaceId⟩, ?_⟩
    rw [resolve, if_pos rfl, hroot, Option.bind_some]
    change (s.linkLocalOf w first.neighborInterfaceId).map _ = _
    rw [linkLocalOf_eq_some.mpr ha, Option.map_some]
  | network r i =>
    obtain ⟨_, _, -, honto, -⟩ := hu
    obtain ⟨l, hl, -⟩ := edge_router_iff.mp honto
    obtain ⟨-, w', back, hw', hback⟩ := edge_network_iff.mp hedge
    obtain rfl := Vertex.router.inj hw'
    obtain ⟨near, hnear, hiface⟩ := exists_routerInterfaceOnNetwork hl
    obtain ⟨far, hfar, hface⟩ := exists_routerInterfaceOnNetwork hback
    obtain ⟨a, ha⟩ := hreg.onto near r i w far hnear hfar hw
    refine ⟨⟨a, near.interfaceId⟩, ?_⟩
    rw [resolve, hiface, hface, Option.bind_some, Option.bind_some, linkLocalOf_eq_some.mpr ha, Option.map_some]

variable (hfits : Fits32 s.area s.root) {fuel : ℕ} {tree : BTreeMap Vertex (Info SpfNextHop)}
  (hrun : s.topology.search.run fuel = some tree)
include hfits hrun

omit hreg in
theorem exists_of_lastEdge {u w : Vertex} (h : LastEdge s.area s.root u w) : ∃ i e c, tree[u]? = some i ∧
    tree[w]? = some e ∧ Edge s.area u w c ∧ e.dist.toNat = i.dist.toNat + c.toNat := by
  obtain ⟨i, e, c, hi, he, hmem, hd⟩ := (Topology.tight_iff s.models hfits hrun).mp h
  exact ⟨i, e, c, hi, he, mem_neighbors.mp hmem, hd⟩

variable {idx : Vertex → ℕ} (hord : s.topology.search.SettleOrder idx tree)
include hord

/-- A router is settled before what it leads to. -/
theorem lt_of_router {u w : Vertex} (hu : u.routerId.isSome) (h : LastEdge s.area s.root u w) : idx u < idx w := by
  obtain ⟨i, e, c, hi, he, hedge, hd⟩ := exists_of_lastEdge hfits hrun h
  refine hord.lt_of_dist_lt hi he ?_
  show i.dist.toNat < e.dist.toNat
  rcases hreg.cost hedge with ⟨-, hpos⟩ | ⟨⟨r, i, rfl⟩, -, -⟩
  · omega
  · cases hu

omit hreg in
/-- What is on offer and nearer, or as near and lower in the order, is settled first. -/
theorem lt_of_offer {x w y : Vertex} {e f : Info SpfNextHop} (h : LastEdge s.area s.root x w) (hw : tree[w]? = some e)
    (hy : tree[y]? = some f) (hxy : idx x < idx y) (hkey : toLex (e.dist.toNat, w) < toLex (f.dist.toNat, y)) :
    idx w < idx y := by
  obtain ⟨i, e', c, hx, hw', hedge, hd⟩ := exists_of_lastEdge hfits hrun h
  rw [hw] at hw'
  obtain rfl := Option.some.inj hw'
  rw [hd] at hkey
  exact hord.lt_of_offered hx hy hxy (mem_neighbors.mpr hedge) hkey

omit hreg hord in
/-- What a network leads to is as far away as the network. -/
theorem dist_eq_of_network {r : Ipv4Addr} {j : UInt32} {w : Vertex} {i e : Info SpfNextHop}
    (h : LastEdge s.area s.root (.network r j) w) (hi : tree[Vertex.network r j]? = some i) (he : tree[w]? = some e) :
    e.dist.toNat = i.dist.toNat := by
  obtain ⟨i', e', c, hi', he', hedge, hd⟩ := exists_of_lastEdge hfits hrun h
  rw [hi] at hi'
  obtain rfl := Option.some.inj hi'
  rw [he] at he'
  obtain rfl := Option.some.inj he'
  obtain ⟨rfl, -⟩ := edge_network_iff.mp hedge
  exact hd

/-- A network is reached from routers, and so waits from the start of its distance. -/
theorem exists_router {r : Ipv4Addr} {i : UInt32} {e : Info SpfNextHop} (he : tree[Vertex.network r i]? = some e) :
    ∃ x j, LastEdge s.area s.root x (.network r i) ∧ x.routerId.isSome ∧ tree[x]? = some j ∧
      j.dist.toNat < e.dist.toNat := by
  have hne : Vertex.network r i ≠ s.topology.root := fun h => nomatch h
  obtain ⟨x, j, c, hx, -, hmem, hd⟩ := hord.exists_before he hne
  have hedge : Edge s.area x (.network r i) c := mem_neighbors.mp hmem
  have hd' : e.dist.toNat = j.dist.toNat + c.toNat := hd
  have hlast := (Topology.tight_iff s.models hfits hrun).mpr ⟨j, e, c, hx, he, hmem, hd'⟩
  rcases hreg.cost hedge with ⟨hrouter, hpos⟩ | ⟨-, ⟨rid, hrid⟩, -⟩
  · exact ⟨x, j, hlast, hrouter, hx, by omega⟩
  · cases hrid

/-- Networks of one distance are settled in their order. -/
theorem lt_of_network {r r' : Ipv4Addr} {i i' : UInt32} {e e' : Info SpfNextHop} (he : tree[Vertex.network r i]? = some e)
    (he' : tree[Vertex.network r' i']? = some e') (hd : e.dist.toNat = e'.dist.toNat)
    (hlt : Vertex.network r i < Vertex.network r' i') : idx (.network r i) < idx (.network r' i') := by
  obtain ⟨x, j, hlast, -, hx, hnear⟩ := exists_router hreg hfits hrun hord he
  refine lt_of_offer hfits hrun hord hlast he he' ?_ ?_
  · exact hord.lt_of_dist_lt hx he' (hnear.trans_eq hd)
  · rw [hd, Prod.Lex.toLex_lt_toLex]
    exact .inr ⟨rfl, hlt⟩

theorem lt_of_inTime {u w : Vertex} (h : InTime s.area s.root u w) : idx u < idx w := by
  obtain ⟨hlast, hrouter | hfirst⟩ := h
  · exact lt_of_router hreg hfits hrun hord hrouter hlast
  · cases u with
    | router u => exact lt_of_router hreg hfits hrun hord rfl hlast
    | network r i =>
      obtain ⟨e, f, c, he, hf, -, -⟩ := exists_of_lastEdge hfits hrun hlast
      obtain ⟨x, j, c, hx, hlt, hmem, hd⟩ := hord.exists_before hf (hreg.ne_root_of_lastEdge hlast)
      have hxw : LastEdge s.area s.root x w := (Topology.tight_iff s.models hfits hrun).mpr ⟨j, f, c, hx, hf, hmem, hd⟩
      rcases (hfirst x hxw).lt_or_eq with hux | rfl
      · cases x with
        | router x => exact absurd hux (Vertex.not_network_lt_router r i x)
        | network r' i' =>
          refine (lt_of_network hreg hfits hrun hord he hx ?_ hux).trans hlt
          exact (dist_eq_of_network hfits hrun hlast he hf).symm.trans (dist_eq_of_network hfits hrun hxw hx hf)
      · exact hlt

theorem inTime_of_lt {u w : Vertex} (hlast : LastEdge s.area s.root u w) (hlt : idx u < idx w) :
    InTime s.area s.root u w := by
  refine ⟨hlast, ?_⟩
  cases u with
  | router u => exact .inl rfl
  | network r i =>
    refine .inr fun x hxw => ?_
    by_contra hxu
    have hux : x < .network r i := not_le.mp hxu
    obtain ⟨e, f, c, he, hf, hedge, hd⟩ := exists_of_lastEdge hfits hrun hlast
    obtain ⟨j, f', c', hx, hf', -, -⟩ := exists_of_lastEdge hfits hrun hxw
    rw [hf] at hf'
    obtain rfl := Option.some.inj hf'
    have hdist := dist_eq_of_network hfits hrun hlast he hf
    -- what comes before the network in the order puts the router on offer before it
    have hbefore : idx x < idx (.network r i) := by
      cases x with
      | router x =>
        refine hord.lt_of_dist_lt hx he ?_
        obtain ⟨j', f', c', hx', hf', hedge', hd'⟩ := exists_of_lastEdge hfits hrun hxw
        rw [hx] at hx'
        obtain rfl := Option.some.inj hx'
        rw [hf] at hf'
        obtain rfl := Option.some.inj hf'
        show j.dist.toNat < e.dist.toNat
        rcases hreg.cost hedge' with ⟨-, hpos⟩ | ⟨⟨r, i, hri⟩, -, -⟩
        · omega
        · cases hri
      | network r' i' =>
        refine lt_of_network hreg hfits hrun hord hx he ?_ hux
        exact (dist_eq_of_network hfits hrun hxw hx hf).symm.trans hdist
    obtain ⟨-, rid, back, rfl, -⟩ := edge_network_iff.mp hedge
    refine absurd (lt_of_offer hfits hrun hord hxw hf he hbefore ?_) (not_lt.mpr hlt.le)
    rw [hdist, Prod.Lex.toLex_lt_toLex]
    exact .inr ⟨rfl, Vertex.router_lt_network rid r i⟩

/-- Only what is next to the root has no next hops. -/
theorem gateways_nil_iff {v : Vertex} {info : Info SpfNextHop} (hv : tree[v]? = some info) :
    info.gateways = [] ↔ Direct s.area s.root v := by
  have hmem := fun {w : Vertex} {e : Info SpfNextHop} (hw : tree[w]? = some e) (hne : w ≠ .router s.root) (g : SpfNextHop) =>
    Topology.mem_gateways_iff_before s.models hfits s.resolves hrun hord hw hne g
  have hstart : tree[Vertex.router s.root]? = some ⟨0, []⟩ := Search.getElem?_root_of_run hrun
  constructor
  · generalize hn : idx v = n
    induction n using Nat.strong_induction_on generalizing v info with
    | h n ih =>
      intro hnil
      by_cases hroot : v = .router s.root
      · subst hroot
        exact rfl
      · obtain ⟨u, i, c, hu, hlt, hedge, hd⟩ := hord.exists_before hv hroot
        have hlast : LastEdge s.area s.root u v :=
          (Topology.tight_iff s.models hfits hrun).mpr ⟨i, info, c, hu, hv, hedge, hd⟩
        obtain ⟨hi, hnone⟩ := Topology.nil_of_before s.models hfits s.resolves hrun hord hv hroot hnil hu hlt hlast
        have hdirect := ih (idx u) (hn ▸ hlt) hu rfl hi
        cases v with
        | router w =>
          obtain ⟨g, hg⟩ := exists_resolve hreg hdirect hlast
          rw [hnone] at hg
          cases hg
        | network r j =>
          rcases hreg.cost (mem_neighbors.mp hedge) with ⟨hrouter, -⟩ | ⟨-, ⟨rid, hrid⟩, -⟩
          · cases u with
            | router rid =>
              obtain rfl : rid = s.root := hdirect
              exact hlast
            | network _ _ => cases hrouter
          · cases hrid
  · intro hdirect
    cases v with
    | router rid =>
      obtain rfl : rid = s.root := hdirect
      rw [hstart] at hv
      obtain rfl := Option.some.inj hv
      rfl
    | network r j =>
      rw [List.eq_nil_iff_forall_not_mem]
      intro g hg
      obtain ⟨u, i, hu, -, hlast, hgu⟩ := (hmem hv (fun h => nomatch h) g).mp hg
      obtain rfl := hreg.attached r j u hdirect hlast
      rw [hstart] at hu
      obtain rfl := Option.some.inj hu
      rcases hgu with hgu | ⟨-, hgu⟩
      · cases hgu
      · cases hgu

/-- The next hops of a vertex come over the edges whose near end is settled in time. -/
theorem mem_gateways_iff_inTime {v : Vertex} {info : Info SpfNextHop} (hv : tree[v]? = some info)
    (hne : v ≠ .router s.root) (g : SpfNextHop) : g ∈ info.gateways ↔ ∃ u i, tree[u]? = some i ∧
      InTime s.area s.root u v ∧ (g ∈ i.gateways ∨ Direct s.area s.root u ∧ s.resolve u v = some g) := by
  rw [Topology.mem_gateways_iff_before s.models hfits s.resolves hrun hord hv hne]
  constructor
  · rintro ⟨u, i, hu, hlt, hlast, hg⟩
    refine ⟨u, i, hu, inTime_of_lt hreg hfits hrun hord hlast hlt, ?_⟩
    rwa [gateways_nil_iff hreg hfits hrun hord hu] at hg
  · rintro ⟨u, i, hu, htime, hg⟩
    refine ⟨u, i, hu, lt_of_inTime hreg hfits hrun hord htime, htime.1, ?_⟩
    rwa [gateways_nil_iff hreg hfits hrun hord hu]

theorem mem_gateways_of_undisturbed (h : Undisturbed s.area s.links s.root) {v : Vertex} {info : Info SpfNextHop}
    (hv : tree[v]? = some info) (g : SpfNextHop) : g ∈ info.gateways ↔ FirstHop s.area s.links s.root v g := by
  generalize hn : idx v = n
  induction n using Nat.strong_induction_on generalizing v info g with
  | h n ih =>
    by_cases hroot : v = .router s.root
    · subst hroot
      have hdirect : Direct s.area s.root (.router s.root) := rfl
      rw [(gateways_nil_iff hreg hfits hrun hord hv).mpr hdirect]
      exact iff_of_false List.not_mem_nil (hreg.not_firstHop_of_direct hdirect g)
    · have hbefore : ∀ {u : Vertex} {i : Info SpfNextHop}, tree[u]? = some i → InTime s.area s.root u v →
          (g ∈ i.gateways ↔ FirstHop s.area s.links s.root u g) := by
        intro u i hu htime
        exact ih (idx u) (hn ▸ lt_of_inTime hreg hfits hrun hord htime) hu g rfl
      rw [mem_gateways_iff_inTime hreg hfits hrun hord hv hroot]
      constructor
      · rintro ⟨u, i, hu, htime, hg | ⟨hdirect, hg⟩⟩
        · exact ((hbefore hu htime).mp hg).of_lastEdge htime.1
        · exact h.used u v g hdirect htime hg
      · intro hfirst
        obtain ⟨u, htime, hg⟩ := h.kept v g hfirst
        obtain ⟨i, e, c, hu, -⟩ := exists_of_lastEdge hfits hrun htime.1
        refine ⟨u, i, hu, htime, ?_⟩
        rcases hg with hg | hg
        · exact .inl ((hbefore hu htime).mpr hg)
        · exact .inr hg

section Complete
variable (hcomplete : ∀ (rid : Ipv4Addr) (info : Info SpfNextHop), tree[Vertex.router rid]? = some info → rid ≠ s.root →
  ∀ g, g ∈ info.gateways ↔ FirstHop s.area s.links s.root (.router rid) g)
include hcomplete

/-- If the next hops of routers are complete, those of networks are. -/
theorem mem_gateways_of_complete {v : Vertex} {info : Info SpfNextHop} (hv : tree[v]? = some info) (g : SpfNextHop) :
    g ∈ info.gateways ↔ FirstHop s.area s.links s.root v g := by
  by_cases hdirect : Direct s.area s.root v
  · rw [(gateways_nil_iff hreg hfits hrun hord hv).mpr hdirect]
    exact iff_of_false List.not_mem_nil (hreg.not_firstHop_of_direct hdirect g)
  · cases v with
    | router rid => exact hcomplete rid info hv hdirect g
    | network r j =>
      have hrouter : ∀ {u : Vertex}, LastEdge s.area s.root u (.network r j) → ∃ rid, u = .router rid ∧ rid ≠ s.root := by
        rintro u hlast
        obtain ⟨d, c, hu, hedge, hw⟩ := id hlast
        rcases hreg.cost hedge with ⟨hrouter, -⟩ | ⟨-, ⟨rid, hrid⟩, -⟩
        · cases u with
          | router rid =>
            refine ⟨rid, rfl, ?_⟩
            rintro rfl
            exact hdirect hlast
          | network _ _ => cases hrouter
        · cases hrid
      rw [mem_gateways_iff_inTime hreg hfits hrun hord hv (fun h => nomatch h)]
      constructor
      · rintro ⟨u, i, hu, htime, hg | ⟨-, hg⟩⟩
        · obtain ⟨rid, rfl, hne⟩ := hrouter htime.1
          exact ((hcomplete rid i hu hne g).mp hg).of_lastEdge htime.1
        · obtain ⟨rid, rfl, -⟩ := hrouter htime.1
          cases hg
      · intro hfirst
        obtain ⟨u, hlast, hg⟩ := hfirst.exists_lastEdge
        obtain ⟨rid, rfl, hne⟩ := hrouter hlast
        obtain ⟨i, e, c, hu, -⟩ := exists_of_lastEdge hfits hrun hlast
        exact ⟨_, i, hu, ⟨hlast, .inl rfl⟩, .inl ((hcomplete rid i hu hne g).mpr hg)⟩

theorem undisturbed_of_complete : Undisturbed s.area s.links s.root := by
  have hall := fun {v : Vertex} {info : Info SpfNextHop} (hv : tree[v]? = some info) (g : SpfNextHop) =>
    mem_gateways_of_complete hreg hfits hrun hord hcomplete hv g
  constructor
  · intro v g hfirst
    have hne : v ≠ .router s.root := by
      rintro rfl
      exact hreg.not_firstHop_of_direct (v := .router s.root) rfl g hfirst
    obtain ⟨d, hd⟩ : ∃ d, Shortest s.area s.root v d := by
      obtain ⟨l, p, ⟨d, hd, -⟩, -⟩ := hfirst
      exact ⟨d, hd⟩
    obtain ⟨info, hv, -⟩ := (s.models.leastCost_iff hfits hrun v d).mp hd
    obtain ⟨u, i, hu, htime, hg⟩ := (mem_gateways_iff_inTime hreg hfits hrun hord hv hne g).mp ((hall hv g).mpr hfirst)
    refine ⟨u, htime, ?_⟩
    rwa [hall hu g] at hg
  · intro u v g hdirect htime hg
    obtain ⟨i, info, c, hu, hv, -⟩ := exists_of_lastEdge hfits hrun htime.1
    refine (hall hv g).mp ?_
    rw [mem_gateways_iff_inTime hreg hfits hrun hord hv (hreg.ne_root_of_lastEdge htime.1)]
    exact ⟨u, i, hu, htime, .inr ⟨hdirect, hg⟩⟩

end Complete
end Run
end Spf

/-- The next hops are the first hops of all shortest paths exactly if no first hop comes too late and no other link is
listed in front of the one that a shortest path takes. -/
theorem nextHopsComplete_iff (area links : Lsdb) (root : Ipv4Addr) (hfits : Fits32 area root)
    (hreg : Regular area links root) : NextHopsComplete area links root ↔ Undisturbed area links root := by
  obtain ⟨⟨tree, htree, hcompute⟩, -⟩ := compute_reachable area links root hfits
  have hrun := htree _ (le_refl _)
  have hm := (Spf.mk area links root).models
  obtain ⟨idx, hord⟩ := Search.exists_settleOrder (Topology.lawful (hm.bounded hfits)) hrun
  have hlookup : ∀ rid : Ipv4Addr, (compute area links root).routerNexthops[rid]? =
      tree[Vertex.router rid]?.map Info.gateways := by
    intro rid
    rw [hcompute]
    exact getElem?_collect tree (Info.gateways (G := SpfNextHop)) Vertex.routerId_eq_some rid
  constructor
  · intro h
    refine Spf.undisturbed_of_complete (s := ⟨area, links, root⟩) hreg hfits hrun hord ?_
    intro rid info hv hne
    obtain ⟨gs, hgs, hall⟩ := h rid _ ((hm.leastCost_iff hfits hrun _ _).mpr ⟨info, hv, rfl⟩) hne
    rw [hlookup, hv, Option.map_some, Option.some.injEq] at hgs
    rw [hgs]
    exact hall
  · intro h rid d hd hne
    obtain ⟨info, hv, -⟩ := (hm.leastCost_iff hfits hrun _ d).mp hd
    refine ⟨info.gateways, ?_, ?_⟩
    · rw [hlookup, hv, Option.map_some]
    · exact Spf.mem_gateways_of_undisturbed (s := ⟨area, links, root⟩) hreg hfits hrun hord h hv

/-! Without networks and parallel links nothing is lost. -/

section Links
variable {area links : Lsdb} {root : Ipv4Addr} (hno : ∀ rid l, Links area rid l → l.linkType ≠ .transit)
include hno

theorem not_leadsTo_network (rid : Ipv4Addr) (l : RouterLink) (r : Ipv4Addr) (i : UInt32) :
    ¬ LeadsTo area rid l (.network r i) := by
  intro h
  cases h with
  | onto hl hattaches _ => exact hno rid l hl (of_decide_eq_true hattaches).1

theorem PathOver.exists_router {l : RouterLink} {v : Vertex} {p : List Vertex} {d : ℕ} (h : PathOver area root l v p d) :
    ∃ w q, p.reverse = .router w :: q := by
  induction h with
  | @start v h =>
    cases v with
    | router w => exact ⟨w, [], rfl⟩
    | network r i => exact absurd h (not_leadsTo_network hno root l r i)
  | @step _ w _ _ _ _ _ ih =>
    obtain ⟨x, q, hq⟩ := ih
    exact ⟨x, q ++ [w], by rw [List.reverse_cons, hq, List.cons_append]⟩

theorem undisturbed_of_links (hone : ∀ l l' w, Links area root l → l.joins w = true → Links area root l' →
    l'.joins w = true → l = l') : Undisturbed area links root := by
  have hstart : Shortest area root (.router root) 0 := ⟨Walk.root, fun d _ => Nat.zero_le d⟩
  have hresolve : ∀ {l : RouterLink} {w : Ipv4Addr}, LeadsTo area root l (.router w) →
      (Spf.mk area links root).rootLinkTo w = some (l.neighborInterfaceId, l.interfaceId) := by
    intro l w hl
    obtain ⟨first, hfirst, hfound⟩ := Spf.exists_rootLinkTo (s := ⟨area, links, root⟩) hl
    cases hl with
    | across hl hjoins _ _ _ =>
      cases hfirst with
      | across hf hjoins' _ _ _ =>
        obtain rfl := hone first l w hf hjoins' hl hjoins
        exact hfound
  constructor
  · rintro v g ⟨l, p, ⟨d, hd, hp⟩, hg, hi⟩
    cases hp with
    | @start v h =>
      cases v with
      | network r i => exact absurd h (not_leadsTo_network hno root l r i)
      | router w =>
        have hw : Shortest area root (.router w) (0 + l.metric.toUInt32.toNat) := by
          rwa [UInt16.toNat_toUInt32, Nat.zero_add]
        refine ⟨.router root, ⟨⟨0, _, hstart, edge_router_iff.mpr ⟨l, h, rfl⟩, hw⟩, .inl rfl⟩, .inr ⟨rfl, ?_⟩⟩
        obtain ⟨a, i⟩ := g
        obtain rfl : i = l.interfaceId := hi
        rw [Spf.resolve, if_pos rfl, hresolve h, Option.bind_some]
        change ((Spf.mk area links root).linkLocalOf w l.neighborInterfaceId).map _ = _
        have ha : (Spf.mk area links root).linkLocalOf w l.neighborInterfaceId = some a := Spf.linkLocalOf_eq_some.mpr hg
        rw [ha, Option.map_some]
    | @step u _ p d c hp hedge =>
      have hu := hd.of_step hp.walk hedge
      have hrouter : u.routerId.isSome := by
        cases u with
        | router _ => rfl
        | network r i =>
          obtain ⟨-, w, back, -, hback⟩ := edge_network_iff.mp hedge
          exact absurd hback (not_leadsTo_network hno w back r i)
      refine ⟨u, ⟨⟨d, c, hu, hedge, hd⟩, .inl hrouter⟩, .inl ⟨l, p, ⟨d, hu, hp⟩, ?_, hi⟩⟩
      obtain ⟨w, q, hq⟩ := hp.exists_router hno
      rw [List.reverse_cons, hq] at hg
      rw [hq]
      exact hg
  · rintro u v g hdirect ⟨⟨d, c, hd, hedge, hv⟩, -⟩ hg
    cases u with
    | network r i =>
      obtain ⟨-, w, back, -, hback⟩ := edge_network_iff.mp hedge
      exact absurd hback (not_leadsTo_network hno w back r i)
    | router rid =>
      obtain rfl : rid = root := hdirect
      obtain rfl := hd.unique hstart
      cases v with
      | network r i => cases hg
      | router w =>
        obtain ⟨l, hl, rfl⟩ := edge_router_iff.mp hedge
        rw [Spf.resolve, if_pos rfl, hresolve hl, Option.bind_some] at hg
        obtain ⟨a, ha, rfl⟩ := Option.map_eq_some_iff.mp hg
        rw [UInt16.toNat_toUInt32, Nat.zero_add] at hv
        exact ⟨l, [.router w], ⟨_, hv, .start hl⟩, Spf.linkLocalOf_eq_some.mp ha, rfl⟩

end Links

theorem forall_links {area : Lsdb} {P : Ipv4Addr → RouterLink → Prop}
    (h : ∀ e ∈ area.entries.toList, ∀ l ∈ LsaBody.routerLinks e.2.body, P e.2.header.advertisingRouter l) {rid : Ipv4Addr}
    {l : RouterLink} (hl : Links area rid l) : P rid l := by
  obtain ⟨lsa, r, ⟨-, hget, -⟩, rfl, hb, hmem⟩ := hl
  refine h (lsa.key, lsa) (Std.ExtTreeMap.mem_toList_iff_getElem?_eq_some.mpr hget) l ?_
  rw [hb]
  exact hmem

def routerWith (rid : Ipv4Addr) (links : List RouterLink) : Lsa := ⟨⟨1, .router, 0, rid, 1, 0, 0⟩, .router ⟨0, 0, links⟩⟩

def linkWith (rid : Ipv4Addr) (interfaceId : UInt32) (address : Ipv6Addr) : Lsa :=
  ⟨⟨1, .link, BitVec.ofNat 32 interfaceId.toNat, rid, 1, 0, 0⟩, .link ⟨1, 0, address, []⟩⟩

def networkWith (drRid : Ipv4Addr) (drIf : UInt32) (attached : List Ipv4Addr) : Lsa :=
  ⟨⟨1, .network, BitVec.ofNat 32 drIf.toNat, drRid, 1, 0, 0⟩, .network ⟨0, attached⟩⟩

def pairLinks : Lsdb := Lsdb.new.put (linkWith 2 1 21)

/-- Without networks at the root, only the neighbours need Link-LSAs. -/
theorem regular_of_links {area links : Lsdb} {root : Ipv4Addr}
    (hmetric : ∀ rid l, Links area rid l → 1 ≤ l.metric.toNat) (hno : ∀ l, Links area root l → l.linkType ≠ .transit)
    (hlink : ∀ l, Links area root l →
      ((Spf.mk area links root).linkLocalOf l.neighborRouterId l.neighborInterfaceId).isSome) :
    Regular area links root where
  metric := hmetric
  across l w h _ := by
    cases h with
    | across hl hjoins _ _ _ =>
      obtain ⟨a, ha⟩ := Option.isSome_iff_exists.mp (hlink l hl)
      obtain rfl : l.neighborRouterId = w := (of_decide_eq_true hjoins).2
      exact ⟨a, Spf.linkLocalOf_eq_some.mp ha⟩
  onto l r i w back h _ _ := by
    cases h with
    | onto hl hattaches _ => exact absurd (of_decide_eq_true hattaches).1 (hno l hl)
  attached r i u h _ := by
    obtain ⟨_, _, -, hedge, -⟩ := h
    obtain ⟨l, hl, -⟩ := edge_router_iff.mp hedge
    cases hl with
    | onto hl hattaches _ => exact absurd (of_decide_eq_true hattaches).1 (hno l hl)

/-- The next hop at the other end of a link. -/
theorem nextHopsComplete_pairDb : NextHopsComplete pairDb pairLinks 1 := by
  have hno : ∀ rid l, Links pairDb rid l → l.linkType ≠ .transit :=
    fun _ _ hl => forall_links (P := fun _ l => l.linkType ≠ .transit) (by decide +kernel) hl
  have hreg : Regular pairDb pairLinks 1 := by
    refine regular_of_links ?_ (fun l hl => hno 1 l hl) ?_
    · intro rid l hl
      exact forall_links (P := fun _ l => 1 ≤ l.metric.toNat) (by decide +kernel) hl
    · intro l hl
      exact forall_links (P := fun rid l => rid = 1 →
        ((Spf.mk pairDb pairLinks 1).linkLocalOf l.neighborRouterId l.neighborInterfaceId).isSome)
        (by decide +kernel) hl rfl
  refine (nextHopsComplete_iff pairDb pairLinks 1 (fits32_of_len (by decide +kernel)) hreg).mpr ?_
  refine undisturbed_of_links hno ?_
  intro l l' w hl _ hl' _
  have hlink : ∀ l, Links pairDb 1 l → l = ⟨.pointToPoint, 5, 1, 1, 2⟩ := by
    intro l hl
    exact forall_links (P := fun rid l => rid = 1 → l = ⟨.pointToPoint, 5, 1, 1, 2⟩) (by decide +kernel) hl rfl
  rw [hlink l hl, hlink l' hl']

/-- Two links to one neighbour, the dearer one first in the list. -/
def parallelDb : Lsdb :=
  (Lsdb.new.put (routerWith 1 [⟨.pointToPoint, 5, 1, 1, 2⟩, ⟨.pointToPoint, 1, 2, 2, 2⟩])).put
    (routerWith 2 [⟨.pointToPoint, 5, 1, 1, 1⟩, ⟨.pointToPoint, 1, 2, 2, 1⟩])

def parallelLinks : Lsdb := (Lsdb.new.put (linkWith 2 1 21)).put (linkWith 2 2 22)

/-- The last router is on two networks, each behind another neighbour of the root. -/
def twoNetworksDb : Lsdb :=
  (((((Lsdb.new.put (routerWith 1 [⟨.pointToPoint, 1, 1, 1, 2⟩, ⟨.pointToPoint, 1, 2, 1, 3⟩])).put
    (routerWith 2 [⟨.pointToPoint, 1, 1, 1, 1⟩, ⟨.transit, 1, 2, 2, 2⟩])).put
    (routerWith 3 [⟨.pointToPoint, 1, 1, 2, 1⟩, ⟨.transit, 1, 2, 2, 3⟩])).put
    (routerWith 4 [⟨.transit, 1, 1, 2, 2⟩, ⟨.transit, 1, 2, 2, 3⟩])).put
    (networkWith 2 2 [2, 4])).put (networkWith 3 2 [3, 4])

def twoNetworksLinks : Lsdb := (Lsdb.new.put (linkWith 2 1 21)).put (linkWith 3 1 31)

/-- The next hop over the dearer link is taken. And of two networks at one distance only the first passes its next hop
on. -/
theorem not_nextHopsComplete :
    (Fits32 parallelDb 1 ∧ Regular parallelDb parallelLinks 1 ∧ ¬ NextHopsComplete parallelDb parallelLinks 1) ∧
    (Fits32 twoNetworksDb 1 ∧ Regular twoNetworksDb twoNetworksLinks 1 ∧
      ¬ NextHopsComplete twoNetworksDb twoNetworksLinks 1) := by
  have hfits : Fits32 parallelDb 1 := fits32_of_len (by decide +kernel)
  have hfits' : Fits32 twoNetworksDb 1 := fits32_of_len (by decide +kernel)
  refine ⟨⟨hfits, ?_, ?_⟩, hfits', ?_, ?_⟩
  · refine regular_of_links ?_ ?_ ?_
    · intro rid l hl
      exact forall_links (P := fun _ l => 1 ≤ l.metric.toNat) (by decide +kernel) hl
    · intro l hl
      exact forall_links (P := fun _ l => l.linkType ≠ .transit) (by decide +kernel) hl
    · intro l hl
      exact forall_links (P := fun rid l => rid = 1 →
        ((Spf.mk parallelDb parallelLinks 1).linkLocalOf l.neighborRouterId l.neighborInterfaceId).isSome)
        (by decide +kernel) hl rfl
  · intro h
    have hnext : (compute parallelDb parallelLinks 1).routerNexthops[(2 : Ipv4Addr)]? = some [⟨21, 1⟩] ∧
        (compute parallelDb parallelLinks 1).routers[(2 : Ipv4Addr)]? = some 1 ∧
        (Spf.mk parallelDb parallelLinks 1).linkLocalOf 2 2 = some 22 ∧
        (⟨.pointToPoint, 1, 2, 2, 2⟩ : RouterLink) ∈ (Spf.mk parallelDb parallelLinks 1).routerLinks 1 ∧
        (⟨.pointToPoint, 1, 2, 2, 1⟩ : RouterLink) ∈ (Spf.mk parallelDb parallelLinks 1).routerLinks 2 := by
      decide +kernel
    obtain ⟨hnext, hcost, haddr, hlink, hback⟩ := hnext
    have hshort := ((compute_reachable parallelDb parallelLinks 1 hfits).2.1 2 1).mp hcost
    have hleads : LeadsTo parallelDb 1 ⟨.pointToPoint, 1, 2, 2, 2⟩ (.router 2) :=
      .across (Spf.mem_routerLinks.mp hlink) (by decide) (Spf.mem_routerLinks.mp hback).alive (Spf.mem_routerLinks.mp hback)
        (by decide)
    obtain ⟨gs, hgs, hall⟩ := h 2 1 hshort (by decide)
    rw [hnext] at hgs
    obtain rfl := Option.some.inj hgs
    have hmem := (hall ⟨22, 2⟩).mpr
      ⟨_, [.router 2], ⟨_, hshort, .start hleads⟩, Spf.linkLocalOf_eq_some.mp haddr, rfl⟩
    exact absurd hmem (by decide)
  · refine regular_of_links ?_ ?_ ?_
    · intro rid l hl
      exact forall_links (P := fun _ l => 1 ≤ l.metric.toNat) (by decide +kernel) hl
    · intro l hl
      exact forall_links (P := fun rid l => rid = 1 → l.linkType ≠ .transit) (by decide +kernel) hl rfl
    · intro l hl
      exact forall_links (P := fun rid l => rid = 1 →
        ((Spf.mk twoNetworksDb twoNetworksLinks 1).linkLocalOf l.neighborRouterId l.neighborInterfaceId).isSome)
        (by decide +kernel) hl rfl
  · intro h
    have hnext : (compute twoNetworksDb twoNetworksLinks 1).routerNexthops[(4 : Ipv4Addr)]? = some [⟨21, 1⟩] ∧
        (compute twoNetworksDb twoNetworksLinks 1).routers[(4 : Ipv4Addr)]? = some 2 ∧
        (Spf.mk twoNetworksDb twoNetworksLinks 1).linkLocalOf 3 1 = some 31 ∧
        (⟨.pointToPoint, 1, 2, 1, 3⟩ : RouterLink) ∈ (Spf.mk twoNetworksDb twoNetworksLinks 1).routerLinks 1 ∧
        (⟨.pointToPoint, 1, 1, 2, 1⟩ : RouterLink) ∈ (Spf.mk twoNetworksDb twoNetworksLinks 1).routerLinks 3 ∧
        (Vertex.network 3 2, 1) ∈ (Spf.mk twoNetworksDb twoNetworksLinks 1).neighbors (.router 3) ∧
        (Vertex.router 4, 0) ∈ (Spf.mk twoNetworksDb twoNetworksLinks 1).neighbors (.network 3 2) := by
      decide +kernel
    obtain ⟨hnext, hcost, haddr, hlink, hback, honto, hoff⟩ := hnext
    have hshort := ((compute_reachable twoNetworksDb twoNetworksLinks 1 hfits').2.1 4 2).mp hcost
    have hleads : LeadsTo twoNetworksDb 1 ⟨.pointToPoint, 1, 2, 1, 3⟩ (.router 3) :=
      .across (Spf.mem_routerLinks.mp hlink) (by decide) (Spf.mem_routerLinks.mp hback).alive (Spf.mem_routerLinks.mp hback)
        (by decide)
    obtain ⟨gs, hgs, hall⟩ := h 4 2 hshort (by decide)
    rw [hnext] at hgs
    obtain rfl := Option.some.inj hgs
    have hpath := ((PathOver.start hleads).step (Spf.mem_neighbors.mp honto)).step (Spf.mem_neighbors.mp hoff)
    have hmem := (hall ⟨31, 2⟩).mpr ⟨_, _, ⟨_, hshort, hpath⟩, Spf.linkLocalOf_eq_some.mp haddr, rfl⟩
    exact absurd hmem (by decide)

end Wren.Ospfv3
