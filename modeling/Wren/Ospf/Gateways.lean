import Wren.Lib.Gateways
import Wren.Ospf.Ecmp

/-! Which vertices the calculation of OSPFv2 leaves without gateways, where the others have theirs from, and whether these
are next to the root. -/

namespace Wren.Ospf
open OrdMap RouteTree
open Std (ExtTreeMap)

/-- The gateway that an edge gives to a router: next to the root its address on the link back, and behind a network its
address on that network, wherever the network is. -/
def Spf.resolve (s : Spf) : Vertex → Vertex → Option Ipv4Addr
  | .router rid, .router w => if rid = s.root then s.reverseP2pAddress w rid else none
  | .network dr, .router w => s.routerIfaceOnNetwork w dr
  | _, .network _ => none

theorem Spf.resolves (s : Spf) : s.topology.Resolves s.resolve := by
  intro u gs w
  change s.initialGateways u gs w = _
  unfold initialGateways
  congr 1
  cases u with
  | router rid =>
    cases w with
    | router w =>
      change (if rid = s.root then _ else _) = (if rid = s.root then _ else _ : Option Ipv4Addr).toList
      split_ifs
      · rfl
      · rfl
    | network _ => rfl
  | network dr => cases w <;> rfl

/-- An address that is given for a link stands on one of that kind. -/
theorem Spf.of_firstLink {s : Spf} {f : RouterLink → Bool} {w a : Ipv4Addr}
    (h : ((s.routerLsa w).bind fun rl => ((rl.links.find? f).map (·.linkData)).filter fun a => a ≠ 0) = some a) :
    ∃ l, Links s.db w l ∧ f l = true ∧ l.linkData = a := by
  obtain ⟨r, hr, hfind⟩ := Option.bind_eq_some_iff.mp h
  obtain ⟨hsome, -⟩ := Option.filter_eq_some_iff.mp hfind
  obtain ⟨l, hl, hdata⟩ := Option.map_eq_some_iff.mp hsome
  have hf : f l = true := List.find?_some hl
  exact ⟨l, links_iff.mpr ⟨r, hr, List.mem_of_find?_eq_some hl⟩, hf, hdata⟩

theorem Spf.of_reverseP2pAddress {s : Spf} {w v a : Ipv4Addr} (h : s.reverseP2pAddress w v = some a) :
    ∃ l, Links s.db w l ∧ l.joins v = true ∧ l.linkData = a := of_firstLink h

theorem Spf.of_routerIfaceOnNetwork {s : Spf} {w dr a : Ipv4Addr} (h : s.routerIfaceOnNetwork w dr = some a) :
    ∃ l, Links s.db w l ∧ l.attaches dr = true ∧ l.linkData = a := of_firstLink h

/-- A link back without an address is one that is not numbered. -/
theorem Spf.exists_unnumbered {s : Spf} {u w : Ipv4Addr} {c : UInt32} (hedge : Link s.db (.router u) (.router w) c)
    (h : s.reverseP2pAddress w u = none) : ∃ l, Links s.db w l ∧ l.joins u = true ∧ l.linkData = 0 := by
  cases hedge with
  | @between _ _ _ back _ _ _ hb hback =>
    obtain ⟨r, hr, hmem⟩ := links_iff.mp hb
    have hfound : (r.links.find? (RouterLink.joins · u)).isSome := by
      rw [List.find?_isSome]
      exact ⟨back, hmem, hback⟩
    obtain ⟨l, hl⟩ := Option.isSome_iff_exists.mp hfound
    have hjoins : l.joins u = true := @List.find?_some _ (RouterLink.joins · u) l _ hl
    refine ⟨l, links_iff.mpr ⟨r, hr, List.mem_of_find?_eq_some hl⟩, hjoins, ?_⟩
    by_contra hne
    have hne' : ¬ l.linkData = 0#32 := hne
    have hsome : s.reverseP2pAddress w u = some l.linkData := by
      unfold reverseP2pAddress
      rw [hr]
      change ((r.links.find? (RouterLink.joins · u)).map (·.linkData)).filter (fun a => a ≠ 0) = _
      rw [hl]
      simp [Option.filter, hne']
    rw [h] at hsome
    cases hsome

section Result
variable {db : Lsdb} {root : Ipv4Addr} {tree : BTreeMap Vertex (Info Ipv4Addr)}
  (hcompute : compute db root = (Spf.mk db root).harvest tree)
include hcompute

/-- The next hops of a router are the gateways of its vertex. -/
theorem routerNexthops_eq_some {rid : Ipv4Addr} {gs : List Ipv4Addr} :
    (compute db root).routerNexthops[rid]? = some gs ↔ ∃ info, tree[Vertex.router rid]? = some info ∧ info.gateways = gs := by
  have hlookup := getElem?_collect tree (Info.gateways (G := Ipv4Addr)) Vertex.routerId_eq_some rid
  rw [hcompute]
  change (collect tree Vertex.routerId Info.gateways)[rid]? = some gs ↔ _
  rw [hlookup, Option.map_eq_some_iff]

variable (hfits : Fits32 db (FirstNetwork db) root) {fuel : ℕ}
  (hrun : (Spf.mk db root).topology.search.run fuel = some tree)
include hfits hrun

/-- A prefix has a route at the least cost at which it is available. -/
theorem exists_route_iff (p : Core.Prefix) (d : ℕ) : (∃ r ∈ (compute db root).routes, r.pfx = p ∧ r.cost.toNat = d) ↔
    IsLeast (Set.ofPred (Available (Link db) (.router root) (Announces db (FirstNetwork db)) p)) d := by
  have hm := (Spf.mk db root).models
  have havail := hm.available_iff hfits hrun p d
  rw [hcompute]
  simp only [Spf.harvest, List.mem_map, Prod.exists, ExtTreeMap.mem_toList_iff_getElem?_eq_some]
  constructor
  · rintro ⟨r, ⟨q, i, hi, rfl⟩, rfl, rfl⟩
    exact havail.mpr ⟨i, hi, rfl⟩
  · intro h
    obtain ⟨i, hi, hd⟩ := havail.mp h
    exact ⟨_, ⟨p, i, hi, rfl⟩, rfl, hd⟩

/-- A route has the gateways of the vertices that have its prefix at its cost, one of which there is. -/
theorem route_gateways {r : SpfRoute} (hr : r ∈ (compute db root).routes) :
    (∃ v info m, tree[v]? = some info ∧ Announces db (FirstNetwork db) v r.pfx m ∧
      r.cost.toNat = info.dist.toNat + m.toNat) ∧
    ∀ g, g ∈ r.gateways ↔ ∃ v info m, tree[v]? = some info ∧ Announces db (FirstNetwork db) v r.pfx m ∧
      r.cost.toNat = info.dist.toNat + m.toNat ∧ g ∈ info.gateways := by
  have hm := (Spf.mk db root).models
  constructor
  · obtain ⟨v, e, m, hv, ha, hd⟩ := ((exists_route_iff hcompute hfits hrun r.pfx r.cost.toNat).mp ⟨r, hr, rfl, rfl⟩).1
    obtain ⟨info, hinfo, rfl⟩ := (hm.leastCost_iff hfits hrun v e).mp hv
    exact ⟨v, info, m, hinfo, ha, hd⟩
  · intro g
    rw [hcompute] at hr
    simp only [Spf.harvest, List.mem_map, Prod.exists, ExtTreeMap.mem_toList_iff_getElem?_eq_some] at hr
    obtain ⟨p, i, hi, rfl⟩ := hr
    rw [Topology.mem_route_gateways_iff (hm.bounded hfits) hrun hi]
    have hann : ∀ v m, (p, m) ∈ (Spf.mk db root).topology.announces v ↔ Announces db (FirstNetwork db) v p m :=
      fun v m => Spf.mem_announces
    simp only [hann]

/-- A vertex without gateways makes a route at its cost one without gateways only if all others do. -/
theorem route_gateways_nil_iff {r : SpfRoute} (hr : r ∈ (compute db root).routes) : r.gateways = [] ↔
    ∀ v info m, tree[v]? = some info → Announces db (FirstNetwork db) v r.pfx m →
      r.cost.toNat = info.dist.toNat + m.toNat → info.gateways = [] := by
  have hmem := (route_gateways hcompute hfits hrun hr).2
  constructor
  · intro hnil v info m hv ha hd
    rw [List.eq_nil_iff_forall_not_mem]
    intro g hg
    have hin := (hmem g).mpr ⟨v, info, m, hv, ha, hd, hg⟩
    rw [hnil] at hin
    cases hin
  · intro h
    rw [List.eq_nil_iff_forall_not_mem]
    intro g hg
    obtain ⟨v, info, m, hv, ha, hd, hin⟩ := (hmem g).mp hg
    rw [h v info m hv ha hd] at hin
    cases hin

end Result

/-! ### Gateways next to the root -/

section Statement
variable (db : Lsdb) (root : Ipv4Addr)

/-- The root has a transit link on the network. -/
def OnNetwork (dr : Ipv4Addr) : Prop := ∃ l, Links db root l ∧ l.attaches dr = true

/-- The address of a neighbour on its link to the root, or of a router on a network that the root is on. -/
def OneHopAway (a : Ipv4Addr) : Prop :=
  ∃ r l, Links db r l ∧ l.linkData = a ∧
    (l.joins root = true ∧ (∃ m, Links db root m ∧ m.joins r = true) ∨ ∃ dr, l.attaches dr = true ∧ OnNetwork db root dr)

/-- The router's link back to the root has no address. -/
def Unnumbered (w : Ipv4Addr) : Prop := ∃ l, Links db w l ∧ l.joins root = true ∧ l.linkData = 0

/-- A shortest path to the vertex goes out over a link to an unnumbered neighbour. -/
def BehindUnnumbered (v : Vertex) : Prop :=
  ∃ p w, ShortestRoute (Link db) (.router root) v (p ++ [.router w, .router root]) ∧ Unnumbered db root w

/-- What may have no gateway: the root, a network that it is on, and what is behind an unnumbered neighbour. -/
def Excused (v : Vertex) : Prop :=
  v = .router root ∨ (∃ dr, v = .network dr ∧ OnNetwork db root dr) ∨ BehindUnnumbered db root v

/-- Every gateway is one hop away, and is missing only where it may be. -/
def GatewaysOneHop : Prop :=
  (∀ rid gs, (compute db root).routerNexthops[rid]? = some gs →
    (∀ g ∈ gs, OneHopAway db root g) ∧ (gs = [] → Excused db root (.router rid))) ∧
  ∀ r ∈ (compute db root).routes, (∀ g ∈ r.gateways, OneHopAway db root g) ∧
    (r.gateways = [] → ∃ v e m, LeastCost (Link db) (.router root) v e ∧ Announces db (FirstNetwork db) v r.pfx m ∧
      r.cost.toNat = e + m.toNat ∧ Excused db root v)

/-- No address of a router on a distant network is taken for a gateway, and none is missing on a network of the root.
The vertices `S` are those without a gateway. -/
structure WellResolved (S : Vertex → Prop) : Prop where
  far : ∀ dr w a, ¬ OnNetwork db root dr → S (.network dr) →
    Tight (Link db) (.router root) (.network dr) (.router w) → (Spf.mk db root).routerIfaceOnNetwork w dr = some a →
      OneHopAway db root a
  near : ∀ dr w, Tight (Link db) (.router root) (.router root) (.network dr) →
    Tight (Link db) (.router root) (.network dr) (.router w) → (Spf.mk db root).routerIfaceOnNetwork w dr = none →
      S (.router w) → Excused db root (.router w)

end Statement

variable {db : Lsdb} {root : Ipv4Addr}

theorem onNetwork_of_tight {dr : Ipv4Addr} {v : Vertex} (h : Tight (Link db) v (.router root) (.network dr)) :
    OnNetwork db root dr := by
  obtain ⟨d, c, -, hedge, -⟩ := h
  cases hedge with
  | onto hl hattaches _ _ => exact ⟨_, hl, hattaches⟩

theorem BehindUnnumbered.of_tight {u v : Vertex} (hu : BehindUnnumbered db root u)
    (h : Tight (Link db) (.router root) u v) : BehindUnnumbered db root v := by
  obtain ⟨p, w, hp, hw⟩ := hu
  exact ⟨v :: p, w, hp.cons h, hw⟩

/-- What is resolved at an edge is one hop away. -/
theorem WellResolved.oneHopAway {S : Vertex → Prop} (h : WellResolved db root S) {u w : Vertex} {g : Ipv4Addr}
    (hu : S u) (htight : Tight (Link db) (.router root) u w) (hg : (Spf.mk db root).resolve u w = some g) :
    OneHopAway db root g := by
  cases u with
  | router rid =>
    cases w with
    | router w =>
      change (if rid = root then _ else none) = some g at hg
      split_ifs at hg with hroot
      subst hroot
      obtain ⟨l, hl, hjoins, hdata⟩ := Spf.of_reverseP2pAddress hg
      obtain ⟨d, c, -, hedge, -⟩ := htight
      cases hedge with
      | between hm hmjoins _ _ _ => exact ⟨w, l, hl, hdata, .inl ⟨hjoins, _, hm, hmjoins⟩⟩
    | network dr => cases hg
  | network dr =>
    cases w with
    | router w =>
      by_cases hon : OnNetwork db root dr
      · obtain ⟨l, hl, hattaches, hdata⟩ := Spf.of_routerIfaceOnNetwork hg
        exact ⟨w, l, hl, hdata, .inr ⟨dr, hattaches, hon⟩⟩
      · exact h.far dr w g hon hu htight hg
    | network dr' => cases hg

theorem WellResolved.oneHopAway_of_learns {S : Vertex → Prop} (h : WellResolved db root S) {v : Vertex} {g : Ipv4Addr}
    (hg : Learns (Link db) (.router root) (Spf.mk db root).resolve S v g) : OneHopAway db root g := by
  induction hg with
  | resolved hu htight hres => exact h.oneHopAway hu htight hres
  | passed _ _ ih => exact ih

section Run
variable (hfits : Fits32 db (FirstNetwork db) root) {fuel : ℕ} {tree : BTreeMap Vertex (Info Ipv4Addr)}
  (hrun : (Spf.mk db root).topology.search.run fuel = some tree)
include hfits hrun

/-- A vertex without gateways is one that may have none. The induction goes along the order in which the vertices are
settled, and knows which way the first hop went. -/
theorem WellResolved.excused {S : Vertex → Prop} (h : WellResolved db root S)
    (hS : ∀ (u : Vertex) (i : Info Ipv4Addr), tree[u]? = some i → i.gateways = [] → S u) {v : Vertex}
    {info : Info Ipv4Addr} (hv : tree[v]? = some info) (hnil : info.gateways = []) :
    v = .router root ∨ (∃ dr, v = .network dr ∧ Tight (Link db) (.router root) (.router root) (.network dr)) ∨
      BehindUnnumbered db root v := by
  have hm := (Spf.mk db root).models
  have hres := (Spf.mk db root).resolves
  obtain ⟨idx, hord⟩ := Dijkstra.Search.exists_settleOrder (Topology.lawful (hm.bounded hfits)) hrun
  generalize hn : idx v = n
  induction n using Nat.strong_induction_on generalizing v info with
  | h n ih =>
    by_cases hroot : v = .router root
    · exact .inl hroot
    obtain ⟨u, i, c, hu, hlt, hmem, hd⟩ := hord.exists_before hv hroot
    have htight : Tight (Link db) (.router root) u v := (Topology.tight_iff hm hfits hrun).mpr ⟨i, info, c, hu, hv, hmem, hd⟩
    obtain ⟨hi, hquiet⟩ := Topology.nil_of_before hm hfits hres hrun hord hv hroot hnil hu hlt htight
    rcases ih (idx u) (hn ▸ hlt) hu hi rfl with rfl | ⟨dr, rfl, hnet⟩ | hbehind
    · cases v with
      | network dr => exact .inr (.inl ⟨dr, rfl, htight⟩)
      | router w =>
        have hback : (Spf.mk db root).reverseP2pAddress w root = none := by
          change (if root = root then _ else none) = none at hquiet
          rwa [if_pos rfl] at hquiet
        obtain ⟨d, c', hd', hedge, hw⟩ := id htight
        refine .inr (.inr ⟨[], w, ?_, Spf.exists_unnumbered (s := ⟨db, root⟩) hedge hback⟩)
        have hstart : ShortestRoute (Link db) (.router root) (.router root) [.router root] :=
          ⟨0, ⟨.root, fun d _ => Nat.zero_le d⟩, .root⟩
        exact hstart.cons htight
    · cases v with
      | network dr' =>
        obtain ⟨d, c', -, hedge, -⟩ := htight
        cases hedge
      | router w =>
        rcases h.near dr w hnet htight hquiet (hS _ info hv hnil) with heq | ⟨dr', heq, -⟩ | hbehind
        · exact absurd heq hroot
        · cases heq
        · exact .inr (.inr hbehind)
    · exact .inr (.inr (hbehind.of_tight htight))

theorem WellResolved.gatewaysOneHop {S : Vertex → Prop} (h : WellResolved db root S)
    (hS : ∀ (u : Vertex) (i : Info Ipv4Addr), tree[u]? = some i → i.gateways = [] → S u)
    (hcompute : compute db root = (Spf.mk db root).harvest tree) : GatewaysOneHop db root := by
  have hm := (Spf.mk db root).models
  have hres := (Spf.mk db root).resolves
  have hone : ∀ {v : Vertex} {info : Info Ipv4Addr} {g : Ipv4Addr}, tree[v]? = some info → g ∈ info.gateways →
      OneHopAway db root g :=
    fun hv hg => h.oneHopAway_of_learns (Topology.learns_of_mem hm hfits hres hrun hS hv hg)
  have hnone : ∀ {v : Vertex} {info : Info Ipv4Addr}, tree[v]? = some info → info.gateways = [] → Excused db root v := by
    intro v info hv hnil
    rcases h.excused hfits hrun hS hv hnil with heq | ⟨dr, rfl, htight⟩ | hbehind
    · exact .inl heq
    · exact .inr (.inl ⟨dr, rfl, onNetwork_of_tight htight⟩)
    · exact .inr (.inr hbehind)
  constructor
  · intro rid gs hgs
    obtain ⟨info, hv, rfl⟩ := (routerNexthops_eq_some hcompute).mp hgs
    exact ⟨fun g hg => hone hv hg, hnone hv⟩
  · intro r hr
    obtain ⟨⟨v, info, m, hv, ha, hd⟩, hmem⟩ := route_gateways hcompute hfits hrun hr
    constructor
    · intro g hg
      obtain ⟨v', info', m', hv', -, -, hin⟩ := (hmem g).mp hg
      exact hone hv' hin
    · intro hnil
      have hinfo := (route_gateways_nil_iff hcompute hfits hrun hr).mp hnil v info m hv ha hd
      exact ⟨v, _, m, (hm.leastCost_iff hfits hrun v _).mpr ⟨info, hv, rfl⟩, ha, hd, hnone hv hinfo⟩

/-- Where every shortest path counts, a wrong gateway shows. -/
theorem GatewaysOneHop.wellResolved (h : GatewaysOneHop db root) (hpos : Positive db)
    (hcompute : compute db root = (Spf.mk db root).harvest tree) :
    WellResolved db root (Silent (Link db) (.router root) (Spf.mk db root).resolve) := by
  have hm := (Spf.mk db root).models
  have hres := (Spf.mk db root).resolves
  have hasc := Spf.ascending (s := ⟨db, root⟩) hpos
  constructor
  · intro dr w a _ hsilent htight ha
    obtain ⟨-, info, -, -, hw, -⟩ := (Topology.tight_iff hm hfits hrun).mp htight
    have hin : a ∈ info.gateways :=
      (Topology.mem_gateways_iff_learns hm hfits hres hrun hasc hw a).mpr (.resolved hsilent htight ha)
    exact (h.1 w _ ((routerNexthops_eq_some hcompute).mpr ⟨info, hw, rfl⟩)).1 a hin
  · intro dr w _ htight _ hsilent
    obtain ⟨-, info, -, -, hw, -⟩ := (Topology.tight_iff hm hfits hrun).mp htight
    have hnil := Topology.gateways_nil_of_silent hm hfits hres hrun hw hsilent
    exact (h.1 w _ ((routerNexthops_eq_some hcompute).mpr ⟨info, hw, rfl⟩)).2 hnil

end Run

/-- The second router is behind a link without addresses, the third behind a network that the root is not on. -/
def unnumberedDb : Lsdb :=
  (((Lsdb.new.put (routerWith 1 [⟨2, 0, .pointToPoint, 1⟩])).put
    (routerWith 2 [⟨1, 0, .pointToPoint, 1⟩, ⟨9, 29, .transit, 1⟩])).put
    (routerWith 3 [⟨9, 39, .transit, 1⟩])).put (networkOn 9 2 [2, 3])

end Wren.Ospf
