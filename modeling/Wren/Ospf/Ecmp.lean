import Wren.Ospf.ShortestPaths

/-! The gateways that the shortest-path calculation of OSPFv2 finds: the first hops of all shortest paths. -/

namespace Wren.Ospf
open OrdMap RouteTree
open Std (ExtTreeMap)

section Hops
variable (db : Lsdb)

def routerLinks (rid : Ipv4Addr) : List RouterLink :=
  match (db.get (.router, rid, rid)).map Lsa.body with
  | some (.router r) => r.links
  | _ => []

/-- The address on the first link of `w` back to `v`. -/
def linkBack (w v : Ipv4Addr) : Option Ipv4Addr := ((routerLinks db w).find? (RouterLink.joins · v)).map (·.linkData)

/-- The address on the first link of `w` to a network. -/
def transitLink (w dr : Ipv4Addr) : Option Ipv4Addr :=
  ((routerLinks db w).find? (RouterLink.attaches · dr)).map (·.linkData)

/-- The first router behind the root, by its address towards the root. The path has the root last. -/
def firstHop : List Vertex → Option Ipv4Addr
  | [] => none
  | w :: p =>
    match w, p with
    | .router w, [.router root] => linkBack db w root
    | .router w, [.network dr, .router _] => transitLink db w dr
    | _, p => firstHop p

end Hops

variable {db : Lsdb} {root : Ipv4Addr}

theorem links_iff_mem {rid : Ipv4Addr} {l : RouterLink} : Links db rid l ↔ l ∈ routerLinks db rid := by
  unfold routerLinks Links
  cases hget : db.get (.router, rid, rid) with
  | none => simp
  | some lsa =>
    simp only [Option.some.injEq, Option.map_some]
    constructor
    · rintro ⟨_, r, rfl, hb, hl⟩
      rw [hb]
      exact hl
    · intro hl
      cases hb : lsa.body with
      | router r =>
        rw [hb] at hl
        exact ⟨lsa, r, rfl, hb, hl⟩
      | _ => simp [hb] at hl

theorem Spf.routerLinks_of_routerLsa {s : Spf} {rid : Ipv4Addr} {r : RouterLsa} (h : s.routerLsa rid = some r) :
    routerLinks s.db rid = r.links := by
  obtain ⟨lsa, hget, hb⟩ := routerLsa_eq_some.mp h
  simp only [routerLinks, hget, Option.map_some, hb]

theorem firstHop_cons {p : List Vertex} {g : Ipv4Addr} (h : firstHop db p = some g) (v : Vertex) :
    firstHop db (v :: p) = some g := by
  match p, v with
  | [], _ => cases h
  | [.router _], _ => cases h
  | [.network _], _ => cases h
  | [.network dr, .router _], .router _ => cases h
  | [.network dr, .router _], .network _ => cases h
  | [.network _, .network _], _ => cases h
  | [.router _, .router _], .router _ => exact h
  | [.router _, .router _], .network _ => exact h
  | [.router _, .network _], _ => cases h
  | _ :: _ :: _ :: _, .router _ => simpa [firstHop] using h
  | _ :: _ :: _ :: _, .network _ => simpa [firstHop] using h

/-- A link counts, and is not a stub. -/
def Joins (db : Lsdb) (rid : Ipv4Addr) (l : RouterLink) : Prop := Links db rid l ∧ l.linkType ≠ .stub

/-- The metrics of the links to other vertices are positive. -/
def Positive (db : Lsdb) : Prop := ∀ rid l, Joins db rid l → 0 < l.metric.toNat

/-- Metrics are positive and link addresses specified, and no network at the root has another shortest path to it. -/
structure Regular (db : Lsdb) (root : Ipv4Addr) : Prop where
  metric : ∀ rid l, Joins db rid l → 0 < l.metric.toNat
  specified : ∀ rid l, Joins db rid l → l.linkData ≠ 0
  attached : ∀ dr u c c' d, Edge db (FirstNetwork db) (.router root) (.network dr) c →
    LeastCost (Edge db (FirstNetwork db)) (.router root) (.network dr) c.toNat →
    LeastCost (Edge db (FirstNetwork db)) (.router root) u d → Edge db (FirstNetwork db) u (.network dr) c' →
    LeastCost (Edge db (FirstNetwork db)) (.router root) (.network dr) (d + c'.toNat) → u = .router root

theorem joins_of_joins {rid w : Ipv4Addr} {l : RouterLink} (hl : Links db rid l) (h : l.joins w = true) :
    Joins db rid l := by
  refine ⟨hl, ?_⟩
  intro hstub
  simp [RouterLink.joins, hstub] at h

theorem joins_of_attaches {rid dr : Ipv4Addr} {l : RouterLink} (hl : Links db rid l) (h : l.attaches dr = true) :
    Joins db rid l := by
  refine ⟨hl, ?_⟩
  intro hstub
  simp [RouterLink.attaches, hstub] at h

theorem exists_linkBack {u w : Ipv4Addr} {c : UInt32} (h : Edge db (FirstNetwork db) (.router u) (.router w) c) :
    ∃ a, linkBack db w u = some a := by
  cases h with
  | between _ _ _ hb hback =>
    have hfound : ((routerLinks db w).find? (RouterLink.joins · u)).isSome := by
      rw [List.find?_isSome]
      exact ⟨_, links_iff_mem.mp hb, hback⟩
    obtain ⟨l, hl⟩ := Option.isSome_iff_exists.mp hfound
    exact ⟨l.linkData, by rw [linkBack, hl]; rfl⟩

theorem exists_transitLink {dr w : Ipv4Addr} {c : UInt32} (h : Edge db (FirstNetwork db) (.network dr) (.router w) c) :
    ∃ a, transitLink db w dr = some a := by
  cases h with
  | off _ _ _ hb hback =>
    have hfound : ((routerLinks db w).find? (RouterLink.attaches · dr)).isSome := by
      rw [List.find?_isSome]
      exact ⟨_, links_iff_mem.mp hb, hback⟩
    obtain ⟨l, hl⟩ := Option.isSome_iff_exists.mp hfound
    exact ⟨l.linkData, by rw [transitLink, hl]; rfl⟩

/-- The graph in which the first Network-LSA of a network counts. -/
abbrev Link (db : Lsdb) : Vertex → Vertex → UInt32 → Prop := Edge db (FirstNetwork db)

/-- The first hop of one of the shortest paths to the vertex. -/
def FirstHop (db : Lsdb) (root : Ipv4Addr) (v : Vertex) (g : Ipv4Addr) : Prop :=
  ∃ p, ShortestRoute (Link db) (.router root) v p ∧ firstHop db p = some g

/-- Only the root and the networks next to it have no router in front. -/
theorem eq_of_firstHop_eq_none {v : Vertex} {p : List Vertex} {d : ℕ}
    (h : RouteTree.Route (Link db) (.router root) v p d) (hnone : firstHop db p = none) :
    (v = .router root ∧ p = [.router root]) ∨ ∃ dr, v = .network dr ∧ p = [.network dr, .router root] := by
  induction h with
  | root => exact .inl ⟨rfl, rfl⟩
  | @step u w p d c hroute hedge ih =>
    have hshort : firstHop db p = none := by
      cases hp : firstHop db p with
      | none => rfl
      | some g =>
        rw [firstHop_cons hp] at hnone
        cases hnone
    obtain ⟨rfl, rfl⟩ | ⟨dr, rfl, rfl⟩ := ih hshort
    · cases w with
      | router w =>
        obtain ⟨a, ha⟩ := exists_linkBack hedge
        have hsome : firstHop db [.router w, .router root] = some a := ha
        rw [hsome] at hnone
        cases hnone
      | network dr => exact .inr ⟨dr, rfl, rfl⟩
    · cases w with
      | router w =>
        obtain ⟨a, ha⟩ := exists_transitLink hedge
        have hsome : firstHop db [.router w, .network dr, .router root] = some a := ha
        rw [hsome] at hnone
        cases hnone
      | network _ => cases hedge

namespace Spf
variable {s : Spf} (hreg : Regular s.db s.root)
include hreg

/-- No address is dropped for being unspecified. -/
theorem firstLink_eq (f : RouterLink → Bool) (hf : ∀ l, f l = true → l.linkType ≠ .stub) (w : Ipv4Addr) :
    ((s.routerLsa w).bind fun rl => ((rl.links.find? f).map (·.linkData)).filter fun a => a ≠ 0) =
      ((routerLinks s.db w).find? f).map (·.linkData) := by
  cases hr : s.routerLsa w with
  | none =>
    have hno : routerLinks s.db w = [] := by
      rw [List.eq_nil_iff_forall_not_mem]
      intro l hl
      obtain ⟨r, hsome, -⟩ := links_iff.mp (links_iff_mem.mpr hl)
      rw [hr] at hsome
      cases hsome
    rw [hno]
    rfl
  | some r =>
    have hlinks := routerLinks_of_routerLsa hr
    rw [hlinks]
    cases hfind : r.links.find? f with
    | none => simp [hfind]
    | some l =>
      have hmem : Links s.db w l := links_iff_mem.mpr (hlinks ▸ List.mem_of_find?_eq_some hfind)
      have htype : l.linkType ≠ .stub := hf l (@List.find?_some _ f l r.links hfind)
      have hne : ¬ l.linkData = 0#32 := hreg.specified w l ⟨hmem, htype⟩
      simp [hfind, hne]

theorem reverseP2pAddress_eq (w v : Ipv4Addr) : s.reverseP2pAddress w v = linkBack s.db w v := by
  refine firstLink_eq hreg _ ?_ w
  intro l hl hstub
  simp [RouterLink.joins, hstub] at hl

theorem routerIfaceOnNetwork_eq (w dr : Ipv4Addr) : s.routerIfaceOnNetwork w dr = transitLink s.db w dr := by
  refine firstLink_eq hreg _ ?_ w
  intro l hl hstub
  simp [RouterLink.attaches, hstub] at hl

omit hreg in
theorem toNat_pos_of_metric {m : UInt16} (h : 0 < m.toNat) : 0 < m.toUInt32.toNat := by
  rw [UInt16.toNat_toUInt32]
  exact h

omit hreg in
/-- An edge goes up in cost, or from a network to a router on it. -/
theorem ascends_of_edge (hpos : Positive s.db) {u w : Vertex} {c : UInt32} (hedge : Link s.db u w c) :
    0 < c.toNat ∨ c.toNat = 0 ∧ u.settleRank = 0 ∧ w.settleRank = 1 := by
  cases hedge with
  | between hl hjoins _ _ _ => exact .inl (toNat_pos_of_metric (hpos _ _ (joins_of_joins hl hjoins)))
  | onto hl hattaches _ _ => exact .inl (toNat_pos_of_metric (hpos _ _ (joins_of_attaches hl hattaches)))
  | off _ _ _ _ _ => exact .inr ⟨rfl, rfl, rfl⟩

omit hreg in
theorem ascending (hpos : Positive s.db) : s.topology.search.Ascending := by
  intro u w c d hmem
  show toLex (d, toLex (u.settleRank, u)) < toLex (d + c.toNat, toLex (w.settleRank, w))
  rw [Prod.Lex.toLex_lt_toLex]
  rcases ascends_of_edge hpos (mem_neighbors.mp hmem) with hpos | ⟨hzero, hu, hw⟩
  · exact .inl (Nat.lt_add_of_pos_right hpos)
  · refine .inr ⟨by rw [hzero, Nat.add_zero], ?_⟩
    rw [Prod.Lex.toLex_lt_toLex, hu, hw]
    exact .inl Nat.zero_lt_one

/-- Only the root is at distance zero. -/
theorem eq_root_of_route_zero {v : Vertex} {p : List Vertex}
    (h : RouteTree.Route (Link s.db) (.router s.root) v p 0) : p = [.router s.root] := by
  generalize hz : 0 = d at h
  cases h with
  | root => rfl
  | @step u w p d c hroute hedge =>
    rcases ascends_of_edge hreg.metric hedge with hpos | ⟨-, hu, -⟩
    · omega
    · cases hroute with
      | root => cases hu
      | @step u' _ p' d' c' _ hedge' =>
        rcases ascends_of_edge hreg.metric hedge' with hpos' | ⟨-, -, hw⟩
        · omega
        · rw [hu] at hw
          cases hw

/-- The gateways towards a router next to the root. -/
theorem initialGateways_router (w : Ipv4Addr) :
    s.initialGateways (.router s.root) [] (.router w) = (linkBack s.db w s.root).toList := by
  simp only [initialGateways, ne_eq, not_true_eq_false, if_false, if_true, reverseP2pAddress_eq hreg]

theorem initialGateways_network (dr w : Ipv4Addr) :
    s.initialGateways (.network dr) [] (.router w) = (transitLink s.db w dr).toList := by
  simp only [initialGateways, ne_eq, not_true_eq_false, if_false, routerIfaceOnNetwork_eq hreg]

omit hreg in
theorem nodup_initialGateways {v w : Vertex} {gs : List Ipv4Addr} (h : gs.Nodup) : (s.initialGateways v gs w).Nodup := by
  have hopt : ∀ o : Option Ipv4Addr, o.toList.Nodup := by
    intro o
    cases o <;> simp
  unfold initialGateways
  split
  · exact h
  · split
    · split
      · exact hopt _
      · exact List.nodup_nil
    · exact hopt _
    · exact List.nodup_nil

omit hreg in
theorem initialGateways_of_ne_nil {v w : Vertex} {gs : List Ipv4Addr} (h : gs ≠ []) : s.initialGateways v gs w = gs :=
  if_pos h

section Step
variable {u v : Vertex} {gs : List Ipv4Addr} {d : ℕ} {c : UInt32} (hhops : ∀ g, g ∈ gs ↔ FirstHop s.db s.root u g)
  (hlu : LeastCost (Link s.db) (.router s.root) u d)
include hhops hlu

/-- The root and the networks that it is on have no gateways. -/
theorem direct_gateways {p : List Vertex} (hroute : RouteTree.Route (Link s.db) (.router s.root) u p d)
    (hnone : firstHop s.db p = none) : gs = [] := by
  rw [List.eq_nil_iff_forall_not_mem]
  intro g hg
  obtain ⟨q, ⟨e, he, hq⟩, hfirst⟩ := (hhops g).mp hg
  obtain rfl := hlu.unique he
  obtain ⟨rfl, rfl⟩ | ⟨dr, rfl, rfl⟩ := eq_of_firstHop_eq_none hroute hnone
  · have hzero : d = 0 := Nat.le_zero.mp (hlu.2 Walk.root)
    subst hzero
    rw [eq_root_of_route_zero hreg hq] at hfirst
    cases hfirst
  · obtain ⟨c, hedge, rfl⟩ : ∃ c, Link s.db (.router s.root) (.network dr) c ∧ d = c.toNat := by
      cases hroute with
      | step hr hedge =>
        cases hr with
        | root => exact ⟨_, hedge, Nat.zero_add _⟩
        | step hr _ => cases hr
    generalize hcost : c.toNat = e at hq he hlu
    cases hq with
    | @step x _ q d' c' hq hedge' =>
      have hlx := he.of_step hq.walk hedge'
      have hx : x = .router s.root := hreg.attached dr x c c' d' hedge (hcost ▸ hlu) hlx hedge' he
      subst hx
      have hzero : d' = 0 := Nat.le_zero.mp (hlx.2 Walk.root)
      subst hzero
      rw [eq_root_of_route_zero hreg hq] at hfirst
      cases hfirst

variable (hedge : Link s.db u v c) (hlv : LeastCost (Link s.db) (.router s.root) v (d + c.toNat))
include hedge hlv

/-- A gateway that an edge of a shortest path gives is a first hop. -/
theorem firstHop_of_mem {g : Ipv4Addr} (hg : g ∈ s.initialGateways u gs v) : FirstHop s.db s.root v g := by
  by_cases hgs : gs = []
  · subst hgs
    obtain ⟨p, hp⟩ := hlu.1.exists_route
    have hnone : firstHop s.db p = none := by
      rw [Option.eq_none_iff_forall_not_mem]
      intro g' hg'
      have hin : g' ∈ [] := (hhops g').mpr ⟨p, ⟨d, hlu, hp⟩, hg'⟩
      cases hin
    refine ⟨v :: p, ⟨_, hlv, .step hp hedge⟩, ?_⟩
    obtain ⟨rfl, rfl⟩ | ⟨dr, rfl, rfl⟩ := eq_of_firstHop_eq_none hp hnone
    · cases v with
      | router w => exact Option.mem_toList.mp (initialGateways_router hreg w ▸ hg)
      | network dr => cases hg
    · cases v with
      | router w => exact Option.mem_toList.mp (initialGateways_network hreg dr w ▸ hg)
      | network _ => cases hedge
  · rw [initialGateways_of_ne_nil hgs] at hg
    obtain ⟨p, ⟨e, he, hroute⟩, hfirst⟩ := (hhops g).mp hg
    obtain rfl := hlu.unique he
    exact ⟨v :: p, ⟨_, hlv, .step hroute hedge⟩, firstHop_cons hfirst v⟩

omit hlv in
/-- The first hop of a path is among the gateways that its last edge gives. -/
theorem mem_of_firstHop {p : List Vertex} (hroute : RouteTree.Route (Link s.db) (.router s.root) u p d) {g : Ipv4Addr}
    (hfirst : firstHop s.db (v :: p) = some g) : g ∈ s.initialGateways u gs v := by
  cases hp : firstHop s.db p with
  | some g' =>
    rw [firstHop_cons hp] at hfirst
    obtain rfl := Option.some.inj hfirst
    have hin : g' ∈ gs := (hhops g').mpr ⟨p, ⟨d, hlu, hroute⟩, hp⟩
    rw [initialGateways_of_ne_nil (List.ne_nil_of_mem hin)]
    exact hin
  | none =>
    have hgs : gs = [] := direct_gateways hreg hhops hlu hroute hp
    subst hgs
    obtain ⟨rfl, rfl⟩ | ⟨dr, rfl, rfl⟩ := eq_of_firstHop_eq_none hroute hp
    · cases v with
      | router w =>
        rw [initialGateways_router hreg w]
        exact Option.mem_toList.mpr hfirst
      | network dr => cases hfirst
    · cases v with
      | router w =>
        rw [initialGateways_network hreg dr w]
        exact Option.mem_toList.mpr hfirst
      | network _ => cases hedge

end Step

variable {fuel : ℕ} {tree : BTreeMap Vertex (Info Ipv4Addr)} (hfits : Fits32 s.db (FirstNetwork s.db) s.root)
  (hrun : s.topology.search.run fuel = some tree)
include hfits hrun

/-- The gateways of a settled vertex are the first hops of its shortest paths. The induction goes along the order in
which the vertices are settled. -/
theorem mem_gateways {v : Vertex} {info : Info Ipv4Addr} (hv : tree[v]? = some info) (g : Ipv4Addr) :
    g ∈ info.gateways ↔ FirstHop s.db s.root v g := by
  have hm := s.models
  have hleast : ∀ (u : Vertex) (d : ℕ), LeastCost (Link s.db) (.router s.root) u d ↔
      ∃ i, tree[u]? = some i ∧ i.dist.toNat = d := fun u d => hm.leastCost_iff hfits hrun u d
  have hstart : tree[Vertex.router s.root]? = some ⟨0, []⟩ := Dijkstra.Search.getElem?_root_of_run hrun
  generalize hn : 2 * info.dist.toNat + v.settleRank = n
  induction n using Nat.strong_induction_on generalizing v info g with
  | h n ih =>
    have hbefore : ∀ {u : Vertex} {i : Info Ipv4Addr} {c : UInt32}, tree[u]? = some i → Link s.db u v c →
        info.dist.toNat = i.dist.toNat + c.toNat → ∀ g', g' ∈ i.gateways ↔ FirstHop s.db s.root u g' := by
      intro u i c hu hedge hd g'
      have hle : u.settleRank ≤ 1 := by cases u <;> simp [Vertex.settleRank]
      refine ih (2 * i.dist.toNat + u.settleRank) ?_ hu g' rfl
      rcases ascends_of_edge hreg.metric hedge with hpos | ⟨hzero, hru, hrv⟩
      · omega
      · omega
    by_cases hroot : v = .router s.root
    · subst hroot
      rw [hstart] at hv
      obtain rfl := Option.some.inj hv
      constructor
      · intro hg
        cases hg
      · rintro ⟨p, ⟨d, hd, hroute⟩, hfirst⟩
        have hzero : d = 0 := Nat.le_zero.mp (hd.2 Walk.root)
        subst hzero
        rw [eq_root_of_route_zero hreg hroute] at hfirst
        cases hfirst
    · rw [Topology.mem_gateways_iff (hm.bounded hfits) hrun (ascending hreg.metric) hv hroot]
      constructor
      · rintro ⟨u, i, c, hu, hmem, hd, hg⟩
        have hedge : Link s.db u v c := mem_neighbors.mp hmem
        have hlu := (hleast u i.dist.toNat).mpr ⟨i, hu, rfl⟩
        have hlv := (hleast v (i.dist.toNat + c.toNat)).mpr ⟨info, hv, hd⟩
        exact firstHop_of_mem hreg (hbefore hu hedge hd) hlu hedge hlv hg
      · rintro ⟨p, ⟨d, hlv, hroute⟩, hfirst⟩
        cases hroute with
        | root => exact absurd rfl hroot
        | @step u _ p d c hroute hedge =>
          have hlu := hlv.of_step hroute.walk hedge
          obtain ⟨i, hu, hi⟩ := (hleast u d).mp hlu
          have hd : info.dist.toNat = i.dist.toNat + c.toNat := by
            obtain ⟨info', hv', hd'⟩ := (hleast v _).mp hlv
            rw [hv] at hv'
            obtain rfl := Option.some.inj hv'
            rw [hd', hi]
          have hg := mem_of_firstHop hreg (hbefore hu hedge hd) hlu hedge hroute hfirst
          exact ⟨u, i, c, hu, mem_neighbors.mpr hedge, hd, hg⟩

end Spf

/-- A router's gateways are the first hops of all shortest paths to it, each once. A route has the gateways of all
vertices that have its prefix at its cost. -/
theorem compute_gateways (db : Lsdb) (root : Ipv4Addr) (hfits : Fits32 db (FirstNetwork db) root)
    (hreg : Regular db root) :
    (∀ (rid : Ipv4Addr) (gs : List Ipv4Addr), (compute db root).routerNexthops[rid]? = some gs →
      gs.Nodup ∧ ∀ g, g ∈ gs ↔ FirstHop db root (.router rid) g) ∧
    ∀ r ∈ (compute db root).routes, r.gateways.Nodup ∧ ∀ g, g ∈ r.gateways ↔
      ∃ v e m, LeastCost (Link db) (.router root) v e ∧ Announces db (FirstNetwork db) v r.pfx m ∧
        r.cost.toNat = e + m.toNat ∧ FirstHop db root v g := by
  obtain ⟨tree, htree, hcompute⟩ := exists_tree hfits
  have hrun := htree _ (le_refl _)
  have hm := (Spf.mk db root).models
  have hgateways : ∀ {v : Vertex} {info : Info Ipv4Addr}, tree[v]? = some info → ∀ g,
      g ∈ info.gateways ↔ FirstHop db root v g :=
    fun hv g => Spf.mem_gateways (s := ⟨db, root⟩) hreg hfits hrun hv g
  have hnodup : ∀ (v : Vertex) (info : Info Ipv4Addr), tree[v]? = some info → info.gateways.Nodup := by
    intro v info hv
    refine Topology.nodup_gateways hrun ?_ hv
    intro u gs w hgs
    exact Spf.nodup_initialGateways hgs
  rw [hcompute]
  constructor
  · intro rid gs hgs
    have hlookup := getElem?_collect tree (Info.gateways (G := Ipv4Addr)) Vertex.routerId_eq_some rid
    have hfound : (collect tree Vertex.routerId Info.gateways)[rid]? = some gs := hgs
    rw [hlookup, Option.map_eq_some_iff] at hfound
    obtain ⟨info, hv, rfl⟩ := hfound
    exact ⟨hnodup _ info hv, hgateways hv⟩
  · intro r hr
    simp only [Spf.harvest, List.mem_map, Prod.exists, ExtTreeMap.mem_toList_iff_getElem?_eq_some] at hr
    obtain ⟨p, i, hi, rfl⟩ := hr
    refine ⟨Topology.nodup_route_gateways hnodup hi, ?_⟩
    intro g
    rw [Topology.mem_route_gateways_iff (hm.bounded hfits) hrun hi]
    constructor
    · rintro ⟨v, info, m, hv, hmem, hd, hg⟩
      have hleast := (hm.leastCost_iff hfits hrun v info.dist.toNat).mpr ⟨info, hv, rfl⟩
      exact ⟨v, _, m, hleast, Spf.mem_announces.mp hmem, hd, (hgateways hv g).mp hg⟩
    · rintro ⟨v, e, m, hleast, ha, hd, hg⟩
      obtain ⟨info, hv, rfl⟩ := (hm.leastCost_iff hfits hrun v e).mp hleast
      exact ⟨v, info, m, hv, Spf.mem_announces.mpr ha, hd, (hgateways hv g).mpr hg⟩

/-! Examples: a square of links, and a virtual link without addresses in front of a network. -/

def LsaBody.links : LsaBody → List RouterLink
  | .router r => r.links
  | _ => []

theorem forall_links {P : Ipv4Addr → RouterLink → Prop}
    (h : ∀ e ∈ db.entries.toList, ∀ l ∈ e.2.body.links, P e.1.2.1 l) {rid : Ipv4Addr} {l : RouterLink}
    (hl : Links db rid l) : P rid l := by
  obtain ⟨lsa, r, hget, hb, hmem⟩ := hl
  have he : ((.router, rid, rid), lsa) ∈ db.entries.toList := ExtTreeMap.mem_toList_iff_getElem?_eq_some.mpr hget
  exact h _ he l (by rw [hb]; exact hmem)

def routerWith (rid : Ipv4Addr) (links : List RouterLink) : Lsa :=
  ⟨⟨1, 0, .router, rid, rid, 1, 0, 0⟩, .router ⟨0, links⟩⟩

def squareDb : Lsdb :=
  (((Lsdb.new.put (routerWith 1 [⟨2, 12, .pointToPoint, 1⟩, ⟨3, 13, .pointToPoint, 1⟩])).put
    (routerWith 2 [⟨1, 21, .pointToPoint, 1⟩, ⟨4, 24, .pointToPoint, 1⟩])).put
    (routerWith 3 [⟨1, 31, .pointToPoint, 1⟩, ⟨4, 34, .pointToPoint, 1⟩])).put
    (routerWith 4 [⟨2, 42, .pointToPoint, 1⟩, ⟨3, 43, .pointToPoint, 1⟩])

theorem regular_squareDb : Regular squareDb 1 where
  metric rid l h := forall_links (P := fun _ l => 0 < l.metric.toNat) (by decide +kernel) h.1
  specified rid l h := forall_links (P := fun _ l => l.linkData ≠ 0) (by decide +kernel) h.1
  attached dr u c c' d hedge _ _ _ _ := by
    cases hedge with
    | @onto _ _ l _ hl hattaches _ _ =>
      have hnot := forall_links (P := fun _ l => l.linkType ≠ .transit) (by decide +kernel) hl
      simp [RouterLink.attaches, hnot] at hattaches

/-- The far corner is reached both ways. -/
theorem compute_gateways_square :
    (compute squareDb 1).routerNexthops[(4 : Ipv4Addr)]? = some [21, 31] ∧
      FirstHop squareDb 1 (.router 4) 21 ∧ FirstHop squareDb 1 (.router 4) 31 := by
  have hnext : (compute squareDb 1).routerNexthops[(4 : Ipv4Addr)]? = some [21, 31] := by decide +kernel
  have hlen : squareDb.len ≤ 65536 := by decide +kernel
  have hgs := ((compute_gateways squareDb 1 (fits_of_len any_of_first hlen) regular_squareDb).1 4 _ hnext).2
  exact ⟨hnext, (hgs 21).mp (by decide), (hgs 31).mp (by decide)⟩

/-- A first hop is an address on a link back to the root, or the root is on a network. -/
theorem linkBack_of_firstHop {v : Vertex} {p : List Vertex} {d : ℕ}
    (h : RouteTree.Route (Link db) (.router root) v p d) {g : Ipv4Addr} (hfirst : firstHop db p = some g) :
    (∃ w, linkBack db w root = some g) ∨ ∃ dr c, Link db (.router root) (.network dr) c := by
  induction h with
  | root => cases hfirst
  | @step u w p d c hroute hedge ih =>
    cases hp : firstHop db p with
    | some g' =>
      rw [firstHop_cons hp] at hfirst
      exact ih (hp.trans hfirst)
    | none =>
      obtain ⟨rfl, rfl⟩ | ⟨dr, rfl, rfl⟩ := eq_of_firstHop_eq_none hroute hp
      · cases w with
        | router w => exact .inl ⟨w, hfirst⟩
        | network dr => exact .inr ⟨dr, c, hedge⟩
      · cases hroute with
        | step hr hedge =>
          cases hr with
          | root => exact .inr ⟨dr, _, hedge⟩
          | step hr _ => cases hr

def virtualDb : Lsdb :=
  (((Lsdb.new.put (routerWith 1 [⟨2, 0, .virtual, 1⟩])).put
    (routerWith 2 [⟨1, 0, .virtual, 1⟩, ⟨9, 29, .transit, 1⟩])).put
    (routerWith 3 [⟨9, 39, .transit, 1⟩])).put (networkOn 9 2 [2, 3])

/-- All links but the virtual ones have addresses, and the root has no network and no stub. But behind the virtual link
the calculation takes the address of a router that is not next to the root. -/
theorem not_firstHop_virtual :
    Fits32 virtualDb (FirstNetwork virtualDb) 1 ∧
    (∀ rid l, Links virtualDb rid l → 0 < l.metric.toNat ∧
      (l.linkType = .pointToPoint ∨ l.linkType = .transit → l.linkData ≠ 0)) ∧
    routerLinks virtualDb 1 = [⟨2, 0, .virtual, 1⟩] ∧
    (compute virtualDb 1).routerNexthops[(3 : Ipv4Addr)]? = some [39] ∧ ¬ FirstHop virtualDb 1 (.router 3) 39 := by
  have hlen : virtualDb.len ≤ 65536 := by decide +kernel
  have hlinks : routerLinks virtualDb 1 = [⟨2, 0, .virtual, 1⟩] := by decide +kernel
  refine ⟨fits_of_len any_of_first hlen, ?_, hlinks, by decide +kernel, ?_⟩
  · intro rid l hl
    exact forall_links (P := fun _ l => 0 < l.metric.toNat ∧
      (l.linkType = .pointToPoint ∨ l.linkType = .transit → l.linkData ≠ 0)) (by decide +kernel) hl
  · rintro ⟨p, ⟨d, -, hroute⟩, hfirst⟩
    obtain ⟨w, hw⟩ | ⟨dr, c, hedge⟩ := linkBack_of_firstHop hroute hfirst
    · obtain ⟨l, hl, hdata⟩ := Option.map_eq_some_iff.mp hw
      have hmem : Links virtualDb w l := links_iff_mem.mpr (List.mem_of_find?_eq_some hl)
      have hjoins : l.joins 1 = true := @List.find?_some _ (fun x => x.joins 1) l _ hl
      have hnot := forall_links (P := fun _ l => l.joins 1 = true → l.linkData ≠ 39) (by decide +kernel) hmem
      exact hnot hjoins hdata
    · cases hedge with
      | @onto _ _ l _ hl hattaches _ _ =>
        rw [links_iff_mem, hlinks, List.mem_singleton] at hl
        subst hl
        cases hattaches

end Wren.Ospf
