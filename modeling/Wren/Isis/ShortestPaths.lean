import Wren.Isis.Spf

/-! What the shortest-path calculation finds: the nodes that can be reached, each at the cost of a shortest path,
and the prefixes these advertise. -/

namespace Wren.Isis
open OrdMap Wren.Core
open Std (ExtTreeMap)

section Topology
variable (db : Lsdb)

/-- A fragment of a node that is held and not purged. -/
def Live (u : NodeId) (l : Lsp) : Prop := db.get l.lspId = some l ∧ l.lspId.node = u ∧ l.remainingLifetime ≠ 0

def Advertises (u w : NodeId) (m : UInt32) : Prop :=
  ∃ l, Live db u l ∧ ∃ rs, Tlv.extendedIsReachability rs ∈ l.tlvs ∧ ∃ r ∈ rs, r.neighborId = w ∧ r.metric = m

/-- A flag in the live fragment 0 of a node. -/
def Flagged (flag : Lsp → Prop) (u : NodeId) : Prop := ∃ l, Live db u l ∧ l.lspId.fragment = 0 ∧ flag l

def Supports (u : NodeId) (nlpid : UInt8) : Prop :=
  ∃ l, Live db u l ∧ ∃ ids, Tlv.protocolsSupported ids ∈ l.tlvs ∧ nlpid ∈ ids

/-- A prefix in a live fragment of a node, with its up/down bit and its metric. -/
def AdvertisesPrefix (u : NodeId) (p : Prefix) (upDown : Bool) (m : UInt32) : Prop :=
  ∃ l, Live db u l ∧
    ((∃ rs, Tlv.extendedIpReachability rs ∈ l.tlvs ∧
        ∃ r ∈ rs, Prefix.new (.v4 r.pfx) r.prefixLen = .ok p ∧ r.upDown = upDown ∧ r.metric = m) ∨
      ∃ rs, Tlv.ipv6Reachability rs ∈ l.tlvs ∧
        ∃ r ∈ rs, Prefix.new (.v6 r.pfx) r.prefixLen = .ok p ∧ r.upDown = upDown ∧ r.metric = m)

variable (usable : UInt32 → Prop) (root : NodeId)

/-- A link with a usable metric and a link back, of the root or of a node that is not overloaded. -/
def Edge (u w : NodeId) (m : UInt32) : Prop :=
  Advertises db u w m ∧ usable m ∧ (∃ m', Advertises db w u m') ∧ (u = root ∨ ¬ Flagged db (fun l => l.overload) u)

/-- There is a path of this cost from the root, where costs do not go beyond 32 bits. -/
inductive Path : NodeId → ℕ → Prop
  | root : Path root 0
  | step {u w : NodeId} {d : ℕ} {m : UInt32} : Path u d → Edge db usable root u w m →
    Path w (min (d + m.toNat) 4294967295)

def ShortestPath (u : NodeId) : ℕ → Prop := IsLeast (Set.ofPred (Path db usable root u))

/-- A cost at which a prefix can be had: at a reachable node that advertises it or, for a default route at Level 1,
at one that is attached, as long as it is `eligible`. -/
def PrefixCost (eligible : NodeId → Prop) (level : IsLevel) (p : Prefix) (d : ℕ) : Prop :=
  ∃ u e, ShortestPath db usable root u e ∧
    ((∃ upDown m, AdvertisesPrefix db u p upDown m ∧ d = min (e + m.toNat) 4294967295) ∨
      level = .l1 ∧ eligible u ∧ Flagged db (fun l => l.attached ≠ 0) u ∧
        (p = defaultV4 ∧ Supports db u nlpidIpv4 ∨ p = defaultV6 ∧ Supports db u nlpidIpv6) ∧ d = e)

end Topology

/-! ### Lookups -/

namespace Spf
variable {s : Spf}

theorem mem_fragments {u : NodeId} {l : Lsp} : l ∈ s.fragments u ↔ Live s.db u l := by
  rw [fragments, List.mem_filter, Lsdb.mem_iter, decide_eq_true_eq, Live]
  have hlife : 0 < l.remainingLifetime ↔ l.remainingLifetime ≠ 0 := by
    rw [UInt16.lt_iff_toNat_lt, ← UInt16.toNat_inj.ne]
    change 0 < _ ↔ _ ≠ 0
    omega
  have hnode : l.lspId.node = u ↔ l.lspId.systemId = u.systemId ∧ l.lspId.pseudonode = u.pseudonode := by
    obtain ⟨sys, pn⟩ := u
    rw [LspId.node, NodeId.mk.injEq]
  rw [hlife, hnode, and_assoc]

theorem mem_isReach {u w : NodeId} {m : UInt32} : (w, m) ∈ s.isReach u ↔ Advertises s.db u w m := by
  unfold isReach Advertises
  simp only [List.mem_flatMap, mem_fragments]
  refine exists_congr fun l => and_congr_right fun _ => ?_
  constructor
  · rintro ⟨t, ht, hmem⟩
    cases t with
    | extendedIsReachability rs =>
      obtain ⟨r, hr, heq⟩ := List.mem_map.mp hmem
      obtain ⟨rfl, rfl⟩ := Prod.mk.inj heq
      exact ⟨rs, ht, r, hr, rfl, rfl⟩
    | _ => simp at hmem
  · rintro ⟨rs, ht, r, hr, rfl, rfl⟩
    exact ⟨_, ht, List.mem_map.mpr ⟨r, hr, rfl⟩⟩

theorem hasReachTo_iff {u w : NodeId} : s.hasReachTo u w = true ↔ ∃ m, Advertises s.db u w m := by
  simp only [hasReachTo, List.any_eq_true, decide_eq_true_eq, Prod.exists]
  constructor
  · rintro ⟨x, m, hmem, rfl⟩
    exact ⟨m, mem_isReach.mp hmem⟩
  · rintro ⟨m, h⟩
    exact ⟨w, m, mem_isReach.mpr h, rfl⟩

theorem nodeAlive_of_live {u : NodeId} {l : Lsp} (h : Live s.db u l) : s.nodeAlive u = true := by
  rw [nodeAlive, List.isSome_head?]
  exact List.ne_nil_of_mem (mem_fragments.mpr h)

theorem fragmentZero_any {flag : Lsp → Bool} {u : NodeId} :
    (s.fragmentZero u).any flag = true ↔ Flagged s.db (fun l => flag l) u := by
  rw [Option.any_eq_true, fragmentZero]
  constructor
  · rintro ⟨l, hl, hflag⟩
    exact ⟨l, mem_fragments.mp (List.mem_of_find?_eq_some hl), by simpa using List.find?_some hl, hflag⟩
  · rintro ⟨l, hlive, hzero, hflag⟩
    obtain ⟨m, hm⟩ : ∃ m, (s.fragments u).find? (fun l => l.lspId.fragment = 0) = some m := by
      rw [← Option.isSome_iff_exists, List.find?_isSome]
      exact ⟨l, mem_fragments.mpr hlive, by simpa using hzero⟩
    -- the ID of a fragment 0 is that of its node, so there is only one
    have hlive' := mem_fragments.mp (List.mem_of_find?_eq_some hm)
    have hzero' : m.lspId.fragment = 0 := by simpa using List.find?_some hm
    have hid : m.lspId = l.lspId := by
      have hnode : m.lspId.node = l.lspId.node := hlive'.2.1.trans hlive.2.1.symm
      rw [LspId.node, LspId.node, NodeId.mk.injEq] at hnode
      rw [show m.lspId = ⟨m.lspId.systemId, m.lspId.pseudonode, m.lspId.fragment⟩ from rfl, hnode.1, hnode.2, hzero',
        ← hzero]
    have heq : m = l := Option.some.inj (hlive'.1.symm.trans (hid ▸ hlive.1))
    exact ⟨m, hm, heq ▸ hflag⟩

theorem supports_iff {u : NodeId} {nlpid : UInt8} : s.supports u nlpid = true ↔ Supports s.db u nlpid := by
  unfold supports Supports
  simp only [List.any_eq_true, mem_fragments]
  refine exists_congr fun l => and_congr_right fun _ => ?_
  constructor
  · rintro ⟨t, ht, hmem⟩
    cases t with
    | protocolsSupported ids => exact ⟨ids, ht, by simpa using hmem⟩
    | _ => simp at hmem
  · rintro ⟨ids, ht, hmem⟩
    exact ⟨_, ht, by simpa using hmem⟩

theorem mem_neighbors {u w : NodeId} {m : UInt32} :
    (w, m) ∈ s.neighbors u ↔ Edge s.db (· ≠ maxLinkMetric) s.root u w m := by
  have hover : s.overloaded u = true ↔ Flagged s.db (fun l => l.overload) u := fragmentZero_any
  have halive : (s.nodeAlive w = true ∧ s.hasReachTo w u = true) ↔ ∃ m', Advertises s.db w u m' := by
    rw [hasReachTo_iff]
    constructor
    · exact And.right
    · rintro ⟨m', l, hl, hrest⟩
      exact ⟨nodeAlive_of_live hl, m', l, hl, hrest⟩
  unfold neighbors Edge
  split_ifs with hskip
  · rw [hover] at hskip
    simp only [List.not_mem_nil, false_iff, not_and, not_or, not_not]
    intro _ _ _
    exact hskip
  · rw [hover] at hskip
    have hpass : u = s.root ∨ ¬ Flagged s.db (fun l => l.overload) u := by tauto
    rw [List.mem_filter, mem_isReach, decide_eq_true_eq]
    dsimp only
    rw [halive]
    simp only [hpass, and_true]

theorem reaches_iff {u : NodeId} {d : ℕ} : s.search.Reaches u d ↔ Path s.db (· ≠ maxLinkMetric) s.root u d := by
  constructor
  · intro h
    induction h with
    | root => exact .root
    | step _ hedge ih => exact .step ih (mem_neighbors.mp hedge)
  · intro h
    induction h with
    | root => exact .root
    | step _ hedge ih => exact .step ih (mem_neighbors.mpr hedge)

theorem toNat_saturatingAdd (a b : UInt32) : (saturatingAdd a b).toNat = min (a.toNat + b.toNat) 4294967295 := by
  rw [saturatingAdd]
  exact UInt32.toNat_ofNat_of_lt' (by change _ < 4294967296; omega)

theorem lawful_search (s : Spf) : s.search.Lawful where
  mono c h := by
    change min (_ + c.toNat) _ ≤ min (_ + c.toNat) _
    omega
  le_extend := by
    intro u d c h
    have hd : d ≤ 4294967295 := by
      cases h with
      | root => exact Nat.zero_le _
      | step _ _ => exact Nat.min_le_right _ _
    change d ≤ min (d + c.toNat) _
    omega
  dist_visit _ _ _ := toNat_saturatingAdd _ _
  dist_merge _ := rfl

/-- The nodes that can be reached are the root and nodes with an LSP. -/
theorem exists_tree (s : Spf) : ∃ tree, ∀ fuel, s.db.len + 1 ≤ fuel → s.search.run fuel = some tree := by
  refine Dijkstra.Search.exists_run s.lawful_search (U := insert s.root (s.db.ids.image LspId.node)) ?_ ?_
  · intro u d h
    rw [Finset.mem_insert, Finset.mem_image]
    cases h with
    | root => exact Or.inl rfl
    | step _ hedge =>
      obtain ⟨-, -, ⟨m', l, hl, -⟩, -⟩ := mem_neighbors.mp hedge
      exact Or.inr ⟨l.lspId, Lsdb.mem_ids.mpr (by rw [hl.1]; rfl), hl.2.1⟩
  · have hcard := Finset.card_insert_le s.root (s.db.ids.image LspId.node)
    have himage := Finset.card_image_le (s := s.db.ids) (f := LspId.node)
    rw [Lsdb.card_ids] at himage
    omega

/-! ### Routes -/

section Harvest
variable {u : NodeId} {info : VertexInfo} {p : Prefix} {d : ℕ}

theorem exists_mem_tlvRoutes {t : Tlv} : (∃ r ∈ tlvRoutes info t, r.pfx = p ∧ d = r.cost.toNat) ↔
    ∃ upDown m, d = min (info.dist.toNat + m.toNat) 4294967295 ∧
      ((∃ rs, t = .extendedIpReachability rs ∧
          ∃ r ∈ rs, Prefix.new (.v4 r.pfx) r.prefixLen = .ok p ∧ r.upDown = upDown ∧ r.metric = m) ∨
        ∃ rs, t = .ipv6Reachability rs ∧
          ∃ r ∈ rs, Prefix.new (.v6 r.pfx) r.prefixLen = .ok p ∧ r.upDown = upDown ∧ r.metric = m) := by
  have hok : ∀ {e : Except PrefixError Prefix}, e.toOption = some p ↔ e = .ok p := by
    intro e
    cases e <;> simp [Except.toOption]
  cases t with
  | extendedIpReachability rs =>
    simp only [tlvRoutes, List.mem_filterMap, Option.map_eq_some_iff]
    constructor
    · rintro ⟨_, ⟨r, hr, q, hq, rfl⟩, rfl, rfl⟩
      exact ⟨r.upDown, r.metric, toNat_saturatingAdd _ _, Or.inl ⟨rs, rfl, r, hr, hok.mp hq, rfl, rfl⟩⟩
    · rintro ⟨b, m, rfl, ⟨_, hrs, r, hr, hq, -, rfl⟩ | ⟨_, hrs, -⟩⟩
      · cases hrs
        exact ⟨_, ⟨r, hr, p, hok.mpr hq, rfl⟩, rfl, (toNat_saturatingAdd _ _).symm⟩
      · cases hrs
  | ipv6Reachability rs =>
    simp only [tlvRoutes, List.mem_filterMap, Option.map_eq_some_iff]
    constructor
    · rintro ⟨_, ⟨r, hr, q, hq, rfl⟩, rfl, rfl⟩
      exact ⟨r.upDown, r.metric, toNat_saturatingAdd _ _, Or.inr ⟨rs, rfl, r, hr, hok.mp hq, rfl, rfl⟩⟩
    · rintro ⟨b, m, rfl, ⟨_, hrs, -⟩ | ⟨_, hrs, r, hr, hq, -, rfl⟩⟩
      · cases hrs
      · cases hrs
        exact ⟨_, ⟨r, hr, p, hok.mpr hq, rfl⟩, rfl, (toNat_saturatingAdd _ _).symm⟩
  | _ => simp [tlvRoutes]

theorem exists_mem_fragmentRoutes :
    (∃ r ∈ (s.fragments u).flatMap (fun frag => frag.tlvs.flatMap (tlvRoutes info)), r.pfx = p ∧ d = r.cost.toNat) ↔
      ∃ upDown m, AdvertisesPrefix s.db u p upDown m ∧ d = min (info.dist.toNat + m.toNat) 4294967295 := by
  have hsplit : (∃ r ∈ (s.fragments u).flatMap (fun frag => frag.tlvs.flatMap (tlvRoutes info)),
      r.pfx = p ∧ d = r.cost.toNat) ↔
      ∃ l, Live s.db u l ∧ ∃ t ∈ l.tlvs, ∃ r ∈ tlvRoutes info t, r.pfx = p ∧ d = r.cost.toNat := by
    simp only [List.mem_flatMap, mem_fragments]
    constructor
    · rintro ⟨r, ⟨l, hl, t, ht, hr⟩, hpr⟩
      exact ⟨l, hl, t, ht, r, hr, hpr⟩
    · rintro ⟨l, hl, t, ht, r, hr, hpr⟩
      exact ⟨r, ⟨l, hl, t, ht, hr⟩, hpr⟩
  rw [hsplit]
  unfold AdvertisesPrefix
  constructor
  · rintro ⟨l, hl, t, ht, hroutes⟩
    obtain ⟨b, m, hd, ⟨rs, rfl, hr⟩ | ⟨rs, rfl, hr⟩⟩ := exists_mem_tlvRoutes.mp hroutes
    · exact ⟨b, m, ⟨l, hl, Or.inl ⟨rs, ht, hr⟩⟩, hd⟩
    · exact ⟨b, m, ⟨l, hl, Or.inr ⟨rs, ht, hr⟩⟩, hd⟩
  · rintro ⟨b, m, ⟨l, hl, ⟨rs, ht, hr⟩ | ⟨rs, ht, hr⟩⟩, hd⟩
    · exact ⟨l, hl, _, ht, exists_mem_tlvRoutes.mpr ⟨b, m, hd, Or.inl ⟨rs, rfl, hr⟩⟩⟩
    · exact ⟨l, hl, _, ht, exists_mem_tlvRoutes.mpr ⟨b, m, hd, Or.inr ⟨rs, rfl, hr⟩⟩⟩

theorem exists_mem_defaultRoutes : (∃ r ∈ s.defaultRoutes u info, r.pfx = p ∧ d = r.cost.toNat) ↔
    s.level = .l1 ∧ u ≠ s.root ∧ Flagged s.db (fun l => l.attached ≠ 0) u ∧
      (p = defaultV4 ∧ Supports s.db u nlpidIpv4 ∨ p = defaultV6 ∧ Supports s.db u nlpidIpv6) ∧
      d = info.dist.toNat := by
  have hatt : s.attached u = true ↔ Flagged s.db (fun l => l.attached ≠ 0) u := by
    rw [attached, fragmentZero_any]
    simp
  rw [← hatt, ← supports_iff, ← supports_iff, defaultRoutes]
  by_cases hcond : s.level = .l1 ∧ u ≠ s.root ∧ s.attached u = true
  · rw [if_pos hcond]
    cases s.supports u nlpidIpv4 <;> cases s.supports u nlpidIpv6 <;> simp [hcond, eq_comm]
    tauto
  · rw [if_neg hcond]
    simp
    tauto

theorem exists_mem_nodeRoutes : (∃ r ∈ s.nodeRoutes (u, info), r.pfx = p ∧ d = r.cost.toNat) ↔
    (∃ upDown m, AdvertisesPrefix s.db u p upDown m ∧ d = min (info.dist.toNat + m.toNat) 4294967295) ∨
      s.level = .l1 ∧ u ≠ s.root ∧ Flagged s.db (fun l => l.attached ≠ 0) u ∧
        (p = defaultV4 ∧ Supports s.db u nlpidIpv4 ∨ p = defaultV6 ∧ Supports s.db u nlpidIpv6) ∧
        d = info.dist.toNat := by
  rw [← exists_mem_fragmentRoutes, ← exists_mem_defaultRoutes]
  simp only [nodeRoutes, List.mem_append, or_and_right, exists_or]

end Harvest

section Result
variable {tree : BTreeMap NodeId VertexInfo} {fuel : ℕ} (htree : s.search.run fuel = some tree)
include htree

/-- The settled vertices are the nodes with a shortest path. -/
theorem shortestPath_iff (u : NodeId) (d : ℕ) : ShortestPath s.db (· ≠ maxLinkMetric) s.root u d ↔
    ∃ info, tree[u]? = some info ∧ info.dist.toNat = d := by
  obtain ⟨hmem, hleast⟩ := Dijkstra.Search.run_spec s.lawful_search htree
  have hset : Set.ofPred (s.search.Reaches u) = Set.ofPred (Path s.db (· ≠ maxLinkMetric) s.root u) := by
    congr 1
    funext e
    exact propext reaches_iff
  have hinfo : ∀ info, tree[u]? = some info → ShortestPath s.db (· ≠ maxLinkMetric) s.root u info.dist.toNat := by
    intro info hu
    have h := hleast u info hu
    rw [hset] at h
    exact h
  constructor
  · intro hd
    have hu : u ∈ tree := (hmem u).mpr ⟨d, reaches_iff.mpr hd.1⟩
    rw [← ExtTreeMap.isSome_getElem?_iff_mem] at hu
    obtain ⟨info, hu⟩ := Option.isSome_iff_exists.mp hu
    exact ⟨info, hu, (hinfo info hu).unique hd⟩
  · rintro ⟨info, hu, rfl⟩
    exact hinfo info hu

theorem exists_mem_offers (p : Prefix) (d : ℕ) :
    (∃ r ∈ tree.toList.flatMap s.nodeRoutes, r.pfx = p ∧ d = r.cost.toNat) ↔
      PrefixCost s.db (· ≠ maxLinkMetric) s.root (· ≠ s.root) s.level p d := by
  have hsplit : (∃ r ∈ tree.toList.flatMap s.nodeRoutes, r.pfx = p ∧ d = r.cost.toNat) ↔
      ∃ (u : NodeId) (info : VertexInfo), tree[u]? = some info ∧
        ∃ r ∈ s.nodeRoutes (u, info), r.pfx = p ∧ d = r.cost.toNat := by
    simp only [List.mem_flatMap, Prod.exists, ExtTreeMap.mem_toList_iff_getElem?_eq_some]
    constructor
    · rintro ⟨r, ⟨u, info, hu, hr⟩, hpr⟩
      exact ⟨u, info, hu, r, hr, hpr⟩
    · rintro ⟨u, info, hu, r, hr, hpr⟩
      exact ⟨r, ⟨u, info, hu, hr⟩, hpr⟩
  rw [hsplit]
  unfold PrefixCost
  constructor
  · rintro ⟨u, info, hu, hr⟩
    exact ⟨u, _, (shortestPath_iff htree u _).mpr ⟨info, hu, rfl⟩, exists_mem_nodeRoutes.mp hr⟩
  · rintro ⟨u, e, hpath, hcost⟩
    obtain ⟨info, hu, rfl⟩ := (shortestPath_iff htree u e).mp hpath
    exact ⟨u, info, hu, exists_mem_nodeRoutes.mpr hcost⟩

end Result

/-- The table of routes holds the best of the offers, each under its prefix. -/
theorem routes_spec (l : List SpfRoute) :
    (∀ (p : Prefix) (r : SpfRoute), (l.foldl addRoute ∅)[p]? = some r → r.pfx = p) ∧
      ∀ p : Prefix, Offer.Holds (fun r : SpfRoute => r.cost.toNat) (fun _ => False)
        (fun d r => ∃ e ∈ l, e.pfx = p ∧ d = e.cost.toNat ∧ r = e) (l.foldl addRoute ∅)[p]? := by
  constructor
  · intro p r h
    refine Offer.forall_foldl_offer (Q := fun (p : Prefix) (r : SpfRoute) => r.pfx = p) ?_ SpfRoute.pfx id l
      (fun _ _ => rfl) (m := ∅) ?_ p r h
    · intro k e i he _
      exact he
    · intro k i hi
      simp at hi
  · intro p
    have hnone : Offer.Holds (fun r : SpfRoute => r.cost.toNat) (fun _ => False) (fun _ _ => False)
        (∅ : BTreeMap Prefix SpfRoute)[p]? := by
      simp [Offer.Holds]
    have h := @Offer.holds_foldl_offer ℕ SpfRoute _ (fun r => r.cost.toNat)
      (fun e i => { e with gateways := mergeInto e.gateways i.gateways }) (fun _ => False) (fun _ _ => False) Prefix
      _ _ _ _ (fun _ => rfl) (by simp) SpfRoute SpfRoute.pfx id l ∅ p hnone
    exact h.congr fun d r => by simp

theorem mem_routes {tree : BTreeMap NodeId VertexInfo} {r : SpfRoute} :
    r ∈ (s.harvest tree).routes ↔ ((tree.toList.flatMap s.nodeRoutes).foldl addRoute ∅)[r.pfx]? = some r := by
  have hkey := (routes_spec (tree.toList.flatMap s.nodeRoutes)).1
  simp only [harvest, List.mem_map, Prod.exists, exists_eq_right, ExtTreeMap.mem_toList_iff_getElem?_eq_some]
  constructor
  · rintro ⟨p, h⟩
    rw [hkey p r h]
    exact h
  · intro h
    exact ⟨_, h⟩

end Spf

theorem compute_eq (db : Lsdb) (root : SystemId) (level : IsLevel) :
    ∃ tree, (∀ fuel, db.len + 1 ≤ fuel → (Spf.mk db ⟨root, 0⟩ level).search.run fuel = some tree) ∧
      compute db root level = (Spf.mk db ⟨root, 0⟩ level).harvest tree := by
  obtain ⟨tree, htree⟩ := (Spf.mk db ⟨root, 0⟩ level).exists_tree
  refine ⟨tree, htree, ?_⟩
  rw [compute, Spf.run, htree _ (le_refl _)]
  rfl

/-- A prefix has a route exactly if it can be had at some cost. -/
theorem exists_mem_routes_iff (db : Lsdb) (root : SystemId) (level : IsLevel) (p : Prefix) :
    (∃ r ∈ (compute db root level).routes, r.pfx = p) ↔
      ∃ d, PrefixCost db (· ≠ maxLinkMetric) ⟨root, 0⟩ (· ≠ ⟨root, 0⟩) level p d := by
  obtain ⟨tree, htree, hcompute⟩ := compute_eq db root level
  have hoffers := Spf.exists_mem_offers (htree _ (le_refl _)) p
  have hspec := Spf.routes_spec (tree.toList.flatMap (Spf.mk db ⟨root, 0⟩ level).nodeRoutes)
  have hholds := hspec.2 p
  rw [hcompute]
  constructor
  · rintro ⟨r, hr, rfl⟩
    rw [Spf.mem_routes.mp hr] at hholds
    obtain ⟨e, r', hr', hpfx, hd, -⟩ := hholds.attained
    exact ⟨_, (hoffers _).mp ⟨r', hr', hpfx, hd⟩⟩
  · rintro ⟨d, hd⟩
    obtain ⟨r', hr', hpfx, hd'⟩ := (hoffers d).mpr hd
    cases hr : ((tree.toList.flatMap (Spf.mk db ⟨root, 0⟩ level).nodeRoutes).foldl addRoute ∅)[p]? with
    | none =>
      rw [hr] at hholds
      exact absurd ⟨r', hr', hpfx, hd', rfl⟩ (hholds d r')
    | some r =>
      have hkey := hspec.1 p r hr
      exact ⟨r, Spf.mem_routes.mpr (by rw [hkey]; exact hr), hkey⟩

/-- Whatever can be reached can be reached on a shortest path. -/
theorem exists_shortestPath {db : Lsdb} {usable : UInt32 → Prop} {root u : NodeId} {d : ℕ}
    (h : Path db usable root u d) : ∃ e, ShortestPath db usable root u e := by
  classical
  have hex : ∃ d, Path db usable root u d := ⟨d, h⟩
  exact ⟨Nat.find hex, Nat.find_spec hex, fun e he => Nat.find_min' hex he⟩

/-- The calculation ends. It finds the nodes that can be reached, each at the cost of a shortest path, and each
prefix once, at the least cost at which one of these nodes has it. -/
theorem compute_shortestPaths (db : Lsdb) (root : SystemId) (level : IsLevel) :
    (∃ tree, (∀ fuel, db.len + 1 ≤ fuel → (Spf.mk db ⟨root, 0⟩ level).search.run fuel = some tree) ∧
      compute db root level = (Spf.mk db ⟨root, 0⟩ level).harvest tree) ∧
    (∀ (u : NodeId) (c : UInt32), (compute db root level).nodes[u]? = some c ↔
      ShortestPath db (· ≠ maxLinkMetric) ⟨root, 0⟩ u c.toNat) ∧
    (∀ (p : Prefix) (c : UInt32), (∃ r ∈ (compute db root level).routes, r.pfx = p ∧ r.cost = c) ↔
      IsLeast (Set.ofPred (PrefixCost db (· ≠ maxLinkMetric) ⟨root, 0⟩ (· ≠ ⟨root, 0⟩) level p)) c.toNat) ∧
    ((compute db root level).routes.map SpfRoute.pfx).Nodup := by
  obtain ⟨tree, htree, hcompute⟩ := compute_eq db root level
  refine ⟨⟨tree, htree, hcompute⟩, ?_, ?_, ?_⟩
  · intro u c
    rw [Spf.shortestPath_iff (htree _ (le_refl _)), hcompute]
    change (tree.map fun _ info => info.dist)[u]? = some c ↔ _
    rw [ExtTreeMap.getElem?_map, Option.map_eq_some_iff]
    simp only [UInt32.toNat_inj]
  · intro p c
    let l := tree.toList.flatMap (Spf.mk db ⟨root, 0⟩ level).nodeRoutes
    have hoffers := Spf.exists_mem_offers (htree _ (le_refl _)) p
    have hholds := (Spf.routes_spec l).2 p
    rw [hcompute]
    constructor
    · rintro ⟨r, hr, rfl, rfl⟩
      rw [Spf.mem_routes.mp hr] at hholds
      obtain ⟨e, r', hr', hpfx, hd, -⟩ := hholds.attained
      refine ⟨(hoffers _).mp ⟨r', hr', hpfx, hd⟩, ?_⟩
      intro d hd
      obtain ⟨e', he', hpfx', rfl⟩ := (hoffers d).mpr hd
      exact hholds.le _ e' ⟨e', he', hpfx', rfl, rfl⟩
    · rintro ⟨hcost, hleast⟩
      obtain ⟨e, he, hpfx, hd⟩ := (hoffers _).mpr hcost
      cases hr : (l.foldl addRoute ∅)[p]? with
      | none =>
        rw [hr] at hholds
        exact absurd ⟨e, he, hpfx, hd, rfl⟩ (hholds c.toNat e)
      | some r =>
        rw [hr] at hholds
        have hkey : r.pfx = p := (Spf.routes_spec l).1 p r hr
        obtain ⟨e', r', hr', hpfx', hd', -⟩ := hholds.attained
        have hge : c.toNat ≤ r.cost.toNat := hleast ((hoffers _).mp ⟨r', hr', hpfx', hd'⟩)
        have hle : r.cost.toNat ≤ c.toNat := hholds.le _ e ⟨e, he, hpfx, hd, rfl⟩
        refine ⟨r, Spf.mem_routes.mpr (by rw [hkey]; exact hr), hkey, ?_⟩
        exact UInt32.toNat_inj.mp (le_antisymm hle hge)
  · rw [hcompute]
    have hkeys := nodup_keys_toList ((tree.toList.flatMap (Spf.mk db ⟨root, 0⟩ level).nodeRoutes).foldl addRoute ∅)
    have hpfx := (Spf.routes_spec (tree.toList.flatMap (Spf.mk db ⟨root, 0⟩ level).nodeRoutes)).1
    rw [Spf.harvest, List.map_map]
    refine (List.map_congr_left ?_ : _ = List.map Prod.fst _) ▸ hkeys
    rintro ⟨p, r⟩ h
    exact hpfx p r (ExtTreeMap.mem_toList_iff_getElem?_eq_some.mp h)

/-- A router that is alone and attached, and one whose only link has a metric of 25 bits. -/
def aloneAttached : Lsdb := Lsdb.new.put ⟨.l1, 1200, ⟨1, 0, 0⟩, 1, 0, false, 1, false, .l2, [.protocolsSupported [nlpidIpv4]]⟩

def wideMetric : Lsdb :=
  (Lsdb.new.put ⟨.l1, 1200, ⟨1, 0, 0⟩, 1, 0, false, 0, false, .l1, [.extendedIsReachability [⟨⟨2, 0⟩, 0x1000000, []⟩]]⟩).put
    ⟨.l1, 1200, ⟨2, 0, 0⟩, 1, 0, false, 0, false, .l1, [.extendedIsReachability [⟨⟨1, 0⟩, 10, []⟩]]⟩

/-- The attached bit of the root itself draws no default route, and only the largest 24-bit metric is drained. -/
theorem compute_not_all_attached :
    (¬ ∀ (db : Lsdb) (root : SystemId) (level : IsLevel) (p : Prefix) (c : UInt32),
      (∃ r ∈ (compute db root level).routes, r.pfx = p ∧ r.cost = c) ↔
        IsLeast (Set.ofPred (PrefixCost db (· < maxLinkMetric) ⟨root, 0⟩ (fun _ => True) level p)) c.toNat) ∧
    ¬ ∀ (db : Lsdb) (root : SystemId) (level : IsLevel) (u : NodeId) (c : UInt32),
      (compute db root level).nodes[u]? = some c ↔ ShortestPath db (· < maxLinkMetric) ⟨root, 0⟩ u c.toNat := by
  constructor
  · intro h
    have hroutes : (compute aloneAttached 1 .l1).routes = [] := by decide +kernel
    have hlive : Live aloneAttached ⟨1, 0⟩
        ⟨.l1, 1200, ⟨1, 0, 0⟩, 1, 0, false, 1, false, .l2, [.protocolsSupported [nlpidIpv4]]⟩ :=
      ⟨by rw [aloneAttached, Lsdb.get_put]; rfl, rfl, by decide⟩
    have hroot : ShortestPath aloneAttached (· < maxLinkMetric) ⟨1, 0⟩ ⟨1, 0⟩ 0 :=
      ⟨Path.root, fun d _ => Nat.zero_le d⟩
    have hcost : PrefixCost aloneAttached (· < maxLinkMetric) ⟨1, 0⟩ (fun _ => True) .l1 defaultV4 0 :=
      ⟨⟨1, 0⟩, 0, hroot, Or.inr ⟨rfl, trivial, ⟨_, hlive, rfl, by decide⟩,
        Or.inl ⟨rfl, _, hlive, _, List.mem_singleton.mpr rfl, List.mem_singleton.mpr rfl⟩, rfl⟩⟩
    obtain ⟨r, hr, -⟩ := (h aloneAttached 1 .l1 defaultV4 0).mpr ⟨hcost, fun d _ => Nat.zero_le d⟩
    rw [hroutes] at hr
    cases hr
  · intro h
    have hnode : (compute wideMetric 1 .l1).nodes[(⟨2, 0⟩ : NodeId)]? = some 0x1000000 := by decide +kernel
    have hmetric : ∀ w m, Advertises wideMetric ⟨1, 0⟩ w m → m = 0x1000000 := by
      rintro w m ⟨l, ⟨hget, hid, -⟩, rs, hrs, r, hr, -, rfl⟩
      rw [wideMetric, Lsdb.get_put, Lsdb.get_put] at hget
      split_ifs at hget with h2 h1
      · rw [h2] at hid
        exact absurd hid (by decide)
      · obtain rfl := Option.some.inj hget
        obtain rfl : rs = [⟨⟨2, 0⟩, 0x1000000, []⟩] := by simpa using hrs
        obtain rfl := List.mem_singleton.mp hr
        rfl
      · simp at hget
    have hstuck : ∀ u d, Path wideMetric (· < maxLinkMetric) ⟨1, 0⟩ u d → u = ⟨1, 0⟩ := by
      intro u d hpath
      induction hpath with
      | root => rfl
      | @step u w d m _ hedge ih =>
        subst ih
        have husable := hedge.2.1
        rw [hmetric w m hedge.1] at husable
        exact absurd husable (by decide)
    exact absurd (hstuck _ _ ((h wideMetric 1 .l1 ⟨2, 0⟩ 0x1000000).mp hnode).1) (by decide)

end Wren.Isis
