import Wren.Ospfv3.Spf

/-! What the shortest-path calculation of OSPFv3 finds in any database. -/

namespace Wren.Ospfv3
open OrdMap RouteTree
open Wren.Ospf (Ipv4Addr maxAge)
open Std (ExtTreeMap)

section Graph
variable (db : Lsdb)

/-- An LSA that is held and not at MaxAge. -/
def Live (t : LsType) (lsa : Lsa) : Prop := lsa.header.lsType = t ∧ db.get lsa.key = some lsa ∧ lsa.header.lsAge < maxAge

def Alive (rid : Ipv4Addr) : Prop := ∃ lsa, Live db .router lsa ∧ lsa.header.advertisingRouter = rid

/-- A link in one of the Router-LSAs of a router. -/
def Links (rid : Ipv4Addr) (l : RouterLink) : Prop :=
  ∃ lsa r, Live db .router lsa ∧ lsa.header.advertisingRouter = rid ∧ lsa.body = .router r ∧ l ∈ r.links

/-- The Network-LSA of a DR lists a router. -/
def Lists (drRid : Ipv4Addr) (drIf : UInt32) (rid : Ipv4Addr) : Prop :=
  ∃ lsa n, db.get (.network, BitVec.ofNat 32 drIf.toNat, drRid) = some lsa ∧ lsa.header.lsAge < maxAge ∧
    lsa.body = .network n ∧ rid ∈ n.attachedRouters

/-- Links between live routers, onto transit networks and off them, each with a link back. -/
inductive Edge : Vertex → Vertex → UInt32 → Prop
  | between {u w : Ipv4Addr} {l back : RouterLink} : Links db u l → l.joins w = true → Alive db w →
    Links db w back → back.joins u = true → Edge (.router u) (.router w) l.metric.toUInt32
  | onto {u r : Ipv4Addr} {i : UInt32} {l : RouterLink} : Links db u l → l.attaches r i = true → Lists db r i u →
    Edge (.router u) (.network r i) l.metric.toUInt32
  | off {w r : Ipv4Addr} {i : UInt32} {back : RouterLink} : Lists db r i w → Alive db w → Links db w back →
    back.attaches r i = true → Edge (.network r i) (.router w) 0

/-- What an Intra-Area-Prefix-LSA has to refer to for a vertex. -/
def Refers (p : IntraAreaPrefixLsa) : Vertex → Prop
  | .router rid => p.referencedLsType = LsType.router.asU16 ∧ p.referencedLinkStateId = 0 ∧
      p.referencedAdvertisingRouter = rid
  | .network drRid drIf => p.referencedLsType = LsType.network.asU16 ∧
      p.referencedLinkStateId = BitVec.ofNat 32 drIf.toNat ∧ p.referencedAdvertisingRouter = drRid

/-- A prefix that takes part in unicast, in an Intra-Area-Prefix-LSA that refers to the vertex. -/
def Announces (v : Vertex) (p : Core.Prefix) (m : UInt32) : Prop :=
  ∃ lsa b entry, Live db .intraAreaPrefix lsa ∧ lsa.body = .intraAreaPrefix b ∧ Refers b v ∧ entry ∈ b.prefixes ∧
    entry.pfx.options &&& prefixNu = 0 ∧ toCorePrefix entry.pfx = some p ∧ entry.metric.toUInt32 = m

end Graph

namespace Spf
variable {s : Spf}

theorem mem_routerLinks {rid : Ipv4Addr} {l : RouterLink} : l ∈ s.routerLinks rid ↔ Links s.area rid l := by
  simp only [routerLinks, List.mem_flatMap, List.mem_filter, Lsdb.mem_iterType, decide_eq_true_eq, Links, Live]
  constructor
  · rintro ⟨lsa, ⟨⟨ht, hget⟩, hadv, hage⟩, hl⟩
    cases hb : lsa.body with
    | router r => exact ⟨lsa, r, ⟨ht, hget, hage⟩, hadv, hb, by simpa [hb, LsaBody.routerLinks] using hl⟩
    | _ => simp [hb, LsaBody.routerLinks] at hl
  · rintro ⟨lsa, r, ⟨ht, hget, hage⟩, hadv, hb, hl⟩
    exact ⟨lsa, ⟨⟨ht, hget⟩, hadv, hage⟩, by simpa [hb, LsaBody.routerLinks] using hl⟩

theorem routerAlive_iff {rid : Ipv4Addr} : s.routerAlive rid = true ↔ Alive s.area rid := by
  simp only [routerAlive, List.any_eq_true, Lsdb.mem_iterType, decide_eq_true_eq, Alive, Live]
  constructor
  · rintro ⟨lsa, ⟨ht, hget⟩, hadv, hage⟩
    exact ⟨lsa, ⟨ht, hget, hage⟩, hadv⟩
  · rintro ⟨lsa, ⟨ht, hget, hage⟩, hadv⟩
    exact ⟨lsa, ⟨ht, hget⟩, hadv, hage⟩

theorem networkLsa_eq_some {r : Ipv4Addr} {i : UInt32} {n : NetworkLsa} : s.networkLsa r i = some n ↔
    ∃ lsa, s.area.get (.network, BitVec.ofNat 32 i.toNat, r) = some lsa ∧ lsa.header.lsAge < maxAge ∧
      lsa.body = .network n := by
  unfold networkLsa
  cases hget : s.area.get (.network, BitVec.ofNat 32 i.toNat, r) with
  | none => simp
  | some lsa =>
    simp only [Option.bind_eq_bind, Option.bind_some, Option.some.injEq, exists_eq_left']
    by_cases hage : maxAge ≤ lsa.header.lsAge
    · simp [hage, UInt16.not_lt.mpr hage]
    · rw [if_neg hage]
      have hlt : lsa.header.lsAge < maxAge := UInt16.not_le.mp hage
      cases hb : lsa.body <;> simp [hlt]

theorem networkListsRouter_iff {r : Ipv4Addr} {i : UInt32} {rid : Ipv4Addr} :
    s.networkListsRouter r i rid = true ↔ Lists s.area r i rid := by
  simp only [networkListsRouter, Option.any_eq_true, networkLsa_eq_some, decide_eq_true_eq, Lists]
  constructor
  · rintro ⟨n, ⟨lsa, hget, hage, hb⟩, hmem⟩
    exact ⟨lsa, n, hget, hage, hb, hmem⟩
  · rintro ⟨lsa, n, hget, hage, hb, hmem⟩
    exact ⟨n, ⟨lsa, hget, hage, hb⟩, hmem⟩

theorem networkAlive_of_lists {r : Ipv4Addr} {i : UInt32} {rid : Ipv4Addr} (h : Lists s.area r i rid) :
    s.networkAlive r i = true := by
  obtain ⟨lsa, n, hget, hage, hb, -⟩ := h
  rw [networkAlive, networkLsa_eq_some.mpr ⟨lsa, hget, hage, hb⟩]
  rfl

theorem linksToRouter_iff {w v : Ipv4Addr} :
    s.routerLinksToRouter w v = true ↔ ∃ back, Links s.area w back ∧ back.joins v = true := by
  simp only [routerLinksToRouter, List.any_eq_true, mem_routerLinks]

theorem linksToNetwork_iff {w r : Ipv4Addr} {i : UInt32} :
    s.routerLinksToNetwork w r i = true ↔ ∃ back, Links s.area w back ∧ back.attaches r i = true := by
  simp only [routerLinksToNetwork, List.any_eq_true, mem_routerLinks]

/-- The edge that one link of a router gives. -/
theorem mem_neighbors_router {rid : Ipv4Addr} {w : Vertex} {c : UInt32} :
    (w, c) ∈ s.neighbors (.router rid) ↔ Edge s.area (.router rid) w c := by
  simp only [neighbors, List.mem_filterMap, mem_routerLinks]
  constructor
  · rintro ⟨l, hl, hout⟩
    have hjoin : (l.linkType = .pointToPoint ∨ l.linkType = .virtual) →
        (if s.routerAlive l.neighborRouterId && s.routerLinksToRouter l.neighborRouterId rid then
          some (Vertex.router l.neighborRouterId, l.metric.toUInt32) else none) = some (w, c) →
        Edge s.area (.router rid) w c := by
      intro ht hout
      split_ifs at hout with hcond
      obtain ⟨rfl, rfl⟩ := Prod.mk.inj (Option.some.inj hout)
      obtain ⟨halive, hback⟩ := Bool.and_eq_true_iff.mp hcond
      obtain ⟨back, hb, hjoins⟩ := linksToRouter_iff.mp hback
      exact .between hl (by simpa [RouterLink.joins] using ht) (routerAlive_iff.mp halive) hb hjoins
    cases ht : l.linkType with
    | pointToPoint => exact hjoin (.inl ht) (by simpa [ht] using hout)
    | virtual => exact hjoin (.inr ht) (by simpa [ht] using hout)
    | transit =>
      simp only [ht] at hout
      split_ifs at hout with hcond
      obtain ⟨rfl, rfl⟩ := Prod.mk.inj (Option.some.inj hout)
      obtain ⟨-, hlists⟩ := Bool.and_eq_true_iff.mp hcond
      exact .onto hl (by simp [RouterLink.attaches, ht]) (networkListsRouter_iff.mp hlists)
  · intro hedge
    cases hedge with
    | @between _ w l back hl hjoins halive hb hback =>
      have hparts : (l.linkType = .pointToPoint ∨ l.linkType = .virtual) ∧ l.neighborRouterId = w := by
        simpa [RouterLink.joins] using hjoins
      have hcond : (s.routerAlive w && s.routerLinksToRouter w rid) = true :=
        Bool.and_eq_true_iff.mpr ⟨routerAlive_iff.mpr halive, linksToRouter_iff.mpr ⟨back, hb, hback⟩⟩
      refine ⟨l, hl, ?_⟩
      obtain ⟨ht | ht, rfl⟩ := hparts
      · simp only [ht, hcond, if_true]
      · simp only [ht, hcond, if_true]
    | @onto _ r i l hl hattaches hlists =>
      have hparts : l.linkType = .transit ∧ l.neighborRouterId = r ∧ l.neighborInterfaceId = i := by
        simpa [RouterLink.attaches] using hattaches
      obtain ⟨ht, rfl, rfl⟩ := hparts
      have hcond : (s.networkAlive l.neighborRouterId l.neighborInterfaceId &&
          s.networkListsRouter l.neighborRouterId l.neighborInterfaceId rid) = true :=
        Bool.and_eq_true_iff.mpr ⟨networkAlive_of_lists hlists, networkListsRouter_iff.mpr hlists⟩
      refine ⟨l, hl, ?_⟩
      simp only [ht, hcond, if_true]

/-- The edges off a network. -/
theorem mem_neighbors_network {r : Ipv4Addr} {i : UInt32} {w : Vertex} {c : UInt32} :
    (w, c) ∈ s.neighbors (.network r i) ↔ Edge s.area (.network r i) w c := by
  have hlists : ∀ rid, Lists s.area r i rid ↔ ∃ nl, s.networkLsa r i = some nl ∧ rid ∈ nl.attachedRouters := by
    intro rid
    rw [← networkListsRouter_iff, networkListsRouter, Option.any_eq_true]
    simp
  constructor
  · intro hmem
    cases hn : s.networkLsa r i with
    | none => simp [neighbors, hn] at hmem
    | some nl =>
      simp only [neighbors, hn, List.mem_filterMap] at hmem
      obtain ⟨rid, hrid, hout⟩ := hmem
      split_ifs at hout with hcond
      obtain ⟨rfl, rfl⟩ := Prod.mk.inj (Option.some.inj hout)
      obtain ⟨halive, hback⟩ := Bool.and_eq_true_iff.mp hcond
      obtain ⟨back, hb, hattaches⟩ := linksToNetwork_iff.mp hback
      exact .off ((hlists rid).mpr ⟨nl, hn, hrid⟩) (routerAlive_iff.mp halive) hb hattaches
  · intro hedge
    cases hedge with
    | @off rid _ _ back hl halive hb hattaches =>
      obtain ⟨nl, hn, hrid⟩ := (hlists rid).mp hl
      have hcond : (s.routerAlive rid && s.routerLinksToNetwork rid r i) = true :=
        Bool.and_eq_true_iff.mpr ⟨routerAlive_iff.mpr halive, linksToNetwork_iff.mpr ⟨back, hb, hattaches⟩⟩
      simp only [neighbors, hn, List.mem_filterMap]
      exact ⟨rid, hrid, by rw [if_pos hcond]⟩

theorem mem_neighbors {u w : Vertex} {c : UInt32} : (w, c) ∈ s.neighbors u ↔ Edge s.area u w c := by
  cases u with
  | router rid => exact mem_neighbors_router
  | network r i => exact mem_neighbors_network

theorem mem_intraPrefixesFor {v : Vertex} {ps : List IntraPrefix} : ps ∈ s.intraPrefixesFor v ↔
    ∃ lsa b, Live s.area .intraAreaPrefix lsa ∧ lsa.body = .intraAreaPrefix b ∧ Refers b v ∧ b.prefixes = ps := by
  have hrefers : ∀ b : IntraAreaPrefixLsa, Refers b v ↔ b.referencedLsType = (wanted v).1 ∧
      b.referencedLinkStateId = (wanted v).2.1 ∧ b.referencedAdvertisingRouter = (wanted v).2.2 := by
    intro b
    cases v <;> rfl
  simp only [intraPrefixesFor, List.mem_filterMap, Lsdb.mem_iterType, Live]
  constructor
  · rintro ⟨lsa, ⟨ht, hget⟩, hout⟩
    split_ifs at hout with hage
    cases hb : lsa.body with
    | intraAreaPrefix b =>
      rw [hb] at hout
      simp only at hout
      split_ifs at hout with hcond
      exact ⟨lsa, b, ⟨ht, hget, UInt16.not_le.mp hage⟩, hb, (hrefers b).mpr hcond, Option.some.inj hout⟩
    | _ =>
      rw [hb] at hout
      cases hout
  · rintro ⟨lsa, b, ⟨ht, hget, hage⟩, hb, hcond, rfl⟩
    refine ⟨lsa, ⟨ht, hget⟩, ?_⟩
    rw [if_neg (UInt16.not_le.mpr hage), hb]
    exact if_pos ((hrefers b).mp hcond)

theorem mem_announces {v : Vertex} {p : Core.Prefix} {m : UInt32} : (p, m) ∈ s.announces v ↔ Announces s.area v p m := by
  simp only [announces, List.mem_flatMap, List.mem_filterMap, mem_intraPrefixesFor, Announces]
  constructor
  · rintro ⟨ps, ⟨lsa, b, hlive, hb, href, rfl⟩, entry, hentry, hout⟩
    split_ifs at hout with hnu
    obtain ⟨q, hq, heq⟩ := Option.map_eq_some_iff.mp hout
    obtain ⟨rfl, rfl⟩ := Prod.mk.inj heq
    exact ⟨lsa, b, entry, hlive, hb, href, hentry, not_not.mp hnu, hq, rfl⟩
  · rintro ⟨lsa, b, entry, hlive, hb, href, hentry, hnu, hq, rfl⟩
    refine ⟨_, ⟨lsa, b, hlive, hb, href, rfl⟩, entry, hentry, ?_⟩
    rw [if_neg (not_not.mpr hnu), hq]
    rfl

theorem models (s : Spf) : s.topology.Models (Edge s.area) (Announces s.area) where
  edge _ _ _ := mem_neighbors
  announced _ _ _ := mem_announces

/-- Every vertex but the root stands for an LSA. -/
theorem exists_finset (s : Spf) :
    ∃ U : Finset Vertex, (∀ v d, Walk (Edge s.area) (.router s.root) v d → v ∈ U) ∧ U.card ≤ s.area.len + 1 := by
  let vertexOf : LsaKey → Vertex := fun k =>
    if k.1 = .router then .router k.2.2 else .network k.2.2 (UInt32.ofNat k.2.1.toNat)
  refine ⟨insert (.router s.root) (s.area.entries.keys.toFinset.image vertexOf), ?_, ?_⟩
  · intro v d hwalk
    rw [Finset.mem_insert, Finset.mem_image]
    have hkey : ∀ {k : LsaKey} {lsa : Lsa}, s.area.get k = some lsa → k ∈ s.area.entries.keys.toFinset := by
      intro k lsa hget
      rw [List.mem_toFinset, ExtTreeMap.mem_keys, ← ExtTreeMap.isSome_getElem?_iff_mem]
      exact Option.isSome_iff_exists.mpr ⟨lsa, hget⟩
    cases hwalk with
    | root => exact .inl rfl
    | step _ hedge =>
      cases hedge with
      | between _ _ halive _ _ =>
        obtain ⟨lsa, ⟨ht, hget, -⟩, hadv⟩ := halive
        refine .inr ⟨lsa.key, hkey hget, ?_⟩
        show (if lsa.header.lsType = .router then Vertex.router lsa.header.advertisingRouter else _) = _
        rw [if_pos ht, hadv]
      | @onto u r i _ _ _ hlists =>
        obtain ⟨lsa, n, hget, -⟩ := hlists
        refine .inr ⟨_, hkey hget, ?_⟩
        show Vertex.network r (UInt32.ofNat (BitVec.ofNat 32 i.toNat).toNat) = _
        rw [BitVec.toNat_ofNat, Nat.mod_eq_of_lt i.toNat_lt, UInt32.ofNat_toNat]
      | off _ halive _ _ =>
        obtain ⟨lsa, ⟨ht, hget, -⟩, hadv⟩ := halive
        refine .inr ⟨lsa.key, hkey hget, ?_⟩
        show (if lsa.header.lsType = .router then Vertex.router lsa.header.advertisingRouter else _) = _
        rw [if_pos ht, hadv]
  · have hcard := Finset.card_insert_le (Vertex.router s.root) (s.area.entries.keys.toFinset.image vertexOf)
    have himage := Finset.card_image_le (s := s.area.entries.keys.toFinset) (f := vertexOf)
    have hkeys : s.area.entries.keys.toFinset.card = s.area.len := by
      rw [List.toFinset_card_of_nodup ExtTreeMap.nodup_keys, ExtTreeMap.length_keys]
      rfl
    omega

end Spf

theorem toNat_toUInt32_le (m : UInt16) : m.toUInt32.toNat ≤ 65535 := by
  have hlt := m.toNat_lt
  rw [UInt16.toNat_toUInt32]
  omega

/-- The costs of simple paths, and of the prefixes at their ends, fit into 32 bits. -/
abbrev Fits32 (area : Lsdb) (root : Ipv4Addr) : Prop := Fits (Edge area) (.router root) (Announces area)

/-- Metrics have 16 bits, so the costs in a database of up to 65536 LSAs fit. -/
theorem fits32_of_len {area : Lsdb} {root : Ipv4Addr} (h : area.len ≤ 65536) : Fits32 area root := by
  obtain ⟨U, hU, hcard⟩ := (Spf.mk area Lsdb.new root).exists_finset
  have hlen : U.card ≤ area.len + 1 := hcard
  refine Fits.of_card ?_ ?_ hU (by omega)
  · intro u w c hedge
    cases hedge with
    | @between u w l back _ _ _ _ _ => exact toNat_toUInt32_le l.metric
    | @onto u r i l _ _ _ => exact toNat_toUInt32_le l.metric
    | off _ _ _ _ => exact Nat.zero_le _
  · rintro v p m ⟨lsa, b, entry, -, -, -, -, -, -, rfl⟩
    exact toNat_toUInt32_le entry.metric

/-- The calculation ends. It finds the routers that can be reached, each at the cost of a shortest path, and each prefix
once, at the least cost at which a vertex that can be reached has it. -/
theorem compute_reachable (area links : Lsdb) (root : Ipv4Addr) (hfits : Fits32 area root) :
    (∃ tree, (∀ fuel, area.len + 1 ≤ fuel → (Spf.mk area links root).topology.search.run fuel = some tree) ∧
      compute area links root = (Spf.mk area links root).harvest tree) ∧
    (∀ (rid : Ipv4Addr) (c : UInt32), (compute area links root).routers[rid]? = some c ↔
      LeastCost (Edge area) (.router root) (.router rid) c.toNat) ∧
    (∀ (p : Core.Prefix) (c : UInt32), (∃ r ∈ (compute area links root).routes, r.pfx = p ∧ r.cost = c) ↔
      IsLeast (Set.ofPred (Available (Edge area) (.router root) (Announces area) p)) c.toNat) ∧
    ((compute area links root).routes.map SpfRoute.pfx).Nodup := by
  obtain ⟨U, hU, hcard⟩ := (Spf.mk area links root).exists_finset
  have hm := (Spf.mk area links root).models
  obtain ⟨tree, htree⟩ := hm.exists_tree hfits hU hcard
  have hrun := htree _ (le_refl _)
  have hcompute : compute area links root = (Spf.mk area links root).harvest tree := by
    rw [compute, Spf.run, hrun]
    rfl
  refine ⟨⟨tree, htree, hcompute⟩, ?_, ?_, ?_⟩
  · intro rid c
    rw [hcompute]
    have hroot : (Spf.mk area links root).topology.root = Vertex.router root := rfl
    rw [← hroot, hm.leastCost_iff hfits hrun]
    have hlookup := getElem?_collect tree (Info.dist (G := SpfNextHop)) Vertex.routerId_eq_some rid
    show (collect tree Vertex.routerId Info.dist)[rid]? = some c ↔ _
    rw [hlookup, Option.map_eq_some_iff]
    simp only [UInt32.toNat_inj]
  · intro p c
    have hroot : (Spf.mk area links root).topology.root = Vertex.router root := rfl
    rw [hcompute, ← hroot, hm.available_iff hfits hrun]
    simp only [Spf.harvest, List.mem_map, Prod.exists, ExtTreeMap.mem_toList_iff_getElem?_eq_some]
    constructor
    · rintro ⟨r, ⟨q, i, hi, rfl⟩, rfl, rfl⟩
      exact ⟨i, hi, rfl⟩
    · rintro ⟨i, hi, hc⟩
      exact ⟨_, ⟨p, i, hi, rfl⟩, rfl, UInt32.toNat_inj.mp hc⟩
  · rw [hcompute, Spf.harvest, List.map_map]
    exact nodup_keys_toList ((Spf.mk area links root).topology.routes tree)

/-! Two routers at the ends of a link, and a prefix of the second one. -/

def routerOn (rid peer : Ipv4Addr) (metric : UInt16) : Lsa :=
  ⟨⟨1, .router, 0, rid, 1, 0, 0⟩, .router ⟨0, 0, [⟨.pointToPoint, metric, 1, 1, peer⟩]⟩⟩

def pairDb : Lsdb :=
  ((Lsdb.new.put (routerOn 1 2 5)).put (routerOn 2 1 6)).put
    ⟨⟨1, .intraAreaPrefix, 0, 2, 1, 0, 0⟩, .intraAreaPrefix ⟨0x2001, 0, 2, [⟨3, ⟨32, 0, [0x20, 1, 0xd, 0xb8]⟩⟩]⟩⟩

/-- The second router is five away, and so the calculation has it. -/
theorem compute_reachable_pairDb :
    (compute pairDb Lsdb.new 1).routers[(2 : Ipv4Addr)]? = some 5 ∧
      LeastCost (Edge pairDb) (.router 1) (.router 2) 5 := by
  have hrouter : (compute pairDb Lsdb.new 1).routers[(2 : Ipv4Addr)]? = some 5 := by decide +kernel
  exact ⟨hrouter, ((compute_reachable pairDb Lsdb.new 1 (fits32_of_len (by decide +kernel))).2.1 2 5).mp hrouter⟩

end Wren.Ospfv3
