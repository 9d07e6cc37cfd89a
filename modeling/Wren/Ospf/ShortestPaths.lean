import Wren.Ospf.Spf

/-! What the shortest-path calculation of OSPFv2 finds in any database.

A transit network is known by the address of its DR alone, and the calculation takes the first Network-LSA with that
address that is not at MaxAge. The graph is stated for either reading of what the LSA of a network is. -/

namespace Wren.Ospf
open OrdMap RouteTree
open Std (ExtTreeMap)

section Graph
variable (db : Lsdb)

def Alive (rid : Ipv4Addr) : Prop := ∃ lsa, db.get (.router, rid, rid) = some lsa ∧ lsa.header.lsAge < maxAge

/-- A link in the Router-LSA of a router. -/
def Links (rid : Ipv4Addr) (l : RouterLink) : Prop :=
  ∃ lsa r, db.get (.router, rid, rid) = some lsa ∧ lsa.body = .router r ∧ l ∈ r.links

/-- A router has a Network-LSA for the address that is not at MaxAge. -/
def HasNetwork (dr adv : Ipv4Addr) (n : NetworkLsa) : Prop :=
  ∃ lsa, db.get (.network, dr, adv) = some lsa ∧ lsa.header.lsAge < maxAge ∧ lsa.body = .network n

/-- Any Network-LSA for the address that is not at MaxAge. -/
def AnyNetwork (dr : Ipv4Addr) (n : NetworkLsa) : Prop := ∃ adv, HasNetwork db dr adv n

/-- Of these, the one with the lowest advertising router. -/
def FirstNetwork (dr : Ipv4Addr) (n : NetworkLsa) : Prop :=
  ∃ adv, HasNetwork db dr adv n ∧ ∀ adv' n', HasNetwork db dr adv' n' → adv.toNat ≤ adv'.toNat

variable (net : Ipv4Addr → NetworkLsa → Prop)

/-- Links to live routers, onto transit networks and off them, each with a link back. -/
inductive Edge : Vertex → Vertex → UInt32 → Prop
  | between {u w : Ipv4Addr} {l back : RouterLink} : Links db u l → l.joins w = true → Alive db w →
    Links db w back → back.joins u = true → Edge (.router u) (.router w) l.metric.toUInt32
  | onto {u dr : Ipv4Addr} {l : RouterLink} {n : NetworkLsa} : Links db u l → l.attaches dr = true → net dr n →
    u ∈ n.attachedRouters → Edge (.router u) (.network dr) l.metric.toUInt32
  | off {w dr : Ipv4Addr} {back : RouterLink} {n : NetworkLsa} : net dr n → w ∈ n.attachedRouters → Alive db w →
    Links db w back → back.attaches dr = true → Edge (.network dr) (.router w) 0

/-- The stub links of a router, and the prefix of a transit network. -/
inductive Announces : Vertex → Core.Prefix → UInt32 → Prop
  | stub {rid : Ipv4Addr} {l : RouterLink} {p : Core.Prefix} : Links db rid l → l.linkType = .stub →
    Core.Prefix.new (.v4 l.linkId) (maskLen l.linkData) = .ok p → Announces (.router rid) p l.metric.toUInt32
  | transit {dr : Ipv4Addr} {n : NetworkLsa} {p : Core.Prefix} : net dr n →
    Core.Prefix.new (.v4 dr) (maskLen n.networkMask) = .ok p → Announces (.network dr) p 0

end Graph

namespace Spf
variable {s : Spf}

theorem routerLsa_eq_some {rid : Ipv4Addr} {r : RouterLsa} :
    s.routerLsa rid = some r ↔ ∃ lsa, s.db.get (.router, rid, rid) = some lsa ∧ lsa.body = .router r := by
  unfold routerLsa
  cases hget : s.db.get (.router, rid, rid) with
  | none => simp
  | some lsa =>
    simp only [Option.bind_eq_bind, Option.bind_some, Option.some.injEq, exists_eq_left']
    cases hb : lsa.body <;> simp

theorem links_iff {rid : Ipv4Addr} {l : RouterLink} :
    Links s.db rid l ↔ ∃ r, s.routerLsa rid = some r ∧ l ∈ r.links := by
  simp only [Links, routerLsa_eq_some]
  constructor
  · rintro ⟨lsa, r, hget, hb, hl⟩
    exact ⟨r, ⟨lsa, hget, hb⟩, hl⟩
  · rintro ⟨r, ⟨lsa, hget, hb⟩, hl⟩
    exact ⟨lsa, r, hget, hb, hl⟩

theorem routerAlive_iff {rid : Ipv4Addr} : s.routerAlive rid = true ↔ Alive s.db rid := by
  simp only [routerAlive, Option.any_eq_true, decide_eq_true_eq, Alive]

/-- The Network-LSA of an LSA, if it counts for the address. -/
def networkOf (dr : Ipv4Addr) (lsa : Lsa) : Option NetworkLsa :=
  if lsa.header.linkStateId = dr ∧ lsa.header.lsAge < maxAge then
    match lsa.body with
    | .network n => some n
    | _ => none
  else none

theorem networkOf_eq_some {dr : Ipv4Addr} {lsa : Lsa} {n : NetworkLsa} : networkOf dr lsa = some n ↔
    lsa.header.linkStateId = dr ∧ lsa.header.lsAge < maxAge ∧ lsa.body = .network n := by
  unfold networkOf
  split_ifs with h
  · cases hb : lsa.body <;> simp [h]
  · constructor
    · intro hnone
      cases hnone
    · intro hall
      exact absurd ⟨hall.1, hall.2.1⟩ h

/-- An LSA of the type that counts for the address is the Network-LSA of its advertising router. -/
theorem hasNetwork_iff {dr adv : Ipv4Addr} {n : NetworkLsa} : HasNetwork s.db dr adv n ↔
    ∃ lsa ∈ s.db.iterType .network, lsa.header.advertisingRouter = adv ∧ networkOf dr lsa = some n := by
  simp only [HasNetwork, Lsdb.mem_iterType, networkOf_eq_some]
  constructor
  · rintro ⟨lsa, hget, hage, hb⟩
    have hkey : lsa.key = (.network, dr, adv) := Lsdb.get_key hget
    have htype : lsa.header.lsType = .network := congrArg Prod.fst hkey
    have hid : lsa.header.linkStateId = dr := congrArg (fun k => k.2.1) hkey
    have hadv : lsa.header.advertisingRouter = adv := congrArg (fun k => k.2.2) hkey
    exact ⟨lsa, ⟨htype, hkey ▸ hget⟩, hadv, hid, hage, hb⟩
  · rintro ⟨lsa, ⟨ht, hget⟩, hadv, hid, hage, hb⟩
    have hkey : lsa.key = (.network, dr, adv) := by
      rw [← ht, ← hid, ← hadv]
      rfl
    exact ⟨lsa, hkey ▸ hget, hage, hb⟩

/-- The LSAs of an address stand in the order of their advertising routers. -/
theorem adv_lt_of_compare {dr : Ipv4Addr} {a b : Lsa} {m n : NetworkLsa} (ha : a ∈ s.db.iterType .network)
    (hb : b ∈ s.db.iterType .network) (hm : networkOf dr a = some m) (hn : networkOf dr b = some n)
    (h : compare a.key b.key = .lt) : a.header.advertisingRouter.toNat < b.header.advertisingRouter.toNat := by
  have hka : a.key = (.network, dr, a.header.advertisingRouter) := by
    rw [← (Lsdb.mem_iterType.mp ha).1, ← (networkOf_eq_some.mp hm).1]
    rfl
  have hkb : b.key = (.network, dr, b.header.advertisingRouter) := by
    rw [← (Lsdb.mem_iterType.mp hb).1, ← (networkOf_eq_some.mp hn).1]
    rfl
  rw [hka, hkb] at h
  have hlex : ((compare LsType.network LsType.network).then ((compare dr dr).then
      (compare a.header.advertisingRouter b.header.advertisingRouter))) = .lt := h
  simp only [Std.ReflOrd.compare_self, Ordering.then] at hlex
  exact BitVec.lt_def.mp (compareOfLessAndEq_eq_lt.mp hlex)

theorem networkLsa_eq_some {dr : Ipv4Addr} {n : NetworkLsa} : s.networkLsa dr = some n ↔ FirstNetwork s.db dr n := by
  have hcode : s.networkLsa dr = (s.db.iterType .network).findSome? (networkOf dr) := rfl
  have hsorted := s.db.pairwise_iterType .network
  rw [hcode, List.findSome?_eq_some_iff]
  constructor
  · rintro ⟨front, lsa, back, hlist, hn, hfront⟩
    have hmem : lsa ∈ s.db.iterType .network := hlist ▸ List.mem_append_right front List.mem_cons_self
    refine ⟨lsa.header.advertisingRouter, hasNetwork_iff.mpr ⟨lsa, hmem, rfl, hn⟩, ?_⟩
    intro adv' n' hn'
    obtain ⟨lsa', hmem', rfl, hof⟩ := hasNetwork_iff.mp hn'
    have hsplit := hmem'
    rw [hlist, List.mem_append, List.mem_cons] at hsplit
    rcases hsplit with hin | rfl | hin
    · rw [hfront lsa' hin] at hof
      cases hof
    · exact le_refl _
    · rw [hlist] at hsorted
      have htail := (List.pairwise_append.mp hsorted).2.1
      have hlt := (List.pairwise_cons.mp htail).1 lsa' hin
      exact (adv_lt_of_compare hmem hmem' hn hof hlt).le
  · rintro ⟨adv, hn, hleast⟩
    obtain ⟨lsa, hmem, rfl, hof⟩ := hasNetwork_iff.mp hn
    obtain ⟨front, back, hlist⟩ := List.append_of_mem hmem
    refine ⟨front, lsa, back, hlist, hof, ?_⟩
    intro x hx
    have hmemx : x ∈ s.db.iterType .network := hlist ▸ List.mem_append_left _ hx
    cases hox : networkOf dr x with
    | none => rfl
    | some m =>
      have hle := hleast _ m (hasNetwork_iff.mpr ⟨x, hmemx, rfl, hox⟩)
      rw [hlist] at hsorted
      have hlt := (List.pairwise_append.mp hsorted).2.2 x hx lsa List.mem_cons_self
      have hadv := adv_lt_of_compare hmemx hmem hox hof hlt
      omega

theorem linksToRouter_iff {w v : Ipv4Addr} :
    s.routerLinksToRouter w v = true ↔ ∃ back, Links s.db w back ∧ back.joins v = true := by
  simp only [routerLinksToRouter, Option.any_eq_true, List.any_eq_true, links_iff]
  constructor
  · rintro ⟨r, hr, back, hback, hjoins⟩
    exact ⟨back, ⟨r, hr, hback⟩, hjoins⟩
  · rintro ⟨back, ⟨r, hr, hback⟩, hjoins⟩
    exact ⟨r, hr, back, hback, hjoins⟩

theorem linksToNetwork_iff {w dr : Ipv4Addr} :
    s.routerLinksToNetwork w dr = true ↔ ∃ back, Links s.db w back ∧ back.attaches dr = true := by
  simp only [routerLinksToNetwork, Option.any_eq_true, List.any_eq_true, links_iff]
  constructor
  · rintro ⟨r, hr, back, hback, hattaches⟩
    exact ⟨back, ⟨r, hr, hback⟩, hattaches⟩
  · rintro ⟨back, ⟨r, hr, hback⟩, hattaches⟩
    exact ⟨r, hr, back, hback, hattaches⟩

/-- The network is alive if its LSA lists anybody. -/
theorem network_cond_iff {dr rid : Ipv4Addr} : (s.networkAlive dr && s.networkListsRouter dr rid) = true ↔
    ∃ n, FirstNetwork s.db dr n ∧ rid ∈ n.attachedRouters := by
  simp only [networkAlive, networkListsRouter, ← networkLsa_eq_some, Bool.and_eq_true, Option.any_eq_true,
    decide_eq_true_eq]
  constructor
  · intro h
    exact h.2
  · rintro ⟨n, hn, hmem⟩
    exact ⟨by rw [hn]; rfl, n, hn, hmem⟩

/-- The edge that one link of a router gives. -/
theorem mem_neighbors_router {rid : Ipv4Addr} {w : Vertex} {c : UInt32} :
    (w, c) ∈ s.neighbors (.router rid) ↔ Edge s.db (FirstNetwork s.db) (.router rid) w c := by
  constructor
  · intro hmem
    cases hr : s.routerLsa rid with
    | none => simp [neighbors, hr] at hmem
    | some r =>
      simp only [neighbors, hr, List.mem_filterMap] at hmem
      obtain ⟨l, hl, hout⟩ := hmem
      have hlink : Links s.db rid l := links_iff.mpr ⟨r, hr, hl⟩
      have hjoin : (l.linkType = .pointToPoint ∨ l.linkType = .virtual) →
          (if s.routerAlive l.linkId && s.routerLinksToRouter l.linkId rid then
            some (Vertex.router l.linkId, l.metric.toUInt32) else none) = some (w, c) →
          Edge s.db (FirstNetwork s.db) (.router rid) w c := by
        intro ht hout
        split_ifs at hout with hcond
        obtain ⟨rfl, rfl⟩ := Prod.mk.inj (Option.some.inj hout)
        obtain ⟨halive, hback⟩ := Bool.and_eq_true_iff.mp hcond
        obtain ⟨back, hb, hjoins⟩ := linksToRouter_iff.mp hback
        exact .between hlink (by simpa [RouterLink.joins] using ht) (routerAlive_iff.mp halive) hb hjoins
      cases ht : l.linkType with
      | pointToPoint => exact hjoin (.inl ht) (by simpa [ht] using hout)
      | virtual => exact hjoin (.inr ht) (by simpa [ht] using hout)
      | stub => simp [ht] at hout
      | transit =>
        simp only [ht] at hout
        split_ifs at hout with hcond
        obtain ⟨rfl, rfl⟩ := Prod.mk.inj (Option.some.inj hout)
        obtain ⟨n, hn, hrid⟩ := network_cond_iff.mp hcond
        exact .onto hlink (by simp [RouterLink.attaches, ht]) hn hrid
  · intro hedge
    cases hedge with
    | @between _ w l back hl hjoins halive hb hback =>
      obtain ⟨r, hr, hmem⟩ := links_iff.mp hl
      have hparts : (l.linkType = .pointToPoint ∨ l.linkType = .virtual) ∧ l.linkId = w := by
        simpa [RouterLink.joins] using hjoins
      have hcond : (s.routerAlive w && s.routerLinksToRouter w rid) = true :=
        Bool.and_eq_true_iff.mpr ⟨routerAlive_iff.mpr halive, linksToRouter_iff.mpr ⟨back, hb, hback⟩⟩
      simp only [neighbors, hr, List.mem_filterMap]
      refine ⟨l, hmem, ?_⟩
      obtain ⟨ht | ht, rfl⟩ := hparts
      · simp only [ht, hcond, if_true]
      · simp only [ht, hcond, if_true]
    | @onto _ dr l n hl hattaches hn hrid =>
      obtain ⟨r, hr, hmem⟩ := links_iff.mp hl
      have hparts : l.linkType = .transit ∧ l.linkId = dr := by
        simpa [RouterLink.attaches] using hattaches
      obtain ⟨ht, rfl⟩ := hparts
      have hcond := network_cond_iff.mpr ⟨n, hn, hrid⟩
      simp only [neighbors, hr, List.mem_filterMap]
      refine ⟨l, hmem, ?_⟩
      simp only [ht, hcond, if_true]

/-- The edges off a network. -/
theorem mem_neighbors_network {dr : Ipv4Addr} {w : Vertex} {c : UInt32} :
    (w, c) ∈ s.neighbors (.network dr) ↔ Edge s.db (FirstNetwork s.db) (.network dr) w c := by
  constructor
  · intro hmem
    cases hn : s.networkLsa dr with
    | none => simp [neighbors, hn] at hmem
    | some n =>
      simp only [neighbors, hn, List.mem_filterMap] at hmem
      obtain ⟨rid, hrid, hout⟩ := hmem
      split_ifs at hout with hcond
      obtain ⟨rfl, rfl⟩ := Prod.mk.inj (Option.some.inj hout)
      obtain ⟨halive, hback⟩ := Bool.and_eq_true_iff.mp hcond
      obtain ⟨back, hb, hattaches⟩ := linksToNetwork_iff.mp hback
      exact .off (networkLsa_eq_some.mp hn) hrid (routerAlive_iff.mp halive) hb hattaches
  · intro hedge
    cases hedge with
    | @off rid _ back n hn hrid halive hb hattaches =>
      have hcond : (s.routerAlive rid && s.routerLinksToNetwork rid dr) = true :=
        Bool.and_eq_true_iff.mpr ⟨routerAlive_iff.mpr halive, linksToNetwork_iff.mpr ⟨back, hb, hattaches⟩⟩
      simp only [neighbors, networkLsa_eq_some.mpr hn, List.mem_filterMap]
      exact ⟨rid, hrid, by rw [if_pos hcond]⟩

theorem mem_neighbors {u w : Vertex} {c : UInt32} :
    (w, c) ∈ s.neighbors u ↔ Edge s.db (FirstNetwork s.db) u w c := by
  cases u with
  | router rid => exact mem_neighbors_router
  | network dr => exact mem_neighbors_network

theorem toOption_eq_some {ε α : Type} {x : Except ε α} {a : α} : x.toOption = some a ↔ x = .ok a := by
  cases x <;> simp [Except.toOption]

theorem mem_announces {v : Vertex} {p : Core.Prefix} {m : UInt32} :
    (p, m) ∈ s.announces v ↔ Announces s.db (FirstNetwork s.db) v p m := by
  constructor
  · intro hmem
    cases v with
    | router rid =>
      cases hr : s.routerLsa rid with
      | none => simp [announces, hr] at hmem
      | some r =>
        simp only [announces, hr, List.mem_filterMap] at hmem
        obtain ⟨l, hl, hout⟩ := hmem
        split_ifs at hout with ht
        obtain ⟨q, hq, heq⟩ := Option.map_eq_some_iff.mp hout
        obtain ⟨rfl, rfl⟩ := Prod.mk.inj heq
        exact .stub (links_iff.mpr ⟨r, hr, hl⟩) ht (toOption_eq_some.mp hq)
    | network dr =>
      cases hn : s.networkLsa dr with
      | none => simp [announces, hn] at hmem
      | some n =>
        simp only [announces, hn, Option.mem_toList, Option.map_eq_some_iff] at hmem
        obtain ⟨q, hq, heq⟩ := hmem
        obtain ⟨rfl, rfl⟩ := Prod.mk.inj heq
        exact .transit (networkLsa_eq_some.mp hn) (toOption_eq_some.mp hq)
  · intro h
    cases h with
    | @stub rid l p hl ht hp =>
      obtain ⟨r, hr, hmem⟩ := links_iff.mp hl
      simp only [announces, hr, List.mem_filterMap]
      refine ⟨l, hmem, ?_⟩
      rw [if_pos ht, toOption_eq_some.mpr hp]
      rfl
    | @transit dr n p hn hp =>
      simp only [announces, networkLsa_eq_some.mpr hn, toOption_eq_some.mpr hp]
      exact List.mem_singleton_self _

theorem models (s : Spf) : s.topology.Models (Edge s.db (FirstNetwork s.db)) (Announces s.db (FirstNetwork s.db)) where
  edge _ _ _ := mem_neighbors
  announced _ _ _ := mem_announces

end Spf

section Size
variable {db : Lsdb} {net : Ipv4Addr → NetworkLsa → Prop} (hnet : ∀ dr n, net dr n → AnyNetwork db dr n)
include hnet

/-- Every vertex but the root stands for an LSA. -/
theorem exists_finset (root : Ipv4Addr) :
    ∃ U : Finset Vertex, (∀ v d, Walk (Edge db net) (.router root) v d → v ∈ U) ∧ U.card ≤ db.len + 1 := by
  let vertexOf : LsaKey → Vertex := fun k => if k.1 = .router then .router k.2.1 else .network k.2.1
  refine ⟨insert (.router root) (db.entries.keys.toFinset.image vertexOf), ?_, ?_⟩
  · intro v d hwalk
    rw [Finset.mem_insert, Finset.mem_image]
    have hkey : ∀ {k : LsaKey} {lsa : Lsa}, db.get k = some lsa → k ∈ db.entries.keys.toFinset := by
      intro k lsa hget
      rw [List.mem_toFinset, ExtTreeMap.mem_keys, ← ExtTreeMap.isSome_getElem?_iff_mem]
      exact Option.isSome_iff_exists.mpr ⟨lsa, hget⟩
    cases hwalk with
    | root => exact .inl rfl
    | step _ hedge =>
      cases hedge with
      | @between _ w _ _ _ _ halive _ _ =>
        obtain ⟨lsa, hget, -⟩ := halive
        exact .inr ⟨_, hkey hget, rfl⟩
      | @onto _ dr _ n _ _ hn _ =>
        obtain ⟨adv, lsa, hget, -⟩ := hnet dr n hn
        exact .inr ⟨_, hkey hget, rfl⟩
      | @off w _ _ _ _ _ halive _ _ =>
        obtain ⟨lsa, hget, -⟩ := halive
        exact .inr ⟨_, hkey hget, rfl⟩
  · have hcard := Finset.card_insert_le (Vertex.router root) (db.entries.keys.toFinset.image vertexOf)
    have himage := Finset.card_image_le (s := db.entries.keys.toFinset) (f := vertexOf)
    have hkeys : db.entries.keys.toFinset.card = db.len := by
      rw [List.toFinset_card_of_nodup ExtTreeMap.nodup_keys, ExtTreeMap.length_keys]
      rfl
    omega

/-- Metrics have 16 bits, so the costs in a database of up to 65536 LSAs fit. -/
theorem fits_of_len {root : Ipv4Addr} (h : db.len ≤ 65536) : Fits (Edge db net) (.router root) (Announces db net) := by
  obtain ⟨U, hU, hcard⟩ := exists_finset hnet root
  have hmetric : ∀ m : UInt16, m.toUInt32.toNat ≤ 65535 := by
    intro m
    have hlt := m.toNat_lt
    rw [UInt16.toNat_toUInt32]
    omega
  refine Fits.of_card ?_ ?_ hU (by omega)
  · intro u w c hedge
    cases hedge with
    | @between u w l back _ _ _ _ _ => exact hmetric l.metric
    | @onto u dr l n _ _ _ _ => exact hmetric l.metric
    | off _ _ _ _ _ => exact Nat.zero_le _
  · intro v p m ha
    cases ha with
    | @stub rid l p _ _ _ => exact hmetric l.metric
    | transit _ _ => exact Nat.zero_le _

end Size

theorem any_of_first {db : Lsdb} (dr : Ipv4Addr) (n : NetworkLsa) (h : FirstNetwork db dr n) : AnyNetwork db dr n := by
  obtain ⟨adv, hadv, -⟩ := h
  exact ⟨adv, hadv⟩

/-- What is found: the routers that can be reached, each at the cost of a shortest path, and each prefix once, at the
least cost at which a vertex that can be reached has it. -/
def ShortestPaths (db : Lsdb) (net : Ipv4Addr → NetworkLsa → Prop) (root : Ipv4Addr) (r : SpfResult) : Prop :=
  (∀ (rid : Ipv4Addr) (c : UInt32), r.routers[rid]? = some c ↔
    LeastCost (Edge db net) (.router root) (.router rid) c.toNat) ∧
  (∀ (p : Core.Prefix) (c : UInt32), (∃ x ∈ r.routes, x.pfx = p ∧ x.cost = c) ↔
    IsLeast (Set.ofPred (Available (Edge db net) (.router root) (Announces db net) p)) c.toNat) ∧
  (r.routes.map SpfRoute.pfx).Nodup

/-- The costs of simple paths, and of the prefixes at their ends, fit into 32 bits. -/
abbrev Fits32 (db : Lsdb) (net : Ipv4Addr → NetworkLsa → Prop) (root : Ipv4Addr) : Prop :=
  Fits (Edge db net) (.router root) (Announces db net)

theorem exists_tree {db : Lsdb} {root : Ipv4Addr} (hfits : Fits32 db (FirstNetwork db) root) :
    ∃ tree, (∀ fuel, db.len + 1 ≤ fuel → (Spf.mk db root).topology.search.run fuel = some tree) ∧
      compute db root = (Spf.mk db root).harvest tree := by
  obtain ⟨U, hU, hcard⟩ := exists_finset any_of_first root
  obtain ⟨tree, htree⟩ := (Spf.mk db root).models.exists_tree hfits hU hcard
  refine ⟨tree, htree, ?_⟩
  rw [compute, Spf.run, htree _ (le_refl _)]
  rfl

/-- The calculation ends, with the shortest paths of the graph in which the first Network-LSA of a network counts. -/
theorem compute_leastCosts (db : Lsdb) (root : Ipv4Addr) (hfits : Fits32 db (FirstNetwork db) root) :
    (∃ tree, (∀ fuel, db.len + 1 ≤ fuel → (Spf.mk db root).topology.search.run fuel = some tree) ∧
      compute db root = (Spf.mk db root).harvest tree) ∧
    ShortestPaths db (FirstNetwork db) root (compute db root) := by
  obtain ⟨tree, htree, hcompute⟩ := exists_tree hfits
  have hrun := htree _ (le_refl _)
  have hm := (Spf.mk db root).models
  have hroot : (Spf.mk db root).topology.root = Vertex.router root := rfl
  refine ⟨⟨tree, htree, hcompute⟩, ?_, ?_, ?_⟩
  · intro rid c
    rw [hcompute, ← hroot, hm.leastCost_iff hfits hrun]
    have hlookup := getElem?_collect tree (Info.dist (G := Ipv4Addr)) Vertex.routerId_eq_some rid
    show (collect tree Vertex.routerId Info.dist)[rid]? = some c ↔ _
    rw [hlookup, Option.map_eq_some_iff]
    simp only [UInt32.toNat_inj]
  · intro p c
    rw [hcompute, ← hroot, hm.available_iff hfits hrun]
    simp only [Spf.harvest, List.mem_map, Prod.exists, ExtTreeMap.mem_toList_iff_getElem?_eq_some]
    constructor
    · rintro ⟨r, ⟨q, i, hi, rfl⟩, rfl, rfl⟩
      exact ⟨i, hi, rfl⟩
    · rintro ⟨i, hi, hc⟩
      exact ⟨_, ⟨p, i, hi, rfl⟩, rfl, UInt32.toNat_inj.mp hc⟩
  · rw [hcompute, Spf.harvest, List.map_map]
    exact nodup_keys_toList ((Spf.mk db root).topology.routes tree)

/-! Two routers on a network with two Network-LSAs, of which the first leaves one of them out. -/

def routerOn (rid dr : Ipv4Addr) (metric : UInt16) : Lsa :=
  ⟨⟨1, 0, .router, rid, rid, 1, 0, 0⟩, .router ⟨0, [⟨dr, rid, .transit, metric⟩]⟩⟩

def networkOn (dr adv : Ipv4Addr) (attached : List Ipv4Addr) : Lsa :=
  ⟨⟨1, 0, .network, dr, adv, 1, 0, 0⟩, .network ⟨0xffffff00, attached⟩⟩

def disputedDb : Lsdb :=
  (((Lsdb.new.put (routerOn 1 9 1)).put (routerOn 2 9 1)).put (networkOn 9 2 [2])).put (networkOn 9 3 [1, 2])

/-- One Network-LSA on which both routers agree. -/
def agreedDb : Lsdb := ((Lsdb.new.put (routerOn 1 9 1)).put (routerOn 2 9 1)).put (networkOn 9 2 [1, 2])

/-- The second router is one away, and so the calculation has it. -/
theorem compute_leastCosts_agreed :
    (compute agreedDb 1).routers[(2 : Ipv4Addr)]? = some 1 ∧
      LeastCost (Edge agreedDb (FirstNetwork agreedDb)) (.router 1) (.router 2) 1 := by
  have hrouter : (compute agreedDb 1).routers[(2 : Ipv4Addr)]? = some 1 := by decide +kernel
  have hlen : agreedDb.len ≤ 65536 := by decide +kernel
  exact ⟨hrouter, ((compute_leastCosts agreedDb 1 (fits_of_len any_of_first hlen)).2.1 2 1).mp hrouter⟩

/-- Where any Network-LSA counts, the second router is one away, but the calculation does not reach it. -/
theorem not_shortestPaths_disputed :
    Fits32 disputedDb (AnyNetwork disputedDb) 1 ∧
      ¬ ShortestPaths disputedDb (AnyNetwork disputedDb) 1 (compute disputedDb 1) := by
  have hlen : disputedDb.len ≤ 65536 := by decide +kernel
  refine ⟨fits_of_len (fun _ _ h => h) hlen, ?_⟩
  intro h
  have hlinks : ∀ rid : Ipv4Addr, disputedDb.get (.router, rid, rid) = some (routerOn rid 9 1).filled →
      Links disputedDb rid ⟨9, rid, .transit, 1⟩ := by
    intro rid hget
    have hbody : (routerOn rid 9 1).filled.body = (routerOn rid 9 1).body := by
      unfold Lsa.filled
      split_ifs <;> rfl
    exact ⟨_, ⟨0, [⟨9, rid, .transit, 1⟩]⟩, hget, hbody, List.mem_singleton_self _⟩
  have hnet : AnyNetwork disputedDb 9 ⟨0xffffff00, [1, 2]⟩ :=
    ⟨3, (networkOn 9 3 [1, 2]).filled, by decide +kernel, by decide +kernel, by decide +kernel⟩
  have hone : Walk (Edge disputedDb (AnyNetwork disputedDb)) (.router 1) (.network 9) (0 + (1 : UInt16).toUInt32.toNat) :=
    .step .root (.onto (hlinks 1 (by decide +kernel)) (by decide) hnet (by decide))
  have htwo : Walk (Edge disputedDb (AnyNetwork disputedDb)) (.router 1) (.router 2) 1 :=
    .step hone (.off hnet (by decide) ⟨(routerOn 2 9 1).filled, by decide +kernel, by decide +kernel⟩
      (hlinks 2 (by decide +kernel)) (by decide))
  obtain ⟨c, hc, hleast⟩ := htwo.exists_leastCost
  have hnone : (compute disputedDb 1).routers[(2 : Ipv4Addr)]? = none := by decide +kernel
  have hsize : UInt32.size = 4294967296 := rfl
  have hnat : (UInt32.ofNat c).toNat = c := UInt32.toNat_ofNat_of_lt' (by omega)
  have hsome := (h.1 2 (UInt32.ofNat c)).mpr (hnat.symm ▸ hleast)
  rw [hnone] at hsome
  cases hsome

end Wren.Ospf
