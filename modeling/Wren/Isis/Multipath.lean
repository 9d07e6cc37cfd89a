import Wren.Isis.ShortestPaths
import Wren.Lib.RouteTree

/-! Whether the next hops of IS-IS are the first hops of all shortest paths. At one distance the nodes are settled in
the order of their IDs, so a router may be settled before a LAN that leads to it at no cost. -/

namespace Wren.Isis
open OrdMap
open Dijkstra (Search)

section Statement
variable (db : Lsdb) (root : NodeId)

abbrev Link : NodeId → NodeId → UInt32 → Prop := Edge db (· ≠ maxLinkMetric) root

abbrev Shortest : NodeId → ℕ → Prop := ShortestPath db (· ≠ maxLinkMetric) root

/-- A path over these nodes, the last one first. -/
inductive PathOver : NodeId → List NodeId → ℕ → Prop
  | root : PathOver root [root] 0
  | step {u w : NodeId} {p : List NodeId} {d : ℕ} {m : UInt32} : PathOver u p d → Link db root u w m →
    PathOver w (w :: p) (min (d + m.toNat) 4294967295)

def ShortestPathOver (v : NodeId) (p : List NodeId) : Prop := ∃ d, Shortest db root v d ∧ PathOver db root v p d

/-- The first router behind the root, which comes last. -/
def firstRouter (p : List NodeId) : Option NodeId := p.dropLast.reverse.find? fun n => n.pseudonode = 0

def HasAddress (u : NodeId) (a : Ipv4Addr) : Prop :=
  ∃ l, Live db u l ∧ ∃ addrs, Tlv.ipv4InterfaceAddresses addrs ∈ l.tlvs ∧ a ∈ addrs

/-- An address of the first router on one of the shortest paths. -/
def FirstHop (v : NodeId) (a : Ipv4Addr) : Prop :=
  ∃ p r, ShortestPathOver db root v p ∧ firstRouter p = some r ∧ HasAddress db r a

/-- The last edge of a shortest path, from one distance to another. -/
def Tight (u w : NodeId) (d e : ℕ) : Prop :=
  Shortest db root u d ∧ Shortest db root w e ∧ ∃ m, Link db root u w m ∧ e = min (d + m.toNat) 4294967295

def Steep (u w : NodeId) : Prop := ∃ d e, Tight db root u w d e ∧ d < e

def Level (u w : NodeId) : Prop := ∃ d, Tight db root u w d d

/-- The near end is settled first: it is nearer to the root, or it waits from the start and either has the lower ID or
is the first that leads to the far end. -/
def Kept (u w : NodeId) : Prop :=
  Steep db root u w ∨ Level db root u w ∧ (∃ x, Steep db root x u) ∧
    (u < w ∨ ∀ x, ¬ Steep db root x w ∧ (Level db root x w → u ≤ x))

/-- The first hops of the near end, or where it has none the addresses of the far end. -/
def Contributes (u w : NodeId) (a : Ipv4Addr) : Prop :=
  FirstHop db root u a ∨ (∀ b, ¬ FirstHop db root u b) ∧ w.pseudonode = 0 ∧ HasAddress db w a

/-- No first hop comes too late. -/
def KeepsAll : Prop :=
  ∀ v a, v ≠ root → FirstHop db root v a → ∃ u, Kept db root u v ∧ Contributes db root u v a

/-- Links of routers cost something, and routers have addresses. -/
structure Regular : Prop where
  metric : ∀ u w m, Advertises db u w m → u.pseudonode = 0 → 1 ≤ m.toNat
  addressed : ∀ u l, Live db u l → u.pseudonode = 0 → ∃ a, HasAddress db u a

/-- And no LAN of the root is also reached through another router. -/
structure Ordinary : Prop extends Regular db where
  attached : ∀ u d e, Tight db root root u d e → u.pseudonode ≠ 0 → ∀ p, ShortestPathOver db root u p → firstRouter p = none

/-- LANs lead to routers only, and costs do not reach the bound of 32 bits. -/
structure Flat : Prop where
  routers : ∀ u w m, Advertises db u w m → u.pseudonode ≠ 0 → w.pseudonode = 0
  bounded : ∀ v d, Shortest db root v d → d < 4294967295

end Statement

/-- The next hops of every router that can be reached are the first hops of its shortest paths. -/
def EcmpComplete (db : Lsdb) (root : SystemId) (level : IsLevel) : Prop :=
  ∀ v d, Shortest db ⟨root, 0⟩ v d → v.pseudonode = 0 → v ≠ ⟨root, 0⟩ →
    ∃ addrs, (compute db root level).nodeV4Nexthops[v]? = some addrs ∧ ∀ a, a ∈ addrs ↔ FirstHop db ⟨root, 0⟩ v a

variable {db : Lsdb} {root : NodeId}

theorem firstRouter_cons {p : List NodeId} (hp : p ≠ []) (w : NodeId) :
    firstRouter (w :: p) = (firstRouter p).or (if w.pseudonode = 0 then some w else none) := by
  have hdrop : (w :: p).dropLast = w :: p.dropLast := List.dropLast_cons_of_ne_nil hp
  rw [firstRouter, hdrop, List.reverse_cons, List.find?_append, firstRouter, List.find?_singleton]
  simp only [decide_eq_true_eq]

theorem PathOver.ne_nil {v : NodeId} {p : List NodeId} {d : ℕ} (h : PathOver db root v p d) : p ≠ [] := by
  cases h with
  | root => exact List.cons_ne_nil _ _
  | step _ _ => exact List.cons_ne_nil _ _

theorem PathOver.path {v : NodeId} {p : List NodeId} {d : ℕ} (h : PathOver db root v p d) :
    Path db (· ≠ maxLinkMetric) root v d := by
  induction h with
  | root => exact .root
  | step _ hedge ih => exact .step ih hedge

theorem ShortestPathOver.cons {u w : NodeId} {p : List NodeId} {d e : ℕ} (hp : ShortestPathOver db root u p)
    (h : Tight db root u w d e) : ShortestPathOver db root w (w :: p) := by
  obtain ⟨hu, hw, m, hedge, rfl⟩ := h
  obtain ⟨d', hu', hover⟩ := hp
  obtain rfl := hu.unique hu'
  exact ⟨_, hw, hover.step hedge⟩

theorem ShortestPathOver.ne_nil {v : NodeId} {p : List NodeId} (h : ShortestPathOver db root v p) : p ≠ [] := by
  obtain ⟨d, -, hover⟩ := h
  exact hover.ne_nil

/-- First hops are passed down. -/
theorem FirstHop.of_tight {u w : NodeId} {d e : ℕ} {a : Ipv4Addr} (hu : FirstHop db root u a)
    (h : Tight db root u w d e) : FirstHop db root w a := by
  obtain ⟨p, r, hp, hr, ha⟩ := hu
  refine ⟨w :: p, r, hp.cons h, ?_, ha⟩
  rw [firstRouter_cons hp.ne_nil, hr, Option.some_or]

/-- A router behind nothing but LANs is a first hop itself. -/
theorem firstHop_of_none {u w : NodeId} {p : List NodeId} {d e : ℕ} {a : Ipv4Addr} (hp : ShortestPathOver db root u p)
    (hnone : firstRouter p = none) (h : Tight db root u w d e) (hw : w.pseudonode = 0) (ha : HasAddress db w a) :
    FirstHop db root w a := by
  refine ⟨w :: p, w, hp.cons h, ?_, ha⟩
  rw [firstRouter_cons hp.ne_nil, hnone, Option.none_or, if_pos hw]

theorem Tight.steep_or_level {u w : NodeId} {d e : ℕ} (h : Tight db root u w d e) :
    Steep db root u w ∨ Level db root u w := by
  obtain ⟨hu, hw, m, hedge, he⟩ := id h
  have hle : d ≤ 4294967295 := by
    cases hu.1 with
    | root => exact Nat.zero_le _
    | step _ _ => exact Nat.min_le_right _ _
  rcases Nat.lt_or_ge d e with hlt | hge
  · exact .inl ⟨d, e, h, hlt⟩
  · obtain rfl : e = d := by omega
    exact .inr ⟨e, h⟩

/-- An edge at one distance leads off a LAN. -/
theorem Tight.lan_of_level {u w : NodeId} {d : ℕ} (h : Tight db root u w d d)
    (hreg : Regular db) (hflat : Flat db root) : u.pseudonode ≠ 0 := by
  intro hpseudo
  obtain ⟨hu, -, m, hedge, hd⟩ := h
  have hm := hreg.metric u w m hedge.1 hpseudo
  have hlt := hflat.bounded u d hu
  omega

/-- What comes before the last edge of a shortest path is one itself. -/
theorem Flat.shortest_of_step (hflat : Flat db root) {u w : NodeId} {d : ℕ} {m : UInt32}
    (h : Shortest db root w (min (d + m.toNat) 4294967295)) (hu : Path db (· ≠ maxLinkMetric) root u d)
    (hedge : Link db root u w m) : Shortest db root u d := by
  have hlt := hflat.bounded w _ h
  refine ⟨hu, ?_⟩
  intro e he
  have hle : min (d + m.toNat) 4294967295 ≤ min (e + m.toNat) 4294967295 := h.2 (Path.step he hedge)
  omega

/-- No shortest path comes back to the root. -/
theorem Regular.not_firstHop_root (h : Regular db) (hroot : root.pseudonode = 0) (a : Ipv4Addr) :
    ¬ FirstHop db root root a := by
  rintro ⟨p, r, ⟨d, hd, hover⟩, hr, -⟩
  have hzero : d = 0 := Nat.le_zero.mp (hd.2 Path.root)
  have hpos : ∀ {v : NodeId} {p : List NodeId} {d : ℕ}, PathOver db root v p d → p = [root] ∨ 1 ≤ d := by
    intro v p d hover
    induction hover with
    | root => exact .inl rfl
    | @step u w p d m hover hedge ih =>
      rcases ih with rfl | hpos
      · cases hover with
        | root =>
          have hm := h.metric _ _ _ hedge.1 hroot
          exact .inr (by omega)
        | step hover _ => exact absurd rfl hover.ne_nil
      · exact .inr (by omega)
  rcases hpos hover with rfl | hpos
  · cases hr
  · omega

theorem Spf.mem_ifaceV4 {s : Spf} {u : NodeId} {a : Ipv4Addr} : a ∈ s.ifaceV4 u ↔ HasAddress s.db u a := by
  unfold ifaceV4 HasAddress
  simp only [List.mem_flatMap, mem_fragments]
  refine exists_congr fun l => and_congr_right fun _ => ?_
  constructor
  · rintro ⟨t, ht, hmem⟩
    cases t with
    | ipv4InterfaceAddresses addrs => exact ⟨addrs, ht, hmem⟩
    | _ => simp at hmem
  · rintro ⟨addrs, ht, hmem⟩
    exact ⟨_, ht, hmem⟩

namespace Spf
variable {s : Spf} {tree : BTreeMap NodeId VertexInfo} {fuel : ℕ} (htree : s.search.run fuel = some tree)
include htree

theorem tight_iff {u w : NodeId} {i j : VertexInfo} (hu : tree[u]? = some i) (hw : tree[w]? = some j) :
    Tight s.db s.root u w i.dist.toNat j.dist.toNat ↔
      ∃ m, (w, m) ∈ s.neighbors u ∧ j.dist.toNat = min (i.dist.toNat + m.toNat) 4294967295 := by
  have hleast := shortestPath_iff htree
  constructor
  · rintro ⟨-, -, m, hedge, hd⟩
    exact ⟨m, mem_neighbors.mpr hedge, hd⟩
  · rintro ⟨m, hmem, hd⟩
    exact ⟨(hleast u _).mpr ⟨i, hu, rfl⟩, (hleast w _).mpr ⟨j, hw, rfl⟩, m, mem_neighbors.mp hmem, hd⟩

theorem exists_of_tight {u w : NodeId} {d e : ℕ} (h : Tight s.db s.root u w d e) :
    ∃ i j, tree[u]? = some i ∧ tree[w]? = some j ∧ i.dist.toNat = d ∧ j.dist.toNat = e := by
  obtain ⟨i, hi, hd⟩ := (shortestPath_iff htree u d).mp h.1
  obtain ⟨j, hj, he⟩ := (shortestPath_iff htree w e).mp h.2.1
  exact ⟨i, j, hi, hj, hd, he⟩

variable {idx : NodeId → ℕ} (hord : s.search.SettleOrder idx tree)
include hord

/-- What a node has comes from those settled before it. -/
theorem hop_iff_before {P : List Ipv4Addr × List Ipv6Addr → Prop}
    (hmerge : ∀ e i : VertexInfo, P (mergeInto e.v4 i.v4, mergeInto e.v6 i.v6) ↔ P (e.v4, e.v6) ∨ P (i.v4, i.v6))
    {w : NodeId} {j : VertexInfo} (hw : tree[w]? = some j) (hroot : w ≠ s.root) : P (j.v4, j.v6) ↔
      ∃ u i, tree[u]? = some i ∧ idx u < idx w ∧ Tight s.db s.root u w i.dist.toNat j.dist.toNat ∧
        P (s.initialNexthops i w) := by
  rw [(hord.best (fun i => P (i.v4, i.v6)) hmerge w j hw hroot).hop_iff]
  constructor
  · rintro ⟨k, ⟨u, i, m, hu, hlt, hmem, hd, rfl⟩, hk⟩
    exact ⟨u, i, hu, hlt, (tight_iff htree hu hw).mpr ⟨m, hmem, hd⟩, hk⟩
  · rintro ⟨u, i, hu, hlt, htight, hk⟩
    obtain ⟨m, hmem, hd⟩ := (tight_iff htree hu hw).mp htight
    exact ⟨_, ⟨u, i, m, hu, hlt, hmem, hd, rfl⟩, hk⟩

theorem mem_v4_iff_before {w : NodeId} {j : VertexInfo} (hw : tree[w]? = some j) (hroot : w ≠ s.root) (a : Ipv4Addr) :
    a ∈ j.v4 ↔ ∃ u i, tree[u]? = some i ∧ idx u < idx w ∧ Tight s.db s.root u w i.dist.toNat j.dist.toNat ∧
      a ∈ (s.initialNexthops i w).1 :=
  hop_iff_before htree hord (P := fun n => a ∈ n.1) (fun e i => RouteTree.mem_mergeGateways e.v4 i.v4 a) hw hroot

theorem mem_v6_iff_before {w : NodeId} {j : VertexInfo} (hw : tree[w]? = some j) (hroot : w ≠ s.root) (a : Ipv6Addr) :
    a ∈ j.v6 ↔ ∃ u i, tree[u]? = some i ∧ idx u < idx w ∧ Tight s.db s.root u w i.dist.toNat j.dist.toNat ∧
      a ∈ (s.initialNexthops i w).2 :=
  hop_iff_before htree hord (P := fun n => a ∈ n.2) (fun e i => RouteTree.mem_mergeGateways e.v6 i.v6 a) hw hroot

variable (hreg : Regular s.db)
include hreg

omit htree hord in
/-- A router at the end of an edge has addresses. -/
theorem exists_address {u w : NodeId} {d e : ℕ} (h : Tight s.db s.root u w d e) (hw : w.pseudonode = 0) :
    ∃ a, HasAddress s.db w a := by
  obtain ⟨-, -, m, ⟨-, -, ⟨m', l, hl, -⟩, -⟩, -⟩ := h
  exact hreg.addressed w l hl hw

/-- Where there are next hops of the other family, there are some of this one. -/
theorem v6_eq_nil {w : NodeId} {j : VertexInfo} (hw : tree[w]? = some j) (hnil : j.v4 = []) : j.v6 = [] := by
  generalize hn : idx w = n
  induction n using Nat.strong_induction_on generalizing w j with
  | h n ih =>
    by_cases hroot : w = s.root
    · subst hroot
      have hstart : tree[s.root]? = some ⟨0, [], []⟩ := Search.getElem?_root_of_run htree
      rw [hstart] at hw
      obtain rfl := Option.some.inj hw
      rfl
    · rw [List.eq_nil_iff_forall_not_mem]
      intro b hb
      obtain ⟨u, i, hu, hlt, htight, hin⟩ := (mem_v6_iff_before htree hord hw hroot b).mp hb
      have hnone : (s.initialNexthops i w).1 = [] := by
        rw [List.eq_nil_iff_forall_not_mem]
        intro a ha
        have hmem := (mem_v4_iff_before htree hord hw hroot a).mpr ⟨u, i, hu, hlt, htight, ha⟩
        rw [hnil] at hmem
        cases hmem
      unfold initialNexthops at hnone hin
      split_ifs at hnone hin with hhops hpseudo
      · have hnext := ih (idx u) (hn ▸ hlt) hu hnone rfl
        exact hhops.elim (fun h => h hnone) fun h => h hnext
      · cases hin
      · have hiface : s.ifaceV4 w = [] := hnone
        obtain ⟨a, ha⟩ := exists_address hreg htight (not_not.mp hpseudo)
        have hmem := mem_ifaceV4.mpr ha
        rw [hiface] at hmem
        cases hmem

/-- A node hands its next hops on, and where it has none the addresses of a router are taken. -/
theorem mem_v4_iff {w : NodeId} {j : VertexInfo} (hw : tree[w]? = some j) (hroot : w ≠ s.root) (a : Ipv4Addr) :
    a ∈ j.v4 ↔ ∃ u i, tree[u]? = some i ∧ idx u < idx w ∧ Tight s.db s.root u w i.dist.toNat j.dist.toNat ∧
      (a ∈ i.v4 ∨ i.v4 = [] ∧ w.pseudonode = 0 ∧ HasAddress s.db w a) := by
  rw [mem_v4_iff_before htree hord hw hroot]
  refine exists_congr fun u => exists_congr fun i => and_congr_right fun hu => and_congr_right fun hlt =>
    and_congr_right fun _ => ?_
  unfold initialNexthops
  by_cases hnil : i.v4 = []
  · have hv6 := v6_eq_nil htree hord hreg hu hnil
    by_cases hpseudo : w.pseudonode = 0
    · simp [hnil, hv6, hpseudo, mem_ifaceV4]
    · simp [hnil, hv6, hpseudo]
  · simp [hnil]

/-- Next hops are first hops, and a node without any is behind nothing but LANs. -/
theorem firstHop_of_mem {v : NodeId} {j : VertexInfo} (hv : tree[v]? = some j) :
    (∀ a ∈ j.v4, FirstHop s.db s.root v a) ∧
      (j.v4 = [] → ∃ p, ShortestPathOver s.db s.root v p ∧ firstRouter p = none) := by
  generalize hn : idx v = n
  induction n using Nat.strong_induction_on generalizing v j with
  | h n ih =>
    by_cases hroot : v = s.root
    · subst hroot
      have hstart : tree[s.root]? = some ⟨0, [], []⟩ := Search.getElem?_root_of_run htree
      rw [hstart] at hv
      obtain rfl := Option.some.inj hv
      constructor
      · intro a ha
        cases ha
      · intro _
        exact ⟨[s.root], ⟨0, ⟨.root, fun d _ => Nat.zero_le d⟩, .root⟩, rfl⟩
    · have hmem := mem_v4_iff htree hord hreg hv hroot
      constructor
      · intro a ha
        obtain ⟨u, i, hu, hlt, htight, hin | ⟨hnil, hpseudo, ha⟩⟩ := (hmem a).mp ha
        · exact ((ih (idx u) (hn ▸ hlt) hu rfl).1 a hin).of_tight htight
        · obtain ⟨p, hp, hnone⟩ := (ih (idx u) (hn ▸ hlt) hu rfl).2 hnil
          exact firstHop_of_none hp hnone htight hpseudo ha
      · intro hnil
        obtain ⟨u, i, m, hu, hlt, hedge, hd⟩ := hord.exists_before hv hroot
        have htight := (tight_iff htree hu hv).mpr ⟨m, hedge, hd⟩
        have hno : ∀ a, ¬ (a ∈ i.v4 ∨ i.v4 = [] ∧ v.pseudonode = 0 ∧ HasAddress s.db v a) := by
          intro a ha
          have hin := (hmem a).mpr ⟨u, i, hu, hlt, htight, ha⟩
          rw [hnil] at hin
          cases hin
        have hi : i.v4 = [] := List.eq_nil_iff_forall_not_mem.mpr fun a ha => hno a (.inl ha)
        have hlan : v.pseudonode ≠ 0 := by
          intro hpseudo
          obtain ⟨a, ha⟩ := exists_address hreg htight hpseudo
          exact hno a (.inr ⟨hi, hpseudo, ha⟩)
        obtain ⟨p, hp, hnone⟩ := (ih (idx u) (hn ▸ hlt) hu rfl).2 hi
        refine ⟨v :: p, hp.cons htight, ?_⟩
        rw [firstRouter_cons hp.ne_nil, hnone, Option.none_or, if_neg hlan]

omit hreg in
theorem lt_of_steep {u w : NodeId} (h : Steep s.db s.root u w) : idx u < idx w := by
  obtain ⟨d, e, htight, hlt⟩ := h
  obtain ⟨i, j, hi, hj, rfl, rfl⟩ := exists_of_tight htree htight
  exact hord.lt_of_dist_lt hi hj hlt

omit hreg in
/-- A node that waits from the start is settled before those of the same distance with a higher ID. -/
theorem lt_of_ready {x u w : NodeId} {i j : VertexInfo} (h : Steep s.db s.root x u) (hu : tree[u]? = some i)
    (hw : tree[w]? = some j) (hd : i.dist.toNat = j.dist.toNat) (huw : u < w) : idx u < idx w := by
  obtain ⟨d, e, htight, hlt⟩ := h
  obtain ⟨k, i', hx, hu', rfl, rfl⟩ := exists_of_tight htree htight
  rw [hu] at hu'
  obtain rfl := Option.some.inj hu'
  obtain ⟨m, hmem, hsum⟩ := (tight_iff htree hx hu).mp htight
  refine hord.lt_of_offered hx hw (hord.lt_of_dist_lt hx hw (hlt.trans_eq hd)) hmem ?_
  change toLex (min (k.dist.toNat + m.toNat) 4294967295, u) < toLex (j.dist.toNat, w)
  rw [← hsum, hd, Prod.Lex.toLex_lt_toLex]
  exact .inr ⟨rfl, huw⟩

omit hreg in
theorem lt_of_kept {u w : NodeId} (hne : w ≠ s.root) (h : Kept s.db s.root u w) : idx u < idx w := by
  rcases h with hsteep | ⟨⟨d, htight⟩, ⟨x, hx⟩, hcase⟩
  · exact lt_of_steep htree hord hsteep
  · obtain ⟨i, j, hi, hj, hdi, hdj⟩ := exists_of_tight htree htight
    rcases hcase with huw | hfirst
    · exact lt_of_ready htree hord hx hi hj (hdi.trans hdj.symm) huw
    · obtain ⟨y, k, m, hy, hlt, hmem, hd⟩ := hord.exists_before hj hne
      have hyw := (tight_iff htree hy hj).mpr ⟨m, hmem, hd⟩
      rcases hyw.steep_or_level with hsteep | hlevel
      · exact absurd hsteep (hfirst y).1
      · rcases ((hfirst y).2 hlevel).lt_or_eq with huy | rfl
        · obtain ⟨d', hlevel⟩ := hlevel
          have hk := hlevel.1.unique hyw.1
          have hj' := hlevel.2.1.unique hyw.2.1
          refine (lt_of_ready htree hord hx hi hy ?_ huy).trans hlt
          omega
        · exact hlt

/-- Where no first hop comes too late, the next hops are all first hops. -/
theorem mem_of_firstHop (hroot : ∀ a, ¬ FirstHop s.db s.root s.root a) (hkeep : KeepsAll s.db s.root) {v : NodeId}
    {j : VertexInfo} (hv : tree[v]? = some j) {a : Ipv4Addr} (h : FirstHop s.db s.root v a) : a ∈ j.v4 := by
  generalize hn : idx v = n
  induction n using Nat.strong_induction_on generalizing v j a with
  | h n ih =>
    have hne : v ≠ s.root := by
      rintro rfl
      exact hroot a h
    obtain ⟨u, hkept, hcontrib⟩ := hkeep v a hne h
    have hlt := lt_of_kept htree hord hne hkept
    obtain ⟨d, e, htight⟩ : ∃ d e, Tight s.db s.root u v d e := by
      rcases hkept with ⟨d, e, htight, -⟩ | ⟨⟨d, htight⟩, -⟩
      · exact ⟨d, e, htight⟩
      · exact ⟨d, d, htight⟩
    obtain ⟨i, j', hi, hj, rfl, rfl⟩ := exists_of_tight htree htight
    rw [hv] at hj
    obtain rfl := Option.some.inj hj
    refine (mem_v4_iff htree hord hreg hv hne a).mpr ⟨u, i, hi, hlt, htight, ?_⟩
    rcases hcontrib with hu | ⟨hnone, hpseudo, ha⟩
    · exact .inl (ih (idx u) (hn ▸ hlt) hi hu rfl)
    · refine .inr ⟨List.eq_nil_iff_forall_not_mem.mpr fun b hb => ?_, hpseudo, ha⟩
      exact hnone b ((firstHop_of_mem htree hord hreg hi).1 b hb)

omit hreg in
/-- A node that was settled behind one with a higher ID was not on offer until then. -/
theorem le_of_tight {u w x : NodeId} {i j : VertexInfo} {d e : ℕ} (hu : tree[u]? = some i) (hw : tree[w]? = some j)
    (hd : i.dist.toNat = j.dist.toNat) (hwu : w < u) (hlt : idx u < idx w) (h : Tight s.db s.root x w d e) :
    idx u ≤ idx x := by
  by_contra hxu
  obtain ⟨k, j', hx, hj', rfl, rfl⟩ := exists_of_tight htree h
  rw [hw] at hj'
  obtain rfl := Option.some.inj hj'
  obtain ⟨m, hmem, hsum⟩ := (tight_iff htree hx hw).mp h
  have hfirst : idx w < idx u := by
    refine hord.lt_of_offered hx hu (not_le.mp hxu) hmem ?_
    change toLex (min (k.dist.toNat + m.toNat) 4294967295, w) < toLex (i.dist.toNat, u)
    rw [← hsum, hd, Prod.Lex.toLex_lt_toLex]
    exact .inr ⟨rfl, hwu⟩
  omega

section Flat
variable (hpseudo : s.root.pseudonode = 0) (hflat : Flat s.db s.root)
include hpseudo hflat

/-- A LAN is reached from routers only, and so waits from the start. -/
theorem exists_steep_of_level {u w : NodeId} {d : ℕ} (h : Tight s.db s.root u w d d) : ∃ x, Steep s.db s.root x u := by
  have hlan := h.lan_of_level hreg hflat
  have hne : u ≠ s.root := by
    rintro rfl
    exact hlan hpseudo
  obtain ⟨i, -, hi, -⟩ := exists_of_tight htree h
  obtain ⟨x, k, m, hx, -, hmem, hd⟩ := hord.exists_before hi hne
  have hxu := (tight_iff htree hx hi).mpr ⟨m, hmem, hd⟩
  rcases hxu.steep_or_level with hsteep | ⟨d', hlevel⟩
  · exact ⟨x, hsteep⟩
  · have hx' := hlevel.lan_of_level hreg hflat
    obtain ⟨-, -, m', hedge, -⟩ := hlevel
    exact absurd (hflat.routers _ _ _ hedge.1 hx') hlan

/-- In a flat database the rule is exact. -/
theorem kept_of_lt {u w : NodeId} {d e : ℕ} (h : Tight s.db s.root u w d e) (hlt : idx u < idx w) :
    Kept s.db s.root u w := by
  rcases h.steep_or_level with hsteep | ⟨d, hlevel⟩
  · exact .inl hsteep
  · have hready := exists_steep_of_level htree hord hreg hpseudo hflat hlevel
    refine .inr ⟨⟨d, hlevel⟩, hready, ?_⟩
    by_cases huw : u < w
    · exact .inl huw
    · obtain ⟨i, j, hi, hj, hdi, hdj⟩ := exists_of_tight htree hlevel
      have hd : i.dist.toNat = j.dist.toNat := hdi.trans hdj.symm
      have hwu : w < u := by
        refine lt_of_le_of_ne (not_lt.mp huw) ?_
        rintro rfl
        exact lt_irrefl _ hlt
      refine .inr fun x => ⟨?_, ?_⟩
      · rintro ⟨d', e', hxw, hlt'⟩
        obtain ⟨k, j', hk, hj', rfl, rfl⟩ := exists_of_tight htree hxw
        rw [hj] at hj'
        obtain rfl := Option.some.inj hj'
        have hxu : idx x < idx u := hord.lt_of_dist_lt hk hi (hlt'.trans_eq hd.symm)
        exact absurd hxu (not_lt.mpr (le_of_tight htree hord hi hj hd hwu hlt hxw))
      · rintro ⟨d', hxw⟩
        by_contra hux
        obtain ⟨z, hz⟩ := exists_steep_of_level htree hord hreg hpseudo hflat hxw
        obtain ⟨k, -, hk, -, hdk, -⟩ := exists_of_tight htree hxw
        have hd' : k.dist.toNat = i.dist.toNat := by
          rw [hdk, hdi]
          exact hxw.2.1.unique hlevel.2.1
        have hxu : idx x < idx u := lt_of_ready htree hord hz hk hi hd' (not_le.mp hux)
        exact absurd hxu (not_lt.mpr (le_of_tight htree hord hi hj hd hwu hlt hxw))

omit hpseudo in
/-- If routers have all their first hops, LANs have them too. -/
theorem mem_of_complete (hroot : ∀ a, ¬ FirstHop s.db s.root s.root a)
    (hcomplete : ∀ (v : NodeId) (j : VertexInfo), tree[v]? = some j → v.pseudonode = 0 → v ≠ s.root →
      ∀ a, FirstHop s.db s.root v a → a ∈ j.v4) {v : NodeId} {j : VertexInfo} (hv : tree[v]? = some j) {a : Ipv4Addr}
    (h : FirstHop s.db s.root v a) : a ∈ j.v4 := by
  have hne : v ≠ s.root := by
    rintro rfl
    exact hroot a h
  by_cases hreal : v.pseudonode = 0
  · exact hcomplete v j hv hreal hne a h
  · obtain ⟨p, r, ⟨d, hd, hover⟩, hr, ha⟩ := h
    cases hover with
    | root => exact absurd rfl hne
    | @step u w p d m hover hedge =>
      have hu := hflat.shortest_of_step hd hover.path hedge
      have htight : Tight s.db s.root u v d (min (d + m.toNat) 4294967295) := ⟨hu, hd, m, hedge, rfl⟩
      rw [firstRouter_cons hover.ne_nil, if_neg hreal, Option.or_none] at hr
      have hfirst : FirstHop s.db s.root u a := ⟨p, r, ⟨d, hu, hover⟩, hr, ha⟩
      have hrouter : u.pseudonode = 0 := by
        by_contra hlan
        exact hreal (hflat.routers _ _ _ hedge.1 hlan)
      have hnu : u ≠ s.root := by
        rintro rfl
        exact hroot a hfirst
      obtain ⟨i, j', hi, hj', hdi, hdj⟩ := exists_of_tight htree htight
      rw [hv] at hj'
      obtain rfl := Option.some.inj hj'
      have hlt : idx u < idx v := by
        rcases htight.steep_or_level with hsteep | ⟨e, hlevel⟩
        · exact lt_of_steep htree hord hsteep
        · exact absurd hrouter (hlevel.lan_of_level hreg hflat)
      rw [mem_v4_iff htree hord hreg hv hne]
      exact ⟨u, i, hi, hlt, hdi.symm ▸ hdj.symm ▸ htight, .inl (hcomplete u i hi hrouter hnu a hfirst)⟩

theorem keepsAll_of_complete (hroot : ∀ a, ¬ FirstHop s.db s.root s.root a)
    (hcomplete : ∀ (v : NodeId) (j : VertexInfo), tree[v]? = some j → v.pseudonode = 0 → v ≠ s.root →
      ∀ a, FirstHop s.db s.root v a → a ∈ j.v4) : KeepsAll s.db s.root := by
  have hall : ∀ {v : NodeId} {j : VertexInfo} {a : Ipv4Addr}, tree[v]? = some j → FirstHop s.db s.root v a → a ∈ j.v4 :=
    fun hv h => mem_of_complete htree hord hreg hflat hroot hcomplete hv h
  intro v a hne h
  obtain ⟨d, hd⟩ : ∃ d, Shortest s.db s.root v d := by
    obtain ⟨p, r, ⟨d, hd, -⟩, -⟩ := h
    exact ⟨d, hd⟩
  obtain ⟨j, hv, -⟩ := (shortestPath_iff htree v d).mp hd
  obtain ⟨u, i, hu, hlt, htight, hcase⟩ := (mem_v4_iff htree hord hreg hv hne a).mp (hall hv h)
  refine ⟨u, kept_of_lt htree hord hreg hpseudo hflat htight hlt, ?_⟩
  rcases hcase with hin | ⟨hnil, hreal, ha⟩
  · exact .inl ((firstHop_of_mem htree hord hreg hu).1 a hin)
  · refine .inr ⟨?_, hreal, ha⟩
    intro b hb
    have hin := hall hu hb
    rw [hnil] at hin
    cases hin

end Flat

end Spf

/-- Where no first hop comes too late, the next hops are complete. -/
theorem Regular.ecmpComplete {root : SystemId} {level : IsLevel} (hreg : Regular db)
    (hkeep : KeepsAll db ⟨root, 0⟩) : EcmpComplete db root level := by
  obtain ⟨tree, htree, hcompute⟩ := compute_eq db root level
  have hrun := htree _ (le_refl _)
  obtain ⟨idx, hord⟩ := Search.exists_settleOrder (Spf.mk db ⟨root, 0⟩ level).lawful_search hrun
  intro v d hd _ _
  obtain ⟨j, hv, -⟩ := (Spf.shortestPath_iff hrun v d).mp hd
  refine ⟨j.v4, ?_, fun a => ⟨(Spf.firstHop_of_mem hrun hord hreg hv).1 a, ?_⟩⟩
  · rw [hcompute, Spf.harvest, Std.ExtTreeMap.getElem?_map, hv]
    rfl
  · exact Spf.mem_of_firstHop hrun hord hreg (hreg.not_firstHop_root rfl) hkeep hv

/-- And in a flat database only there. -/
theorem EcmpComplete.keepsAll {root : SystemId} {level : IsLevel} (h : EcmpComplete db root level) (hreg : Regular db)
    (hflat : Flat db ⟨root, 0⟩) : KeepsAll db ⟨root, 0⟩ := by
  obtain ⟨tree, htree, hcompute⟩ := compute_eq db root level
  have hrun := htree _ (le_refl _)
  obtain ⟨idx, hord⟩ := Search.exists_settleOrder (Spf.mk db ⟨root, 0⟩ level).lawful_search hrun
  refine Spf.keepsAll_of_complete hrun hord hreg rfl hflat (hreg.not_firstHop_root rfl) ?_
  intro v j hv hreal hne a ha
  obtain ⟨addrs, hfound, hall⟩ := h v _ ((Spf.shortestPath_iff hrun v _).mpr ⟨j, hv, rfl⟩) hreal hne
  rw [hcompute, Spf.harvest, Std.ExtTreeMap.getElem?_map, hv] at hfound
  obtain rfl := Option.some.inj hfound
  exact (hall a).mpr ha

/-- Without LANs nothing comes too late. -/
theorem Regular.keepsAll_of_routers (hreg : Regular db) (hflat : Flat db root) (hroot : root.pseudonode = 0)
    (hno : ∀ u w m, Advertises db u w m → u.pseudonode = 0) : KeepsAll db root := by
  rintro v a hne ⟨p, r, ⟨d, hd, hover⟩, hr, ha⟩
  cases hover with
  | root => exact absurd rfl hne
  | @step u w p d m hover hedge =>
    have hu := hflat.shortest_of_step hd hover.path hedge
    have htight : Tight db root u v d (min (d + m.toNat) 4294967295) := ⟨hu, hd, m, hedge, rfl⟩
    have hreal : v.pseudonode = 0 := by
      obtain ⟨-, -, ⟨m', hback⟩, -⟩ := hedge
      exact hno v u m' hback
    have hsteep : Steep db root u v := by
      rcases htight.steep_or_level with hsteep | ⟨e, hlevel⟩
      · exact hsteep
      · exact absurd (hno _ _ _ hedge.1) (hlevel.lan_of_level hreg hflat)
    refine ⟨u, .inl hsteep, ?_⟩
    rw [firstRouter_cons hover.ne_nil, if_pos hreal] at hr
    cases hp : firstRouter p with
    | some r' =>
      rw [hp, Option.some_or] at hr
      obtain rfl := Option.some.inj hr
      exact .inl ⟨p, r', ⟨d, hu, hover⟩, hp, ha⟩
    | none =>
      rw [hp, Option.none_or] at hr
      obtain rfl := Option.some.inj hr
      cases hover with
      | root => exact .inr ⟨hreg.not_firstHop_root hroot, hreal, ha⟩
      | step hover hedge' =>
        -- the router at the end would be found
        rw [firstRouter_cons hover.ne_nil, if_pos (hno _ _ _ hedge.1), Option.or_eq_none_iff] at hp
        cases hp.2

end Wren.Isis
