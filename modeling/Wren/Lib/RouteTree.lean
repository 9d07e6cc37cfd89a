import Wren.Lib.SettleOrder

/-! Routes along a shortest-path tree. Every vertex announces destinations with a metric, and the route to a destination
has the least cost at which a settled vertex offers it. Costs are 32 bits wide and their sums are not checked. -/

namespace RouteTree
open OrdMap Offer Dijkstra
open Std (TransOrd LawfulEqOrd ExtTreeMap)

structure Info (G : Type) where
  dist : UInt32
  gateways : List G
deriving DecidableEq

/-- Add what is not there yet, in order. -/
def mergeGateways {G : Type} [DecidableEq G] (into extra : List G) : List G :=
  extra.foldl (fun into g => if g ∈ into then into else into ++ [g]) into

/-- What the calculation reads out of a link-state database. -/
structure Topology (V G K R : Type) where
  root : V
  neighbors : V → List (V × UInt32)
  /-- The gateways to the far end of an edge, from those of the near end. -/
  initialGateways : V → List G → V → List G
  announces : V → List (K × UInt32)
  rank : V → R

theorem mem_mergeGateways {G : Type} [DecidableEq G] (into extra : List G) (g : G) :
    g ∈ mergeGateways into extra ↔ g ∈ into ∨ g ∈ extra := by
  unfold mergeGateways
  induction extra generalizing into with
  | nil => simp
  | cons a l ih =>
    rw [List.foldl_cons, ih]
    by_cases ha : a ∈ into
    · rw [if_pos ha]
      constructor
      · rintro (h | h)
        · exact .inl h
        · exact .inr (List.mem_cons_of_mem a h)
      · rintro (h | h)
        · exact .inl h
        · rcases List.mem_cons.mp h with rfl | h
          · exact .inl ha
          · exact .inr h
    · rw [if_neg ha]
      simp only [List.mem_append, List.mem_cons]
      tauto

theorem nodup_mergeGateways {G : Type} [DecidableEq G] {into : List G} (h : into.Nodup) (extra : List G) :
    (mergeGateways into extra).Nodup := by
  unfold mergeGateways
  induction extra generalizing into with
  | nil => exact h
  | cons a l ih =>
    rw [List.foldl_cons]
    by_cases ha : a ∈ into
    · rw [if_pos ha]
      exact ih h
    · rw [if_neg ha]
      refine ih (List.nodup_append.mpr ⟨h, List.nodup_singleton a, ?_⟩)
      intro x hx y hy
      obtain rfl := List.mem_singleton.mp hy
      rintro rfl
      exact ha hx

namespace Topology
variable {V G K R : Type} [DecidableEq G] (t : Topology V G K R)

/-- Ties are settled in the order of the rank. -/
def search : Search V ℕ UInt32 (Info G) R where
  root := t.root
  start := ⟨0, []⟩
  out := t.neighbors
  extend d c := d + c.toNat
  dist i := i.dist.toNat
  visit u cur w cost := ⟨cur.dist + cost, t.initialGateways u cur.gateways w⟩
  merge e i := { e with gateways := mergeGateways e.gateways i.gateways }
  rank := t.rank

/-- There is a path of this cost to the vertex. -/
def Path (v : V) (d : ℕ) : Prop := t.search.Reaches v d

def ShortestPath (v : V) : ℕ → Prop := IsLeast (Set.ofPred (t.Path v))

/-- A cost at which a destination can be had. -/
def Cost (k : K) (d : ℕ) : Prop :=
  ∃ v e m, t.ShortestPath v e ∧ (k, m) ∈ t.announces v ∧ d = e + m.toNat

/-- The costs of simple paths, and of the destinations at their ends, fit into 32 bits. -/
structure Bounded : Prop where
  path : ∀ {v : V} {p : List V} {d : ℕ}, t.search.Trail v p d → d < 2 ^ 32
  announced : ∀ {v : V} {p : List V} {d : ℕ} {k : K} {m : UInt32}, t.search.Trail v p d → (k, m) ∈ t.announces v →
    d + m.toNat < 2 ^ 32

variable {t}

theorem lawful (h : t.Bounded) : t.search.Lawful where
  mono c hle := Nat.add_le_add_right hle _
  le_extend c _ := Nat.le_add_right _ _
  dist_visit := by
    intro u w p i c hp hedge hw
    have hlt : i.dist.toNat + c.toNat < 2 ^ 32 := h.path (hp.step hedge hw)
    show (i.dist + c).toNat = i.dist.toNat + c.toNat
    rw [UInt32.toNat_add]
    exact Nat.mod_eq_of_lt hlt
  dist_merge _ := rfl

variable [Ord V] [TransOrd V] [LawfulEqOrd V] [DecidableEq V]

section Tree
variable [LinearOrder R] {fuel : ℕ} {tree : BTreeMap V (Info G)} (h : t.Bounded) (hrun : t.search.run fuel = some tree)
include h hrun

/-- The settled vertices are those with a path, each at the cost of a shortest one. -/
theorem shortestPath_iff (v : V) (d : ℕ) :
    t.ShortestPath v d ↔ ∃ info, tree[v]? = some info ∧ info.dist.toNat = d := by
  obtain ⟨hmem, hleast⟩ := Search.run_spec (lawful h) hrun
  constructor
  · intro hd
    have hv : v ∈ tree := (hmem v).mpr ⟨d, hd.1⟩
    rw [← ExtTreeMap.isSome_getElem?_iff_mem] at hv
    obtain ⟨info, hinfo⟩ := Option.isSome_iff_exists.mp hv
    exact ⟨info, hinfo, (hleast v info hinfo).unique hd⟩
  · rintro ⟨info, hinfo, rfl⟩
    exact hleast v info hinfo
end Tree

variable [Ord K] [TransOrd K] [LawfulEqOrd K] [DecidableEq K]

variable (t) in
/-- What the settled vertices offer, in their order. -/
def offers (tree : BTreeMap V (Info G)) : List (K × Info G) :=
  tree.toList.flatMap fun e => (t.announces e.1).map fun a => (a.1, ⟨e.2.dist + a.2, e.2.gateways⟩)

/-- Insert or fold a route into the table: a lower cost replaces, an equal cost adds its gateways. -/
def addRoute (m : BTreeMap K (Info G)) (r : K × Info G) : BTreeMap K (Info G) :=
  offer (fun i => i.dist.toNat) (fun e i => { e with gateways := mergeGateways e.gateways i.gateways }) m r.1 r.2

variable (t) in
def routes (tree : BTreeMap V (Info G)) : BTreeMap K (Info G) := (t.offers tree).foldl addRoute ∅

section Tree
variable [LinearOrder R] {fuel : ℕ} {tree : BTreeMap V (Info G)} (h : t.Bounded) (hrun : t.search.run fuel = some tree)
include h hrun

omit [Ord K] [TransOrd K] [LawfulEqOrd K] [DecidableEq K] in
/-- An offer costs the shortest path to the vertex that makes it and the metric there. -/
theorem mem_offers_iff {k : K} {i : Info G} : (k, i) ∈ t.offers tree ↔
    ∃ v info m, tree[v]? = some info ∧ (k, m) ∈ t.announces v ∧ i.dist.toNat = info.dist.toNat + m.toNat ∧
      i.gateways = info.gateways := by
  simp only [offers, List.mem_flatMap, List.mem_map, Prod.exists, ExtTreeMap.mem_toList_iff_getElem?_eq_some]
  have hsum : ∀ {v : V} {info : Info G} {m : UInt32}, tree[v]? = some info → (k, m) ∈ t.announces v →
      (info.dist + m).toNat = info.dist.toNat + m.toNat := by
    intro v info m hv hm
    obtain ⟨p, hp⟩ := Search.trail_of_run (lawful h) hrun hv
    rw [UInt32.toNat_add]
    exact Nat.mod_eq_of_lt (h.announced hp hm)
  constructor
  · rintro ⟨v, info, hv, k', m, hm, heq⟩
    obtain ⟨rfl, rfl⟩ := Prod.mk.inj heq
    exact ⟨v, info, m, hv, hm, hsum hv hm, rfl⟩
  · rintro ⟨v, info, m, hv, hm, hd, hg⟩
    refine ⟨v, info, hv, k, m, hm, Prod.ext rfl ?_⟩
    obtain ⟨d, gateways⟩ := i
    obtain rfl : gateways = info.gateways := hg
    have hdist : d = info.dist + m := UInt32.toNat_inj.mp (hd.trans (hsum hv hm).symm)
    rw [hdist]

/-- A destination has a route at a cost exactly if that is the least one at which it can be had. -/
theorem routes_iff (k : K) (c : ℕ) :
    (∃ i, (t.routes tree)[k]? = some i ∧ i.dist.toNat = c) ↔ IsLeast (Set.ofPred (t.Cost k)) c := by
  have htable : (∃ i, (t.routes tree)[k]? = some i ∧ i.dist.toNat = c) ↔
      IsLeast (Set.ofPred fun d => ∃ e ∈ t.offers tree, e.1 = k ∧ d = e.2.dist.toNat) c :=
    @exists_table_iff ℕ (Info G) _ (fun i => i.dist.toNat)
      (fun e i => { e with gateways := mergeGateways e.gateways i.gateways }) K _ _ _ _ (fun _ => rfl) (K × Info G)
      Prod.fst Prod.snd (t.offers tree) k c
  have hset : (Set.ofPred fun d => ∃ e ∈ t.offers tree, e.1 = k ∧ d = e.2.dist.toNat) = Set.ofPred (t.Cost k) := by
    congr 1
    funext d
    refine propext ?_
    constructor
    · rintro ⟨⟨k', i⟩, hmem, rfl, rfl⟩
      obtain ⟨v, info, m, hv, hm, hd, -⟩ := (mem_offers_iff h hrun).mp hmem
      exact ⟨v, _, m, (shortestPath_iff h hrun v _).mpr ⟨info, hv, rfl⟩, hm, hd⟩
    · rintro ⟨v, e, m, hpath, hm, rfl⟩
      obtain ⟨info, hv, rfl⟩ := (shortestPath_iff h hrun v e).mp hpath
      obtain ⟨p, hp⟩ := Search.trail_of_run (lawful h) hrun hv
      have hsum : (info.dist + m).toNat = info.dist.toNat + m.toNat := by
        rw [UInt32.toNat_add]
        exact Nat.mod_eq_of_lt (h.announced hp hm)
      refine ⟨(k, ⟨info.dist + m, info.gateways⟩), ?_, rfl, hsum.symm⟩
      exact (mem_offers_iff h hrun).mpr ⟨v, info, m, hv, hm, hsum, rfl⟩
  rw [← hset]
  exact htable

end Tree

/-! ### Gateways -/

section Multipath
variable [LinearOrder R] {fuel : ℕ} {tree : BTreeMap V (Info G)} (h : t.Bounded) (hrun : t.search.run fuel = some tree)
include hrun

omit [Ord K] [TransOrd K] [LawfulEqOrd K] [DecidableEq K] in
theorem nodup_gateways (hinit : ∀ u gs w, gs.Nodup → (t.initialGateways u gs w).Nodup) {v : V} {info : Info G}
    (hv : tree[v]? = some info) : info.gateways.Nodup := by
  refine Search.forall_run (Q := fun _ i => i.gateways.Nodup) ?_ ?_ List.nodup_nil hrun v info hv
  · intro u i w c hi _
    exact hinit u i.gateways w hi
  · intro w e i he _
    exact nodup_mergeGateways he i.gateways

include h

omit [Ord K] [TransOrd K] [LawfulEqOrd K] [DecidableEq K] in
/-- Where edges ascend, the gateways of a vertex are those over all its neighbours on shortest paths. -/
theorem mem_gateways_iff (hasc : t.search.Ascending) {w : V} {info : Info G} (hw : tree[w]? = some info)
    (hroot : w ≠ t.root) (g : G) : g ∈ info.gateways ↔
      ∃ u i c, tree[u]? = some i ∧ (w, c) ∈ t.neighbors u ∧ info.dist.toNat = i.dist.toNat + c.toNat ∧
        g ∈ t.initialGateways u i.gateways w := by
  have hbest : Best t.search.dist (fun i => g ∈ i.gateways) (t.search.Offered tree w) info :=
    Search.best_of_run (lawful h) hasc (fun e i => mem_mergeGateways e.gateways i.gateways g) hrun hw hroot
  rw [hbest.hop_iff]
  constructor
  · rintro ⟨j, ⟨u, i, c, hu, hedge, hd, rfl⟩, hj⟩
    exact ⟨u, i, c, hu, hedge, hd, hj⟩
  · rintro ⟨u, i, c, hu, hedge, hd, hg⟩
    exact ⟨_, ⟨u, i, c, hu, hedge, hd, rfl⟩, hg⟩

/-- The gateways of a route are those of all vertices that offer it at its cost. -/
theorem mem_route_gateways_iff {k : K} {i : Info G} (hi : (t.routes tree)[k]? = some i) (g : G) :
    g ∈ i.gateways ↔ ∃ v info m, tree[v]? = some info ∧ (k, m) ∈ t.announces v ∧
      i.dist.toNat = info.dist.toNat + m.toNat ∧ g ∈ info.gateways := by
  have hholds : Holds (fun i : Info G => i.dist.toNat) (fun i => g ∈ i.gateways)
      (fun d i => ∃ e ∈ t.offers tree, e.1 = k ∧ d = e.2.dist.toNat ∧ i = e.2) (t.routes tree)[k]? :=
    @holds_table ℕ (Info G) _ (fun i => i.dist.toNat)
      (fun e i => { e with gateways := mergeGateways e.gateways i.gateways }) (fun i => g ∈ i.gateways) K _ _ _ _
      (fun _ => rfl) (K × Info G) Prod.fst Prod.snd (t.offers tree)
      (fun e i => mem_mergeGateways e.gateways i.gateways g) k
  rw [hi] at hholds
  rw [hholds.hop_iff]
  constructor
  · rintro ⟨j, ⟨⟨k', j'⟩, hmem, rfl, hd, rfl⟩, hg⟩
    obtain ⟨v, info, m, hv, hm, hsum, hgs⟩ := (mem_offers_iff h hrun).mp hmem
    exact ⟨v, info, m, hv, hm, hd.trans hsum, hgs ▸ hg⟩
  · rintro ⟨v, info, m, hv, hm, hsum, hg⟩
    refine ⟨⟨info.dist + m, info.gateways⟩, ⟨(k, ⟨info.dist + m, info.gateways⟩), ?_, rfl, ?_, rfl⟩, hg⟩
    · obtain ⟨p, hp⟩ := Search.trail_of_run (lawful h) hrun hv
      refine (mem_offers_iff h hrun).mpr ⟨v, info, m, hv, hm, ?_, rfl⟩
      show (info.dist + m).toNat = _
      rw [UInt32.toNat_add]
      exact Nat.mod_eq_of_lt (h.announced hp hm)
    · obtain ⟨p, hp⟩ := Search.trail_of_run (lawful h) hrun hv
      show i.dist.toNat = (info.dist + m).toNat
      rw [hsum, UInt32.toNat_add]
      exact (Nat.mod_eq_of_lt (h.announced hp hm)).symm

omit [DecidableEq V] [LinearOrder R] h hrun in
theorem nodup_route_gateways (hnodup : ∀ (v : V) (info : Info G), tree[v]? = some info → info.gateways.Nodup) {k : K}
    {i : Info G} (hi : (t.routes tree)[k]? = some i) : i.gateways.Nodup := by
  refine forall_foldl_offer (Q := fun _ (i : Info G) => i.gateways.Nodup) ?_ Prod.fst Prod.snd (t.offers tree) ?_
    (m := (∅ : BTreeMap K (Info G))) ?_ k i hi
  · intro k e i he _
    exact nodup_mergeGateways he i.gateways
  · intro e he
    simp only [offers, List.mem_flatMap, List.mem_map, Prod.exists] at he
    obtain ⟨v, info, hv, k', m, -, rfl⟩ := he
    exact hnodup v info (ExtTreeMap.mem_toList_iff_getElem?_eq_some.mp hv)
  · intro k i hk
    simp at hk

end Multipath

end Topology
/-! ### A graph that the topology stands for -/

section Graph
variable {V K : Type}

/-- A walk from the root, with its cost. -/
inductive Walk (E : V → V → UInt32 → Prop) (root : V) : V → ℕ → Prop
  | root : Walk E root root 0
  | step {u w : V} {d : ℕ} {c : UInt32} : Walk E root u d → E u w c → Walk E root w (d + c.toNat)

/-- A walk over these vertices, none of them twice. -/
inductive SimplePath (E : V → V → UInt32 → Prop) (root : V) : V → List V → ℕ → Prop
  | root : SimplePath E root root [root] 0
  | step {u w : V} {p : List V} {d : ℕ} {c : UInt32} :
    SimplePath E root u p d → E u w c → w ∉ p → SimplePath E root w (w :: p) (d + c.toNat)

def LeastCost (E : V → V → UInt32 → Prop) (root v : V) : ℕ → Prop := IsLeast (Set.ofPred (Walk E root v))

theorem Walk.exists_leastCost {E : V → V → UInt32 → Prop} {root v : V} {d : ℕ} (h : Walk E root v d) :
    ∃ c ≤ d, LeastCost E root v c := by
  classical
  have hsome : ∃ c, Walk E root v c := ⟨d, h⟩
  exact ⟨Nat.find hsome, Nat.find_min' hsome h, Nat.find_spec hsome, fun c hc => Nat.find_min' hsome hc⟩

/-- A walk over these vertices, the last one first. -/
inductive Route (E : V → V → UInt32 → Prop) (root : V) : V → List V → ℕ → Prop
  | root : Route E root root [root] 0
  | step {u w : V} {p : List V} {d : ℕ} {c : UInt32} :
    Route E root u p d → E u w c → Route E root w (w :: p) (d + c.toNat)

def ShortestRoute (E : V → V → UInt32 → Prop) (root v : V) (p : List V) : Prop :=
  ∃ d, LeastCost E root v d ∧ Route E root v p d

section Route
variable {E : V → V → UInt32 → Prop} {root : V}

theorem Route.walk {v : V} {p : List V} {d : ℕ} (h : Route E root v p d) : Walk E root v d := by
  induction h with
  | root => exact .root
  | step _ hedge ih => exact .step ih hedge

theorem Walk.exists_route {v : V} {d : ℕ} (h : Walk E root v d) : ∃ p, Route E root v p d := by
  induction h with
  | root => exact ⟨[root], .root⟩
  | step _ hedge ih =>
    obtain ⟨p, hp⟩ := ih
    exact ⟨_, .step hp hedge⟩

/-- What comes before the last edge of a walk of least cost has the least cost itself. -/
theorem LeastCost.of_step {u w : V} {d : ℕ} {c : UInt32} (h : LeastCost E root w (d + c.toNat))
    (hu : Walk E root u d) (hedge : E u w c) : LeastCost E root u d := by
  refine ⟨hu, ?_⟩
  intro e he
  have hle : d + c.toNat ≤ e + c.toNat := h.2 (Walk.step he hedge)
  omega

end Route

/-- A cost at which a destination can be had: that of a vertex which announces it, and its metric there. -/
def Available (E : V → V → UInt32 → Prop) (root : V) (A : V → K → UInt32 → Prop) (k : K) (d : ℕ) : Prop :=
  ∃ v e m, LeastCost E root v e ∧ A v k m ∧ d = e + m.toNat

/-- The costs of simple paths, and of the destinations at their ends, fit into 32 bits. -/
structure Fits (E : V → V → UInt32 → Prop) (root : V) (A : V → K → UInt32 → Prop) : Prop where
  path : ∀ v p d, SimplePath E root v p d → d < 2 ^ 32
  announced : ∀ v p d k m, SimplePath E root v p d → A v k m → d + m.toNat < 2 ^ 32

section Count
variable {E : V → V → UInt32 → Prop} {root : V} {A : V → K → UInt32 → Prop}

theorem SimplePath.walk {v : V} {p : List V} {d : ℕ} (h : SimplePath E root v p d) : Walk E root v d := by
  induction h with
  | root => exact .root
  | step _ hedge _ ih => exact .step ih hedge

theorem SimplePath.nodup {v : V} {p : List V} {d : ℕ} (h : SimplePath E root v p d) : p.Nodup := by
  induction h with
  | root => exact List.nodup_singleton _
  | step _ _ hw ih => exact List.nodup_cons.mpr ⟨hw, ih⟩

theorem SimplePath.walk_of_mem {v : V} {p : List V} {d : ℕ} (h : SimplePath E root v p d) :
    ∀ x ∈ p, ∃ e, Walk E root x e := by
  induction h with
  | root =>
    intro x hx
    obtain rfl := List.mem_singleton.mp hx
    exact ⟨0, .root⟩
  | step hp hedge _ ih =>
    intro x hx
    rcases List.mem_cons.mp hx with rfl | hx
    · exact ⟨_, .step hp.walk hedge⟩
    · exact ih x hx

theorem SimplePath.cost_le (hE : ∀ u w c, E u w c → c.toNat ≤ 65535) {v : V} {p : List V} {d : ℕ}
    (h : SimplePath E root v p d) : d + 65535 ≤ 65535 * p.length := by
  induction h with
  | root => simp
  | step _ hedge _ ih =>
    have hc := hE _ _ _ hedge
    simp only [List.length_cons]
    omega

/-- With metrics of 16 bits, the costs fit as long as there are no more vertices than 65537. -/
theorem Fits.of_card [DecidableEq V] (hE : ∀ u w c, E u w c → c.toNat ≤ 65535) (hA : ∀ v k m, A v k m → m.toNat ≤ 65535)
    {U : Finset V} (hU : ∀ v d, Walk E root v d → v ∈ U) (hcard : U.card ≤ 65537) : Fits E root A := by
  have hbound : ∀ v p d, SimplePath E root v p d → d + 65535 < 2 ^ 32 := by
    intro v p d h
    have hsub : p.toFinset ⊆ U := by
      intro x hx
      obtain ⟨e, he⟩ := h.walk_of_mem x (List.mem_toFinset.mp hx)
      exact hU x e he
    have hlen := Finset.card_le_card hsub
    rw [List.toFinset_card_of_nodup h.nodup] at hlen
    have hcost := h.cost_le hE
    omega
  constructor
  · intro v p d h
    have hd := hbound v p d h
    omega
  · intro v p d k m h ha
    have hd := hbound v p d h
    have hm := hA v k m ha
    omega

end Count

end Graph

namespace Topology
variable {V G K R : Type} [DecidableEq G]

/-- The lists of the topology are the edges and announcements of the graph. -/
structure Models (t : Topology V G K R) (E : V → V → UInt32 → Prop) (A : V → K → UInt32 → Prop) : Prop where
  edge : ∀ u w c, (w, c) ∈ t.neighbors u ↔ E u w c
  announced : ∀ v k m, (k, m) ∈ t.announces v ↔ A v k m

variable {t : Topology V G K R} {E : V → V → UInt32 → Prop} {A : V → K → UInt32 → Prop} (hm : t.Models E A)
include hm

theorem Models.path_iff (v : V) (d : ℕ) : t.Path v d ↔ Walk E t.root v d := by
  constructor
  · intro h
    induction h with
    | root => exact .root
    | step _ hedge ih => exact .step ih ((hm.edge _ _ _).mp hedge)
  · intro h
    induction h with
    | root => exact .root
    | step _ hedge ih => exact .step ih ((hm.edge _ _ _).mpr hedge)

theorem Models.simplePath {v : V} {p : List V} {d : ℕ} (h : t.search.Trail v p d) : SimplePath E t.root v p d := by
  induction h with
  | root => exact .root
  | step _ hedge hw ih => exact .step ih ((hm.edge _ _ _).mp hedge) hw

theorem Models.bounded (hfits : Fits E t.root A) : t.Bounded where
  path hp := hfits.path _ _ _ (hm.simplePath hp)
  announced hp ha := hfits.announced _ _ _ _ _ (hm.simplePath hp) ((hm.announced _ _ _).mp ha)

theorem Models.shortestPath_eq (v : V) : t.ShortestPath v = LeastCost E t.root v := by
  have hpath : t.Path v = Walk E t.root v := by
    funext d
    exact propext (hm.path_iff v d)
  rw [ShortestPath, LeastCost, hpath]

theorem Models.cost_eq (k : K) : t.Cost k = Available E t.root A k := by
  funext d
  simp only [Cost, Available, hm.shortestPath_eq, hm.announced]

variable [Ord V] [TransOrd V] [LawfulEqOrd V] [DecidableEq V] [LinearOrder R]

/-- The calculation ends if the vertices with a path are finitely many. -/
theorem Models.exists_tree (hfits : Fits E t.root A) {U : Finset V} (hU : ∀ v d, Walk E t.root v d → v ∈ U) {n : ℕ}
    (hn : U.card ≤ n) : ∃ tree, ∀ fuel, n ≤ fuel → t.search.run fuel = some tree := by
  refine Search.exists_run (lawful (hm.bounded hfits)) (U := U) ?_ hn
  intro v d hreach
  exact hU v d ((hm.path_iff v d).mp hreach)

theorem Models.leastCost_iff (hfits : Fits E t.root A) {fuel : ℕ} {tree : BTreeMap V (Info G)}
    (hrun : t.search.run fuel = some tree) (v : V) (d : ℕ) :
    LeastCost E t.root v d ↔ ∃ info, tree[v]? = some info ∧ info.dist.toNat = d := by
  rw [← hm.shortestPath_eq]
  exact shortestPath_iff (hm.bounded hfits) hrun v d

theorem Models.available_iff [Ord K] [TransOrd K] [LawfulEqOrd K] [DecidableEq K] (hfits : Fits E t.root A) {fuel : ℕ}
    {tree : BTreeMap V (Info G)} (hrun : t.search.run fuel = some tree) (k : K) (c : ℕ) :
    IsLeast (Set.ofPred (Available E t.root A k)) c ↔ ∃ i, (t.routes tree)[k]? = some i ∧ i.dist.toNat = c := by
  rw [← hm.cost_eq]
  exact (routes_iff (hm.bounded hfits) hrun k c).symm

end Topology
end RouteTree
