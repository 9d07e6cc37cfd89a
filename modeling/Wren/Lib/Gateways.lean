import Wren.Lib.RouteTree

/-! Gateways that are resolved at an edge whose near end has none, and passed down from there. A vertex without gateways
may be one that needs none or one for which none was found, and the calculation cannot tell the two apart. -/

namespace RouteTree
open OrdMap Offer Dijkstra

section Graph
variable {V G : Type} (E : V → V → UInt32 → Prop) (root : V) (resolve : V → V → Option G)

/-- Nothing is resolved on the walk, the last vertex of which comes first. -/
def Quiet : List V → Prop
  | w :: u :: p => resolve u w = none ∧ Quiet (u :: p)
  | _ => True

/-- Nothing is resolved on any shortest path to the vertex. -/
def Silent (v : V) : Prop := ∀ p, ShortestRoute E root v p → Quiet resolve p

/-- Nothing is resolved on one of them. -/
def MaybeSilent (v : V) : Prop := ∃ p, ShortestRoute E root v p ∧ Quiet resolve p

/-- The last edge of a shortest path. -/
def Tight (u w : V) : Prop := ∃ d c, LeastCost E root u d ∧ E u w c ∧ LeastCost E root w (d + c.toNat)

/-- A gateway is resolved where no other is known, and passed down along shortest paths. -/
inductive Learns (S : V → Prop) : V → G → Prop
  | resolved {u w : V} {g : G} : S u → Tight E root u w → resolve u w = some g → Learns S w g
  | passed {u w : V} {g : G} : Learns S u g → Tight E root u w → Learns S w g

variable {E root resolve}

theorem ShortestRoute.cons {u w : V} {p : List V} (hp : ShortestRoute E root u p) (h : Tight E root u w) :
    ShortestRoute E root w (w :: p) := by
  obtain ⟨d, hd, hroute⟩ := hp
  obtain ⟨d', c, hd', hedge, hw⟩ := h
  obtain rfl := hd.unique hd'
  exact ⟨_, hw, hroute.step hedge⟩

theorem Tight.exists_shortestRoute {u w : V} (h : Tight E root u w) : ∃ p, ShortestRoute E root u (u :: p) := by
  obtain ⟨d, c, hd, -, -⟩ := h
  obtain ⟨p, hp⟩ := hd.1.exists_route
  cases hp with
  | root => exact ⟨[], 0, hd, .root⟩
  | step hq hedge => exact ⟨_, _, hd, hq.step hedge⟩

/-- What lies on a shortest path to a silent vertex is silent. -/
theorem Silent.of_tight {u w : V} (hw : Silent E root resolve w) (h : Tight E root u w) :
    Silent E root resolve u ∧ resolve u w = none := by
  have hquiet : ∀ p, ShortestRoute E root u (u :: p) → resolve u w = none ∧ Quiet resolve (u :: p) :=
    fun p hp => hw _ (hp.cons h)
  obtain ⟨p, hp⟩ := h.exists_shortestRoute
  refine ⟨?_, (hquiet p hp).1⟩
  rintro q ⟨d, hd, hq⟩
  cases hq with
  | root => trivial
  | step hr hedge => exact (hquiet _ ⟨_, hd, hr.step hedge⟩).2

theorem not_silent_of_learns {S : V → Prop} {w : V} {g : G} (h : Learns E root resolve S w g) :
    ¬ Silent E root resolve w := by
  intro hw
  induction h with
  | resolved _ htight hg =>
    rw [(hw.of_tight htight).2] at hg
    cases hg
  | passed _ htight ih => exact ih (hw.of_tight htight).1

/-- A gateway is learnt at one edge, and passed down from there. -/
theorem learns_iff {S : V → Prop} {v : V} {g : G} : Learns E root resolve S v g ↔
    ∃ u w, S u ∧ Tight E root u w ∧ resolve u w = some g ∧ Relation.ReflTransGen (Tight E root) w v := by
  constructor
  · intro h
    induction h with
    | resolved hu htight hg => exact ⟨_, _, hu, htight, hg, .refl⟩
    | passed _ htight ih =>
      obtain ⟨x, y, hx, hxy, hg, hpath⟩ := ih
      exact ⟨x, y, hx, hxy, hg, hpath.tail htight⟩
  · rintro ⟨u, w, hu, htight, hg, hpath⟩
    induction hpath with
    | refl => exact .resolved hu htight hg
    | tail _ hstep ih => exact .passed ih hstep

end Graph

namespace Topology
variable {V G K R : Type} [DecidableEq G] {t : Topology V G K R} {E : V → V → UInt32 → Prop}
  {A : V → K → UInt32 → Prop} {resolve : V → V → Option G}

variable (t resolve) in
/-- Gateways are passed down as they are, and resolved where there are none. -/
def Resolves : Prop :=
  ∀ u gs w, t.initialGateways u gs w = if gs ≠ [] then gs else (resolve u w).toList

omit [DecidableEq G] in
theorem Resolves.mem_iff (hres : t.Resolves resolve) (u : V) (gs : List G) (w : V) (g : G) :
    g ∈ t.initialGateways u gs w ↔ g ∈ gs ∨ gs = [] ∧ resolve u w = some g := by
  rw [hres]
  by_cases hgs : gs = []
  · simp [hgs]
  · simp [hgs]

variable [Ord V] [Std.TransOrd V] [Std.LawfulEqOrd V] [DecidableEq V] [LinearOrder R]
  (hm : t.Models E A) (hfits : Fits E t.root A) (hres : t.Resolves resolve) {fuel : ℕ} {tree : BTreeMap V (Info G)}
  (hrun : t.search.run fuel = some tree)
include hm hfits hrun

theorem tight_iff {u w : V} : Tight E t.root u w ↔ ∃ i e c, tree[u]? = some i ∧ tree[w]? = some e ∧
    (w, c) ∈ t.neighbors u ∧ e.dist.toNat = i.dist.toNat + c.toNat := by
  have hleast := hm.leastCost_iff hfits hrun
  constructor
  · rintro ⟨d, c, hd, hedge, hw⟩
    obtain ⟨i, hi, rfl⟩ := (hleast u d).mp hd
    obtain ⟨e, he, hdist⟩ := (hleast w _).mp hw
    exact ⟨i, e, c, hi, he, (hm.edge u w c).mpr hedge, hdist⟩
  · rintro ⟨i, e, c, hi, he, hedge, hdist⟩
    exact ⟨_, c, (hleast u _).mpr ⟨i, hi, rfl⟩, (hm.edge u w c).mp hedge, (hleast w _).mpr ⟨e, he, hdist⟩⟩

theorem tight_iff_of_getElem? {u w : V} {i e : Info G} (hu : tree[u]? = some i) (hw : tree[w]? = some e) :
    Tight E t.root u w ↔ ∃ c, (w, c) ∈ t.neighbors u ∧ e.dist.toNat = i.dist.toNat + c.toNat := by
  rw [tight_iff hm hfits hrun]
  constructor
  · rintro ⟨i', e', c, hu', hw', hedge, hd⟩
    rw [hu] at hu'
    obtain rfl := Option.some.inj hu'
    rw [hw] at hw'
    obtain rfl := Option.some.inj hw'
    exact ⟨c, hedge, hd⟩
  · rintro ⟨c, hedge, hd⟩
    exact ⟨i, e, c, hu, hw, hedge, hd⟩

include hres

/-- A vertex has the gateways that come from those settled before it. -/
theorem mem_gateways_iff_before {idx : V → ℕ} (hord : t.search.SettleOrder idx tree) {w : V} {info : Info G}
    (hw : tree[w]? = some info) (hroot : w ≠ t.root) (g : G) : g ∈ info.gateways ↔
      ∃ u i, tree[u]? = some i ∧ idx u < idx w ∧ Tight E t.root u w ∧
        (g ∈ i.gateways ∨ i.gateways = [] ∧ resolve u w = some g) := by
  have hbest := hord.best (fun i => g ∈ i.gateways) (fun e i => mem_mergeGateways e.gateways i.gateways g) w info hw hroot
  rw [hbest.hop_iff]
  constructor
  · rintro ⟨j, ⟨u, i, c, hu, hlt, hedge, hd, rfl⟩, hg⟩
    exact ⟨u, i, hu, hlt, (tight_iff_of_getElem? hm hfits hrun hu hw).mpr ⟨c, hedge, hd⟩, (hres.mem_iff u _ w g).mp hg⟩
  · rintro ⟨u, i, hu, hlt, htight, hg⟩
    obtain ⟨c, hedge, hd⟩ := (tight_iff_of_getElem? hm hfits hrun hu hw).mp htight
    exact ⟨_, ⟨u, i, c, hu, hlt, hedge, hd, rfl⟩, (hres.mem_iff u _ w g).mpr hg⟩

/-- What leads to a vertex without gateways has none either, and nothing is resolved between the two. -/
theorem nil_of_before {idx : V → ℕ} (hord : t.search.SettleOrder idx tree) {u w : V} {i info : Info G}
    (hw : tree[w]? = some info) (hroot : w ≠ t.root) (hnil : info.gateways = []) (hu : tree[u]? = some i)
    (hlt : idx u < idx w) (htight : Tight E t.root u w) : i.gateways = [] ∧ resolve u w = none := by
  have hnone : ∀ g, ¬ (g ∈ i.gateways ∨ i.gateways = [] ∧ resolve u w = some g) := by
    intro g hg
    have hmem := (mem_gateways_iff_before hm hfits hres hrun hord hw hroot g).mpr ⟨u, i, hu, hlt, htight, hg⟩
    rw [hnil] at hmem
    cases hmem
  have hi : i.gateways = [] := List.eq_nil_iff_forall_not_mem.mpr fun g hg => hnone g (.inl hg)
  exact ⟨hi, Option.eq_none_iff_forall_ne_some.mpr fun g hg => hnone g (.inr ⟨hi, hg⟩)⟩

/-- Where a vertex has no gateways, there is a shortest path on which nothing is resolved. -/
theorem maybeSilent_of_gateways_nil {v : V} {info : Info G} (hv : tree[v]? = some info) (hnil : info.gateways = []) :
    MaybeSilent E t.root resolve v := by
  obtain ⟨idx, hord⟩ := Search.exists_settleOrder (lawful (hm.bounded hfits)) hrun
  have hleast := hm.leastCost_iff hfits hrun
  generalize hn : idx v = n
  induction n using Nat.strong_induction_on generalizing v info with
  | h n ih =>
    by_cases hroot : v = t.root
    · subst hroot
      refine ⟨[t.root], ⟨0, ?_, .root⟩, trivial⟩
      exact ⟨.root, fun d _ => Nat.zero_le d⟩
    · obtain ⟨u, i, c, hu, hlt, hedge, hd⟩ := hord.exists_before hv hroot
      have htight := (tight_iff hm hfits hrun).mpr ⟨i, info, c, hu, hv, hedge, hd⟩
      obtain ⟨hi, hquiet⟩ := nil_of_before hm hfits hres hrun hord hv hroot hnil hu hlt htight
      obtain ⟨p, hp, hpq⟩ := ih (idx u) (hn ▸ hlt) hu hi rfl
      refine ⟨v :: p, hp.cons htight, ?_⟩
      obtain ⟨d, -, hroute⟩ := hp
      cases hroute with
      | root => exact ⟨hquiet, hpq⟩
      | step _ _ => exact ⟨hquiet, hpq⟩

/-- Every gateway was resolved at a vertex without any. -/
theorem learns_of_mem {S : V → Prop} (hS : ∀ (u : V) (i : Info G), tree[u]? = some i → i.gateways = [] → S u) {v : V}
    {info : Info G} (hv : tree[v]? = some info) {g : G} (hg : g ∈ info.gateways) : Learns E t.root resolve S v g := by
  obtain ⟨idx, hord⟩ := Search.exists_settleOrder (lawful (hm.bounded hfits)) hrun
  generalize hn : idx v = n
  induction n using Nat.strong_induction_on generalizing v info with
  | h n ih =>
    by_cases hroot : v = t.root
    · subst hroot
      have hstart : tree[t.root]? = some ⟨0, []⟩ := Search.getElem?_root_of_run hrun
      rw [hstart] at hv
      obtain rfl := Option.some.inj hv
      cases hg
    · obtain ⟨u, i, hu, hlt, htight, hg | ⟨hnil, hg⟩⟩ :=
        (mem_gateways_iff_before hm hfits hres hrun hord hv hroot g).mp hg
      · exact .passed (ih (idx u) (hn ▸ hlt) hu hg rfl) htight
      · exact .resolved (hS u i hu hnil) htight hg

theorem gateways_nil_of_silent {v : V} {info : Info G} (hv : tree[v]? = some info) (h : Silent E t.root resolve v) :
    info.gateways = [] := by
  rw [List.eq_nil_iff_forall_not_mem]
  intro g hg
  exact not_silent_of_learns (learns_of_mem hm hfits hres hrun (S := fun _ => True) (fun _ _ _ _ => trivial) hv hg) h

/-! Where edges ascend, every shortest path counts. -/

section Ascending
variable (hasc : t.search.Ascending)
include hasc

theorem mem_gateways_iff_tight {w : V} {info : Info G} (hw : tree[w]? = some info) (hroot : w ≠ t.root) (g : G) :
    g ∈ info.gateways ↔ ∃ u i, tree[u]? = some i ∧ Tight E t.root u w ∧
      (g ∈ i.gateways ∨ i.gateways = [] ∧ resolve u w = some g) := by
  rw [mem_gateways_iff (hm.bounded hfits) hrun hasc hw hroot]
  constructor
  · rintro ⟨u, i, c, hu, hedge, hd, hg⟩
    exact ⟨u, i, hu, (tight_iff_of_getElem? hm hfits hrun hu hw).mpr ⟨c, hedge, hd⟩, (hres.mem_iff u _ w g).mp hg⟩
  · rintro ⟨u, i, hu, htight, hg⟩
    obtain ⟨c, hedge, hd⟩ := (tight_iff_of_getElem? hm hfits hrun hu hw).mp htight
    exact ⟨u, i, c, hu, hedge, hd, (hres.mem_iff u _ w g).mpr hg⟩

omit hres in
/-- No shortest path comes back to the root. -/
theorem ne_root_of_tight {u w : V} (h : Tight E t.root u w) : w ≠ t.root := by
  rintro rfl
  obtain ⟨i, e, c, hu, hw, hedge, hd⟩ := (tight_iff hm hfits hrun).mp h
  obtain ⟨idx, hord⟩ := Search.exists_settleOrder (lawful (hm.bounded hfits)) hrun
  have hkey := hasc u t.root c i.dist.toNat hedge
  change toLex (i.dist.toNat, t.rank u) < toLex (i.dist.toNat + c.toNat, t.rank t.root) at hkey
  rw [← hd] at hkey
  have hlt := hord.lt_of_ascending hasc hu hw hkey
  by_cases hur : u = t.root
  · rw [hur] at hlt
    exact lt_irrefl _ hlt
  · exact absurd hlt (not_lt.mpr (hord.root_lt u (Search.mem_of_getElem? hu) hur).le)

theorem gateways_nil_iff {v : V} {info : Info G} (hv : tree[v]? = some info) :
    info.gateways = [] ↔ Silent E t.root resolve v := by
  refine ⟨?_, gateways_nil_of_silent hm hfits hres hrun hv⟩
  rintro hnil p ⟨d, hd, hroute⟩
  induction hroute generalizing info with
  | root => trivial
  | @step u w p d c hroute hedge ih =>
    have hu := hd.of_step hroute.walk hedge
    have htight : Tight E t.root u w := ⟨d, c, hu, hedge, hd⟩
    obtain ⟨i, hi, -⟩ := (hm.leastCost_iff hfits hrun u d).mp hu
    have hnone : ∀ g, ¬ (g ∈ i.gateways ∨ i.gateways = [] ∧ resolve u w = some g) := by
      intro g hg
      have hmem := (mem_gateways_iff_tight hm hfits hres hrun hasc hv (ne_root_of_tight hm hfits hrun hasc htight) g).mpr
        ⟨u, i, hi, htight, hg⟩
      rw [hnil] at hmem
      cases hmem
    have hinil : i.gateways = [] := List.eq_nil_iff_forall_not_mem.mpr fun g hg => hnone g (.inl hg)
    have hquiet : resolve u w = none := Option.eq_none_iff_forall_ne_some.mpr fun g hg => hnone g (.inr ⟨hinil, hg⟩)
    have hp := ih hi hinil hu
    cases hroute with
    | root => exact ⟨hquiet, hp⟩
    | step _ _ => exact ⟨hquiet, hp⟩

theorem mem_gateways_iff_learns {v : V} {info : Info G} (hv : tree[v]? = some info) (g : G) :
    g ∈ info.gateways ↔ Learns E t.root resolve (Silent E t.root resolve) v g := by
  constructor
  · intro hg
    exact learns_of_mem hm hfits hres hrun (fun u i hu hnil => (gateways_nil_iff hm hfits hres hrun hasc hu).mp hnil) hv hg
  · intro h
    induction h generalizing info with
    | @resolved u w g hsilent htight hg =>
      obtain ⟨i, e, c, hu, -⟩ := (tight_iff hm hfits hrun).mp htight
      have hnil := gateways_nil_of_silent hm hfits hres hrun hu hsilent
      rw [mem_gateways_iff_tight hm hfits hres hrun hasc hv (ne_root_of_tight hm hfits hrun hasc htight)]
      exact ⟨u, i, hu, htight, .inr ⟨hnil, hg⟩⟩
    | @passed u w g _ htight ih =>
      obtain ⟨i, e, c, hu, -⟩ := (tight_iff hm hfits hrun).mp htight
      rw [mem_gateways_iff_tight hm hfits hres hrun hasc hv (ne_root_of_tight hm hfits hrun hasc htight)]
      exact ⟨u, i, hu, htight, .inl (ih hu)⟩

end Ascending

end Topology
end RouteTree
