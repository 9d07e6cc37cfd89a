import Wren.Lib.Replica
import Wren.Babel.Table

/-! Selection is recomputed only for the prefixes a step touches, and yet is everywhere the least
eligible route. -/

namespace Wren.Babel
open Std OrdMap Wren.Core

def BabelEvent.delta : BabelEvent → Replica.Delta Prefix (IpAddr × UInt16)
  | .select pfx nextHop metric => ⟨pfx, some (nextHop, metric)⟩
  | .retract pfx => ⟨pfx, none⟩

namespace RouteTable

theorem rank_key (r r' : RouteKey × RouteEntry) (h : rank r = rank r') : r.1 = r'.1 :=
  congrArg Rank.key h

/-- Selection looks only at the routes of its own prefix. -/
theorem best_congr {t u : RouteTable} {p : Prefix}
    (h : ∀ k : RouteKey, k.pfx = p → t.routes[k]? = u.routes[k]?) : t.best p = u.best p := by
  apply Argmin.argmin_congr rank_key
  intro r
  constructor
  · intro hr
    exact ⟨(h r.1 hr.2.1).symm.trans hr.1, hr.2⟩
  · intro hr
    exact ⟨(h r.1 hr.2.1).trans hr.1, hr.2⟩

/-- What is recorded of a selected route. -/
def recorded (r : RouteKey × RouteEntry) : RouteKey × IpAddr × UInt16 :=
  (r.1, r.2.nextHop, r.2.metric)

/-- The recorded selection is the least eligible route of every prefix. -/
def Consistent (t : RouteTable) : Prop := ∀ p : Prefix, t.selected[p]? = (t.best p).map recorded

theorem routes_reselect (t : RouteTable) (p : Prefix) : (t.reselect p).1.routes = t.routes := by
  unfold reselect
  split
  · dsimp only
    split_ifs
    · rfl
    · rfl
  · rfl

theorem best_reselect (t : RouteTable) (p q : Prefix) : (t.reselect p).1.best q = t.best q := by
  unfold best
  rw [routes_reselect]

theorem selected_reselect (t : RouteTable) (p q : Prefix) :
    (t.reselect p).1.selected[q]? = if q = p then (t.best p).map recorded else t.selected[q]? := by
  unfold reselect
  cases hbest : t.best p with
  | none => exact getElem?_erase _ _ _
  | some r =>
    dsimp only
    split_ifs with hsame hq hq
    · rw [hq, hsame]
      rfl
    · rfl
    · rw [hq]
      simp [recorded]
    · simp [getElem?_insert, hq]

theorem routes_reselectAll (t : RouteTable) (ps : List Prefix) :
    (t.reselectAll ps).1.routes = t.routes := by
  induction ps generalizing t with
  | nil => rfl
  | cons p ps ih =>
    rw [reselectAll, ih, routes_reselect]

theorem selected_reselectAll (t : RouteTable) (ps : List Prefix) (q : Prefix) :
    (t.reselectAll ps).1.selected[q]? =
      if q ∈ ps then (t.best q).map recorded else t.selected[q]? := by
  induction ps generalizing t with
  | nil => simp [reselectAll]
  | cons p ps ih =>
    rw [reselectAll, ih, best_reselect, selected_reselect]
    by_cases hps : q ∈ ps
    · simp [hps]
    · by_cases hp : q = p
      · simp [hp]
      · simp [hps, hp]

theorem routes_offer_of_ne (t : RouteTable) {key k : RouteKey} (hk : k ≠ key) (nextHop : IpAddr)
    (seqno advertised cost : UInt16) :
    (t.offer key nextHop seqno advertised cost).routes[k]? = t.routes[k]? := by
  unfold offer
  split_ifs
  · rw [getElem?_erase, if_neg hk]
  · simp [getElem?_insert, hk]

theorem selected_offer (t : RouteTable) (key : RouteKey) (nextHop : IpAddr)
    (seqno advertised cost : UInt16) :
    (t.offer key nextHop seqno advertised cost).selected = t.selected := by
  unfold offer
  split_ifs
  · rfl
  · rfl

theorem consistent_update {t : RouteTable} (h : t.Consistent) (p : Prefix) (routerId : RouterId)
    (neighbour nextHop : IpAddr) (seqno advertised cost : UInt16) :
    (t.update p routerId neighbour nextHop seqno advertised cost).1.Consistent := by
  intro q
  unfold update
  rw [selected_reselect, best_reselect, selected_offer]
  by_cases hq : q = p
  · rw [if_pos hq, hq]
  · rw [if_neg hq, h q]
    have hbest : t.best q =
        (t.offer ⟨p, routerId, neighbour⟩ nextHop seqno advertised cost).best q := by
      apply best_congr
      intro k hk
      have hne : k ≠ ⟨p, routerId, neighbour⟩ := by
        intro heq
        rw [heq] at hk
        exact hq hk.symm
      rw [routes_offer_of_ne t hne]
    rw [hbest]

theorem mem_affected (t : RouteTable) (neighbour : IpAddr) (p : Prefix) :
    p ∈ t.affected neighbour ↔ ∃ k ∈ t.routes, k.neighbour = neighbour ∧ k.pfx = p := by
  unfold affected
  rw [ExtTreeSet.mem_ofList]
  simp [and_assoc]

theorem routes_dropNeighbour (t : RouteTable) (neighbour : IpAddr) (k : RouteKey) :
    (t.dropNeighbour neighbour).routes[k]? =
      if k.neighbour = neighbour then none else t.routes[k]? := by
  unfold dropNeighbour
  rw [ExtTreeMap.getElem?_filter']
  by_cases hk : k.neighbour = neighbour
  · simp [hk]
  · cases t.routes[k]? with
    | none => simp
    | some e => simp [hk]

/-- Losing a neighbour leaves the other prefixes with the selection they have. -/
theorem best_dropNeighbour {t : RouteTable} {neighbour : IpAddr} {p : Prefix}
    (hp : p ∉ t.affected neighbour) : (t.dropNeighbour neighbour).best p = t.best p := by
  apply best_congr
  intro k hk
  rw [routes_dropNeighbour]
  split_ifs with hn
  · by_contra hne
    have hmem : k ∈ t.routes := by
      rw [ExtTreeMap.mem_iff_isSome_getElem?]
      exact Option.isSome_iff_ne_none.mpr (Ne.symm hne)
    exact hp ((mem_affected t neighbour p).mpr ⟨k, hmem, hn, hk⟩)
  · rfl

theorem consistent_neighbourLost {t : RouteTable} (h : t.Consistent) (neighbour : IpAddr) :
    (t.neighbourLost neighbour).1.Consistent := by
  intro q
  unfold neighbourLost
  have hbest : ((t.dropNeighbour neighbour).reselectAll (t.affected neighbour).toList).1.best q =
      (t.dropNeighbour neighbour).best q := by
    unfold best
    rw [routes_reselectAll]
  rw [selected_reselectAll, hbest]
  by_cases hq : q ∈ (t.affected neighbour).toList
  · rw [if_pos hq]
  · rw [if_neg hq]
    rw [ExtTreeSet.mem_toList] at hq
    rw [best_dropNeighbour hq]
    exact h q

theorem consistent_apply {t : RouteTable} (h : t.Consistent) (op : Op) :
    (t.apply op).1.Consistent := by
  cases op with
  | update p routerId neighbour nextHop seqno advertised cost =>
    exact consistent_update h p routerId neighbour nextHop seqno advertised cost
  | neighbourLost neighbour => exact consistent_neighbourLost h neighbour

theorem consistent_new : new.Consistent := by
  intro p
  have hbest : new.best p = none := by
    unfold best
    rw [Argmin.argmin_eq_none_iff]
    intro r hr
    simp [new] at hr
  have hselected : new.selected[p]? = none := by simp [new]
  rw [hbest, hselected]
  rfl

def run (ops : List Op) : RouteTable := ops.foldl (fun t op => (t.apply op).1) new

theorem consistent_run (ops : List Op) : (run ops).Consistent :=
  List.foldlRecOn ops _ consistent_new fun _ ht op _ => consistent_apply ht op

/-- The selected next hop and metric. -/
def selectedHop (t : RouteTable) (p : Prefix) : Option (IpAddr × UInt16) :=
  (t.selected[p]?).map Prod.snd

/-- Each reselection reports what it changed, and nothing else. -/
theorem replay_reselect (t : RouteTable) (p : Prefix) :
    Replica.replay t.selectedHop ((t.reselect p).2.toList.map BabelEvent.delta) =
      (t.reselect p).1.selectedHop := by
  funext q
  have hselected := selected_reselect t p q
  unfold selectedHop
  rw [hselected]
  unfold reselect
  cases hbest : t.best p with
  | none =>
    cases hold : t.selected[p]? with
    | none =>
      by_cases hq : q = p
      · simp [hq, hold]
      · simp [hq]
    | some old =>
      by_cases hq : q = p
      · simp [BabelEvent.delta, Replica.Delta.apply, hq]
      · simp [BabelEvent.delta, Replica.Delta.apply, hq]
  | some r =>
    dsimp only
    split_ifs with hsame hq hq
    · simp [hq, hsame, recorded]
    · rfl
    · simp [BabelEvent.delta, Replica.Delta.apply, hq, recorded]
    · simp [BabelEvent.delta, Replica.Delta.apply, hq]

theorem replay_reselectAll (t : RouteTable) (ps : List Prefix) :
    Replica.replay t.selectedHop ((t.reselectAll ps).2.map BabelEvent.delta) =
      (t.reselectAll ps).1.selectedHop := by
  induction ps generalizing t with
  | nil => rfl
  | cons p ps ih =>
    rw [reselectAll, List.map_append, Replica.replay_append, replay_reselect]
    exact ih (t.reselect p).1

theorem replay_apply (t : RouteTable) (op : Op) :
    Replica.replay t.selectedHop ((t.apply op).2.map BabelEvent.delta) =
      (t.apply op).1.selectedHop := by
  cases op with
  | update p routerId neighbour nextHop seqno advertised cost =>
    have hsame : (t.offer ⟨p, routerId, neighbour⟩ nextHop seqno advertised cost).selectedHop =
        t.selectedHop := by
      unfold selectedHop
      rw [selected_offer]
    have hreplay := replay_reselect (t.offer ⟨p, routerId, neighbour⟩ nextHop seqno advertised cost) p
    rw [hsame] at hreplay
    exact hreplay
  | neighbourLost neighbour =>
    exact replay_reselectAll (t.dropNeighbour neighbour) (t.affected neighbour).toList

theorem mem_selectedRoutes (t : RouteTable) (p : Prefix) (nextHop : IpAddr) (metric : UInt16) :
    (p, nextHop, metric) ∈ t.selectedRoutes ↔ t.selectedHop p = some (nextHop, metric) := by
  unfold selectedRoutes selectedHop
  simp [List.mem_map, ExtTreeMap.mem_toList_iff_getElem?_eq_some]

/-- After any calls: a prefix has a selection exactly when some route of it is eligible, and it is
then the least one by metric and key, with its current next hop and metric; and the events emitted
on the way, replayed, give the selected routes. -/
theorem selection_consistent (ops : List Op) :
    let t := run ops
    (∀ p : Prefix, (t.selected[p]?).isSome = true ↔
      ∃ (k : RouteKey) (e : RouteEntry), t.routes[k]? = some e ∧ k.pfx = p ∧ e.feasible = true ∧
        addMetric e.advertised e.cost < metricInfinity) ∧
    (∀ (p : Prefix) (k : RouteKey) (nextHop : IpAddr) (metric : UInt16),
      t.selected[p]? = some (k, nextHop, metric) →
        ∃ e, t.routes[k]? = some e ∧ Eligible p (k, e) ∧ nextHop = e.nextHop ∧
          metric = addMetric e.advertised e.cost ∧
          ∀ (k' : RouteKey) (e' : RouteEntry), t.routes[k']? = some e' → Eligible p (k', e') →
            Rank.mk e.metric k ≤ Rank.mk e'.metric k') ∧
    ∀ (p : Prefix) (nextHop : IpAddr) (metric : UInt16),
      Replica.replay (fun _ => none) ((Replica.log (fun t op => (t.apply op).1)
          (fun t op => (t.apply op).2) new ops).map BabelEvent.delta) p = some (nextHop, metric) ↔
        (p, nextHop, metric) ∈ t.selectedRoutes := by
  intro t
  have hcons : t.Consistent := consistent_run ops
  refine ⟨?_, ?_, ?_⟩
  · intro p
    rw [hcons p, Option.isSome_map, Option.isSome_iff_ne_none, ne_eq, best,
      Argmin.argmin_eq_none_iff]
    constructor
    · intro hnot
      push Not at hnot
      obtain ⟨r, hget, hpfx, hfeasible, hfinite⟩ := hnot
      exact ⟨r.1, r.2, hget, hpfx, hfeasible, hfinite⟩
    · intro hsome hnone
      obtain ⟨k, e, hget, helig⟩ := hsome
      exact hnone (k, e) hget helig
  · intro p k nextHop metric hsel
    rw [hcons p] at hsel
    obtain ⟨r, hr, heq⟩ := Option.map_eq_some_iff.mp hsel
    have hleast := Argmin.least_of_argmin hr
    cases heq
    exact ⟨r.2, hleast.lookup, hleast.holds, rfl, rfl,
      fun k' e' hget helig => hleast.le (k', e') hget helig⟩
  · intro p nextHop metric
    have hnew : new.selectedHop = fun _ => none := by
      funext q
      simp [selectedHop, new]
    rw [mem_selectedRoutes, ← hnew,
      Replica.replay_log (fun t op => (t.apply op).1) (fun t op => (t.apply op).2) BabelEvent.delta
        selectedHop (fun t op => (replay_apply t op).symm)]
    rfl

end RouteTable
end Wren.Babel
