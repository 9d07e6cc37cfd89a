import Wren.Lib.Run
import Wren.Babel.Selection

/-! Feasibility along a run. A stored route keeps the verdict it was received with, while the
distance it was held against moves on. -/

namespace Wren.Babel
open Std OrdMap Wren.Core

theorem addMetric_infinity (cost : UInt16) : addMetric metricInfinity cost = metricInfinity := by
  simp [addMetric]

theorem SourceTable.fds_update_of_ne (s : SourceTable) {p q : Prefix} {routerId id : RouterId}
    {seqno metric : UInt16} (h : (p, routerId) ≠ (q, id)) :
    (s.update q id seqno metric).fds[(p, routerId)]? = s.fds[(p, routerId)]? := by
  unfold update
  split_ifs
  · rfl
  · dsimp only
    split_ifs
    · simp [getElem?_insert, h]
    · rfl

namespace RouteTable

/-- The table as it stands immediately before the step reselects `p`. -/
def before (t : RouteTable) (op : Op) (p : Prefix) : RouteTable :=
  match op with
  | .update pfx routerId neighbour nextHop seqno advertised cost =>
    t.offer ⟨pfx, routerId, neighbour⟩ nextHop seqno advertised cost
  | .neighbourLost neighbour =>
    ((t.dropNeighbour neighbour).reselectAll
      ((t.affected neighbour).toList.takeWhile fun q => q ≠ p)).1

/-- A selection that the step moves to another key is feasible by the distances of its time. -/
def Lawful (t : RouteTable) (op : Op) : Prop :=
  ∀ (p : Prefix) (k : RouteKey) (nextHop : IpAddr) (metric : UInt16),
    (t.apply op).1.selected[p]? = some (k, nextHop, metric) →
    (t.selected[p]?).map Prod.fst ≠ some k →
      ∃ e, (t.apply op).1.routes[k]? = some e ∧
        (t.before op p).sources.isFeasible p k.routerId e.seqno e.advertised = true

/-- The least eligible route of `p` that a step leaves alone. -/
def fallback (t : RouteTable) (p : Prefix) (gone : RouteKey → Prop) [DecidablePred gone] :
    Option (RouteKey × RouteEntry) :=
  Argmin.argmin t.routes (fun r => Eligible p r ∧ ¬ gone r.1) rank

/-- A stored route is held against today's distances. -/
def stillFeasible (t : RouteTable) (p : Prefix) (r : RouteKey × RouteEntry) : Bool :=
  t.sources.isFeasible p r.1.routerId r.2.seqno r.2.advertised

/-- The step gives up the selected route of a prefix, or makes it worse than the best of the other
stored routes, and that one is no longer feasible. -/
def Stale (t : RouteTable) : Op → Prop
  | .update pfx routerId neighbour _ _ advertised cost =>
    t.isSelectedRoute ⟨pfx, routerId, neighbour⟩ = true ∧
      ∃ r, t.fallback pfx (fun k => k = ⟨pfx, routerId, neighbour⟩) = some r ∧
        (metricInfinity ≤ addMetric advertised cost ∨
          rank r ≤ ⟨addMetric advertised cost, ⟨pfx, routerId, neighbour⟩⟩) ∧
        t.stillFeasible pfx r = false
  | .neighbourLost neighbour =>
    ∃ p s r, t.selected[p]? = some s ∧ s.1.neighbour = neighbour ∧
      t.fallback p (fun k => k.neighbour = neighbour) = some r ∧ t.stillFeasible p r = false

section Fallback
variable {t : RouteTable} {p : Prefix} {gone : RouteKey → Prop} [DecidablePred gone]
  {r s : RouteKey × RouteEntry}

theorem fallback_iff : t.fallback p gone = some r ↔
    Argmin.Least t.routes (fun r => Eligible p r ∧ ¬ gone r.1) rank r :=
  Argmin.argmin_eq_some_iff rank_key

theorem best_iff : t.best p = some r ↔ Argmin.Least t.routes (Eligible p) rank r :=
  Argmin.argmin_eq_some_iff rank_key

/-- A selected route that the step leaves alone is still the least. -/
theorem fallback_of_best (hs : t.best p = some s) (hkeep : ¬ gone s.1) :
    t.fallback p gone = some s := by
  have hleast := best_iff.mp hs
  exact fallback_iff.mpr ⟨hleast.lookup, ⟨hleast.holds, hkeep⟩, fun e he hP => hleast.le e he hP.1⟩

/-- Without a selection there is nothing to fall back to. -/
theorem exists_selected (h : t.Consistent) (hr : t.fallback p gone = some r) :
    ∃ s, t.best p = some s ∧ t.selected[p]? = some (recorded s) := by
  have hleast := fallback_iff.mp hr
  cases hbest : t.best p with
  | none => exact absurd hleast.holds.1 (Argmin.argmin_eq_none_iff.mp hbest r hleast.lookup)
  | some s => exact ⟨s, rfl, by rw [h p, hbest]; rfl⟩

/-- Where the selection differs from the fallback, the step has touched the selected route. -/
theorem gone_of_ne (h : t.Consistent) (hr : t.fallback p gone = some r)
    (hne : (t.selected[p]?).map Prod.fst ≠ some r.1) :
    ∃ s, t.best p = some s ∧ t.selected[p]? = some (recorded s) ∧ gone s.1 := by
  obtain ⟨s, hs, hsel⟩ := exists_selected h hr
  refine ⟨s, hs, hsel, ?_⟩
  by_contra hkeep
  have heq : r = s := Option.some.inj (hr.symm.trans (fallback_of_best hs hkeep))
  rw [hsel, heq] at hne
  exact hne rfl

end Fallback

/-- A step that brings the selection of some prefixes to the best routes of `u`. -/
theorem lawful_iff (t u : RouteTable) (op : Op) (touched : Prefix → Prop)
    (hroutes : (t.apply op).1.routes = u.routes)
    (hselected : ∀ p : Prefix, touched p →
      (t.apply op).1.selected[p]? = (u.best p).map recorded)
    (hother : ∀ p : Prefix, ¬ touched p → (t.apply op).1.selected[p]? = t.selected[p]?)
    (hsources : ∀ p routerId seqno metric, (t.before op p).sources.isFeasible p routerId seqno metric =
      t.sources.isFeasible p routerId seqno metric) :
    t.Lawful op ↔ ∀ p r, touched p → u.best p = some r →
      (t.selected[p]?).map Prod.fst ≠ some r.1 → t.stillFeasible p r = true := by
  constructor
  · intro hlaw p r hp hbest hne
    have hnew : (t.apply op).1.selected[p]? = some (recorded r) := by
      rw [hselected p hp, hbest]
      rfl
    obtain ⟨e, he, hfeasible⟩ := hlaw p r.1 r.2.nextHop r.2.metric hnew hne
    rw [hroutes, (best_iff.mp hbest).lookup] at he
    rw [hsources, ← Option.some.inj he] at hfeasible
    exact hfeasible
  · intro hall p k nextHop metric hnew hne
    by_cases hp : touched p
    · rw [hselected p hp] at hnew
      obtain ⟨r, hr, heq⟩ := Option.map_eq_some_iff.mp hnew
      cases heq
      refine ⟨r.2, by rw [hroutes, (best_iff.mp hr).lookup], ?_⟩
      rw [hsources]
      exact hall p r hp hr hne
    · rw [hother p hp] at hnew
      rw [hnew] at hne
      exact absurd rfl hne

theorem isSelectedRoute_iff (t : RouteTable) (key : RouteKey) :
    t.isSelectedRoute key = true ↔ (t.selected[key.pfx]?).map Prod.fst = some key := by
  unfold isSelectedRoute
  cases t.selected[key.pfx]? with
  | none => simp
  | some s => simp

section Update
variable {t : RouteTable} {key : RouteKey} {nextHop : IpAddr} {seqno advertised cost : UInt16}

/-- The entry an update stores. -/
def received (t : RouteTable) (key : RouteKey) (nextHop : IpAddr) (seqno advertised cost : UInt16) :
    RouteEntry where
  seqno := seqno
  advertised := advertised
  cost := cost
  nextHop := nextHop
  feasible := t.isSelectedRoute key || t.sources.isFeasible key.pfx key.routerId seqno advertised

theorem routes_offer_self :
    (t.offer key nextHop seqno advertised cost).routes[key]? =
      if advertised = metricInfinity then none
      else some (t.received key nextHop seqno advertised cost) := by
  unfold offer
  split_ifs
  · simp
  · simp [received]

theorem sources_offer : (t.offer key nextHop seqno advertised cost).sources = t.sources := by
  unfold offer
  split_ifs
  · rfl
  · rfl

/-- A stored route that an update makes the best one is what it would fall back to. -/
theorem fallback_of_best_offer {r : RouteKey × RouteEntry}
    (hr : (t.offer key nextHop seqno advertised cost).best key.pfx = some r) (hne : r.1 ≠ key) :
    t.fallback key.pfx (fun k => k = key) = some r := by
  have hleast := best_iff.mp hr
  have hlookup := hleast.lookup
  rw [routes_offer_of_ne t hne] at hlookup
  refine fallback_iff.mpr ⟨hlookup, ⟨hleast.holds, hne⟩, ?_⟩
  intro e he hP
  exact hleast.le e (by rwa [routes_offer_of_ne t hP.2]) hP.1

/-- A refresh of the selected route counts as feasible, so it is eligible when it is finite. -/
theorem eligible_received (hsel : t.isSelectedRoute key = true) :
    Eligible key.pfx (key, t.received key nextHop seqno advertised cost) ↔
      addMetric advertised cost < metricInfinity := by
  simp [Eligible, received, hsel, RouteEntry.metric]

/-- When the selected route is updated, the fallback takes over exactly where the update does not
beat it. -/
theorem best_offer_iff (hsel : t.isSelectedRoute key = true) (nextHop : IpAddr) (seqno : UInt16)
    {r : RouteKey × RouteEntry} :
    ((t.offer key nextHop seqno advertised cost).best key.pfx = some r ∧ r.1 ≠ key) ↔
      t.fallback key.pfx (fun k => k = key) = some r ∧
        (metricInfinity ≤ addMetric advertised cost ∨ rank r ≤ ⟨addMetric advertised cost, key⟩) := by
  constructor
  · intro hmoved
    obtain ⟨hbest, hne⟩ := hmoved
    refine ⟨fallback_of_best_offer hbest hne, ?_⟩
    by_cases hfinite : addMetric advertised cost < metricInfinity
    · have hadv : advertised ≠ metricInfinity := by
        intro hadv
        rw [hadv, addMetric_infinity] at hfinite
        exact UInt16.lt_irrefl _ hfinite
      have hle := (best_iff.mp hbest).le (key, t.received key nextHop seqno advertised cost)
        (by rw [routes_offer_self, if_neg hadv]) ((eligible_received hsel).mpr hfinite)
      exact Or.inr hle
    · exact Or.inl (by grind)
  · intro htaken
    obtain ⟨hfall, hbeaten⟩ := htaken
    have hleast := fallback_iff.mp hfall
    have hne : r.1 ≠ key := hleast.holds.2
    refine ⟨best_iff.mpr ⟨?_, hleast.holds.1, ?_⟩, hne⟩
    · rw [routes_offer_of_ne t hne]
      exact hleast.lookup
    · intro e he helig
      by_cases hkey : e.1 = key
      · obtain ⟨k, v⟩ := e
        subst hkey
        rw [routes_offer_self] at he
        split_ifs at he
        have hv : v = t.received k nextHop seqno advertised cost := (Option.some.inj he).symm
        rw [hv] at helig ⊢
        rcases hbeaten with hinf | hle
        · have hfinite := (eligible_received hsel).mp helig
          grind
        · exact hle
      · rw [routes_offer_of_ne t hkey] at he
        exact hleast.le e he ⟨helig, hkey⟩

/-- An update that selects the route it brings, in place of another, has found it feasible. -/
theorem stillFeasible_of_best_offer {r : RouteKey × RouteEntry}
    (hbest : (t.offer key nextHop seqno advertised cost).best key.pfx = some r) (hkey : r.1 = key)
    (hsel : t.isSelectedRoute key = false) : t.stillFeasible key.pfx r = true := by
  obtain ⟨k, v⟩ := r
  subst hkey
  have hleast := best_iff.mp hbest
  have hlookup := hleast.lookup
  rw [routes_offer_self] at hlookup
  split_ifs at hlookup
  have hv : v = t.received k nextHop seqno advertised cost := (Option.some.inj hlookup).symm
  have hfeasible : v.feasible = true := hleast.holds.2.1
  rw [hv] at hfeasible ⊢
  unfold stillFeasible
  simpa [received, hsel] using hfeasible

theorem lawful_update_iff (h : t.Consistent) (key : RouteKey) :
    t.Lawful (.update key.pfx key.routerId key.neighbour nextHop seqno advertised cost) ↔
      ¬ t.Stale (.update key.pfx key.routerId key.neighbour nextHop seqno advertised cost) := by
  have hlaw := lawful_iff t (t.offer key nextHop seqno advertised cost)
    (.update key.pfx key.routerId key.neighbour nextHop seqno advertised cost)
    (fun q => q = key.pfx) (routes_reselect _ _)
    (fun q hq => by
      change ((t.offer key nextHop seqno advertised cost).reselect key.pfx).1.selected[q]? = _
      rw [selected_reselect, if_pos hq, hq])
    (fun q hq => by
      change ((t.offer key nextHop seqno advertised cost).reselect key.pfx).1.selected[q]? = _
      rw [selected_reselect, if_neg hq, selected_offer])
    (fun q routerId s m => by
      change (t.offer key nextHop seqno advertised cost).sources.isFeasible q routerId s m = _
      rw [sources_offer])
  rw [hlaw]
  constructor
  · intro hall hstale
    obtain ⟨hsel, r, hfall, hbeaten, hinfeasible⟩ := hstale
    obtain ⟨hbest, hne⟩ := (best_offer_iff hsel nextHop seqno).mpr ⟨hfall, hbeaten⟩
    have hkey := (isSelectedRoute_iff t key).mp hsel
    have htrue := hall key.pfx r rfl hbest (by
      rw [hkey]
      exact fun heq => hne (Option.some.inj heq).symm)
    rw [htrue] at hinfeasible
    cases hinfeasible
  · intro hfresh q r hq hbest hne
    subst hq
    by_cases hkey : r.1 = key
    · refine stillFeasible_of_best_offer hbest hkey ?_
      by_contra hsel
      rw [(isSelectedRoute_iff t key).mp (by simpa using hsel), hkey] at hne
      exact hne rfl
    · have hfall := fallback_of_best_offer hbest hkey
      obtain ⟨s, -, hrecorded, hgone⟩ := gone_of_ne h hfall hne
      have hsel : t.isSelectedRoute key = true := by
        rw [isSelectedRoute_iff, hrecorded, ← hgone]
        rfl
      have hbeaten := ((best_offer_iff hsel nextHop seqno).mp ⟨hbest, hkey⟩).2
      by_contra hinfeasible
      exact hfresh ⟨hsel, r, hfall, hbeaten, by simpa using hinfeasible⟩

end Update

section Lost
variable {t : RouteTable} {neighbour : IpAddr}

theorem best_dropNeighbour_eq_fallback (p : Prefix) :
    (t.dropNeighbour neighbour).best p = t.fallback p (fun k => k.neighbour = neighbour) := by
  apply Argmin.argmin_congr rank_key
  intro e
  rw [routes_dropNeighbour]
  by_cases hn : e.1.neighbour = neighbour
  · simp [hn]
  · simp [hn]

/-- Reselection of one prefix leaves the distances of all others alone. -/
theorem isFeasible_reselect_of_ne (t : RouteTable) {p q : Prefix} (hpq : p ≠ q)
    (routerId : RouterId) (seqno metric : UInt16) :
    (t.reselect q).1.sources.isFeasible p routerId seqno metric =
      t.sources.isFeasible p routerId seqno metric := by
  have hupdate : ∀ (s : SourceTable) (id : RouterId) (n m : UInt16),
      (s.update q id n m).isFeasible p routerId seqno metric =
        s.isFeasible p routerId seqno metric := by
    intro s id n m
    unfold SourceTable.isFeasible
    rw [SourceTable.fds_update_of_ne s fun heq => hpq (congrArg Prod.fst heq)]
  unfold reselect
  split
  · dsimp only
    split_ifs
    · exact hupdate _ _ _ _
    · exact hupdate _ _ _ _
  · rfl

theorem isFeasible_reselectAll_of_notMem (t : RouteTable) {p : Prefix} {ps : List Prefix}
    (hp : p ∉ ps) (routerId : RouterId) (seqno metric : UInt16) :
    (t.reselectAll ps).1.sources.isFeasible p routerId seqno metric =
      t.sources.isFeasible p routerId seqno metric := by
  induction ps generalizing t with
  | nil => rfl
  | cons q ps ih =>
    simp only [List.mem_cons, not_or] at hp
    rw [reselectAll, ih _ hp.2, isFeasible_reselect_of_ne t hp.1]

theorem isFeasible_before_neighbourLost (t : RouteTable) (neighbour : IpAddr) (p : Prefix)
    (routerId : RouterId) (seqno metric : UInt16) :
    (t.before (.neighbourLost neighbour) p).sources.isFeasible p routerId seqno metric =
      t.sources.isFeasible p routerId seqno metric := by
  have hp : p ∉ (t.affected neighbour).toList.takeWhile fun q => q ≠ p := by
    intro hmem
    have hne := List.mem_takeWhile_imp hmem
    simp at hne
  exact isFeasible_reselectAll_of_notMem (t.dropNeighbour neighbour) hp routerId seqno metric

theorem lawful_neighbourLost_iff (h : t.Consistent) (neighbour : IpAddr) :
    t.Lawful (.neighbourLost neighbour) ↔ ¬ t.Stale (.neighbourLost neighbour) := by
  have hlaw := lawful_iff t (t.dropNeighbour neighbour) (.neighbourLost neighbour)
    (fun q => q ∈ (t.affected neighbour).toList) (routes_reselectAll _ _)
    (fun q hq => by
      change ((t.dropNeighbour neighbour).reselectAll _).1.selected[q]? = _
      rw [selected_reselectAll, if_pos hq])
    (fun q hq => by
      change ((t.dropNeighbour neighbour).reselectAll _).1.selected[q]? = _
      rw [selected_reselectAll, if_neg hq]
      rfl)
    (isFeasible_before_neighbourLost t neighbour)
  rw [hlaw]
  constructor
  · intro hall hstale
    obtain ⟨p, s, r, hsel, hn, hfall, hinfeasible⟩ := hstale
    obtain ⟨a, ha, hrecorded⟩ := exists_selected h hfall
    have has : recorded a = s := Option.some.inj (hrecorded.symm.trans hsel)
    have hleast := best_iff.mp ha
    have haffected : p ∈ t.affected neighbour := by
      refine (mem_affected t neighbour p).mpr ⟨a.1, ?_, ?_, hleast.holds.1⟩
      · rw [ExtTreeMap.mem_iff_isSome_getElem?, hleast.lookup]
        rfl
      · rw [← hn, ← has]
        rfl
    have hne : (t.selected[p]?).map Prod.fst ≠ some r.1 := by
      rw [hsel]
      intro heq
      have hkey : s.1 = r.1 := Option.some.inj heq
      exact (fallback_iff.mp hfall).holds.2 (hkey ▸ hn)
    have htrue := hall p r (ExtTreeSet.mem_toList.mpr haffected)
      (by rw [best_dropNeighbour_eq_fallback, hfall]) hne
    rw [htrue] at hinfeasible
    cases hinfeasible
  · intro hfresh p r _ hbest hne
    rw [best_dropNeighbour_eq_fallback] at hbest
    obtain ⟨s, -, hrecorded, hgone⟩ := gone_of_ne h hbest hne
    by_contra hinfeasible
    exact hfresh ⟨p, recorded s, r, hrecorded, hgone, hbest, by simpa using hinfeasible⟩

end Lost

/-- Along any run, every change of a selection to another key is to a feasible route exactly when
no step makes a prefix fall back to a stored route that is feasible no longer. -/
theorem every_lawful_iff (ops : List Op) :
    Run.Every (fun t op => (t.apply op).1) Lawful new ops ↔
      Run.Every (fun t op => (t.apply op).1) (fun t op => ¬ t.Stale op) new ops := by
  refine Run.every_congr Consistent (fun t op h => consistent_apply h op) ?_ consistent_new ops
  intro t op h
  cases op with
  | update p routerId neighbour nextHop seqno advertised cost =>
    exact lawful_update_iff h ⟨p, routerId, neighbour⟩
  | neighbourLost neighbour => exact lawful_neighbourLost_iff h neighbour

/-- A second neighbour brings a newer sequence number and is lost again: the selection goes back
to the first, whose older number is no longer feasible. -/
theorem not_lawful_after_fallback :
    ¬ Run.Every (fun t op => (t.apply op).1) Lawful new
      [.update Sample.net (Vector.replicate 8 1) (.v6 1) (.v6 1) 1 100 50,
        .update Sample.net (Vector.replicate 8 1) (.v6 2) (.v6 2) 2 100 10,
        .neighbourLost (.v6 2)] := by
  intro h
  obtain ⟨e, he, hfeasible⟩ := h.2.2.1 Sample.net ⟨Sample.net, Vector.replicate 8 1, .v6 1⟩ (.v6 1) 150
    (by decide +kernel) (by decide +kernel)
  have hentry : (run [.update Sample.net (Vector.replicate 8 1) (.v6 1) (.v6 1) 1 100 50,
      .update Sample.net (Vector.replicate 8 1) (.v6 2) (.v6 2) 2 100 10,
      .neighbourLost (.v6 2)]).routes[(⟨Sample.net, Vector.replicate 8 1, .v6 1⟩ : RouteKey)]? =
        some ⟨1, 100, 50, .v6 1, true⟩ := by
    decide +kernel
  have heq : e = ⟨1, 100, 50, .v6 1, true⟩ := Option.some.inj (he.symm.trans hentry)
  rw [heq] at hfeasible
  revert hfeasible
  decide +kernel

end RouteTable
end Wren.Babel
