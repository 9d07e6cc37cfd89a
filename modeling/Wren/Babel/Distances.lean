import Wren.Babel.Feasibility

/-! The distance of a table to a network that one router alone originates, always with the same number: every step
that falls back on no stale route lowers it or keeps the next hop. -/

namespace Wren.Babel
open Std OrdMap Wren.Core

section Source
variable {p : Prefix} {id : RouterId} {n : UInt16}

/-- The distance to `p` by the routes that `id` originated. -/
def SourceTable.label (p : Prefix) (id : RouterId) (s : SourceTable) : WithTop ℕ :=
  (s.distance p id).elim ⊤ fun fd => .some fd.metric.toNat

/-- Every distance was committed to with the number `n`. -/
def SourceTable.Numbered (p : Prefix) (id : RouterId) (n : UInt16) (s : SourceTable) : Prop :=
  ∀ fd, s.distance p id = some fd → fd.seqno = n

theorem strictlyBetter_same (n metric : UInt16) (fd : Fd) (h : fd.seqno = n) :
    strictlyBetter n metric fd = true ↔ metric.toNat < fd.metric.toNat := by
  simp [strictlyBetter, seqnoNewer, h, UInt16.lt_iff_toNat_lt]

theorem SourceTable.isFeasible_iff {s : SourceTable} (h : s.Numbered p id n) {metric : UInt16}
    (hfinite : metric ≠ metricInfinity) :
    s.isFeasible p id n metric = true ↔ WithTop.some metric.toNat < s.label p id := by
  unfold isFeasible label distance
  rw [if_neg hfinite]
  cases hfd : s.fds[(p, id)]? with
  | none => simp
  | some fd =>
    exact (strictlyBetter_same n metric fd (h fd hfd)).trans WithTop.coe_lt_coe.symm

theorem SourceTable.numbered_update {s : SourceTable} (h : s.Numbered p id n) (metric : UInt16) :
    (s.update p id n metric).Numbered p id n := by
  unfold update
  split_ifs
  · exact h
  · dsimp only
    split_ifs
    · intro fd hfd
      rw [distance, getElem?_insert, if_pos rfl] at hfd
      rw [← Option.some.inj hfd]
    · exact h

theorem SourceTable.label_update {s : SourceTable} (h : s.Numbered p id n) {metric : UInt16}
    (hfinite : metric ≠ metricInfinity) :
    (s.update p id n metric).label p id = min (s.label p id) (.some metric.toNat) := by
  have hfeasible := isFeasible_iff h hfinite
  unfold isFeasible at hfeasible
  unfold update
  rw [if_neg hfinite] at hfeasible ⊢
  dsimp only
  split_ifs with hbetter
  · rw [min_eq_right (hfeasible.mp hbetter).le]
    simp [label, distance]
  · rw [min_eq_left (le_of_not_gt fun hlt => hbetter (hfeasible.mpr hlt))]

theorem SourceTable.label_update_of_ne (s : SourceTable) {q : Prefix} (hq : p ≠ q) (a : RouterId) (m metric : UInt16) :
    (s.update q a m metric).label p id = s.label p id := by
  unfold label distance
  rw [fds_update_of_ne s fun heq => hq (congrArg Prod.fst heq)]

theorem SourceTable.numbered_update_of_ne {s : SourceTable} (h : s.Numbered p id n) {q : Prefix} (hq : p ≠ q)
    (a : RouterId) (m metric : UInt16) : (s.update q a m metric).Numbered p id n := by
  intro fd hfd
  rw [distance, fds_update_of_ne s fun heq => hq (congrArg Prod.fst heq)] at hfd
  exact h fd hfd

end Source

namespace RouteTable

/-- The step makes `p` fall back to a stored route that is no longer feasible. -/
def StaleFor (p : Prefix) (t : RouteTable) : Op → Prop
  | .update pfx routerId neighbour _ _ advertised cost =>
    pfx = p ∧ t.isSelectedRoute ⟨pfx, routerId, neighbour⟩ = true ∧
      ∃ r ∈ t.fallback pfx (fun k => k = ⟨pfx, routerId, neighbour⟩),
        (metricInfinity ≤ addMetric advertised cost ∨
          rank r ≤ ⟨addMetric advertised cost, ⟨pfx, routerId, neighbour⟩⟩) ∧
        t.stillFeasible pfx r = false
  | .neighbourLost neighbour =>
    ∃ s ∈ t.selected[p]?, s.1.neighbour = neighbour ∧
      ∃ r ∈ t.fallback p (fun k => k.neighbour = neighbour), t.stillFeasible p r = false

instance (p : Prefix) (t : RouteTable) : DecidablePred (t.StaleFor p)
  | .update .. => inferInstanceAs (Decidable (_ ∧ _ ∧ _))
  | .neighbourLost _ => inferInstanceAs (Decidable (∃ s ∈ _, _))

section Reselect
variable {p : Prefix} {id : RouterId} {n : UInt16} {t : RouteTable}

theorem sources_reselect (t : RouteTable) (q : Prefix) :
    (t.reselect q).1.sources =
      (t.best q).elim t.sources fun e => t.sources.update q e.1.routerId e.2.seqno e.2.advertised := by
  unfold reselect
  cases t.best q with
  | none => rfl
  | some e =>
    dsimp only
    split_ifs
    · rfl
    · rfl

/-- What is known of the best route: its originator, its number, and that it is reachable. -/
def BestOf (p : Prefix) (id : RouterId) (n : UInt16) (t : RouteTable) : Prop :=
  ∀ e, t.best p = some e → e.1.routerId = id ∧ e.2.seqno = n ∧ e.2.advertised ≠ metricInfinity

/-- The distance once the best route is committed to. -/
def committed (p : Prefix) (id : RouterId) (t : RouteTable) : WithTop ℕ :=
  (t.best p).elim (t.sources.label p id) fun e => min (t.sources.label p id) (.some e.2.advertised.toNat)

theorem label_reselect (hbest : t.BestOf p id n) (hnum : t.sources.Numbered p id n) :
    (t.reselect p).1.sources.label p id = t.committed p id ∧ (t.reselect p).1.sources.Numbered p id n := by
  rw [sources_reselect, committed]
  cases he : t.best p with
  | none => exact ⟨rfl, hnum⟩
  | some e =>
    obtain ⟨hid, hseqno, hfinite⟩ := hbest e he
    rw [Option.elim_some, Option.elim_some, hid, hseqno]
    exact ⟨SourceTable.label_update hnum hfinite, SourceTable.numbered_update hnum _⟩

theorem label_reselect_of_ne {q : Prefix} (hq : p ≠ q) (hnum : t.sources.Numbered p id n) :
    (t.reselect q).1.sources.label p id = t.sources.label p id ∧ (t.reselect q).1.sources.Numbered p id n := by
  rw [sources_reselect]
  cases t.best q with
  | none => exact ⟨rfl, hnum⟩
  | some e =>
    exact ⟨SourceTable.label_update_of_ne _ hq _ _ _, SourceTable.numbered_update_of_ne hnum hq _ _ _⟩

theorem label_reselectAll (hbest : t.BestOf p id n) (hnum : t.sources.Numbered p id n) (ps : List Prefix) :
    (t.reselectAll ps).1.sources.label p id = (if p ∈ ps then t.committed p id else t.sources.label p id) ∧
      (t.reselectAll ps).1.sources.Numbered p id n := by
  induction ps generalizing t with
  | nil => exact ⟨by simp [reselectAll], hnum⟩
  | cons q ps ih =>
    have hbest' : (t.reselect q).1.BestOf p id n := by
      unfold BestOf
      rw [best_reselect]
      exact hbest
    by_cases hq : p = q
    · subst hq
      obtain ⟨hlabel, hnum'⟩ := label_reselect hbest hnum
      obtain ⟨hrest, hlast⟩ := ih hbest' hnum'
      refine ⟨?_, hlast⟩
      rw [reselectAll, hrest, if_pos (List.mem_cons_self ..)]
      have hagain : (t.reselect p).1.committed p id = t.committed p id := by
        simp only [committed, best_reselect, hlabel]
        cases t.best p with
        | none => rfl
        | some e => simp
      split_ifs
      · exact hagain
      · exact hlabel
    · obtain ⟨hlabel, hnum'⟩ := label_reselect_of_ne hq hnum
      obtain ⟨hrest, hlast⟩ := ih hbest' hnum'
      refine ⟨?_, hlast⟩
      have hsame : (t.reselect q).1.committed p id = t.committed p id := by
        simp only [committed, best_reselect, hlabel]
      rw [reselectAll, hrest, hsame, hlabel]
      simp [hq]

end Reselect

/-- A route to `p` as it has to be: by `id`, with the number `n`, over a link with a cost, and with a distance that the
neighbour has announced. -/
structure Stored (id : RouterId) (n : UInt16) (heard : IpAddr → ℕ → Prop) (k : RouteKey) (e : RouteEntry) : Prop where
  routerId : k.routerId = id
  seqno : e.seqno = n
  cost : e.cost ≠ 0
  finite : e.advertised ≠ metricInfinity
  nextHop : e.nextHop = k.neighbour
  heard : heard k.neighbour e.advertised.toNat

/-- All routes to `p` are such, and the table has gone by no more than the distance of the best one. -/
structure Sole (p : Prefix) (id : RouterId) (n : UInt16) (heard : IpAddr → ℕ → Prop) (t : RouteTable) : Prop where
  consistent : t.Consistent
  routes : ∀ k e, t.routes[k]? = some e → k.pfx = p → Stored id n heard k e
  numbered : t.sources.Numbered p id n
  best : ∀ e, t.best p = some e → t.sources.label p id ≤ .some e.2.advertised.toNat

/-- The distance falls, and the next hop stays together with it or has announced no more than it. -/
structure Moves (p : Prefix) (id : RouterId) (heard : IpAddr → ℕ → Prop) (t u : RouteTable) : Prop where
  label_le : u.sources.label p id ≤ t.sources.label p id
  next : ∀ s', u.selected[p]? = some s' →
    (∃ s, t.selected[p]? = some s ∧ s.2.1 = s'.2.1 ∧ u.sources.label p id = t.sources.label p id) ∨
      ∃ d, heard s'.2.1 d ∧ .some d ≤ u.sources.label p id

section Run
variable {p : Prefix} {id : RouterId} {n : UInt16} {heard heard' : IpAddr → ℕ → Prop} {t u v : RouteTable}

theorem Moves.refl (t : RouteTable) : Moves p id heard t t := ⟨le_rfl, fun s' hs' => .inl ⟨s', hs', rfl, rfl⟩⟩

theorem Moves.trans (h : Moves p id heard t u) (h' : Moves p id heard u v) : Moves p id heard t v := by
  refine ⟨h'.label_le.trans h.label_le, ?_⟩
  intro s'' hs''
  rcases h'.next s'' hs'' with ⟨s', hs', hhop', hlabel'⟩ | hnew
  · rcases h.next s' hs' with ⟨s, hs, hhop, hlabel⟩ | ⟨d, hd, hle⟩
    · exact .inl ⟨s, hs, hhop.trans hhop', hlabel'.trans hlabel⟩
    · exact .inr ⟨d, hhop' ▸ hd, hlabel'.symm ▸ hle⟩
  · exact .inr hnew

theorem Moves.mono (h : Moves p id heard t u) (hheard : ∀ a d, heard a d → heard' a d) : Moves p id heard' t u := by
  refine ⟨h.label_le, ?_⟩
  intro s' hs'
  rcases h.next s' hs' with hold | ⟨d, hd, hle⟩
  · exact .inl hold
  · exact .inr ⟨d, hheard _ _ hd, hle⟩

theorem Stored.mono {k : RouteKey} {e : RouteEntry} (h : Stored id n heard k e)
    (hheard : ∀ a d, heard a d → heard' a d) : Stored id n heard' k e :=
  { h with heard := hheard _ _ h.heard }

theorem Sole.mono (h : t.Sole p id n heard) (hheard : ∀ a d, heard a d → heard' a d) : t.Sole p id n heard' :=
  { h with routes := fun k e he hk => (h.routes k e he hk).mono hheard }

theorem sole_new : new.Sole p id n heard where
  consistent := consistent_new
  routes k e he := by simp [new] at he
  numbered fd hfd := by simp [new, SourceTable.distance] at hfd
  best e he := by
    have hlookup := (best_iff.mp he).lookup
    simp [new] at hlookup

/-- Over a link with a cost a route gets worse. -/
theorem lt_addMetric {metric cost : UInt16} (hcost : cost ≠ 0) (hfinite : addMetric metric cost < metricInfinity) :
    metric.toNat < (addMetric metric cost).toNat := by
  have hpos : cost.toNat ≠ 0 := by
    intro hzero
    exact hcost (UInt16.toNat_inj.mp hzero)
  unfold addMetric at hfinite ⊢
  split_ifs at hfinite ⊢ with hinf
  · exact absurd hfinite (UInt16.lt_irrefl _)
  · unfold saturatingAdd at hfinite ⊢
    split_ifs at hfinite ⊢ with hfits
    · rw [UInt16.toNat_add, Nat.mod_eq_of_lt hfits]
      omega
    · exact absurd hfinite (UInt16.lt_irrefl _)

/-- The metric of the selected route lies above the distance. -/
theorem Sole.label_lt (h : t.Sole p id n heard) {s : RouteKey × IpAddr × UInt16} (hs : t.selected[p]? = some s) :
    t.sources.label p id < .some s.2.2.toNat := by
  rw [h.consistent p] at hs
  obtain ⟨e, he, rfl⟩ := Option.map_eq_some_iff.mp hs
  have hleast := best_iff.mp he
  have hstored := h.routes e.1 e.2 hleast.lookup hleast.holds.1
  have hlt := lt_addMetric hstored.cost hleast.holds.2.2
  exact (h.best e he).trans_lt (WithTop.coe_lt_coe.mpr hlt)

/-- A step that leaves `p` alone. -/
theorem Sole.keep (h : t.Sole p id n heard) (hconsistent : u.Consistent)
    (hroutes : ∀ k : RouteKey, k.pfx = p → u.routes[k]? = t.routes[k]?)
    (hlabel : u.sources.label p id = t.sources.label p id) (hnum : u.sources.Numbered p id n) :
    u.Sole p id n heard ∧ Moves p id heard t u := by
  have hbest : u.best p = t.best p := best_congr hroutes
  have hselected : u.selected[p]? = t.selected[p]? := by
    rw [hconsistent p, h.consistent p, hbest]
  constructor
  · refine ⟨hconsistent, ?_, hnum, ?_⟩
    · intro k e he hk
      exact h.routes k e (hroutes k hk ▸ he) hk
    · intro e he
      rw [hlabel]
      exact h.best e (hbest ▸ he)
  · exact ⟨hlabel.le, fun s' hs' => .inl ⟨s', hselected ▸ hs', rfl, hlabel⟩⟩

/-- A step that brings `p` to its best route in `u`, where that one is the selected one or feasible still. -/
theorem Sole.commit (h : t.Sole p id n heard) (hsources : u.sources = t.sources) (hconsistent : v.Consistent)
    (hstored : ∀ k e, u.routes[k]? = some e → k.pfx = p → Stored id n heard k e) (hroutes : v.routes = u.routes)
    (hlabel : v.sources.label p id = u.committed p id) (hnum : v.sources.Numbered p id n)
    (hfresh : ∀ e, u.best p = some e → (t.selected[p]?).map Prod.fst ≠ some e.1 → t.stillFeasible p e = true) :
    v.Sole p id n heard ∧ Moves p id heard t v := by
  have hbest : v.best p = u.best p := best_congr fun k _ => by rw [hroutes]
  have hle : v.sources.label p id ≤ t.sources.label p id := by
    rw [hlabel, committed, hsources]
    cases u.best p with
    | none => exact le_rfl
    | some e => exact min_le_left _ _
  constructor
  · refine ⟨hconsistent, fun k e he => hstored k e (hroutes ▸ he), hnum, ?_⟩
    intro e he
    rw [hlabel, committed, ← hbest, he]
    exact min_le_right _ _
  · refine ⟨hle, ?_⟩
    intro s' hs'
    rw [hconsistent p, hbest] at hs'
    obtain ⟨e, he, rfl⟩ := Option.map_eq_some_iff.mp hs'
    have hleast := best_iff.mp he
    have hnew := hstored e.1 e.2 hleast.lookup hleast.holds.1
    have hhop : (recorded e).2.1 = e.1.neighbour := hnew.nextHop
    have hmin : v.sources.label p id = min (t.sources.label p id) (.some e.2.advertised.toNat) := by
      rw [hlabel, committed, he, hsources]
      rfl
    by_cases hlt : WithTop.some e.2.advertised.toNat < t.sources.label p id
    · refine .inr ⟨e.2.advertised.toNat, hhop ▸ hnew.heard, ?_⟩
      rw [hmin, min_eq_right hlt.le]
    · -- no nearer than before, so it is the route that was selected
      have hkey : (t.selected[p]?).map Prod.fst = some e.1 := by
        by_contra hne
        have htrue := hfresh e he hne
        unfold stillFeasible at htrue
        rw [hnew.routerId, hnew.seqno, SourceTable.isFeasible_iff h.numbered hnew.finite] at htrue
        exact hlt htrue
      obtain ⟨s, hs, hskey⟩ := Option.map_eq_some_iff.mp hkey
      refine .inl ⟨s, hs, ?_, ?_⟩
      · rw [h.consistent p] at hs
        obtain ⟨a, ha, rfl⟩ := Option.map_eq_some_iff.mp hs
        have hold := best_iff.mp ha
        rw [hhop, ← hskey]
        exact (h.routes a.1 a.2 hold.lookup hold.holds.1).nextHop
      · rw [hmin, min_eq_left (le_of_not_gt hlt)]

/-- What an operation brings for `p` is as it has to be. -/
def Op.Heard (p : Prefix) (id : RouterId) (n : UInt16) (heard : IpAddr → ℕ → Prop) : Op → Prop
  | .update pfx routerId neighbour nextHop seqno advertised cost =>
    pfx = p → advertised ≠ metricInfinity →
      ∀ feasible, Stored id n heard ⟨pfx, routerId, neighbour⟩ ⟨seqno, advertised, cost, nextHop, feasible⟩
  | .neighbourLost _ => True

theorem Sole.update (h : t.Sole p id n heard) (key : RouteKey) {nextHop : IpAddr} {seqno advertised cost : UInt16}
    (hop : Op.Heard p id n heard (.update key.pfx key.routerId key.neighbour nextHop seqno advertised cost))
    (hfresh : ¬ t.StaleFor p (.update key.pfx key.routerId key.neighbour nextHop seqno advertised cost)) :
    (t.update key.pfx key.routerId key.neighbour nextHop seqno advertised cost).1.Sole p id n heard ∧
      Moves p id heard t (t.update key.pfx key.routerId key.neighbour nextHop seqno advertised cost).1 := by
  have hconsistent := consistent_update h.consistent key.pfx key.routerId key.neighbour nextHop seqno advertised cost
  have hsources : (t.offer key nextHop seqno advertised cost).sources = t.sources := sources_offer
  have hnum : (t.offer key nextHop seqno advertised cost).sources.Numbered p id n := hsources ▸ h.numbered
  by_cases hp : key.pfx = p
  · have hstored : ∀ k e, (t.offer key nextHop seqno advertised cost).routes[k]? = some e → k.pfx = p →
        Stored id n heard k e := by
      intro k e he hk
      by_cases hkey : k = key
      · subst hkey
        rw [routes_offer_self] at he
        split_ifs at he with hinf
        rw [← Option.some.inj he]
        exact hop hp hinf _
      · rw [routes_offer_of_ne t hkey] at he
        exact h.routes k e he hk
    have hbest : (t.offer key nextHop seqno advertised cost).BestOf p id n := by
      intro e he
      have hleast := best_iff.mp he
      have hnew := hstored e.1 e.2 hleast.lookup hleast.holds.1
      exact ⟨hnew.routerId, hnew.seqno, hnew.finite⟩
    obtain ⟨hlabel, hnum'⟩ := label_reselect hbest hnum
    rw [← hp] at hlabel hnum'
    refine h.commit hsources hconsistent hstored (routes_reselect _ _) (by rw [← hp]; exact hlabel)
      (by rw [← hp]; exact hnum') ?_
    intro e he hne
    have hlawful : t.Lawful (.update key.pfx key.routerId key.neighbour nextHop seqno advertised cost) := by
      refine (lawful_update_iff h.consistent key).mpr fun hstale => hfresh ?_
      obtain ⟨hsel, r, hfall, hbeaten, hinfeasible⟩ := hstale
      exact ⟨hp, hsel, r, hfall, hbeaten, hinfeasible⟩
    have hselected : (t.apply (.update key.pfx key.routerId key.neighbour nextHop seqno advertised cost)).1.selected[p]? =
        some (recorded e) := by
      have hsel := selected_reselect (t.offer key nextHop seqno advertised cost) p p
      rw [if_pos rfl, he] at hsel
      rw [← hp] at hsel ⊢
      exact hsel
    obtain ⟨e', he', hfeasible⟩ := hlawful p e.1 e.2.nextHop e.2.metric hselected hne
    have hroutes : (t.apply (.update key.pfx key.routerId key.neighbour nextHop seqno advertised cost)).1.routes =
        (t.offer key nextHop seqno advertised cost).routes := routes_reselect _ _
    rw [hroutes, (best_iff.mp he).lookup] at he'
    rw [← Option.some.inj he'] at hfeasible
    change (t.offer key nextHop seqno advertised cost).sources.isFeasible _ _ _ _ = true at hfeasible
    rw [hsources] at hfeasible
    exact hfeasible
  · obtain ⟨hlabel, hnum'⟩ := label_reselect_of_ne (Ne.symm hp) hnum
    refine h.keep hconsistent ?_ (hlabel.trans (by rw [hsources])) hnum'
    intro k hk
    have hne : k ≠ key := by
      rintro rfl
      exact hp hk
    exact (congrArg (·[k]?) (routes_reselect _ _)).trans (routes_offer_of_ne t hne _ _ _ _)

theorem Sole.neighbourLost (h : t.Sole p id n heard) {neighbour : IpAddr}
    (hfresh : ¬ t.StaleFor p (.neighbourLost neighbour)) :
    (t.neighbourLost neighbour).1.Sole p id n heard ∧ Moves p id heard t (t.neighbourLost neighbour).1 := by
  have hconsistent := consistent_neighbourLost h.consistent neighbour
  have hstored : ∀ k e, (t.dropNeighbour neighbour).routes[k]? = some e → k.pfx = p → Stored id n heard k e := by
    intro k e he hk
    rw [routes_dropNeighbour] at he
    split_ifs at he
    exact h.routes k e he hk
  have hbest : (t.dropNeighbour neighbour).BestOf p id n := by
    intro e he
    have hleast := best_iff.mp he
    have hnew := hstored e.1 e.2 hleast.lookup hleast.holds.1
    exact ⟨hnew.routerId, hnew.seqno, hnew.finite⟩
  obtain ⟨hlabel, hnum⟩ := label_reselectAll hbest h.numbered (t.affected neighbour).toList
  have hroutes := routes_reselectAll (t.dropNeighbour neighbour) (t.affected neighbour).toList
  by_cases hp : p ∈ (t.affected neighbour).toList
  · rw [if_pos hp] at hlabel
    refine h.commit (u := t.dropNeighbour neighbour) rfl hconsistent hstored hroutes hlabel hnum ?_
    intro e he hne
    rw [best_dropNeighbour_eq_fallback] at he
    obtain ⟨s, -, hrecorded, hgone⟩ := gone_of_ne h.consistent he hne
    by_contra hinfeasible
    exact hfresh ⟨recorded s, hrecorded, hgone, e, he, by simpa using hinfeasible⟩
  · rw [if_neg hp] at hlabel
    refine h.keep hconsistent ?_ hlabel hnum
    intro k hk
    refine (congrArg (·[k]?) hroutes).trans ?_
    rw [routes_dropNeighbour]
    split_ifs with hn
    · by_contra hne
      refine hp (ExtTreeSet.mem_toList.mpr ((mem_affected t neighbour p).mpr ⟨k, ?_, hn, hk⟩))
      rw [ExtTreeMap.mem_iff_isSome_getElem?]
      exact Option.isSome_iff_ne_none.mpr (Ne.symm hne)
    · rfl

end Run

end RouteTable
end Wren.Babel
