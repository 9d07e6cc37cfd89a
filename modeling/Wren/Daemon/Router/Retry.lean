import Wren.Daemon.Router.Mirror

/-! The retry queue under failing writes. Which key differs from its best route is known from the
queue, until a removal is asked for that the export record has already forgotten. -/

namespace Wren.Daemon
open Std OrdMap Wren.Core Wren.Filter

namespace Cell

/-- A forwarding entry that differs from the best route waits for a retry. -/
def Queued (best : Option Route) (x : Cell) : Prop := x.installed ≠ best → x.failed = true

/-- The plane holds a route of which the export record knows nothing. -/
def Orphaned (x : Cell) : Prop := x.installed ≠ none ∧ x.exported = none

/-- Without an export filter or connected routes, a change leaves its key right or queued unless
it is the removal of an orphan. -/
theorem queued_program_iff (x : Cell) (ok : Bool) (c : FibChange)
    (hc : ∀ r, c.target = some r → r.protocol ≠ .connected) :
    (x.program none ok c).Queued c.target ↔ ¬ (c.target = none ∧ x.Orphaned) := by
  cases c with
  | install route =>
    have hx : x.program none ok (.install route) =
        if ok then ⟨some route, some route, false⟩ else { x with failed := true } :=
      program_accept ok x (hc route rfl) rfl
    rw [hx]
    refine iff_of_true ?_ (by simp [FibChange.target])
    cases ok with
    | true => exact fun hne => absurd rfl hne
    | false => exact fun _ => rfl
  | remove table pfx =>
    by_cases hwas : x.exported.isSome = true
    · have hsome : x.exported ≠ none := Option.isSome_iff_ne_none.mp hwas
      refine iff_of_true ?_ fun h => hsome h.2.2
      simp only [program, if_pos hwas, remove]
      cases ok with
      | true => exact fun hne => absurd rfl hne
      | false => exact fun _ => rfl
    · have hnone : x.exported = none := by simpa using hwas
      simp [program, Queued, FibChange.target, Orphaned, hnone]

theorem failed_program (x : Cell) (c : FibChange)
    (hc : ∀ r, c.target = some r → r.protocol ≠ .connected) :
    (x.program none true c).failed = false := by
  cases c with
  | install route => rw [program_accept true x (hc route rfl) rfl, if_pos rfl]
  | remove table pfx =>
    change (if x.exported.isSome = true then x.remove true else { x with failed := false }).failed = _
    split_ifs
    · rfl
    · rfl

end Cell

namespace Router

/-- Every key whose forwarding entry differs from its best route is in the retry queue. -/
def Queued (s : Router FlakyFib) : Prop :=
  ∀ k : FibKey, s.plane.fib.inner.installed[k]? ≠ s.rib.bestIn k → k ∈ s.plane.failed

/-- The step asks to unprogram a key that the plane still holds, but the export record does not. -/
def Orphans (s : Router FlakyFib) (ev : Event) : Prop :=
  ∃ c ∈ s.changes ev, c.target = none ∧ s.plane.fib.inner.installed[c.fibKey]? ≠ none ∧
    s.plane.exported[c.fibKey]? = none

end Router

/-- No connected route comes in, and no export filter is set. -/
def Event.Plain : Event → Prop
  | .updates first queued => ∀ r, .announce r ∈ first :: queued → r.protocol ≠ .connected
  | .subscribe _ => True
  | .reload statics => ∀ r ∈ statics, r.protocol ≠ .connected
  | .filterReload _ fibExport => fibExport = none
  | .tick => True

namespace Router

/-- No connected route is held, and no export filter is set. -/
structure Plain {φ : Type} (s : Router φ) : Prop where
  wellFormed : s.rib.WellFormed
  unconnected : s.rib.Unconnected
  fibExport : s.fibExport = none

theorem ops_ne_connected {φ : Type} [Fib φ] (s : Router φ) {ev : Event} (hev : ev.Plain) :
    ∀ r, .update r ∈ s.ops ev → r.protocol ≠ .connected := by
  intro r hr
  cases ev with
  | updates first queued =>
    obtain ⟨u, hu, hop⟩ := List.mem_map.mp hr
    have hmem : u ∈ first :: queued := by
      rcases List.mem_cons.mp hu with rfl | hu
      · exact List.mem_cons_self
      · exact List.mem_cons_of_mem _ (List.mem_of_mem_take hu)
    exact op_ne_connected (fun a ha => hev a (ha ▸ hmem)) hop
  | subscribe accepts => cases hr
  | reload statics =>
    rcases List.mem_append.mp hr with hr | hr
    · obtain ⟨e, -, he⟩ := List.mem_map.mp hr
      cases he
    · obtain ⟨e, he, heq⟩ := List.mem_map.mp hr
      cases heq
      have hget := ExtTreeMap.mem_toList_iff_getElem?_eq_some.mp (List.mem_of_mem_filter he)
      exact hev _ (indexStatics_keyed statics e.1 e.2 hget).2
  | filterReload imports fibExport => cases hr
  | tick => cases hr

theorem plain_step {φ : Type} [Fib φ] {s : Router φ} (h : s.Plain) {ev : Event} (hev : ev.Plain) :
    (s.step ev).Plain := by
  refine ⟨wellFormed_step h.wellFormed ev, ?_, ?_⟩
  · rw [step_rib]
    exact Rib.unconnected_applyAll h.unconnected (ops_ne_connected s hev)
  · rw [step_filters]
    cases ev with
    | filterReload imports fibExport => exact hev
    | _ => exact h.fibExport

theorem target_ne_connected {s : Router FlakyFib} (h : s.Plain) {k : FibKey} {c : FibChange}
    (hc : c.target = s.rib.bestIn k) : ∀ r, c.target = some r → r.protocol ≠ .connected :=
  fun r hr => h.unconnected k r (Rib.holds_of_bestIn (hc ▸ hr))

theorem queued_iff_cell (s : Router FlakyFib) :
    s.Queued ↔ ∀ k, (s.plane.cell k).Queued (s.rib.bestIn k) := by
  simp only [Queued, Cell.Queued, Plane.cell, decide_eq_true_iff]
  rfl

/-- One step: whether all differences stay queued. -/
theorem queued_step_iff {s : Router FlakyFib} (h : s.Plain) {ev : Event} (hev : ev.Plain)
    (hq : s.Queued) : (s.step ev).Queued ↔ ¬ s.Orphans ev := by
  have hset := settles_step h.wellFormed ev
  have hplain := plain_step h hev
  have hcell : ∀ k, (((s.step ev).plane.cell k).Queued ((s.step ev).rib.bestIn k)) ↔
      ¬ ∃ c ∈ s.changes ev, c.fibKey = k ∧ c.target = none ∧ (s.plane.cell k).Orphaned := by
    intro k
    rcases cell_step_cases h.wellFormed ev k with
      ⟨hsame, hbest, hnot⟩ | ⟨c, hc, hkey, htarget, ok, -, hprog⟩
    · rw [hsame, hbest]
      refine iff_of_true ((queued_iff_cell s).mp hq k) ?_
      intro hremoved
      obtain ⟨c, hc, rfl, -⟩ := hremoved
      exact hnot (List.mem_map_of_mem hc)
    · rw [hprog, h.fibExport, ← htarget,
        Cell.queued_program_iff _ ok c (target_ne_connected hplain htarget), not_iff_not]
      constructor
      · intro hremoved
        exact ⟨c, hc, hkey, hremoved.1, hremoved.2⟩
      · intro hremoved
        obtain ⟨d, hd, rfl, hnone, horphan⟩ := hremoved
        rw [hset.target d hd] at hnone
        exact ⟨htarget.trans hnone, horphan⟩
  rw [queued_iff_cell]
  constructor
  · intro hall horphans
    obtain ⟨c, hc, hnone, horphan⟩ := horphans
    exact (hcell c.fibKey).mp (hall c.fibKey) ⟨c, hc, rfl, hnone, horphan⟩
  · intro hnot k
    refine (hcell k).mpr fun hremoved => ?_
    obtain ⟨c, hc, rfl, hnone, horphan⟩ := hremoved
    exact hnot ⟨c, hc, hnone, horphan⟩

/-- The states of a flaky plane from which no further write fails. -/
theorem reliable_flakyFib : Reliable fun fib : FlakyFib => ∀ n ≥ fib.calls, fib.fails n = false := by
  constructor
  · intro fib h c
    have hcall := h fib.calls le_rfl
    simp [Fib.apply, hcall, Except.isOk, Except.toBool]
  · intro fib c h n hn
    have hcall := h fib.calls le_rfl
    simp only [Fib.apply, hcall] at hn ⊢
    exact h n (by simp at hn; omega)

theorem mem_failed_of_changes_tick {s : Router FlakyFib} (h : s.Plain) {k : FibKey}
    (hk : k ∉ (s.changes .tick).map FibChange.fibKey) : k ∉ s.plane.failed := by
  intro hmem
  refine hk (List.mem_map.mpr ⟨retryChange s.rib k, ?_, fibKey_retryChange h.wellFormed k⟩)
  exact List.mem_map_of_mem (ExtTreeSet.mem_toList.mpr hmem)

/-- Once writes succeed, one retry pass makes the plane equal to the best routes exactly when no
queued removal is of an orphan. -/
theorem tick_restores_iff {s : Router FlakyFib} (h : s.Plain) (hq : s.Queued)
    (hok : ∀ n ≥ s.plane.fib.calls, s.plane.fib.fails n = false) :
    (∀ k : FibKey, (s.step .tick).plane.fib.inner.installed[k]? = s.rib.bestIn k) ↔
      ¬ s.Orphans .tick := by
  have hev : Event.tick.Plain := trivial
  rw [← queued_step_iff h hev hq]
  constructor
  · intro hall k hne
    exact absurd (hall k) hne
  · intro hqueued k
    rcases cell_step_cases h.wellFormed .tick k with
      ⟨hsame, -, hnot⟩ | ⟨c, -, -, htarget, ok, hrel, hprog⟩
    · have hclear := mem_failed_of_changes_tick h hnot
      have hkeep : (s.step .tick).plane.fib.inner.installed[k]? =
          s.plane.fib.inner.installed[k]? := congrArg Cell.installed hsame
      rw [hkeep]
      by_contra hne
      exact hclear (hq k hne)
    · have htrue := hrel _ reliable_flakyFib hok
      have hfail : ((s.step .tick).plane.cell k).failed = false := by
        rw [hprog, htrue, h.fibExport]
        exact Cell.failed_program _ c (target_ne_connected h htarget)
      by_contra hne
      have hmem := hqueued k hne
      simp [Plane.cell, hmem] at hfail

end Router

theorem plane_tryApply {φ : Type} [TransactionalFib φ] {fib fib' : φ} {c : FibChange}
    (h : tryApply fib c = .ok fib') :
    TransactionalFib.plane fib' = (TransactionalFib.plane fib).apply c := by
  unfold tryApply at h
  split at h
  · rename_i fib₁ u heq
    cases h
    have hplane := TransactionalFib.plane_of_ok fib c (by rw [heq]; rfl)
    rwa [heq] at hplane
  · cases h

/-- Seeding a route without an export route-map is a RIB call passed on to the plane. -/
theorem seedStatic_eq_sync {vrfImports : UInt32 → Option Filter} {s s' : Seeded FlakyFib}
    {route : Route} (h : seedStatic vrfImports (fun _ => none) s route = .ok s') :
    (vrfRoutemap vrfImports route = none ∧ s' = s) ∨
      ∃ r, vrfRoutemap vrfImports route = some r ∧
        (s'.rib, s'.fib.inner) = sync (s.rib, s.fib.inner) (.update r) := by
  unfold seedStatic at h
  cases himp : vrfRoutemap vrfImports route with
  | none =>
    rw [himp] at h
    cases h
    exact Or.inl ⟨rfl, rfl⟩
  | some r =>
    rw [himp] at h
    refine Or.inr ⟨r, rfl, ?_⟩
    have hwrite : ∀ (rib : Rib) (c : FibChange), s.rib.update r = (rib, some c) →
        (tryApply s.fib c).map (fun fib => (⟨rib, fib, s.statics ++ [r]⟩ : Seeded FlakyFib)) = .ok s' →
        (s'.rib, s'.fib.inner) = sync (s.rib, s.fib.inner) (.update r) := by
      intro rib c hupd hmap
      cases hfib : tryApply s.fib c with
      | error e =>
        rw [hfib] at hmap
        cases hmap
      | ok fib =>
        rw [hfib] at hmap
        cases hmap
        have hplane : fib.inner = s.fib.inner.apply c := plane_tryApply hfib
        simp [sync, Rib.apply, hupd, hplane]
    cases hupd : s.rib.update r with
    | mk rib change =>
      simp only [hupd] at h
      cases change with
      | none =>
        cases h
        simp [sync, Rib.apply, hupd]
      | some c =>
        cases c with
        | install best => exact hwrite rib _ hupd h
        | remove table pfx => exact hwrite rib _ hupd h

theorem vrfRoutemap_protocol {maps : UInt32 → Option Filter} {route r : Route}
    (h : vrfRoutemap maps route = some r) : r.protocol = route.protocol := by
  have hmap : vrfRoutemap maps route = (applyExport (maps route.table) route).accepted := by
    unfold vrfRoutemap applyExport
    cases maps route.table with
    | none => rfl
    | some f => rfl
  rw [hmap, Decision.accepted_eq_some_iff] at h
  exact (applyExport_fibKey h).2

/-- Start-up without export route-maps leaves the plane equal to the best routes. -/
theorem seedStatics_inSync {vrfImports : UInt32 → Option Filter} {fails : ℕ → Bool}
    {statics : List Route} {s : Seeded FlakyFib}
    (h : seedStatics vrfImports (fun _ => none) (FlakyFib.new fails) statics = .ok s)
    (hstatics : ∀ r ∈ statics, r.protocol ≠ .connected) :
    InSync (s.rib, s.fib.inner) ∧ s.rib.Unconnected := by
  unfold seedStatics at h
  refine Run.foldlM_invariant (fun s : Seeded FlakyFib =>
    InSync (s.rib, s.fib.inner) ∧ s.rib.Unconnected) h ⟨inSync_new, Rib.unconnected_new⟩ ?_
  intro s route hroute s' hs hok
  obtain ⟨hsync, hrib⟩ := hs
  rcases seedStatic_eq_sync hok with ⟨-, rfl⟩ | ⟨r, hr, heq⟩
  · exact ⟨hsync, hrib⟩
  · have hfst : s'.rib = (s.rib.apply (.update r)).1 :=
      (congrArg Prod.fst heq).trans (sync_fst _ _)
    have hproto : r.protocol ≠ .connected := by
      rw [vrfRoutemap_protocol hr]
      exact hstatics route hroute
    refine ⟨heq ▸ inSync_sync hsync _, ?_⟩
    rw [hfst]
    apply Rib.unconnected_apply hrib
    intro a ha
    cases ha
    exact hproto

namespace Router

/-- Writes may fail in any pattern, there is no export filter and no connected route. Along a run,
every key that differs from its best route is queued after every step exactly when no step asks to
unprogram an orphan; and once writes succeed, one retry pass then restores the plane exactly when
that pass asks for no such removal either. -/
theorem every_queued_iff {vrfImports : UInt32 → Option Filter} {fails : ℕ → Bool}
    {statics : List Route} {seeded : Seeded FlakyFib}
    (hseed : seedStatics vrfImports (fun _ => none) (FlakyFib.new fails) statics = .ok seeded)
    (hstatics : ∀ r ∈ statics, r.protocol ≠ .connected) (imports : ImportFilters)
    (redist : List RedistTarget) (evs : List Event) (hevs : ∀ ev ∈ evs, ev.Plain) :
    let s := start seeded.rib seeded.fib imports none redist seeded.statics
    (Run.Every step (fun s ev => (s.step ev).Queued) s evs ↔
        Run.Every step (fun s ev => ¬ s.Orphans ev) s evs) ∧
      (Run.Every step (fun s ev => ¬ s.Orphans ev) s evs →
        let t := evs.foldl step s
        (∀ n ≥ t.plane.fib.calls, t.plane.fib.fails n = false) →
          ((∀ k : FibKey, (t.step .tick).plane.fib.inner.installed[k]? = t.rib.bestIn k) ↔
            ¬ t.Orphans .tick)) := by
  intro s
  obtain ⟨hsync, hunc⟩ := seedStatics_inSync hseed hstatics
  have hplain : s.Plain := ⟨hsync.wellFormed, hunc, rfl⟩
  have hqueued : s.Queued := fun k hne => absurd (hsync.mirror k) hne
  have hkeep : Run.Every step (fun (_ : Router FlakyFib) ev => ev.Plain) s evs :=
    Run.every_of_forall (fun _ _ h => h) hevs s
  refine ⟨Run.every_good_iff Plain Queued (fun s ev hs hev => plain_step hs hev)
    (fun s ev hs hev hq => queued_step_iff hs hev hq) hkeep hplain hqueued, ?_⟩
  intro hrun t hok
  have hend : t.Plain ∧ t.Queued := by
    refine (hkeep.and hrun).invariant (fun s => s.Plain ∧ s.Queued) ⟨hplain, hqueued⟩ ?_
    intro s ev hs hguard
    obtain ⟨hp, hq⟩ := hs
    obtain ⟨hev, hnot⟩ := hguard
    exact ⟨plain_step hp hev, (queued_step_iff hp hev hq).mpr hnot⟩
  exact tick_restores_iff hend.1 hend.2 hok

theorem queued_after_failed_install :
    Run.Every step (fun s ev => (s.step ev).Queued)
      (start Rib.new (FlakyFib.new fun n => n == 0) (fun _ => none) none [] [])
      [.updates (.announce (Sample.route .bgp)) []] := by
  have hseed : seedStatics (fun _ => none) (fun _ => none) (FlakyFib.new fun n => n == 0) [] =
      .ok ⟨Rib.new, FlakyFib.new fun n => n == 0, []⟩ := rfl
  have hiff := every_queued_iff hseed (by simp) (fun _ => none) []
    [.updates (.announce (Sample.route .bgp)) []] (by simp [Event.Plain, Sample.route, Route.new])
  refine hiff.1.mpr ⟨?_, trivial⟩
  have hchanges : (start Rib.new (FlakyFib.new fun n => n == 0) (fun _ => none) none [] []).changes
      (.updates (.announce (Sample.route .bgp)) []) = [.install (Sample.route .bgp)] := by
    decide +kernel
  intro horphans
  obtain ⟨c, hc, htarget, -⟩ := horphans
  rw [hchanges, List.mem_singleton] at hc
  rw [hc] at htarget
  cases htarget

/-- A route is programmed and withdrawn, the removal fails, and the retry only clears the queue:
the route stays in the plane. -/
theorem not_queued_after_retried_removal :
    ¬ Run.Every step (fun s ev => (s.step ev).Queued)
      (start Rib.new (FlakyFib.new fun n => n == 1) (fun _ => none) none [] [])
      [.updates (.announce (Sample.route .bgp)) [],
        .updates (.withdraw rtTableMain Sample.net .bgp 0) [], .tick] := by
  intro hrun
  obtain ⟨-, -, h, -⟩ := hrun
  have hkey := h (Sample.route .bgp).fibKey
  revert hkey
  decide +kernel

end Router
end Wren.Daemon
