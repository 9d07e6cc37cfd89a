import Wren.Lib.Replica
import Wren.Daemon.Router.Changes

/-! What a redistribution target holds against what it should hold. The messages name a network
without its table, and a static reload sends none. -/

namespace Wren.Daemon
open Std OrdMap Wren.Core Wren.Filter

/-- What a message says about one network. -/
def Redistribution.delta : Redistribution → Replica.Delta Prefix Route
  | .announce route => ⟨route.pfx, some route⟩
  | .withdraw pfx => ⟨pfx, none⟩

namespace RedistTarget

/-- The routes the target holds by the messages it was sent. -/
def held (t : RedistTarget) : Prefix → Option Route :=
  Replica.replay (fun _ => none) (t.sent.map Redistribution.delta)

/-- What the target takes of a best route. -/
def offer (t : RedistTarget) (route : Route) : Option Route :=
  if route.protocol ≠ t.protocol ∧ route.protocol ∈ t.sources then
    match t.filter with
    | some f => (f.apply route).accepted
    | none => some route
  else none

/-- What the target should hold: the main table's best routes, as far as it takes them. -/
def wanted (t : RedistTarget) (rib : Rib) (p : Prefix) : Option Route := (rib.best p).bind t.offer

/-- The target after it was told of a list of changes. -/
def tell (t : RedistTarget) (cs : List FibChange) : RedistTarget :=
  { t with sent := t.sent ++ cs.map fun c => t.message (redistEvent c) }

/-- The last change of some network is about another table than the main one, and the target takes
the route from there, or should hold the main table's. -/
def Clobbers (t : RedistTarget) (rib : Rib) (cs : List FibChange) : Prop :=
  ∃ l c r, cs = l ++ c :: r ∧ (∀ d ∈ r, d.fibKey.2 ≠ c.fibKey.2) ∧ c.fibKey.1 ≠ rtTableMain ∧
    ((c.target.bind t.offer).isSome = true ∨ (t.wanted rib c.fibKey.2).isSome = true)

theorem offer_eq (t : RedistTarget) (route : Route) :
    t.offer route =
      if route.protocol ≠ t.protocol ∧ route.protocol ∈ t.sources then
        (applyExport t.filter route).accepted
      else none := by
  unfold offer applyExport
  cases t.filter with
  | none => rfl
  | some f => rfl

theorem offer_fibKey {t : RedistTarget} {route r : Route} (h : t.offer route = some r) :
    r.fibKey = route.fibKey := by
  rw [offer_eq] at h
  split_ifs at h
  rw [Decision.accepted_eq_some_iff] at h
  exact (applyExport_fibKey h).1

/-- A change is announced as what the target takes of its route, or as a withdrawal. -/
theorem delta_message (t : RedistTarget) (c : FibChange) :
    (t.message (redistEvent c)).delta = ⟨c.fibKey.2, c.target.bind t.offer⟩ := by
  cases c with
  | install route =>
    have hoffer : (FibChange.install route).target.bind t.offer = t.offer route := rfl
    have hkey : (FibChange.install route).fibKey.2 = route.pfx := rfl
    rw [hoffer, hkey]
    simp only [redistEvent, message]
    unfold offer
    split_ifs
    · cases hfilter : t.filter with
      | none => rfl
      | some f =>
        cases hdec : f.apply route with
        | accept r =>
          have hpfx : r.pfx = route.pfx := (Filter.apply_accept hdec).1
          simp [hdec, Redistribution.delta, Decision.accepted, hpfx]
        | reject => simp [hdec, Redistribution.delta, Decision.accepted]
    · rfl
  | remove table pfx => rfl

theorem held_tell (t : RedistTarget) (cs : List FibChange) :
    (t.tell cs).held =
      Replica.replay t.held (cs.map fun c => ⟨c.fibKey.2, c.target.bind t.offer⟩) := by
  unfold held tell
  rw [List.map_append, List.map_map, Replica.replay_append]
  congr 1
  exact List.map_congr_left fun c _ => delta_message t c

theorem held_tell_of_notMem (t : RedistTarget) {cs : List FibChange} {p : Prefix}
    (hp : p ∉ cs.map fun c => c.fibKey.2) : (t.tell cs).held p = t.held p := by
  rw [held_tell]
  apply Replica.replay_of_notMem
  rw [List.map_map]
  exact hp

/-- The last change of a network decides what the target holds of it. -/
theorem held_tell_of_last (t : RedistTarget) (l : List FibChange) (c : FibChange)
    (r : List FibChange) (hr : c.fibKey.2 ∉ r.map fun d => d.fibKey.2) :
    (t.tell (l ++ c :: r)).held c.fibKey.2 = c.target.bind t.offer := by
  rw [held_tell, List.map_append, List.map_cons]
  apply Replica.replay_of_last
  rw [List.map_map]
  exact hr

theorem fibKey_of_bind_offer {t : RedistTarget} {rib : Rib} (hwf : rib.WellFormed) {k : FibKey}
    {r : Route} (h : (rib.bestIn k).bind t.offer = some r) : r.fibKey = k := by
  obtain ⟨route, hbest, hoffer⟩ := Option.bind_eq_some_iff.mp h
  rw [offer_fibKey hoffer, hwf.fibKey_of_bestIn hbest]

/-- A target never takes the same route from two tables. -/
theorem bind_offer_eq_wanted_iff {t : RedistTarget} {rib : Rib} (hwf : rib.WellFormed) {k : FibKey}
    (hk : k.1 ≠ rtTableMain) :
    (rib.bestIn k).bind t.offer = t.wanted rib k.2 ↔
      ¬ (((rib.bestIn k).bind t.offer).isSome = true ∨ (t.wanted rib k.2).isSome = true) := by
  have hne : ∀ r, (rib.bestIn k).bind t.offer = some r → t.wanted rib k.2 ≠ some r := by
    intro r hr hwanted
    have htable : r.fibKey.1 = k.1 := congrArg Prod.fst (fibKey_of_bind_offer hwf hr)
    have hmain : r.fibKey.1 = rtTableMain := congrArg Prod.fst (fibKey_of_bind_offer hwf hwanted)
    exact hk (htable.symm.trans hmain)
  constructor
  · intro heq hsome
    rw [← heq, or_self] at hsome
    obtain ⟨r, hr⟩ := Option.isSome_iff_exists.mp hsome
    exact hne r hr (heq ▸ hr)
  · intro hnot
    rw [not_or, Option.not_isSome_iff_eq_none, Option.not_isSome_iff_eq_none] at hnot
    rw [hnot.1, hnot.2]

/-- A target that holds what it should is told of settling changes: it holds what it should
afterwards exactly when they do not clobber it. -/
theorem held_tell_iff {t : RedistTarget} {rib rib' : Rib} {cs : List FibChange}
    (hset : Settles rib rib' cs) (hwf : rib'.WellFormed) (h : t.held = t.wanted rib) :
    (t.tell cs).held = t.wanted rib' ↔ ¬ t.Clobbers rib' cs := by
  constructor
  · intro heq hclob
    obtain ⟨l, c, r, rfl, hr, hmain, hsome⟩ := hclob
    have hlast : c.fibKey.2 ∉ r.map fun d => d.fibKey.2 := by
      intro hmem
      obtain ⟨d, hd, hkey⟩ := List.mem_map.mp hmem
      exact hr d hd hkey
    have hheld := held_tell_of_last t l c r hlast
    rw [heq, hset.target c (by simp)] at hheld
    rw [hset.target c (by simp)] at hsome
    exact (bind_offer_eq_wanted_iff hwf hmain).mp hheld.symm hsome
  · intro hnot
    funext p
    rcases Replica.exists_last (fun c : FibChange => c.fibKey.2) cs p with
      hnone | ⟨l, c, r, rfl, rfl, hlast⟩
    · have hmain : (rtTableMain, p) ∉ cs.map FibChange.fibKey := by
        intro hmem
        obtain ⟨c, hc, hkey⟩ := List.mem_map.mp hmem
        exact hnone (List.mem_map.mpr ⟨c, hc, congrArg Prod.snd hkey⟩)
      rw [held_tell_of_notMem t hnone, h]
      unfold wanted Rib.best
      rw [hset.untouched _ hmain]
    · rw [held_tell_of_last t l c r hlast, hset.target c (by simp)]
      by_cases hmain : c.fibKey.1 = rtTableMain
      · unfold wanted Rib.best
        rw [← hmain]
      · refine (bind_offer_eq_wanted_iff hwf hmain).mpr fun hsome => hnot ?_
        refine ⟨l, c, r, rfl, fun d hd hkey => hlast (List.mem_map.mpr ⟨d, hd, hkey⟩), hmain, ?_⟩
        rwa [hset.target c (by simp)]

theorem tell_nil (t : RedistTarget) : t.tell [] = t := by simp [tell]

theorem tell_append (t : RedistTarget) (cs ds : List FibChange) :
    t.tell (cs ++ ds) = (t.tell cs).tell ds := by
  unfold tell
  rw [List.map_append, List.append_assoc]
  rfl

end RedistTarget

theorem foldl_redistribute (targets : List RedistTarget) (cs : List FibChange) :
    cs.foldl (fun targets c => redistribute targets (redistEvent c)) targets =
      targets.map fun t => t.tell cs := by
  induction cs generalizing targets with
  | nil => simp [RedistTarget.tell_nil]
  | cons c cs ih =>
    rw [List.foldl_cons, ih]
    unfold redistribute
    rw [List.map_map]
    apply List.map_congr_left
    intro t _
    exact (t.tell_append [c] cs).symm

theorem redistributeSeed_eq (targets : List RedistTarget) (rib : Rib) :
    redistributeSeed targets rib =
      targets.map fun t => t.tell (rib.iterBest.map FibChange.install) := by
  rw [← foldl_redistribute, List.foldl_map]
  rfl

/-- The best routes, taken as changes, lead from the empty RIB to this one. -/
theorem settles_iterBest {rib : Rib} (h : rib.WellFormed) :
    Settles Rib.new rib (rib.iterBest.map FibChange.install) := by
  have hkeys : (rib.iterBest.map FibChange.install).map FibChange.fibKey =
      rib.iterBest.map Route.fibKey := by
    rw [List.map_map]
    rfl
  constructor
  · rw [hkeys, h.map_fibKey_iterBest]
    exact nodup_keys_toList _
  · intro c hc
    obtain ⟨r, hr, rfl⟩ := List.mem_map.mp hc
    exact (h.mem_iterBest.mp hr).symm
  · intro k hk
    rw [hkeys] at hk
    rw [Rib.bestIn_new]
    by_contra hne
    obtain ⟨r, hr⟩ := Option.ne_none_iff_exists'.mp hne
    have hkey := h.fibKey_of_bestIn hr
    exact hk (List.mem_map.mpr ⟨r, h.mem_iterBest.mpr (hkey ▸ hr), hkey⟩)

namespace Router
variable {φ : Type} [Fib φ]

/-- The `i`th target holds what it should. -/
def TargetAgrees (i : ℕ) (s : Router φ) : Prop :=
  ∀ t, s.redist[i]? = some t → t.held = t.wanted s.rib

/-- The step leaves the `i`th target with something else than it should hold: updates clobber it,
or a static reload changes what it should hold. -/
def Misinforms (i : ℕ) (s : Router φ) (ev : Event) : Prop :=
  ∃ t, s.redist[i]? = some t ∧
    match ev with
    | .updates _ _ => t.Clobbers (s.rib.applyAll (s.ops ev)).1 (s.changes ev)
    | .reload _ => t.wanted (s.rib.applyAll (s.ops ev)).1 ≠ t.wanted s.rib
    | .subscribe _ => False
    | .filterReload _ _ => False
    | .tick => False

theorem step_redist_updates (s : Router φ) (first : RouteUpdate) (queued : List RouteUpdate) :
    (s.step (.updates first queued)).redist =
      s.redist.map fun t => t.tell (s.changes (.updates first queued)) := by
  rw [step_updates]
  exact foldl_redistribute _ _

theorem targetAgrees_step_iff (i : ℕ) {s : Router φ} (hwf : s.rib.WellFormed)
    (h : s.TargetAgrees i) (ev : Event) : (s.step ev).TargetAgrees i ↔ ¬ s.Misinforms i ev := by
  have hset := settles_step hwf ev
  have hwf' := wellFormed_step hwf ev
  cases ev with
  | updates first queued =>
    rw [step_rib] at hset hwf'
    have htell : ∀ t, s.redist[i]? = some t →
        ((t.tell (s.changes (.updates first queued))).held =
            (t.tell (s.changes (.updates first queued))).wanted
              (s.step (.updates first queued)).rib ↔
          ¬ t.Clobbers (s.rib.applyAll (s.ops (.updates first queued))).1
            (s.changes (.updates first queued))) := by
      intro t ht
      rw [step_rib]
      exact RedistTarget.held_tell_iff hset hwf' (h t ht)
    unfold TargetAgrees Misinforms
    rw [step_redist_updates, List.getElem?_map]
    cases ht : s.redist[i]? with
    | none => simp
    | some t => simpa using htell t ht
  | subscribe accepts => exact iff_of_true h fun ⟨_, _, hfalse⟩ => hfalse
  | reload statics =>
    have hredist : (s.step (.reload statics)).redist = s.redist := by rw [step_reload]
    unfold TargetAgrees Misinforms
    rw [hredist, step_rib]
    cases ht : s.redist[i]? with
    | none => simp
    | some t => simpa [h t ht] using eq_comm
  | filterReload imports fibExport => exact iff_of_true h fun ⟨_, _, hfalse⟩ => hfalse
  | tick => exact iff_of_true h fun ⟨_, _, hfalse⟩ => hfalse

/-- From start-up on, the `i`th target holds what it should in every state of a run exactly when
neither the seed nor a batch of updates clobbers it and no static reload changes what it should
hold. -/
theorem every_targetAgrees_iff {rib : Rib} (hrib : rib.Reachable) (fib : φ)
    (imports : ImportFilters) (fibExport : Option Filter) {targets : List RedistTarget}
    (htargets : ∀ t ∈ targets, t.sent = []) (statics : List Route) (i : ℕ) (evs : List Event) :
    let s := start rib fib imports fibExport (redistributeSeed targets rib) statics
    (s.TargetAgrees i ∧ Run.Every step (fun s ev => (s.step ev).TargetAgrees i) s evs) ↔
      (¬ ∃ t, targets[i]? = some t ∧ t.Clobbers rib (rib.iterBest.map FibChange.install)) ∧
        Run.Every step (fun s ev => ¬ s.Misinforms i ev) s evs := by
  intro s
  have hwf : s.rib.WellFormed := hrib.wellFormed
  have hseed : s.TargetAgrees i ↔
      ¬ ∃ t, targets[i]? = some t ∧ t.Clobbers rib (rib.iterBest.map FibChange.install) := by
    have hredist : s.redist = targets.map fun t =>
        t.tell (rib.iterBest.map FibChange.install) := redistributeSeed_eq targets rib
    unfold TargetAgrees
    rw [hredist, List.getElem?_map]
    cases ht : targets[i]? with
    | none => simp
    | some t =>
      have hsent := htargets t (List.mem_of_getElem? ht)
      have hnew : t.held = t.wanted Rib.new := by
        funext p
        simp [RedistTarget.held, hsent, RedistTarget.wanted, Rib.best, Rib.bestIn_new]
      have htell : (t.tell (rib.iterBest.map FibChange.install)).held =
          (t.tell (rib.iterBest.map FibChange.install)).wanted s.rib ↔
            ¬ t.Clobbers rib (rib.iterBest.map FibChange.install) :=
        RedistTarget.held_tell_iff (settles_iterBest hwf) hwf hnew
      simpa using htell
  rw [← hseed]
  have hrun : s.TargetAgrees i → (Run.Every step (fun s ev => (s.step ev).TargetAgrees i) s evs ↔
      Run.Every step (fun s ev => ¬ s.Misinforms i ev) s evs) := by
    intro h0
    exact Run.every_good_iff (fun s => s.rib.WellFormed) (TargetAgrees i)
      (fun s ev hs _ => wellFormed_step hs ev)
      (fun s ev hs _ hg => targetAgrees_step_iff i hs hg ev) (Run.every_true step s evs) hwf h0
  exact and_congr_right hrun

/-- OSPF, taking static routes. -/
def sampleTarget : RedistTarget := ⟨.ospf, {.static}, none, []⟩

theorem targetAgrees_after_static_announce :
    let s := start Rib.new MemoryFib.empty (fun _ => none) none
      (redistributeSeed [sampleTarget] Rib.new) []
    s.TargetAgrees 0 ∧ Run.Every step (fun s ev => (s.step ev).TargetAgrees 0) s
      [.updates (.announce (Sample.route .static)) []] := by
  have hnew : Rib.new.Reachable := ⟨[], rfl⟩
  have hbest : Rib.new.iterBest = [] := by decide +kernel
  refine (every_targetAgrees_iff hnew MemoryFib.empty (fun _ => none) none
    (by simp [sampleTarget]) [] 0 _).mpr ⟨?_, ?_, trivial⟩
  · intro hclob
    obtain ⟨t, -, l, c, r, hcs, -⟩ := hclob
    simp [hbest] at hcs
  · intro hmis
    obtain ⟨t, -, l, c, r, hcs, -, hmain, -⟩ := hmis
    have hchanges : (start Rib.new MemoryFib.empty (fun _ => none) none
        (redistributeSeed [sampleTarget] Rib.new) []).changes
        (.updates (.announce (Sample.route .static)) []) = [.install (Sample.route .static)] := by
      decide +kernel
    have hc : c ∈ [FibChange.install (Sample.route .static)] := by
      rw [← hchanges, hcs]
      simp
    rw [List.mem_singleton.mp hc] at hmain
    exact hmain rfl

/-- A static route that a reload brings is never announced to the target, and a route to the same
network in another table takes the place of the main table's. -/
theorem not_targetAgrees_after_reload_and_vrf :
    let s := start Rib.new MemoryFib.empty (fun _ => none) none
      (redistributeSeed [sampleTarget] Rib.new) []
    ¬ Run.Every step (fun s ev => (s.step ev).TargetAgrees 0) s [.reload [Sample.route .static]] ∧
      ¬ Run.Every step (fun s ev => (s.step ev).TargetAgrees 0) s
        [.updates (.announce (Sample.route .static)) [],
          .updates (.announce { Sample.route .static with table := 300 }) []] := by
  have hall : ∀ s : Router MemoryFib, s.TargetAgrees 0 →
      (s.redist[0]?).all (fun t => t.held Sample.net = t.wanted s.rib Sample.net) = true := by
    intro s hs
    cases ht : s.redist[0]? with
    | none => rfl
    | some t => simp [hs t ht]
  constructor
  · intro hrun
    have h := hrun.1
    have hnet := hall _ h
    revert hnet
    decide +kernel
  · intro hrun
    have h := hrun.2.1
    have hnet := hall _ h
    revert hnet
    decide +kernel

end Router
end Wren.Daemon
