import Wren.Daemon.Router.Cell

/-! The forwarding plane as a mirror of the RIB: when it is one, and how a step can break it. -/

namespace Wren.Daemon
open Std OrdMap Wren.Core Wren.Filter

/-- What a key with this best route should be programmed with. Connected networks belong to the
kernel. -/
def desired (fibExport : Option Filter) (best : Option Route) : Option Route :=
  best.bind fun r => if r.protocol = .connected then none else (applyExport fibExport r).accepted

namespace Cell

structure Mirrors (fibExport : Option Filter) (best : Option Route) (x : Cell) : Prop where
  installed : x.installed = desired fibExport best
  exported : x.exported = desired fibExport best

/-- With writes that succeed, programming a change restores the mirror unless the new best route
is a connected one and the key is still programmed. -/
theorem mirrors_program_iff {fibExport : Option Filter} {before : Option Route} {x : Cell}
    (h : x.Mirrors fibExport before) (c : FibChange) :
    (x.program fibExport true c).Mirrors fibExport c.target ↔
      ¬ (x.exported.isSome = true ∧ ∃ r, c.target = some r ∧ r.protocol = .connected) := by
  have hsame : x.installed = x.exported := h.installed.trans h.exported.symm
  cases c with
  | install route =>
    by_cases hconn : route.protocol = .connected
    · have hdes : desired fibExport (some route) = none := by simp [desired, hconn]
      have hx : x.program fibExport true (.install route) = x := by simp [program, hconn]
      rw [hx]
      constructor
      · intro hm hcovered
        have hsome := hcovered.1
        rw [hm.exported, FibChange.target, hdes] at hsome
        cases hsome
      · intro hnot
        have hnone : x.exported = none := by
          by_contra hne
          exact hnot ⟨Option.isSome_iff_ne_none.mpr hne, route, rfl, hconn⟩
        exact ⟨by rw [hsame, hnone, FibChange.target, hdes], by rw [hnone, FibChange.target, hdes]⟩
    · have hright : ¬ (x.exported.isSome = true ∧
          ∃ r, (FibChange.install route).target = some r ∧ r.protocol = .connected) := by
        intro hcovered
        obtain ⟨-, r, hr, hrc⟩ := hcovered
        cases Option.some.inj hr
        exact hconn hrc
      refine ⟨fun _ => hright, fun _ => ?_⟩
      cases hexp : applyExport fibExport route with
      | accept r =>
        have hdes : desired fibExport (some route) = some r := by
          simp [desired, hconn, hexp, Decision.accepted]
        rw [program_accept _ _ hconn hexp]
        exact ⟨hdes.symm, hdes.symm⟩
      | reject =>
        have hdes : desired fibExport (some route) = none := by
          simp [desired, hconn, hexp, Decision.accepted]
        rw [program_reject _ _ hconn hexp]
        by_cases hwas : x.exported.isSome = true
        · rw [if_pos hwas]
          exact ⟨hdes.symm, hdes.symm⟩
        · rw [if_neg hwas]
          have hnone : x.exported = none := by simpa using hwas
          exact ⟨by rw [hsame, hnone, FibChange.target, hdes],
            by rw [hnone, FibChange.target, hdes]⟩
  | remove table pfx =>
    refine ⟨fun _ => by simp [FibChange.target], fun _ => ?_⟩
    by_cases hwas : x.exported.isSome = true
    · simp only [program, if_pos hwas]
      exact ⟨rfl, rfl⟩
    · have hnone : x.exported = none := by simpa using hwas
      simp only [program, if_neg hwas]
      exact ⟨hsame.trans hnone, hnone⟩

end Cell

theorem Cell.Mirrors.not_connected {fibExport : Option Filter} {best : Option Route} {x : Cell}
    (h : x.Mirrors fibExport best) :
    ¬ (x.exported.isSome = true ∧ ∃ r, best = some r ∧ r.protocol = .connected) := by
  intro hcovered
  obtain ⟨hsome, r, rfl, hr⟩ := hcovered
  rw [h.exported] at hsome
  simp [desired, hr] at hsome

/-- What a settling list of changes does to the cell of one key: nothing, and the best route is
as before, or it programs a change to the new best route. -/
theorem cell_foldl_cases {φ : Type} [TransactionalFib φ] {rib rib' : Rib} {cs : List FibChange}
    (hset : Settles rib rib' cs) (fibExport : Option Filter) (s : Plane φ) (k : FibKey) :
    ((cs.foldl (programFib fibExport) s).cell k = s.cell k ∧ rib'.bestIn k = rib.bestIn k ∧
      k ∉ cs.map FibChange.fibKey) ∨
    ∃ c ∈ cs, c.fibKey = k ∧ c.target = rib'.bestIn k ∧
      ∃ ok, (∀ G, Reliable G → G s.fib → ok = true) ∧
        (cs.foldl (programFib fibExport) s).cell k = (s.cell k).program fibExport ok c := by
  by_cases hk : k ∈ cs.map FibChange.fibKey
  · obtain ⟨c, hc, rfl⟩ := List.mem_map.mp hk
    exact Or.inr ⟨c, hc, rfl, hset.target c hc, cell_foldl_of_mem fibExport s hset.nodup hc⟩
  · exact Or.inl ⟨cell_foldl_of_notMem _ _ _ k hk, hset.untouched k hk, hk⟩

/-- Programming a settling list of changes into a mirroring plane: a key comes out right unless
its new best route is connected and it was programmed before. -/
theorem mirrors_foldl_iff {rib rib' : Rib} {cs : List FibChange} (hset : Settles rib rib' cs)
    {fibExport : Option Filter} {s : Plane MemoryFib} {k : FibKey}
    (hk : (s.cell k).Mirrors fibExport (rib.bestIn k)) :
    ((cs.foldl (programFib fibExport) s).cell k).Mirrors fibExport (rib'.bestIn k) ↔
      ¬ ((s.cell k).exported.isSome = true ∧
        ∃ r, rib'.bestIn k = some r ∧ r.protocol = .connected) := by
  rcases cell_foldl_cases hset fibExport s k with ⟨hsame, hbest, -⟩ | ⟨c, -, -, htarget, ok, hok, hprog⟩
  · rw [hsame, hbest]
    exact iff_of_true hk hk.not_connected
  · rw [hprog, hok _ reliable_memoryFib trivial, ← htarget]
    exact Cell.mirrors_program_iff hk c

def Event.KeepsFilters : Event → Prop
  | .filterReload _ _ => False
  | _ => True

namespace Router

section
variable {φ : Type} [TransactionalFib φ]

/-- Cells do not show the subscriptions, so all iterations move them alike. -/
theorem cell_step (s : Router φ) (ev : Event) (k : FibKey) :
    (s.step ev).plane.cell k = ((s.changes ev).foldl (programFib s.fibExport) s.plane).cell k := by
  by_cases hsub : ∃ accepts, ev = .subscribe accepts
  · obtain ⟨accepts, rfl⟩ := hsub
    rfl
  · rw [step_plane s ev (not_exists.mp hsub)]

theorem step_fibExport (s : Router φ) {ev : Event} (h : ev.KeepsFilters) :
    (s.step ev).fibExport = s.fibExport := by
  rw [step_filters]
  cases ev with
  | filterReload imports fibExport => exact h.elim
  | _ => rfl

/-- What an iteration does to the cell of one key: nothing, and the best route is as before, or it
programs a change to the new best route. -/
theorem cell_step_cases {s : Router φ} (h : s.rib.WellFormed) (ev : Event) (k : FibKey) :
    ((s.step ev).plane.cell k = s.plane.cell k ∧ (s.step ev).rib.bestIn k = s.rib.bestIn k ∧
      k ∉ (s.changes ev).map FibChange.fibKey) ∨
    ∃ c ∈ s.changes ev, c.fibKey = k ∧ c.target = (s.step ev).rib.bestIn k ∧
      ∃ ok, (∀ G, Reliable G → G s.plane.fib → ok = true) ∧
        (s.step ev).plane.cell k = (s.plane.cell k).program s.fibExport ok c := by
  rw [cell_step]
  exact cell_foldl_cases (settles_step h ev) s.fibExport s.plane k

end

/-- The plane and the export record both hold the desired route of every key. -/
def Mirrors (s : Router MemoryFib) : Prop :=
  ∀ k : FibKey, s.plane.fib.installed[k]? = desired s.fibExport (s.rib.bestIn k) ∧
    s.plane.exported[k]? = desired s.fibExport (s.rib.bestIn k)

/-- The step makes a connected route the best route of a key that is programmed. -/
def Covers {φ : Type} [Fib φ] (s : Router φ) (ev : Event) : Prop :=
  ∃ (k : FibKey) (r : Route), (s.plane.exported[k]?).isSome = true ∧
    (s.rib.applyAll (s.ops ev)).1.bestIn k = some r ∧ r.protocol = .connected

theorem mirrors_iff_cell (s : Router MemoryFib) :
    s.Mirrors ↔ ∀ k, (s.plane.cell k).Mirrors s.fibExport (s.rib.bestIn k) :=
  ⟨fun h k => ⟨(h k).1, (h k).2⟩, fun h k => ⟨(h k).installed, (h k).exported⟩⟩

theorem mirrors_step_iff {s : Router MemoryFib} (hwf : s.rib.WellFormed) (hm : s.Mirrors)
    {ev : Event} (hev : ev.KeepsFilters) : (s.step ev).Mirrors ↔ ¬ s.Covers ev := by
  have hcell : ∀ k, ((s.step ev).plane.cell k).Mirrors (s.step ev).fibExport
        ((s.step ev).rib.bestIn k) ↔
      ¬ ((s.plane.cell k).exported.isSome = true ∧
        ∃ r, (s.step ev).rib.bestIn k = some r ∧ r.protocol = .connected) := by
    intro k
    rw [step_fibExport s hev, cell_step]
    exact mirrors_foldl_iff (settles_step hwf ev) ((mirrors_iff_cell s).mp hm k)
  rw [mirrors_iff_cell]
  constructor
  · intro hall hcovers
    obtain ⟨k, r, hsome, hbest, hconn⟩ := hcovers
    rw [← step_rib] at hbest
    exact (hcell k).mp (hall k) ⟨hsome, r, hbest, hconn⟩
  · intro hnot k
    refine (hcell k).mpr fun hcovered => ?_
    obtain ⟨hsome, r, hbest, hconn⟩ := hcovered
    rw [step_rib] at hbest
    exact hnot ⟨k, r, hsome, hbest, hconn⟩

/-- From an empty router with fixed filters, the plane mirrors the RIB after every step of a run
exactly when no step covers a programmed key with a connected best route. -/
theorem every_mirrors_iff (imports : ImportFilters) (fibExport : Option Filter)
    (redist : List RedistTarget) (evs : List Event) (hevs : ∀ ev ∈ evs, ev.KeepsFilters) :
    Run.Every step (fun s ev => (s.step ev).Mirrors)
        (start Rib.new MemoryFib.empty imports fibExport redist []) evs ↔
      Run.Every step (fun s ev => ¬ s.Covers ev)
        (start Rib.new MemoryFib.empty imports fibExport redist []) evs := by
  have hstart : (start Rib.new MemoryFib.empty imports fibExport redist []).Mirrors := by
    intro k
    simp [start, Rib.bestIn_new, desired]
  have hkeep : Run.Every step (fun (_ : Router MemoryFib) ev => ev.KeepsFilters)
      (start Rib.new MemoryFib.empty imports fibExport redist []) evs :=
    Run.every_of_forall (fun _ _ h => h) hevs _
  exact Run.every_good_iff (fun s => s.rib.WellFormed) Mirrors
    (fun s ev hs _ => wellFormed_step hs ev)
    (fun s ev hs hev hg => mirrors_step_iff hs hg hev) hkeep Rib.wellFormed_new hstart

theorem mirrors_after_static_reload :
    Run.Every step (fun s ev => (s.step ev).Mirrors)
      (start Rib.new MemoryFib.empty (fun _ => none) none [] []) [.reload [Sample.route .static]] := by
  refine (every_mirrors_iff _ _ _ _ (by simp [Event.KeepsFilters])).mpr ⟨?_, trivial⟩
  intro hcovers
  obtain ⟨k, r, hsome, -⟩ := hcovers
  simp [start] at hsome

/-- A BGP route is programmed, then the network becomes directly connected: the export record and
the plane still hold the BGP route. -/
theorem not_mirrors_after_connected :
    ¬ Run.Every step (fun s ev => (s.step ev).Mirrors)
      (start Rib.new MemoryFib.empty (fun _ => none) none [] [])
      [.updates (.announce (Sample.route .bgp)) [],
        .updates (.announce (Sample.route .connected)) []] := by
  intro hrun
  have h := hrun.2.1
  have hnone := (h (Sample.route .bgp).fibKey).1
  revert hnone
  decide +kernel

end Router
end Wren.Daemon
