import Wren.Lib.Replica
import Wren.Daemon.Router.Changes

/-! The route-export stream: a subscriber that replays what it was sent has the export record. -/

namespace Wren.Daemon
open Std OrdMap Wren.Core Wren.Filter

def RouteEvent.delta : RouteEvent → Option (Replica.Delta FibKey Route)
  | .update route => some ⟨route.fibKey, some route⟩
  | .withdraw table pfx => some ⟨(table, pfx), none⟩
  | .endOfDump => none

/-- The routes a subscriber knows by the events it received. -/
def Subscriber.known (sub : Subscriber) : FibKey → Option Route :=
  Replica.replay (fun _ => none) (sub.received.filterMap RouteEvent.delta)

theorem Subscriber.received_send {sub sub' : Subscriber} {event : RouteEvent}
    (h : sub.send event = some sub') : sub'.received = sub.received ++ [event] := by
  unfold send at h
  split_ifs at h
  cases h
  rfl

theorem Subscriber.known_send {sub sub' : Subscriber} {event : RouteEvent}
    {d : Replica.Delta FibKey Route} (hd : event.delta = some d) (h : sub.send event = some sub') :
    sub'.known = d.apply sub.known := by
  unfold known
  rw [received_send h, List.filterMap_append, Replica.replay_append]
  simp [hd]

theorem Subscriber.received_foldlM {events : List RouteEvent} {sub sub' : Subscriber}
    (h : events.foldlM Subscriber.send sub = some sub') :
    sub'.received = sub.received ++ events := by
  induction events generalizing sub with
  | nil =>
    cases h
    simp
  | cons event events ih =>
    rw [List.foldlM_cons] at h
    obtain ⟨sub₁, hsend, hrest⟩ := Option.bind_eq_some_iff.mp h
    rw [ih hrest, received_send hsend, List.append_assoc]
    rfl

/-- The export record is keyed by its routes, and every subscriber knows exactly it. -/
structure Exports {φ : Type} (s : Plane φ) : Prop where
  keyed : ∀ (k : FibKey) (r : Route), s.exported[k]? = some r → r.fibKey = k
  known : ∀ sub ∈ s.subscribers, ∀ k : FibKey, sub.known k = s.exported[k]?

/-- Replaying a snapshot gives the record it was taken from. -/
theorem replay_snapshot {exported : BTreeMap FibKey Route}
    (h : ∀ (k : FibKey) (r : Route), exported[k]? = some r → r.fibKey = k) (k : FibKey) :
    Replica.replay (fun _ => none) ((snapshot exported).filterMap RouteEvent.delta) k =
      exported[k]? := by
  have hdeltas : (snapshot exported).filterMap RouteEvent.delta =
      exported.toList.map fun e => ⟨e.1, some e.2⟩ := by
    have hkey : ∀ e ∈ exported.toList, (RouteEvent.update e.2).delta = some ⟨e.1, some e.2⟩ := by
      intro e he
      have hget := ExtTreeMap.mem_toList_iff_getElem?_eq_some.mp he
      rw [RouteEvent.delta, h e.1 e.2 hget]
    unfold snapshot
    rw [List.filterMap_append, List.filterMap_map]
    have hmap : exported.toList.filterMap (RouteEvent.delta ∘ fun e => .update e.2) =
        exported.toList.map fun e => ⟨e.1, some e.2⟩ :=
      (List.filterMap_congr hkey).trans (congrFun List.filterMap_eq_map _)
    rw [hmap]
    simp [RouteEvent.delta]
  have hkeys : (exported.toList.map fun e => (⟨e.1, some e.2⟩ : Replica.Delta FibKey Route)).map
      Replica.Delta.key = exported.toList.map Prod.fst := by
    rw [List.map_map]
    rfl
  rw [hdeltas]
  cases hget : exported[k]? with
  | none =>
    apply Replica.replay_of_notMem
    rw [hkeys, ExtTreeMap.map_fst_toList_eq_keys, ExtTreeMap.mem_keys]
    intro hk
    rw [ExtTreeMap.getElem?_eq_some_getElem hk] at hget
    cases hget
  | some r =>
    have hmem : (k, r) ∈ exported.toList := ExtTreeMap.mem_toList_iff_getElem?_eq_some.mpr hget
    have hnodup := hkeys ▸ nodup_keys_toList exported
    exact Replica.replay_of_mem _ hnodup (List.mem_map.mpr ⟨(k, r), hmem, rfl⟩)

section
variable {φ : Type} [Fib φ]

theorem removeFromFib_keeps (s : Plane φ) (table : UInt32) (pfx : Prefix) :
    (removeFromFib s table pfx).exported = s.exported ∧
      (removeFromFib s table pfx).subscribers = s.subscribers := by
  unfold removeFromFib
  split
  · exact ⟨rfl, rfl⟩
  · exact ⟨rfl, rfl⟩

/-- What an event says about the export record. -/
def RouteEvent.record (exported : BTreeMap FibKey Route) : RouteEvent → BTreeMap FibKey Route
  | .update r => exported.insert r.fibKey r
  | .withdraw table pfx => exported.erase (table, pfx)
  | .endOfDump => exported

/-- Either the export record and the subscriptions are as before, or both have moved by one and the
same event. -/
def Echoes {φ : Type} (s t : Plane φ) : Prop :=
  (t.exported = s.exported ∧ t.subscribers = s.subscribers) ∨
    ∃ event, event ≠ .endOfDump ∧ t.subscribers = fanout s.subscribers event ∧
      t.exported = event.record s.exported

theorem echoes_removeFromFib (s : Plane φ) (table : UInt32) (pfx : Prefix) :
    let t := removeFromFib { s with exported := s.exported.erase (table, pfx) } table pfx
    Echoes s { t with subscribers := fanout t.subscribers (.withdraw table pfx) } := by
  intro t
  have hexported : t.exported = s.exported.erase (table, pfx) := (removeFromFib_keeps _ _ _).1
  have hsubscribers : t.subscribers = s.subscribers := (removeFromFib_keeps _ _ _).2
  refine Or.inr ⟨.withdraw table pfx, by simp, ?_, hexported⟩
  rw [hsubscribers]

/-- Every change of the export record is told to the subscribers, and nothing else is. -/
theorem echoes_programFib (fibExport : Option Filter) (s : Plane φ) (c : FibChange) :
    Echoes s (programFib fibExport s c) := by
  cases c with
  | install route =>
    rw [programFib]
    by_cases hconn : route.protocol = .connected
    · rw [if_pos hconn]
      exact Or.inl ⟨rfl, rfl⟩
    · rw [if_neg hconn]
      split
      · split_ifs
        · exact echoes_removeFromFib s route.table route.pfx
        · exact Or.inl ⟨rfl, rfl⟩
      · rename_i r hr
        split
        · exact Or.inr ⟨.update r, by simp, rfl, rfl⟩
        · exact Or.inl ⟨rfl, rfl⟩
  | remove table pfx =>
    rw [programFib]
    split_ifs
    · exact echoes_removeFromFib s table pfx
    · exact Or.inl ⟨rfl, rfl⟩

theorem delta_record (exported : BTreeMap FibKey Route) {event : RouteEvent}
    (h : event ≠ .endOfDump) :
    ∃ d, event.delta = some d ∧
      ∀ k : FibKey, (event.record exported)[k]? = d.apply (fun a => exported[a]?) k := by
  cases event with
  | update r =>
    refine ⟨_, rfl, fun k => ?_⟩
    simp only [RouteEvent.record, getElem?_insert, Replica.Delta.apply, Function.update_apply]
  | withdraw table pfx =>
    refine ⟨_, rfl, fun k => ?_⟩
    simp only [RouteEvent.record, getElem?_erase, Replica.Delta.apply, Function.update_apply]
  | endOfDump => exact absurd rfl h

theorem keyed_record {exported : BTreeMap FibKey Route}
    (h : ∀ (k : FibKey) (r : Route), exported[k]? = some r → r.fibKey = k) (event : RouteEvent) :
    ∀ (k : FibKey) (r : Route), (event.record exported)[k]? = some r → r.fibKey = k := by
  intro k r hr
  cases event with
  | update a =>
    simp only [RouteEvent.record, getElem?_insert] at hr
    split_ifs at hr with hk
    · rw [← Option.some.inj hr, hk]
    · exact h k r hr
  | withdraw table pfx =>
    simp only [RouteEvent.record, getElem?_erase] at hr
    split_ifs at hr
    exact h k r hr
  | endOfDump => exact h k r hr

theorem Echoes.exports {φ : Type} {s t : Plane φ} (hst : Echoes s t) (h : Exports s) : Exports t := by
  rcases hst with ⟨hexp, hsubs⟩ | ⟨event, hne, hsubs, hexp⟩
  · constructor
    · rw [hexp]
      exact h.keyed
    · rw [hexp, hsubs]
      exact h.known
  · obtain ⟨d, hd, hrecord⟩ := delta_record s.exported hne
    constructor
    · rw [hexp]
      exact keyed_record h.keyed event
    · intro sub hsub k
      rw [hsubs] at hsub
      obtain ⟨old, hold, hsend⟩ := List.mem_filterMap.mp hsub
      have hknown : old.known = fun a => s.exported[a]? := funext (h.known old hold)
      rw [hexp, hrecord, Subscriber.known_send hd hsend, hknown]

theorem exports_subscribe {φ : Type} {s : Plane φ} (h : Exports s) (accepts : ℕ → Bool) :
    Exports { s with subscribers := subscribeRoutes s.exported s.subscribers ⟨[], accepts⟩ } := by
  refine ⟨h.keyed, ?_⟩
  intro sub hsub k
  simp only [subscribeRoutes] at hsub
  split at hsub
  · rename_i new hnew
    rcases List.mem_append.mp hsub with hold | hmem
    · exact h.known sub hold k
    · have hreceived := Subscriber.received_foldlM hnew
      rw [List.mem_singleton.mp hmem, Subscriber.known, hreceived]
      exact replay_snapshot h.keyed k
  · exact h.known sub hsub k

theorem exports_start {φ : Type} (rib : Rib) (fib : φ) (imports : ImportFilters) (fibExport : Option Filter)
    (redist : List RedistTarget) (statics : List Route) :
    Exports (Router.start rib fib imports fibExport redist statics).plane := by
  constructor
  · unfold Router.start
    apply List.foldlRecOn statics (motive := fun m : BTreeMap FibKey Route =>
      ∀ (k : FibKey) (r : Route), m[k]? = some r → r.fibKey = k)
    · simp
    · intro m hm route _ k r hr
      rw [ExtTreeMap.getElem?_insertIfNew] at hr
      split_ifs at hr with hk
      · rw [← Option.some.inj hr, LawfulEqOrd.eq_of_compare hk.1]
      · exact hm k r hr
  · intro sub hsub
    cases hsub

theorem exports_step {s : Router φ} (h : Exports s.plane) (ev : Event) :
    Exports (s.step ev).plane := by
  have hfold : ∀ (cs : List FibChange) (p : Plane φ), Exports p →
      Exports (cs.foldl (programFib s.fibExport) p) := by
    intro cs p hp
    exact List.foldlRecOn cs _ hp fun p hp c _ => (echoes_programFib s.fibExport p c).exports hp
  by_cases hsub : ∃ accepts, ev = .subscribe accepts
  · obtain ⟨accepts, rfl⟩ := hsub
    exact exports_subscribe h accepts
  · rw [Router.step_plane s ev (not_exists.mp hsub)]
    exact hfold _ _ h

/-- At every point of every run, whichever writes fail, each open subscription has received the
export record. -/
theorem subscribers_know_exported (rib : Rib) (fib : φ) (imports : ImportFilters)
    (fibExport : Option Filter) (redist : List RedistTarget) (statics : List Route)
    (evs : List Event) :
    let s := evs.foldl Router.step (Router.start rib fib imports fibExport redist statics)
    ∀ sub ∈ s.plane.subscribers, ∀ k : FibKey, sub.known k = s.plane.exported[k]? := by
  intro s
  have hexports : Exports s.plane := by
    apply List.foldlRecOn evs Router.step (motive := fun s : Router φ => Exports s.plane)
    · exact exports_start rib fib imports fibExport redist statics
    · intro s hs ev _
      exact exports_step hs ev
  exact hexports.known

end
end Wren.Daemon
