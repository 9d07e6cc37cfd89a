import Wren.Lib.Run
import Wren.Lib.Replica
import Wren.Rip.Invariant

/-! The RIB's view of RIP, which it has from events alone, against RIP's own table. -/

namespace Wren.Rip
open Std OrdMap Wren.Core

def RipEvent.delta : RipEvent → Replica.Delta Prefix Route
  | .learned route => ⟨route.pfx, some route⟩
  | .lost pfx => ⟨pfx, none⟩

/-- The route a learned entry stands for, as long as it is reachable. -/
def RipRoute.learned (r : RipRoute) (p : Prefix) : Option Route :=
  if r.connected = false ∧ r.redistributed = false ∧ r.metric < metricInfinity then
    some (ripToCore p r.metric r.nextHop)
  else none

namespace RipRoute

theorem learned_of_ours {r : RipRoute} (h : r.connected = true ∨ r.redistributed = true)
    (p : Prefix) : r.learned p = none := by
  unfold learned
  rcases h with h | h
  · simp [h]
  · simp [h]

theorem learned_poison (r : RipRoute) (now : UInt64) (p : Prefix) : (r.poison now).learned p = none := by
  have hnot : ¬ metricInfinity < metricInfinity := UInt32.lt_irrefl _
  simp [learned, poison, hnot]

theorem learned_ofReceived {metric : UInt32} (h : metric < metricInfinity) (nh : IpAddr)
    (ifindex : UInt32) (now : UInt64) (p : Prefix) :
    (ofReceived metric nh ifindex now).learned p = some (ripToCore p metric nh) := by
  simp [learned, ofReceived, h]

/-- The event of a received route says what became of the entry. -/
theorem learned_receive {r : RipRoute} (hle : r.metric ≤ metricInfinity) (p : Prefix)
    (metric : UInt32) (nh : IpAddr) (ifindex : UInt32) (now : UInt64) :
    (r.receive p metric nh ifindex now).1.learned p =
      match (r.receive p metric nh ifindex now).2 with
      | none => r.learned p
      | some event => event.delta.value := by
  by_cases hours : r.connected = true ∨ r.redistributed = true
  · rw [receive_of_ours hours]
  have hconn : r.connected = false := by simpa using (not_or.mp hours).1
  have hredist : r.redistributed = false := by simpa using (not_or.mp hours).2
  rcases receive_cases hle hconn hredist p metric nh ifindex now with
    heq | ⟨hmetric, hlt, heq⟩ | ⟨hinf, heq⟩ | ⟨hlt, heq⟩
  · rw [heq]
  · rw [heq]
    rfl
  · have hnot : ¬ metric < metricInfinity := by grind
    rw [heq]
    simp [learned, hnot, RipEvent.delta]
  · rw [heq, learned_ofReceived hlt]
    rfl

theorem delta_key_receive {r : RipRoute} {p : Prefix} {metric : UInt32} {nh : IpAddr}
    {ifindex : UInt32} {now : UInt64} {event : RipEvent}
    (h : (r.receive p metric nh ifindex now).2 = some event) : event.delta.key = p := by
  unfold receive at h
  split_ifs at h <;> cases h <;> rfl

end RipRoute

namespace RipTable

/-- The learned routes the table holds. -/
def learned (t : RipTable) (p : Prefix) : Option Route := (t.routes[p]?).bind fun r => r.learned p

theorem learned_eq_of_routes {t u : RipTable} {p : Prefix} (h : u.routes[p]? = t.routes[p]?) :
    u.learned p = t.learned p := by
  unfold learned
  rw [h]

theorem delta_key_processRoute {t : RipTable} {pfx : Prefix} {recvMetric : UInt32}
    {nextHop : Option IpAddr} {sender : IpAddr} {ifindex : UInt32} {now : UInt64} {event : RipEvent}
    (h : (t.processRoute pfx recvMetric nextHop sender ifindex now).2 = some event) :
    event.delta.key = pfx := by
  unfold processRoute at h
  cases hold : t.routes[pfx]? with
  | none =>
    simp only [hold] at h
    split_ifs at h
    cases h
    rfl
  | some r =>
    simp only [hold] at h
    exact RipRoute.delta_key_receive h

theorem learned_processRoute_self {t : RipTable} (h : t.Sane) (pfx : Prefix) (recvMetric : UInt32)
    (nextHop : Option IpAddr) (sender : IpAddr) (ifindex : UInt32) (now : UInt64) :
    (t.processRoute pfx recvMetric nextHop sender ifindex now).1.learned pfx =
      match (t.processRoute pfx recvMetric nextHop sender ifindex now).2 with
      | none => t.learned pfx
      | some event => event.delta.value := by
  unfold learned
  rw [routes_processRoute, if_pos rfl]
  unfold processRoute
  cases hold : t.routes[pfx]? with
  | none =>
    by_cases hinf : metricInfinity ≤ cost recvMetric
    · simp [hinf]
    · have hlt : cost recvMetric < metricInfinity := by grind
      simp [hinf, RipRoute.learned_ofReceived hlt, RipEvent.delta]
  | some r =>
    exact RipRoute.learned_receive (h pfx r hold).le_infinity pfx _ _ ifindex now

/-- The event of a received route, replayed, gives the learned routes afterwards. -/
theorem learned_processRoute {t : RipTable} (h : t.Sane) (pfx : Prefix) (recvMetric : UInt32)
    (nextHop : Option IpAddr) (sender : IpAddr) (ifindex : UInt32) (now : UInt64) :
    Replica.replay t.learned
        ((t.processRoute pfx recvMetric nextHop sender ifindex now).2.toList.map RipEvent.delta) =
      (t.processRoute pfx recvMetric nextHop sender ifindex now).1.learned := by
  have hself := learned_processRoute_self h pfx recvMetric nextHop sender ifindex now
  have hother : ∀ p, p ≠ pfx →
      (t.processRoute pfx recvMetric nextHop sender ifindex now).1.learned p = t.learned p := by
    intro p hp
    exact learned_eq_of_routes (by rw [routes_processRoute, if_neg hp])
  funext p
  cases hevent : (t.processRoute pfx recvMetric nextHop sender ifindex now).2 with
  | none =>
    rw [hevent] at hself
    by_cases hp : p = pfx
    · rw [hp, hself]
      rfl
    · rw [hother p hp]
      rfl
  | some event =>
    rw [hevent] at hself
    have hkey := delta_key_processRoute hevent
    rw [Option.toList_some, List.map_singleton, Replica.replay_cons, Replica.replay_nil,
      Replica.Delta.apply, hkey, Function.update_apply]
    by_cases hp : p = pfx
    · rw [if_pos hp, hp, hself]
    · rw [if_neg hp, hother p hp]

theorem replay_lost (m : Prefix → Option Route) (l : List Prefix) (p : Prefix) :
    Replica.replay m ((l.map RipEvent.lost).map RipEvent.delta) p =
      if p ∈ l then none else m p := by
  rw [List.map_map]
  exact Replica.replay_clear m l p

theorem learned_tick (t : RipTable) (now : UInt64) :
    Replica.replay t.learned ((t.tick now).2.map RipEvent.delta) = (t.tick now).1.learned := by
  funext p
  have hlost : (t.tick now).2 =
      ((t.routes.toList.filter fun e => e.2.due now = .expire).map Prod.fst ++
        (t.routes.toList.filter fun e => e.2.due now = .remove).map Prod.fst).map .lost := by
    rw [List.map_append]
    rfl
  have hexpired := mem_filter_toList t.routes (fun r => r.due now = .expire) p
  have hremoved := mem_filter_toList t.routes (fun r => r.due now = .remove) p
  rw [hlost, replay_lost]
  simp only [List.mem_append, hexpired, hremoved]
  unfold learned
  rw [routes_tick]
  cases h : t.routes[p]? with
  | none => simp
  | some r =>
    cases hdue : r.due now with
    | keep => simp [hdue]
    | expire => simp [hdue, RipRoute.learned_poison]
    | remove => simp [hdue]

theorem learned_expireVia (t : RipTable) (peer : IpAddr) (now : UInt64) :
    Replica.replay t.learned ((t.expireVia peer now).2.map RipEvent.delta) =
      (t.expireVia peer now).1.learned := by
  funext p
  have hlost : (t.expireVia peer now).2 =
      ((t.routes.toList.filter fun e => e.2.via peer = true).map Prod.fst).map .lost := by
    simp [expireVia]
  have hexpired := mem_filter_toList t.routes (fun r => r.via peer = true) p
  rw [hlost, replay_lost]
  simp only [hexpired]
  unfold learned
  rw [routes_expireVia]
  cases h : t.routes[p]? with
  | none => simp
  | some r =>
    cases hvia : r.via peer with
    | true => simp [hvia, RipRoute.learned_poison]
    | false => simp [hvia]

theorem learned_withdrawRedistributed (t : RipTable) (pfx : Prefix) (now : UInt64) :
    (t.withdrawRedistributed pfx now).learned = t.learned := by
  funext p
  unfold learned
  rw [routes_withdrawRedistributed]
  cases h : t.routes[p]? with
  | none => rfl
  | some r =>
    by_cases hlive : p = pfx ∧ r.redistributed = true ∧ r.metric < metricInfinity
    · rw [Option.map_some, if_pos hlive, Option.bind_some, Option.bind_some,
        RipRoute.learned_poison, RipRoute.learned_of_ours (Or.inr hlive.2.1)]
    · rw [Option.map_some, if_neg hlive]

theorem learned_clearChanged (t : RipTable) : t.clearChanged.learned = t.learned := by
  funext p
  unfold learned
  rw [routes_clearChanged]
  cases h : t.routes[p]? with
  | none => rfl
  | some r => rfl

theorem learned_addConnected (t : RipTable) (pfx : Prefix) (ifindex : UInt32) :
    (t.addConnected pfx ifindex).learned = Function.update t.learned pfx none := by
  funext p
  rw [Function.update_apply]
  by_cases hp : p = pfx
  · rw [if_pos hp, learned, routes_addConnected, if_pos hp]
    exact RipRoute.learned_of_ours (Or.inl rfl) p
  · rw [if_neg hp]
    exact learned_eq_of_routes (by rw [routes_addConnected, if_neg hp])

theorem learned_addRedistributed (t : RipTable) (pfx : Prefix) (metric : UInt32) :
    (t.addRedistributed pfx metric).learned = Function.update t.learned pfx none := by
  funext p
  rw [Function.update_apply]
  by_cases hp : p = pfx
  · rw [if_pos hp, learned, routes_addRedistributed]
    by_cases hconn : (t.routes[p]?).any (fun r => r.connected) = true
    · rw [if_neg fun h => h.2 hconn]
      cases hold : t.routes[p]? with
      | none => rfl
      | some r =>
        have hr : r.connected = true := by simpa [hold] using hconn
        exact RipRoute.learned_of_ours (Or.inl hr) p
    · rw [if_pos ⟨hp, hconn⟩]
      exact RipRoute.learned_of_ours (Or.inr rfl) p
  · rw [if_neg hp]
    exact learned_eq_of_routes (by rw [routes_addRedistributed, if_neg fun h => hp h.1])

/-- The call replaces a learned route that is still reachable by one of our own. -/
def Shadows (t : RipTable) : Op → Prop
  | .addConnected pfx _ => (t.learned pfx).isSome = true
  | .addRedistributed pfx _ => (t.learned pfx).isSome = true
  | .processRoute .. => False
  | .withdrawRedistributed _ _ => False
  | .tick _ => False
  | .expireVia _ _ => False
  | .clearChanged => False

/-- Replayed on the learned routes from before it, the events of a call give those from after it
exactly when the call shadows no learned route. -/
theorem learned_apply_iff {t : RipTable} (h : t.Sane) (op : Op) :
    Replica.replay t.learned ((t.apply op).2.map RipEvent.delta) = (t.apply op).1.learned ↔
      ¬ t.Shadows op := by
  have hshadow : ∀ pfx, t.learned = Function.update t.learned pfx none ↔
      ¬ (t.learned pfx).isSome = true := by
    intro pfx
    rw [eq_comm, Function.update_eq_self_iff, eq_comm, Option.not_isSome_iff_eq_none]
  cases op with
  | processRoute pfx recvMetric nextHop sender ifindex now =>
    exact iff_of_true (learned_processRoute h pfx recvMetric nextHop sender ifindex now) id
  | addConnected pfx ifindex =>
    change t.learned = (t.addConnected pfx ifindex).learned ↔ _
    rw [learned_addConnected]
    exact hshadow pfx
  | addRedistributed pfx metric =>
    change t.learned = (t.addRedistributed pfx metric).learned ↔ _
    rw [learned_addRedistributed]
    exact hshadow pfx
  | withdrawRedistributed pfx now =>
    exact iff_of_true (learned_withdrawRedistributed t pfx now).symm id
  | tick now => exact iff_of_true (learned_tick t now) id
  | expireVia peer now => exact iff_of_true (learned_expireVia t peer now) id
  | clearChanged => exact iff_of_true (learned_clearChanged t).symm id

end RipTable

/-- A table together with all events it has emitted. -/
structure Feed where
  table : RipTable
  emitted : List RipEvent

namespace Feed

def new : Feed := ⟨.new, []⟩

def step (s : Feed) (op : RipTable.Op) : Feed :=
  ⟨(s.table.apply op).1, s.emitted ++ (s.table.apply op).2⟩

/-- What the RIB holds of RIP by the events emitted so far. -/
def held (s : Feed) : Prefix → Option Route :=
  Replica.replay (fun _ => none) (s.emitted.map RipEvent.delta)

/-- In every state of a run the RIB holds exactly the table's learned routes, if and only if no
call of the run shadows one. -/
theorem every_held_iff (ops : List RipTable.Op) :
    Run.Every step (fun s op => (s.step op).held = (s.step op).table.learned) new ops ↔
      Run.Every step (fun s op => ¬ s.table.Shadows op) new ops := by
  have hnew : new.held = new.table.learned := by
    funext p
    simp [held, new, RipTable.learned, RipTable.new]
  have hstep : ∀ (s : Feed) (op : RipTable.Op), s.table.Sane → True → s.held = s.table.learned →
      ((s.step op).held = (s.step op).table.learned ↔ ¬ s.table.Shadows op) := by
    intro s op hsane _ hheld
    have hreplay : (s.step op).held =
        Replica.replay s.table.learned ((s.table.apply op).2.map RipEvent.delta) := by
      rw [← hheld, held, step, List.map_append, Replica.replay_append]
      rfl
    rw [hreplay]
    exact RipTable.learned_apply_iff hsane op
  exact Run.every_good_iff (fun s => s.table.Sane) (fun s => s.held = s.table.learned)
    (fun s op hs _ => RipTable.sane_apply hs op) hstep (Run.every_true step new ops)
    RipTable.sane_new hnew

/-- A network learned from a neighbour becomes connected: the RIB is not told that the RIP route
is gone. -/
theorem not_held_after_addConnected :
    ¬ Run.Every step (fun s op => (s.step op).held = (s.step op).table.learned) new
      [.processRoute Sample.net 1 none (.v4 0xc0000201) 2 0, .addConnected Sample.net 3] := by
  intro h
  have hnet := congrFun h.2.1 Sample.net
  revert hnet
  decide +kernel

end Feed
end Wren.Rip
