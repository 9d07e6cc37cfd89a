import Wren.Rip.Table

/-! The invariant of the RIP table. Every operation acts on each prefix by itself, so what it does
is said once for each prefix and the invariant is one of single entries. -/

namespace Wren.Rip
open Std OrdMap Wren.Core

theorem toNat_saturatingAdd (a b : UInt32) :
    (saturatingAdd a b).toNat = min (a.toNat + b.toNat) (UInt32.size - 1) := by
  have ha := a.toNat_lt
  unfold saturatingAdd
  split_ifs with h
  · rw [UInt32.toNat_add]
    unfold UInt32.size at h ⊢
    omega
  · unfold UInt32.size at h ⊢
    change 4294967295 = _
    omega

theorem toNat_cost (m : UInt32) : (cost m).toNat = min (m.toNat + 1) 16 := by
  have hm := m.toNat_lt
  have h1 : (1 : UInt32).toNat = 1 := rfl
  have h16 : metricInfinity.toNat = 16 := rfl
  unfold cost
  rw [UInt32.toNat_min, toNat_saturatingAdd, h1, h16]
  unfold UInt32.size
  omega

theorem one_le_cost (m : UInt32) : 1 ≤ cost m := by
  have h := toNat_cost m
  have h1 : (1 : UInt32).toNat = 1 := rfl
  rw [UInt32.le_iff_toNat_le]
  omega

theorem cost_le_infinity (m : UInt32) : cost m ≤ metricInfinity := by
  have h := toNat_cost m
  have h16 : metricInfinity.toNat = 16 := rfl
  rw [UInt32.le_iff_toNat_le]
  omega

/-- A redistributed metric is clamped to what is reachable. -/
theorem clamp_metric (m : UInt32) :
    1 ≤ max 1 (min m (metricInfinity - 1)) ∧ max 1 (min m (metricInfinity - 1)) < metricInfinity := by
  have h1 : (1 : UInt32).toNat = 1 := rfl
  have h15 : (metricInfinity - 1).toNat = 15 := rfl
  have h16 : metricInfinity.toNat = 16 := rfl
  rw [UInt32.le_iff_toNat_le, UInt32.lt_iff_toNat_lt, UInt32.toNat_max, UInt32.toNat_min]
  omega

namespace RipTable

theorem routes_processRoute (t : RipTable) (pfx : Prefix) (recvMetric : UInt32)
    (nextHop : Option IpAddr) (sender : IpAddr) (ifindex : UInt32) (now : UInt64) (p : Prefix) :
    (t.processRoute pfx recvMetric nextHop sender ifindex now).1.routes[p]? =
      if p = pfx then
        match t.routes[p]? with
        | none =>
          if metricInfinity ≤ cost recvMetric then none
          else some (.ofReceived (cost recvMetric) (nextHop.getD sender) ifindex now)
        | some r => some (r.receive pfx (cost recvMetric) (nextHop.getD sender) ifindex now).1
      else t.routes[p]? := by
  unfold processRoute
  by_cases hp : p = pfx
  · subst hp
    rw [if_pos rfl]
    cases h : t.routes[p]? with
    | none =>
      dsimp only
      split_ifs
      · exact h
      · simp
    | some r => simp
  · rw [if_neg hp]
    cases h : t.routes[pfx]? with
    | none =>
      dsimp only
      split_ifs
      · rfl
      · simp [getElem?_insert, hp]
    | some r => simp [getElem?_insert, hp]

theorem routes_addConnected (t : RipTable) (pfx : Prefix) (ifindex : UInt32) (p : Prefix) :
    (t.addConnected pfx ifindex).routes[p]? =
      if p = pfx then some (.ofConnected pfx ifindex) else t.routes[p]? :=
  getElem?_insert _ _ _ _

theorem routes_addRedistributed (t : RipTable) (pfx : Prefix) (metric : UInt32) (p : Prefix) :
    (t.addRedistributed pfx metric).routes[p]? =
      if p = pfx ∧ ¬ (t.routes[p]?).any (fun r => r.connected) = true then
        some (.ofRedistributed pfx metric)
      else t.routes[p]? := by
  unfold addRedistributed
  by_cases hp : p = pfx
  · subst hp
    by_cases hconn : (t.routes[p]?).any (fun r => r.connected) = true
    · rw [if_pos hconn, if_neg fun h => h.2 hconn]
    · rw [if_neg hconn, if_pos ⟨rfl, hconn⟩]
      simp
  · rw [if_neg fun h : p = pfx ∧ _ => hp h.1]
    by_cases hconn : (t.routes[pfx]?).any (fun r => r.connected) = true
    · rw [if_pos hconn]
    · rw [if_neg hconn, getElem?_insert, if_neg hp]

theorem routes_withdrawRedistributed (t : RipTable) (pfx : Prefix) (now : UInt64) (p : Prefix) :
    (t.withdrawRedistributed pfx now).routes[p]? =
      (t.routes[p]?).map fun r =>
        if p = pfx ∧ r.redistributed ∧ r.metric < metricInfinity then r.poison now else r := by
  unfold withdrawRedistributed
  by_cases hp : p = pfx
  · subst hp
    cases h : t.routes[p]? with
    | none => simp [h]
    | some r =>
      by_cases hlive : r.redistributed = true ∧ r.metric < metricInfinity
      · simp [hlive]
      · simp only [if_neg hlive, h, Option.map_some, true_and]
  · cases h : t.routes[pfx]? with
    | none => simp [hp]
    | some r =>
      by_cases hlive : r.redistributed = true ∧ r.metric < metricInfinity
      · simp [hlive, hp, getElem?_insert]
      · simp [hlive, hp]

theorem routes_tick (t : RipTable) (now : UInt64) (p : Prefix) :
    (t.tick now).1.routes[p]? =
      (t.routes[p]?).bind fun r =>
        match r.due now with
        | .keep => some r
        | .expire => some (r.poison now)
        | .remove => none := by
  have hremoved := mem_filter_toList t.routes (fun r => r.due now = .remove) p
  unfold tick
  dsimp only
  rw [getElem?_foldl_erase]
  cases h : t.routes[p]? with
  | none => simp [h]
  | some r =>
    rw [h] at hremoved
    have hmem : p ∈ (t.routes.toList.filter fun e => e.2.due now = .remove).map Prod.fst ↔
        r.due now = .remove := by
      rw [hremoved]
      simp
    cases hdue : r.due now with
    | keep => simp [hmem, hdue, h]
    | expire => simp [hmem, hdue, h]
    | remove => simp [hmem, hdue]

theorem routes_expireVia (t : RipTable) (peer : IpAddr) (now : UInt64) (p : Prefix) :
    (t.expireVia peer now).1.routes[p]? =
      (t.routes[p]?).map fun r => if r.via peer then r.poison now else r := by
  simp [expireVia]

theorem routes_clearChanged (t : RipTable) (p : Prefix) :
    t.clearChanged.routes[p]? = (t.routes[p]?).map fun r => { r with changed := false } := by
  simp [clearChanged]

end RipTable

namespace RipRoute

/-- What every entry of a table satisfies. -/
structure Sane (r : RipRoute) : Prop where
  one_le : 1 ≤ r.metric
  le_infinity : r.metric ≤ metricInfinity
  deleteAt : r.deleteAt.isSome = true ↔ r.metric = metricInfinity
  connected : r.connected = true → r.metric = 1 ∧ r.redistributed = false
  redistributed : r.redistributed = true → r.expireAt = never

theorem sane_ofReceived {metric : UInt32} (h1 : 1 ≤ metric) (h16 : metric < metricInfinity)
    (nh : IpAddr) (ifindex : UInt32) (now : UInt64) : (ofReceived metric nh ifindex now).Sane := by
  constructor
  · exact h1
  · exact UInt32.le_of_lt h16
  · simpa [ofReceived] using UInt32.ne_of_lt h16
  · simp [ofReceived]
  · simp [ofReceived]

theorem sane_ofConnected (pfx : Prefix) (ifindex : UInt32) : (ofConnected pfx ifindex).Sane := by
  constructor
  · exact UInt32.le_refl 1
  · change (1 : UInt32) ≤ 16
    decide
  · simp [ofConnected, metricInfinity]
  · exact fun _ => ⟨rfl, rfl⟩
  · simp [ofConnected]

theorem sane_ofRedistributed (pfx : Prefix) (metric : UInt32) :
    (ofRedistributed pfx metric).Sane := by
  obtain ⟨h1, h16⟩ := clamp_metric metric
  constructor
  · exact h1
  · exact UInt32.le_of_lt h16
  · simpa [ofRedistributed] using UInt32.ne_of_lt h16
  · simp [ofRedistributed]
  · exact fun _ => rfl

theorem Sane.poison {r : RipRoute} (h : r.Sane) (hr : r.connected = false) (now : UInt64) :
    (r.poison now).Sane := by
  constructor
  · change (1 : UInt32) ≤ 16
    decide
  · exact UInt32.le_refl _
  · simp [RipRoute.poison]
  · simp [RipRoute.poison, hr]
  · exact h.redistributed

theorem Sane.clear {r : RipRoute} (h : r.Sane) : ({ r with changed := false } : RipRoute).Sane :=
  ⟨h.one_le, h.le_infinity, h.deleteAt, h.connected, h.redistributed⟩

/-- An entry that is ours does not hear its neighbours. -/
theorem receive_of_ours {r : RipRoute} (h : r.connected = true ∨ r.redistributed = true)
    (pfx : Prefix) (metric : UInt32) (nh : IpAddr) (ifindex : UInt32) (now : UInt64) :
    r.receive pfx metric nh ifindex now = (r, none) := by
  unfold receive
  rw [if_pos h]

/-- What a received route does to a learned entry: nothing, or it refreshes the entry, poisons it,
or makes it the route that was received. -/
theorem receive_cases {r : RipRoute} (hle : r.metric ≤ metricInfinity) (hconn : r.connected = false)
    (hredist : r.redistributed = false) (pfx : Prefix) (metric : UInt32) (nh : IpAddr)
    (ifindex : UInt32) (now : UInt64) :
    r.receive pfx metric nh ifindex now = (r, none) ∨
    (metric = r.metric ∧ metric < metricInfinity ∧ r.receive pfx metric nh ifindex now =
      ({ r with expireAt := now + timeoutSecs, deleteAt := none }, none)) ∨
    (metricInfinity ≤ metric ∧ r.receive pfx metric nh ifindex now =
      ({ r with metric := metric, changed := true, deleteAt := some (now + garbageSecs) },
        some (.lost pfx))) ∨
    (metric < metricInfinity ∧ r.receive pfx metric nh ifindex now =
      (ofReceived metric nh ifindex now, some (.learned (ripToCore pfx metric nh)))) := by
  have hours : ¬ (r.connected = true ∨ r.redistributed = true) := by simp [hconn, hredist]
  unfold receive
  rw [if_neg hours]
  by_cases hsame : r.nextHop = nh ∧ r.ifindex = ifindex
  · rw [if_pos hsame]
    by_cases hlt : metric < metricInfinity
    · have hnot : ¬ metricInfinity ≤ metric := by grind
      by_cases heq : metric = r.metric
      · exact Or.inr (Or.inl ⟨heq, hlt, by simp only [if_pos hlt, if_pos heq]⟩)
      · refine Or.inr (Or.inr (Or.inr ⟨hlt, ?_⟩))
        simp only [if_pos hlt, if_neg heq, if_neg hnot]
        obtain ⟨rfl, rfl⟩ := hsame
        simp [ofReceived, hconn, hredist]
    · have hinf : metricInfinity ≤ metric := by grind
      by_cases heq : metric = r.metric
      · exact Or.inl (by simp only [if_neg hlt, if_pos heq])
      · exact Or.inr (Or.inr (Or.inl ⟨hinf, by simp only [if_neg hlt, if_neg heq, if_pos hinf]⟩))
  · rw [if_neg hsame]
    by_cases hbetter : metric < r.metric
    · have hlt : metric < metricInfinity := by grind
      refine Or.inr (Or.inr (Or.inr ⟨hlt, ?_⟩))
      simp [if_pos hbetter, ofReceived, hconn, hredist]
    · exact Or.inl (if_neg hbetter)

theorem Sane.receive {r : RipRoute} (h : r.Sane) (pfx : Prefix) {metric : UInt32}
    (h1 : 1 ≤ metric) (h16 : metric ≤ metricInfinity) (nh : IpAddr) (ifindex : UInt32)
    (now : UInt64) : (r.receive pfx metric nh ifindex now).1.Sane := by
  by_cases hours : r.connected = true ∨ r.redistributed = true
  · rw [receive_of_ours hours]
    exact h
  have hconn : r.connected = false := by simpa using (not_or.mp hours).1
  have hredist : r.redistributed = false := by simpa using (not_or.mp hours).2
  rcases receive_cases h.le_infinity hconn hredist pfx metric nh ifindex now with
    heq | ⟨hmetric, hlt, heq⟩ | ⟨hinf, heq⟩ | ⟨hlt, heq⟩
  · rw [heq]
    exact h
  · rw [heq]
    refine ⟨h.one_le, h.le_infinity, ?_, h.connected, by simp [hredist]⟩
    simpa [← hmetric] using UInt32.ne_of_lt hlt
  · have hpoison : metric = metricInfinity := UInt32.le_antisymm h16 hinf
    rw [heq]
    exact ⟨h1, h16, by simp [hpoison], by simp [hconn], by simp [hredist]⟩
  · rw [heq]
    exact sane_ofReceived h1 hlt nh ifindex now

theorem due_of_connected {r : RipRoute} (h : r.connected = true) (now : UInt64) :
    r.due now = .keep := by
  unfold due
  rw [if_pos h]

theorem not_connected_of_due {r : RipRoute} {now : UInt64} (h : r.due now ≠ .keep) :
    r.connected = false := by
  by_contra hne
  exact h (due_of_connected (by simpa using hne) now)

/-- A reachable redistributed route is never late before the end of time. -/
theorem Sane.due_of_redistributed {r : RipRoute} (h : r.Sane) (hr : r.redistributed = true)
    (hlt : r.metric < metricInfinity) {now : UInt64} (hnow : now < never) : r.due now = .keep := by
  have hnone : r.deleteAt = none := by
    rw [← Option.not_isSome_iff_eq_none, h.deleteAt]
    exact UInt32.ne_of_lt hlt
  have hearly : ¬ r.expireAt ≤ now := by
    rw [h.redistributed hr]
    grind
  unfold due
  rw [hnone, if_neg hearly, ite_self]

theorem via_of_ours {r : RipRoute} (h : r.connected = true ∨ r.redistributed = true)
    (peer : IpAddr) : r.via peer = false := by
  unfold via
  rcases h with h | h
  · simp [h]
  · simp [h]

end RipRoute

namespace RipTable

def Sane (t : RipTable) : Prop := ∀ (p : Prefix) (r : RipRoute), t.routes[p]? = some r → r.Sane

theorem sane_new : new.Sane := by
  intro p r h
  simp [new] at h

theorem sane_apply {t : RipTable} (h : t.Sane) (op : Op) : (t.apply op).1.Sane := by
  intro p r hr
  cases op with
  | processRoute pfx recvMetric nextHop sender ifindex now =>
    change (t.processRoute pfx recvMetric nextHop sender ifindex now).1.routes[p]? = some r at hr
    rw [routes_processRoute] at hr
    by_cases hp : p = pfx
    · rw [if_pos hp] at hr
      cases hold : t.routes[p]? with
      | none =>
        simp only [hold] at hr
        split_ifs at hr with hinf
        cases hr
        exact RipRoute.sane_ofReceived (one_le_cost _) (by grind) _ _ _
      | some old =>
        simp only [hold] at hr
        cases hr
        exact (h p old hold).receive pfx (one_le_cost _) (cost_le_infinity _) _ _ _
    · rw [if_neg hp] at hr
      exact h p r hr
  | addConnected pfx ifindex =>
    change (t.addConnected pfx ifindex).routes[p]? = some r at hr
    rw [routes_addConnected] at hr
    split_ifs at hr
    · cases hr
      exact RipRoute.sane_ofConnected pfx ifindex
    · exact h p r hr
  | addRedistributed pfx metric =>
    change (t.addRedistributed pfx metric).routes[p]? = some r at hr
    rw [routes_addRedistributed] at hr
    split_ifs at hr
    · cases hr
      exact RipRoute.sane_ofRedistributed pfx metric
    · exact h p r hr
  | withdrawRedistributed pfx now =>
    change (t.withdrawRedistributed pfx now).routes[p]? = some r at hr
    rw [routes_withdrawRedistributed] at hr
    obtain ⟨old, hold, rfl⟩ := Option.map_eq_some_iff.mp hr
    have hsane := h p old hold
    split_ifs with hlive
    · refine hsane.poison ?_ now
      by_contra hne
      have hnot := (hsane.connected (by simpa using hne)).2
      rw [hnot] at hlive
      exact absurd hlive.2.1 (by simp)
    · exact hsane
  | tick now =>
    change (t.tick now).1.routes[p]? = some r at hr
    rw [routes_tick] at hr
    obtain ⟨old, hold, hdue⟩ := Option.bind_eq_some_iff.mp hr
    have hsane := h p old hold
    cases hcase : old.due now with
    | keep =>
      rw [hcase] at hdue
      cases hdue
      exact hsane
    | expire =>
      rw [hcase] at hdue
      cases hdue
      have hlate : old.due now ≠ .keep := by simp [hcase]
      exact hsane.poison (RipRoute.not_connected_of_due hlate) now
    | remove =>
      rw [hcase] at hdue
      cases hdue
  | expireVia peer now =>
    change (t.expireVia peer now).1.routes[p]? = some r at hr
    rw [routes_expireVia] at hr
    obtain ⟨old, hold, rfl⟩ := Option.map_eq_some_iff.mp hr
    have hsane := h p old hold
    split_ifs with hvia
    · refine hsane.poison ?_ now
      by_contra hne
      rw [RipRoute.via_of_ours (Or.inl (by simpa using hne))] at hvia
      cases hvia
    · exact hsane
  | clearChanged =>
    change t.clearChanged.routes[p]? = some r at hr
    rw [routes_clearChanged] at hr
    obtain ⟨old, hold, rfl⟩ := Option.map_eq_some_iff.mp hr
    exact (h p old hold).clear

theorem sane_run (ops : List Op) : (run ops).Sane :=
  List.foldlRecOn ops _ sane_new fun _ ht op _ => sane_apply ht op

/-- Neither a received route nor a path failure touches an entry that is ours. -/
theorem ours_processRoute {t : RipTable} {p : Prefix} {r : RipRoute} (hr : t.routes[p]? = some r)
    (hours : r.connected = true ∨ r.redistributed = true) (pfx : Prefix) (recvMetric : UInt32)
    (nextHop : Option IpAddr) (sender : IpAddr) (ifindex : UInt32) (now : UInt64) :
    (t.processRoute pfx recvMetric nextHop sender ifindex now).1.routes[p]? = some r := by
  rw [routes_processRoute, hr]
  by_cases hp : p = pfx
  · simp only [if_pos hp, RipRoute.receive_of_ours hours]
  · rw [if_neg hp]

theorem ours_expireVia {t : RipTable} {p : Prefix} {r : RipRoute} (hr : t.routes[p]? = some r)
    (hours : r.connected = true ∨ r.redistributed = true) (peer : IpAddr) (now : UInt64) :
    (t.expireVia peer now).1.routes[p]? = some r := by
  rw [routes_expireVia, hr]
  simp [RipRoute.via_of_ours hours]

/-- Only `addConnected` touches a connected entry, apart from its change flag. -/
theorem connected_kept {t : RipTable} (h : t.Sane) {p : Prefix} {r : RipRoute}
    (hr : t.routes[p]? = some r) (hconn : r.connected = true) {op : Op}
    (hop : ∀ ifindex, op ≠ .addConnected p ifindex) :
    (t.apply op).1.routes[p]? = some r ∨
      op = .clearChanged ∧ (t.apply op).1.routes[p]? = some { r with changed := false } := by
  have hredist := ((h p r hr).connected hconn).2
  cases op with
  | processRoute pfx recvMetric nextHop sender ifindex now =>
    exact Or.inl (ours_processRoute hr (Or.inl hconn) pfx recvMetric nextHop sender ifindex now)
  | addConnected pfx ifindex =>
    refine Or.inl ?_
    have hp : p ≠ pfx := fun heq => hop ifindex (heq ▸ rfl)
    change (t.addConnected pfx ifindex).routes[p]? = some r
    rw [routes_addConnected, if_neg hp, hr]
  | addRedistributed pfx metric =>
    refine Or.inl ?_
    change (t.addRedistributed pfx metric).routes[p]? = some r
    rw [routes_addRedistributed, hr]
    simp [hconn]
  | withdrawRedistributed pfx now =>
    refine Or.inl ?_
    change (t.withdrawRedistributed pfx now).routes[p]? = some r
    rw [routes_withdrawRedistributed, hr]
    simp [hredist]
  | tick now =>
    refine Or.inl ?_
    change (t.tick now).1.routes[p]? = some r
    rw [routes_tick, hr]
    simp [RipRoute.due_of_connected hconn]
  | expireVia peer now =>
    exact Or.inl (ours_expireVia hr (Or.inl hconn) peer now)
  | clearChanged =>
    refine Or.inr ⟨rfl, ?_⟩
    change t.clearChanged.routes[p]? = _
    rw [routes_clearChanged, hr]
    rfl

theorem redistributed_tick {t : RipTable} (h : t.Sane) {p : Prefix} {r : RipRoute}
    (hr : t.routes[p]? = some r) (hredist : r.redistributed = true)
    (hlt : r.metric < metricInfinity) {now : UInt64} (hnow : now < never) :
    (t.tick now).1.routes[p]? = some r := by
  rw [routes_tick, hr]
  simp [(h p r hr).due_of_redistributed hredist hlt hnow]

/-- Whether `p` was redistributed and not given up since: neither withdrawn, nor past a tick at the
largest time. -/
def Op.holds (p : Prefix) (held : Bool) : Op → Bool
  | .addRedistributed pfx _ => if pfx = p then true else held
  | .withdrawRedistributed pfx _ => if pfx = p then false else held
  | .tick now => if now = never then false else held
  | .processRoute .. => held
  | .addConnected _ _ => held
  | .expireVia _ _ => held
  | .clearChanged => held

def redistributes (p : Prefix) (ops : List Op) : Bool := ops.foldl (Op.holds p) false

/-- A redistributed entry that was not given up is reachable. -/
def Reaches (p : Prefix) (t : RipTable) (held : Bool) : Prop :=
  ∀ r, t.routes[p]? = some r → r.redistributed = true → held = true → r.metric < metricInfinity

theorem receive_redistributed (r : RipRoute) (pfx : Prefix) (metric : UInt32) (nh : IpAddr)
    (ifindex : UInt32) (now : UInt64) :
    (r.receive pfx metric nh ifindex now).1.redistributed = r.redistributed := by
  unfold RipRoute.receive
  split_ifs <;> rfl

theorem reaches_apply {p : Prefix} {t : RipTable} {held : Bool} (h : t.Sane) (hinv : Reaches p t held)
    (op : Op) : Reaches p (t.apply op).1 (op.holds p held) := by
  intro r hr hredist hheld
  cases op with
  | processRoute pfx recvMetric nextHop sender ifindex now =>
    change (t.processRoute pfx recvMetric nextHop sender ifindex now).1.routes[p]? = some r at hr
    rw [routes_processRoute] at hr
    by_cases hp : p = pfx
    · rw [if_pos hp] at hr
      cases hold : t.routes[p]? with
      | none =>
        simp only [hold] at hr
        split_ifs at hr
        cases hr
        cases hredist
      | some old =>
        simp only [hold] at hr
        cases hr
        rw [receive_redistributed] at hredist
        rw [RipRoute.receive_of_ours (Or.inr hredist)]
        exact hinv old hold hredist hheld
    · rw [if_neg hp] at hr
      exact hinv r hr hredist hheld
  | addConnected pfx ifindex =>
    change (t.addConnected pfx ifindex).routes[p]? = some r at hr
    rw [routes_addConnected] at hr
    split_ifs at hr
    · cases hr
      cases hredist
    · exact hinv r hr hredist hheld
  | addRedistributed pfx metric =>
    change (t.addRedistributed pfx metric).routes[p]? = some r at hr
    rw [routes_addRedistributed] at hr
    by_cases hp : p = pfx
    · by_cases hconn : (t.routes[p]?).any (fun r => r.connected) = true
      · rw [if_neg fun hc => hc.2 hconn] at hr
        rw [hr] at hconn
        have hnot := ((h p r hr).connected (by simpa using hconn)).2
        rw [hnot] at hredist
        cases hredist
      · rw [if_pos ⟨hp, hconn⟩] at hr
        cases hr
        exact (clamp_metric metric).2
    · rw [if_neg fun hc : p = pfx ∧ _ => hp hc.1] at hr
      simp only [Op.holds, if_neg (Ne.symm hp)] at hheld
      exact hinv r hr hredist hheld
  | withdrawRedistributed pfx now =>
    change (t.withdrawRedistributed pfx now).routes[p]? = some r at hr
    rw [routes_withdrawRedistributed] at hr
    obtain ⟨old, hold, rfl⟩ := Option.map_eq_some_iff.mp hr
    by_cases hp : p = pfx
    · simp [Op.holds, hp] at hheld
    · simp only [Op.holds, if_neg (Ne.symm hp)] at hheld
      simp only [hp, false_and, if_false] at hredist ⊢
      exact hinv old hold hredist hheld
  | tick now =>
    change (t.tick now).1.routes[p]? = some r at hr
    rw [routes_tick] at hr
    obtain ⟨old, hold, hdue⟩ := Option.bind_eq_some_iff.mp hr
    by_cases hnow : now = never
    · simp [Op.holds, hnow] at hheld
    · have hlt : now < never := by
        unfold never at hnow ⊢
        grind
      simp only [Op.holds, if_neg hnow] at hheld
      cases hcase : old.due now with
      | keep =>
        rw [hcase] at hdue
        rw [← Option.some.inj hdue] at hredist ⊢
        exact hinv old hold hredist hheld
      | expire =>
        rw [hcase] at hdue
        rw [← Option.some.inj hdue] at hredist
        have hmetric := hinv old hold hredist hheld
        rw [(h p old hold).due_of_redistributed hredist hmetric hlt] at hcase
        cases hcase
      | remove =>
        rw [hcase] at hdue
        cases hdue
  | expireVia peer now =>
    change (t.expireVia peer now).1.routes[p]? = some r at hr
    rw [routes_expireVia] at hr
    obtain ⟨old, hold, rfl⟩ := Option.map_eq_some_iff.mp hr
    have hold' : old.redistributed = true := by
      split_ifs at hredist <;> exact hredist
    simp only [RipRoute.via_of_ours (Or.inr hold')]
    exact hinv old hold hold' hheld
  | clearChanged =>
    change t.clearChanged.routes[p]? = some r at hr
    rw [routes_clearChanged] at hr
    obtain ⟨old, hold, rfl⟩ := Option.map_eq_some_iff.mp hr
    exact hinv old hold hredist hheld

theorem reaches_run (p : Prefix) (ops : List Op) : Reaches p (run ops) (redistributes p ops) := by
  have hfold : ∀ (ops : List Op) (t : RipTable) (held : Bool), t.Sane → Reaches p t held →
      Reaches p (ops.foldl (fun t op => (t.apply op).1) t) (ops.foldl (Op.holds p) held) := by
    intro ops
    induction ops with
    | nil => exact fun t held _ hinv => hinv
    | cons op ops ih =>
      intro t held hsane hinv
      exact ih _ _ (sane_apply hsane op) (reaches_apply hsane hinv op)
  refine hfold ops new false sane_new ?_
  intro r hr
  simp [new] at hr

theorem map_pfx_adverts (t : RipTable) (outIfindex : UInt32) :
    (t.adverts outIfindex).map Advert.pfx = t.routes.toList.map Prod.fst := by
  unfold adverts
  rw [List.map_map]
  rfl

theorem metric_advertFor (r : RipRoute) (p : Prefix) (outIfindex : UInt32) :
    (r.advertFor p outIfindex).metric = metricInfinity ↔
      r.ifindex = outIfindex ∨ r.metric = metricInfinity := by
  unfold RipRoute.advertFor
  by_cases hout : r.ifindex = outIfindex
  · simp [hout]
  · simp [hout]

/-- After any calls: metrics lie in `1..=16` and the garbage timer runs exactly at 16; a connected
entry has metric 1 and only `addConnected` touches it, apart from its change flag; a redistributed
entry that was not given up withstands received routes, earlier ticks and path failures; and an
advertisement lists every entry once, unreachable exactly for its own interface or at metric 16. -/
theorem ripTable_invariant (ops : List Op) :
    let t := run ops
    (∀ (p : Prefix) (r : RipRoute), t.routes[p]? = some r →
      1 ≤ r.metric ∧ r.metric ≤ metricInfinity ∧
      (r.deleteAt.isSome = true ↔ r.metric = metricInfinity) ∧
      (r.connected = true → r.metric = 1 ∧
        ∀ op, (∀ ifindex, op ≠ .addConnected p ifindex) →
          (t.apply op).1.routes[p]? = some r ∨
            op = .clearChanged ∧ (t.apply op).1.routes[p]? = some { r with changed := false }) ∧
      (r.redistributed = true → redistributes p ops = true →
        (∀ pfx recvMetric nextHop sender ifindex now,
          (t.processRoute pfx recvMetric nextHop sender ifindex now).1.routes[p]? = some r) ∧
        (∀ now < never, (t.tick now).1.routes[p]? = some r) ∧
        ∀ peer now, (t.expireVia peer now).1.routes[p]? = some r)) ∧
    ∀ outIfindex, ((t.adverts outIfindex).map Advert.pfx).Nodup ∧
      (∀ p, p ∈ (t.adverts outIfindex).map Advert.pfx ↔ p ∈ t.routes) ∧
      ∀ (p : Prefix) (r : RipRoute), t.routes[p]? = some r →
        ∃ a ∈ t.adverts outIfindex, a.pfx = p ∧
          (a.metric = metricInfinity ↔ r.ifindex = outIfindex ∨ r.metric = metricInfinity) := by
  intro t
  have hsane : t.Sane := sane_run ops
  constructor
  · intro p r hr
    have hr' := hsane p r hr
    refine ⟨hr'.one_le, hr'.le_infinity, hr'.deleteAt, ?_, ?_⟩
    · intro hconn
      exact ⟨(hr'.connected hconn).1, fun op hop => connected_kept hsane hr hconn hop⟩
    · intro hredist hheld
      have hlt := reaches_run p ops r hr hredist hheld
      exact ⟨ours_processRoute hr (Or.inr hredist),
        fun now hnow => redistributed_tick hsane hr hredist hlt hnow,
        ours_expireVia hr (Or.inr hredist)⟩
  · intro outIfindex
    rw [map_pfx_adverts]
    refine ⟨nodup_keys_toList _, ?_, ?_⟩
    · intro p
      rw [ExtTreeMap.map_fst_toList_eq_keys, ExtTreeMap.mem_keys]
    · intro p r hr
      have hmem : (p, r) ∈ t.routes.toList := ExtTreeMap.mem_toList_iff_getElem?_eq_some.mpr hr
      exact ⟨r.advertFor p outIfindex, List.mem_map.mpr ⟨(p, r), hmem, rfl⟩, rfl,
        metric_advertFor r p outIfindex⟩

/-- Clearing the change flags alters a connected entry, and after a tick at the largest time the
wrapped garbage timer removes a redistributed route that nobody withdrew. -/
theorem clearChanged_and_last_tick_alter :
    let t := run [.addConnected Sample.net 2]
    let u := run [.addRedistributed Sample.net 5, .tick never]
    ((t.routes[Sample.net]?).any (fun r => r.connected) = true ∧
        (t.apply .clearChanged).1.routes[Sample.net]? ≠ t.routes[Sample.net]?) ∧
      (u.routes[Sample.net]?).any (fun r => r.redistributed) = true ∧
        (u.tick 200).1.routes[Sample.net]? ≠ u.routes[Sample.net]? := by
  decide +kernel

end RipTable
end Wren.Rip
