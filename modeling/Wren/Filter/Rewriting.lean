import Wren.Filter.Basic

/-! What a filter makes of a route: which rule decides, which fields it may change, and when the
metric it leaves is the one it was told. -/

namespace Wren
open Wren.Core Wren.Filter

namespace Filter

/-- The first rule whose conditions hold of the route as it came. -/
def Decides (f : Filter) (route : Route) (rule : Rule) : Prop :=
  ∃ pre post, f.rules = pre ++ rule :: post ∧ (∀ r ∈ pre, r.matcher.test route = false) ∧
    rule.matcher.test route = true

/-- No rule applies, so the default does. -/
def FallsThrough (f : Filter) (route : Route) : Prop := ∀ r ∈ f.rules, r.matcher.test route = false

end Filter

namespace Filter.Modify

/-- The metric the adjustment starts from. -/
def base (m : Modify) (route : Route) : UInt32 := m.setMetric.getD route.metric

/-- The metric as it is meant, computed without bounds and clamped once. -/
def metric (m : Modify) (route : Route) : ℤ :=
  max 0 (min ((m.base route).toNat + (m.addMetric.elim 0 Int64.toInt)) (2 ^ 32 - 1))

/-- Fields that are not named stay as they are, and what identifies a route is never named. -/
structure Framed (m : Modify) (route r : Route) : Prop where
  pfx : r.pfx = route.pfx
  table : r.table = route.table
  protocol : r.protocol = route.protocol
  source : r.source = route.source
  nexthops : m.setNextHop = none → r.nexthops = route.nexthops
  metric : m.setMetric = none → m.addMetric = none → r.metric = route.metric
  preference : m.setPreference = none → r.preference = route.preference
  communities : m.setCommunities = none → m.addCommunities = [] → r.communities = route.communities
  largeCommunities : m.setLargeCommunities = none → m.addLargeCommunities = [] →
    r.largeCommunities = route.largeCommunities
  extCommunities : m.setExtCommunities = none → m.addExtCommunities = [] →
    r.extCommunities = route.extCommunities

theorem framed_apply (m : Modify) (route : Route) : m.Framed route (m.apply route) := by
  refine ⟨rfl, rfl, rfl, rfl, ?_, ?_, ?_, ?_, ?_, ?_⟩
  · intro h
    simp [apply, h]
  · intro hset hadd
    simp [apply, hset, hadd]
  · intro h
    simp [apply, h]
  · intro hset hadd
    simp [apply, hset, hadd, addTags]
  · intro hset hadd
    simp [apply, hset, hadd, addTags]
  · intro hset hadd
    simp [apply, hset, hadd, addTags]

end Filter.Modify

/-- Up to the largest 64-bit number the sum is the one over the integers. From there on it wraps
below zero, and the clamp leaves zero where the bound belongs. -/
theorem Filter.addToMetric_eq_iff (metric : UInt32) (d : Int64) :
    ((addToMetric metric d).toNat : ℤ) = max 0 (min (metric.toNat + d.toInt) (2 ^ 32 - 1)) ↔
      metric.toNat + d.toInt < 2 ^ 63 := by
  have hm := metric.toNat_lt
  have hlo : -2 ^ 63 ≤ d.toInt := d.le_toInt
  have hhi : d.toInt < 2 ^ 63 := d.toInt_lt
  have hof : (Int64.ofNat metric.toNat).toInt = metric.toNat := Int64.toInt_ofNat_of_lt (by omega)
  have hsum : (Int64.ofNat metric.toNat + d).toInt =
      if metric.toNat + d.toInt < 2 ^ 63 then metric.toNat + d.toInt
      else metric.toNat + d.toInt - 2 ^ 64 := by
    rw [Int64.toInt_add, hof]
    split_ifs with h
    · exact Int.bmod_eq_of_le (by omega) (by omega)
    · rw [Int.bmod_def]
      omega
  rw [addToMetric, hsum, UInt32.toNat_ofNat']
  split_ifs with h
  · simp only [h, iff_true]
    omega
  · simp only [h, iff_false]
    omega

namespace Filter

theorem metric_apply_iff (m : Modify) (route : Route) :
    ((m.apply route).metric.toNat : ℤ) = m.metric route ↔
      ∀ d, m.addMetric = some d → (m.base route).toNat + d.toInt < 2 ^ 63 := by
  have happly : (m.apply route).metric = (m.addMetric.map (addToMetric (m.base route))).getD (m.base route) := rfl
  rw [happly, Modify.metric]
  cases m.addMetric with
  | none =>
    have hlt := (m.base route).toNat_lt
    simp only [Option.map_none, Option.getD_none, Option.elim_none, reduceCtorEq, false_implies, implies_true,
      iff_true]
    omega
  | some d =>
    rw [Option.map_some, Option.getD_some, Option.elim_some, addToMetric_eq_iff]
    simp

theorem apply_of_decides {f : Filter} {route : Route} {rule : Rule} (h : f.Decides route rule) :
    f.apply route = rule.action.decide (rule.modify.apply route) := by
  obtain ⟨pre, post, hrules, hpre, hrule⟩ := h
  have hfind : f.rules.find? (fun r => r.matcher.test route) = some rule := by
    rw [hrules, List.find?_append, List.find?_eq_none.mpr (by simpa using hpre)]
    simp [hrule]
  rw [apply, hfind]

theorem apply_of_fallsThrough {f : Filter} {route : Route} (h : f.FallsThrough route) :
    f.apply route = f.default.decide route := by
  have hfind : f.rules.find? (fun r => r.matcher.test route) = none :=
    List.find?_eq_none.mpr fun r hr => by simp [h r hr]
  rw [apply, hfind]

/-- The decision is that of the first matching rule or else the default, and an accepted route differs
from the one that came only as the rule says. -/
structure Exact (f : Filter) (route : Route) : Prop where
  rejects : ∀ rule, f.Decides route rule → rule.action = .reject → f.apply route = .reject
  accepts : ∀ rule, f.Decides route rule → rule.action = .accept → ∃ r, f.apply route = .accept r ∧
    rule.modify.Framed route r ∧ (r.metric.toNat : ℤ) = rule.modify.metric route
  default : f.FallsThrough route → f.apply route = f.default.decide route

/-- A filter is exact unless the rule that accepts adds so much to the metric that 64 bits overflow. -/
theorem exact_iff (f : Filter) (route : Route) :
    f.Exact route ↔ ∀ rule d, f.Decides route rule → rule.action = .accept → rule.modify.addMetric = some d →
      (rule.modify.base route).toNat + d.toInt < 2 ^ 63 := by
  constructor
  · intro h rule d hrule hacc hd
    obtain ⟨r, hr, -, hmetric⟩ := h.accepts rule hrule hacc
    rw [apply_of_decides hrule, hacc] at hr
    have heq : rule.modify.apply route = r := Decision.accept.inj hr
    exact (metric_apply_iff _ _).mp (heq ▸ hmetric) d hd
  · intro h
    refine ⟨?_, ?_, apply_of_fallsThrough⟩
    · intro rule hrule hrej
      rw [apply_of_decides hrule, hrej]
      rfl
    · intro rule hrule hacc
      refine ⟨rule.modify.apply route, ?_, rule.modify.framed_apply route, ?_⟩
      · rw [apply_of_decides hrule, hacc]
        rfl
      · exact (metric_apply_iff _ _).mpr fun d hd => h rule d hrule hacc hd

/-- A filter that adds the largest 64-bit number to every metric. -/
def addLargest : Filter := ⟨[{ modify := { addMetric := some Int64.maxValue }, action := .accept }], .accept⟩

/-- A metric of one overflows, and comes out as zero. -/
theorem not_forall_exact : ¬ ∀ (f : Filter) (route : Route), f.Exact route := by
  intro h
  have hone := (h addLargest { Sample.route .bgp with metric := 1 }).accepts _ ⟨[], [], rfl, by simp, rfl⟩ rfl
  obtain ⟨r, hr, -, hmetric⟩ := hone
  have heq : r.metric = 0 := by
    have hmod : Modify.apply { addMetric := some Int64.maxValue } { Sample.route .bgp with metric := 1 } = r :=
      Decision.accept.inj hr
    rw [← hmod]
    decide
  rw [heq] at hmetric
  revert hmetric
  decide

end Filter
end Wren
