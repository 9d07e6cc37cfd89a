import Wren.Core.Route

/-! Route filters: an ordered list of rules, of which the first that matches decides. -/

namespace Wren.Filter
open Wren.Core

structure PrefixPattern where
  network : Prefix
  minLen : UInt8
  maxLen : UInt8
deriving DecidableEq

def PrefixPattern.matches (pat : PrefixPattern) (p : Prefix) : Bool :=
  pat.network.isIpv4 == p.isIpv4 && pat.network.len ≤ p.len && pat.network.contains p.addr
    && pat.minLen ≤ p.len && p.len ≤ pat.maxLen

abbrev PrefixList := List PrefixPattern

def PrefixList.matches (list : PrefixList) (p : Prefix) : Bool := list.any fun pat => pat.matches p

/-- An absent condition holds of every route. -/
structure Match where
  pfx : Option PrefixList := none
  protocol : Option Protocol := none
  metricLe : Option UInt32 := none
  metricGe : Option UInt32 := none
deriving DecidableEq

def Match.test (m : Match) (route : Route) : Bool :=
  m.pfx.all (fun list => PrefixList.matches list route.pfx)
    && m.protocol.all (fun p => route.protocol == p)
    && m.metricLe.all (fun v => route.metric ≤ v)
    && m.metricGe.all (fun v => v ≤ route.metric)

structure Modify where
  setMetric : Option UInt32 := none
  addMetric : Option Int64 := none
  setPreference : Option UInt32 := none
  setCommunities : Option (List UInt32) := none
  addCommunities : List UInt32 := []
  setLargeCommunities : Option (List (UInt32 × UInt32 × UInt32)) := none
  addLargeCommunities : List (UInt32 × UInt32 × UInt32) := []
  setExtCommunities : Option (List (Vector UInt8 8)) := none
  addExtCommunities : List (Vector UInt8 8) := []
  setNextHop : Option IpAddr := none
deriving DecidableEq

/-- Append the tags that are not there yet, in order. -/
def addTags {α : Type} [DecidableEq α] (tags add : List α) : List α :=
  add.foldl (fun tags c => if c ∈ tags then tags else tags ++ [c]) tags

/-- The sum wraps in 64 bits before it is clamped to the metric's own range. -/
def addToMetric (metric : UInt32) (d : Int64) : UInt32 :=
  UInt32.ofNat (min (max (Int64.ofNat metric.toNat + d).toInt 0) 4294967295).toNat

def Modify.apply (m : Modify) (route : Route) : Route :=
  let metric := m.setMetric.getD route.metric
  { route with
    nexthops := (m.setNextHop.map fun nh => [NextHop.via nh]).getD route.nexthops
    metric := (m.addMetric.map (addToMetric metric)).getD metric
    preference := m.setPreference.getD route.preference
    communities := addTags (m.setCommunities.getD route.communities) m.addCommunities
    largeCommunities :=
      addTags (m.setLargeCommunities.getD route.largeCommunities) m.addLargeCommunities
    extCommunities := addTags (m.setExtCommunities.getD route.extCommunities) m.addExtCommunities }

inductive Action where
  | accept
  | reject
deriving DecidableEq

structure Rule where
  matcher : Match := {}
  modify : Modify := {}
  action : Action
deriving DecidableEq

inductive Decision where
  | accept (route : Route)
  | reject
deriving DecidableEq

def Decision.accepted : Decision → Option Route
  | accept route => some route
  | reject => none

theorem Decision.accepted_eq_some_iff {d : Decision} {r : Route} :
    d.accepted = some r ↔ d = accept r := by
  cases d with
  | accept route => simp [accepted]
  | reject => simp [accepted]

def Action.decide : Action → Route → Decision
  | accept, route => .accept route
  | reject, _ => .reject

end Wren.Filter

namespace Wren
open Wren.Core Wren.Filter

structure Filter where
  rules : List Rule
  default : Action
deriving DecidableEq

namespace Filter

def acceptAll : Filter := ⟨[], .accept⟩

def rejectAll : Filter := ⟨[], .reject⟩

/-- First match wins. -/
def apply (f : Filter) (route : Route) : Decision :=
  match f.rules.find? fun rule => rule.matcher.test route with
  | some rule => rule.action.decide (rule.modify.apply route)
  | none => f.default.decide route

/-- No rule rewrites what identifies a route. -/
theorem apply_accept {f : Filter} {route r : Route} (h : f.apply route = .accept r) :
    r.pfx = route.pfx ∧ r.table = route.table ∧ r.protocol = route.protocol ∧
      r.source = route.source := by
  have hdec : ∀ (a : Action) (r' : Route), a.decide r' = .accept r → r = r' := by
    intro a r' h'
    cases a with
    | accept => exact (Decision.accept.inj h').symm
    | reject => cases h'
  unfold apply at h
  split at h
  · rw [hdec _ _ h]
    exact ⟨rfl, rfl, rfl, rfl⟩
  · rw [hdec _ _ h]
    exact ⟨rfl, rfl, rfl, rfl⟩

theorem fibKey_of_accept {f : Filter} {route r : Route} (h : f.apply route = .accept r) :
    r.fibKey = route.fibKey := by
  obtain ⟨hp, ht, -, -⟩ := apply_accept h
  rw [Route.fibKey, Route.fibKey, hp, ht]

end Filter
end Wren
