import Wren.Lib.Argmin
import Wren.Core.Route

/-! Babel's source table, with the feasibility condition, and its route table. -/

namespace Wren.Babel
open Std OrdMap Wren.Core

def metricInfinity : UInt16 := 0xffff

abbrev RouterId := Vector UInt8 8

/-- More recent, modulo `2 ^ 16`. -/
def seqnoNewer (a b : UInt16) : Bool := a ≠ b && a - b < 0x8000

def saturatingAdd (a b : UInt16) : UInt16 :=
  if a.toNat + b.toNat < UInt16.size then a + b else 0xffff

def addMetric (metric cost : UInt16) : UInt16 :=
  if metric = metricInfinity ∨ cost = metricInfinity then metricInfinity
  else saturatingAdd metric cost

/-- A feasibility distance. -/
structure Fd where
  seqno : UInt16
  metric : UInt16
deriving DecidableEq

def strictlyBetter (seqno metric : UInt16) (fd : Fd) : Bool :=
  seqnoNewer seqno fd.seqno || (seqno = fd.seqno && metric < fd.metric)

structure SourceTable where
  fds : BTreeMap (Prefix × RouterId) Fd

namespace SourceTable

/-- Retractions and unknown sources are always feasible. -/
def isFeasible (s : SourceTable) (pfx : Prefix) (routerId : RouterId) (seqno metric : UInt16) : Bool :=
  if metric = metricInfinity then true
  else
    match s.fds[(pfx, routerId)]? with
    | none => true
    | some fd => strictlyBetter seqno metric fd

/-- Commit to a selected route, where it improves on the distance. -/
def update (s : SourceTable) (pfx : Prefix) (routerId : RouterId) (seqno metric : UInt16) :
    SourceTable :=
  if metric = metricInfinity then s
  else
    let better :=
      match s.fds[(pfx, routerId)]? with
      | none => true
      | some fd => strictlyBetter seqno metric fd
    if better then ⟨s.fds.insert (pfx, routerId) ⟨seqno, metric⟩⟩ else s

/-- What was committed to. -/
def distance (s : SourceTable) (pfx : Prefix) (routerId : RouterId) : Option Fd := s.fds[(pfx, routerId)]?

end SourceTable

/-- A source, reached through a neighbour. -/
structure RouteKey where
  pfx : Prefix
  routerId : RouterId
  neighbour : IpAddr
deriving DecidableEq

namespace RouteKey

def fields (k : RouteKey) : Prefix × RouterId × IpAddr := (k.pfx, k.routerId, k.neighbour)

theorem fields_injective : Function.Injective fields := by
  rintro ⟨p, r, n⟩ ⟨q, s, m⟩ h
  cases h
  rfl

instance : Ord RouteKey := ⟨compareOn fields⟩

instance : TransOrd RouteKey := inferInstanceAs (TransCmp (compareOn fields))

instance : LawfulEqOrd RouteKey where
  eq_of_compare h := fields_injective (LawfulEqOrd.eq_of_compare h)

end RouteKey

structure RouteEntry where
  seqno : UInt16
  advertised : UInt16
  cost : UInt16
  nextHop : IpAddr
  feasible : Bool
deriving DecidableEq

def RouteEntry.metric (e : RouteEntry) : UInt16 := addMetric e.advertised e.cost

/-- What routes of one prefix are compared by: metric first, then key. -/
structure Rank where
  metric : UInt16
  key : RouteKey

namespace Rank

def fields (r : Rank) : UInt16 × RouteKey := (r.metric, r.key)

theorem fields_injective : Function.Injective fields := by
  rintro ⟨m, k⟩ ⟨n, l⟩ h
  cases h
  rfl

instance : Ord Rank := ⟨compareOn fields⟩

instance : TransOrd Rank := inferInstanceAs (TransCmp (compareOn fields))

instance : LawfulEqOrd Rank where
  eq_of_compare h := fields_injective (LawfulEqOrd.eq_of_compare h)

instance : LE Rank := LE.ofOrd Rank

instance : LawfulOrderOrd Rank := instLawfulOrderOrd_ofOrd Rank

instance : DecidableLE Rank := DecidableLE.ofOrd Rank

instance : IsLinearOrder Rank := IsLinearOrder.of_ord

end Rank

inductive BabelEvent where
  | select (pfx : Prefix) (nextHop : IpAddr) (metric : UInt16)
  | retract (pfx : Prefix)
deriving DecidableEq

structure RouteTable where
  sources : SourceTable
  routes : BTreeMap RouteKey RouteEntry
  selected : BTreeMap Prefix (RouteKey × IpAddr × UInt16)

namespace RouteTable

def new : RouteTable := ⟨⟨∅⟩, ∅, ∅⟩

/-- A route that may be selected for `pfx`. -/
def Eligible (pfx : Prefix) (r : RouteKey × RouteEntry) : Prop :=
  r.1.pfx = pfx ∧ r.2.feasible = true ∧ r.2.metric < metricInfinity

instance (pfx : Prefix) : DecidablePred (Eligible pfx) := fun _ => inferInstanceAs (Decidable (_ ∧ _))

def rank (r : RouteKey × RouteEntry) : Rank := ⟨r.2.metric, r.1⟩

/-- The eligible route of smallest metric, ties broken by the key. -/
def best (t : RouteTable) (pfx : Prefix) : Option (RouteKey × RouteEntry) :=
  Argmin.argmin t.routes (Eligible pfx) rank

def reselect (t : RouteTable) (pfx : Prefix) : RouteTable × Option BabelEvent :=
  match t.best pfx with
  | some (key, entry) =>
    let sources := t.sources.update pfx key.routerId entry.seqno entry.advertised
    let now := (key, entry.nextHop, entry.metric)
    if t.selected[pfx]? = some now then ({ t with sources := sources }, none)
    else
      ({ t with sources := sources, selected := t.selected.insert pfx now },
        some (.select pfx entry.nextHop entry.metric))
  | none =>
    ({ t with selected := t.selected.erase pfx }, (t.selected[pfx]?).map fun _ => .retract pfx)

def isSelectedRoute (t : RouteTable) (key : RouteKey) : Bool :=
  (t.selected[key.pfx]?).any fun s => s.1 = key

/-- Store or withdraw one neighbour's route. The selected route counts as feasible, because it is
the one that set the distance. -/
def offer (t : RouteTable) (key : RouteKey) (nextHop : IpAddr) (seqno advertised cost : UInt16) :
    RouteTable :=
  if advertised = metricInfinity then { t with routes := t.routes.erase key }
  else
    let feasible :=
      t.isSelectedRoute key || t.sources.isFeasible key.pfx key.routerId seqno advertised
    { t with
      routes := t.routes.insert key
        { seqno := seqno
          advertised := advertised
          cost := cost
          nextHop := nextHop
          feasible := feasible } }

def update (t : RouteTable) (pfx : Prefix) (routerId : RouterId) (neighbour nextHop : IpAddr)
    (seqno advertised cost : UInt16) : RouteTable × Option BabelEvent :=
  (t.offer ⟨pfx, routerId, neighbour⟩ nextHop seqno advertised cost).reselect pfx

/-- The prefixes with a route through `neighbour`, in order. -/
def affected (t : RouteTable) (neighbour : IpAddr) : BTreeSet Prefix :=
  .ofList ((t.routes.keys.filter fun k => k.neighbour = neighbour).map RouteKey.pfx)

def dropNeighbour (t : RouteTable) (neighbour : IpAddr) : RouteTable :=
  { t with routes := t.routes.filter fun k _ => k.neighbour ≠ neighbour }

/-- Run selection for each prefix in turn. -/
def reselectAll (t : RouteTable) : List Prefix → RouteTable × List BabelEvent
  | [] => (t, [])
  | pfx :: pfxs =>
    let (t, event) := t.reselect pfx
    let (t, events) := t.reselectAll pfxs
    (t, event.toList ++ events)

def neighbourLost (t : RouteTable) (neighbour : IpAddr) : RouteTable × List BabelEvent :=
  (t.dropNeighbour neighbour).reselectAll (t.affected neighbour).toList

/-- For the operational view, by prefix. -/
def selectedRoutes (t : RouteTable) : List (Prefix × IpAddr × UInt16) :=
  t.selected.toList.map fun s => (s.1, s.2.2)

inductive Op where
  | update (pfx : Prefix) (routerId : RouterId) (neighbour nextHop : IpAddr)
      (seqno advertised cost : UInt16)
  | neighbourLost (neighbour : IpAddr)

def apply (t : RouteTable) : Op → RouteTable × List BabelEvent
  | .update pfx routerId neighbour nextHop seqno advertised cost =>
    let (t, event) := t.update pfx routerId neighbour nextHop seqno advertised cost
    (t, event.toList)
  | .neighbourLost neighbour => t.neighbourLost neighbour

end RouteTable
end Wren.Babel
