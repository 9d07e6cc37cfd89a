import Wren.Core.Rib
import Wren.Filter.Basic

/-! The central router loop. It owns the RIB and the forwarding plane, folds protocol updates
into the one, and programs the resulting best-path changes into the other. -/

namespace Wren.Daemon
open Std OrdMap Wren.Core Wren.Filter

/-- Import filters, one for each protocol that has one. -/
abbrev ImportFilters := Protocol → Option Filter

inductive RouteUpdate where
  | announce (route : Route)
  | withdraw (table : UInt32) (pfx : Prefix) (protocol : Protocol) (source : UInt64)

inductive Redistribution where
  | announce (route : Route)
  | withdraw (pfx : Prefix)
deriving DecidableEq

inductive RedistEvent where
  | changed (route : Route)
  | gone (pfx : Prefix)

/-- A protocol engine that routes are redistributed to; `sent` is what went down its channel. -/
structure RedistTarget where
  protocol : Protocol
  sources : Finset Protocol
  filter : Option Filter
  sent : List Redistribution

inductive RouteEvent where
  | update (route : Route)
  | withdraw (table : UInt32) (pfx : Prefix)
  | endOfDump
deriving DecidableEq

/-- A route-export client. `accepts n` says whether the `n`th send into its channel succeeds:
a full buffer or a closed receiver fails it. -/
structure Subscriber where
  received : List RouteEvent
  accepts : ℕ → Bool

def Subscriber.send (sub : Subscriber) (event : RouteEvent) : Option Subscriber :=
  if sub.accepts sub.received.length then some { sub with received := sub.received ++ [event] }
  else none

/-- What `programFib` may change: the plane itself, the routes programmed into it, the keys whose
last write failed, and the open subscriptions. -/
structure Plane (φ : Type) where
  fib : φ
  exported : BTreeMap FibKey Route
  failed : BTreeSet FibKey
  subscribers : List Subscriber

def applyImport (imports : ImportFilters) (route : Route) : Decision :=
  match imports route.protocol with
  | some filter => filter.apply route
  | none => .accept route

/-- A route that its import filter rejects is withdrawn, so that no older one lingers. -/
def ingest (rib : Rib) (update : RouteUpdate) (imports : ImportFilters) : Rib × Option FibChange :=
  match update with
  | .announce route =>
    match applyImport imports route with
    | .accept r => rib.update r
    | .reject => rib.withdraw route.table route.pfx route.protocol route.source
  | .withdraw table pfx protocol source => rib.withdraw table pfx protocol source

def redistEvent : FibChange → RedistEvent
  | .install route => .changed route
  | .remove _ pfx => .gone pfx

/-- Subscribers whose channel does not take the event are dropped. -/
def fanout (subscribers : List Subscriber) (event : RouteEvent) : List Subscriber :=
  subscribers.filterMap fun sub => sub.send event

section
variable {φ : Type} [Fib φ]

def removeFromFib (s : Plane φ) (table : UInt32) (pfx : Prefix) : Plane φ :=
  match Fib.apply s.fib (.remove table pfx) with
  | (fib, .ok _) => { s with fib := fib, failed := s.failed.erase (table, pfx) }
  | (fib, .error _) => { s with fib := fib, failed := s.failed.insert (table, pfx) }

/-- The FIB export filter's decision, an absent filter accepting all. -/
def applyExport (fibExport : Option Filter) (route : Route) : Decision :=
  match fibExport with
  | some filter => filter.apply route
  | none => .accept route

def programFib (fibExport : Option Filter) (s : Plane φ) : FibChange → Plane φ
  | .install route =>
    if route.protocol = .connected then s
    else
      match applyExport fibExport route with
      | .reject =>
        if (s.exported[route.fibKey]?).isSome then
          let s := removeFromFib { s with exported := s.exported.erase route.fibKey }
            route.table route.pfx
          { s with subscribers := fanout s.subscribers (.withdraw route.table route.pfx) }
        else s
      | .accept r =>
        match Fib.apply s.fib (.install r) with
        | (fib, .ok _) =>
          { fib := fib
            exported := s.exported.insert r.fibKey r
            failed := s.failed.erase r.fibKey
            subscribers := fanout s.subscribers (.update r) }
        | (fib, .error _) => { s with fib := fib, failed := s.failed.insert r.fibKey }
  | .remove table pfx =>
    if (s.exported[(table, pfx)]?).isSome then
      let s := removeFromFib { s with exported := s.exported.erase (table, pfx) } table pfx
      { s with subscribers := fanout s.subscribers (.withdraw table pfx) }
    else { s with failed := s.failed.erase (table, pfx) }

/-- The desired state of a key, as the RIB has it now. -/
def retryChange (rib : Rib) (k : FibKey) : FibChange :=
  match rib.bestIn k with
  | some route => .install route
  | none => .remove k.1 k.2

def retryFailed (rib : Rib) (fibExport : Option Filter) (s : Plane φ) : Plane φ :=
  let pending := s.failed.toList
  pending.foldl (fun s k => programFib fibExport s (retryChange rib k)) s

/-- A RIB call whose change, if there is one, is programmed at once. -/
def applyOp (fibExport : Option Filter) (s : Rib × Plane φ) (op : Rib.Op) : Rib × Plane φ :=
  match s.1.apply op with
  | (rib, some change) => (rib, programFib fibExport s.2 change)
  | (rib, none) => (rib, s.2)

/-- The last of several static routes for one key is kept. -/
def indexStatics (statics : List Route) : BTreeMap FibKey Route :=
  statics.foldl (fun next route => next.insert route.fibKey route) ∅

/-- The RIB calls of a static reload: withdraw what is gone, then offer what is new or changed. -/
def reloadOps (current next : BTreeMap FibKey Route) : List Rib.Op :=
  let removed := current.toList.filter fun e => !next.contains e.1
  let changed := next.toList.filter fun e => current[e.1]? ≠ some e.2
  removed.map (fun e => .withdraw e.1.1 e.1.2 .static e.2.source) ++
    changed.map (fun e => .update e.2)

def reloadStatics (rib : Rib) (fibExport : Option Filter) (s : Plane φ)
    (current : BTreeMap FibKey Route) (newStatics : List Route) :
    (Rib × Plane φ) × BTreeMap FibKey Route :=
  let next := indexStatics newStatics
  ((reloadOps current next).foldl (applyOp fibExport) (rib, s), next)

def snapshot (exported : BTreeMap FibKey Route) : List RouteEvent :=
  exported.toList.map (fun e => .update e.2) ++ [.endOfDump]

/-- The snapshot is sent with backpressure, then the sender is kept for live events. -/
def subscribeRoutes (exported : BTreeMap FibKey Route) (subscribers : List Subscriber)
    (sub : Subscriber) : List Subscriber :=
  match (snapshot exported).foldlM Subscriber.send sub with
  | some sub => subscribers ++ [sub]
  | none => subscribers

end

def RedistTarget.message (t : RedistTarget) : RedistEvent → Redistribution
  | .changed route =>
    if route.protocol ≠ t.protocol ∧ route.protocol ∈ t.sources then
      match t.filter with
      | some f =>
        match f.apply route with
        | .accept r => .announce r
        | .reject => .withdraw route.pfx
      | none => .announce route
    else .withdraw route.pfx
  | .gone pfx => .withdraw pfx

def redistribute (targets : List RedistTarget) (event : RedistEvent) : List RedistTarget :=
  targets.map fun t => { t with sent := t.sent ++ [t.message event] }

/-- At startup each target is told of every best route once. -/
def redistributeSeed (targets : List RedistTarget) (rib : Rib) : List RedistTarget :=
  rib.iterBest.foldl (fun targets route => redistribute targets (.changed route)) targets

def maxCoalesceBatch : ℕ := 1024

def coalesceUpdate (imports : ImportFilters) (s : Rib × BTreeMap FibKey FibChange)
    (update : RouteUpdate) : Rib × BTreeMap FibKey FibChange :=
  match ingest s.1 update imports with
  | (rib, some change) => (rib, s.2.insert change.fibKey change)
  | (rib, none) => (rib, s.2)

/-- Fold a batch into the RIB, keeping the last change of each key. -/
def coalesce (imports : ImportFilters) (rib : Rib) (batch : List RouteUpdate) :
    Rib × BTreeMap FibKey FibChange :=
  batch.foldl (coalesceUpdate imports) (rib, ∅)

/-- One update taken alone: into the RIB, and its change straight into the plane. -/
def applyUpdate {φ : Type} [Fib φ] (imports : ImportFilters) (fibExport : Option Filter)
    (s : Rib × Plane φ) (update : RouteUpdate) : Rib × Plane φ :=
  match ingest s.1 update imports with
  | (rib, some change) => (rib, programFib fibExport s.2 change)
  | (rib, none) => (rib, s.2)

/-- The loop's own state. -/
structure Router (φ : Type) where
  rib : Rib
  plane : Plane φ
  imports : ImportFilters
  fibExport : Option Filter
  redist : List RedistTarget
  currentStatics : BTreeMap FibKey Route

/-- What one iteration of the loop receives. `queued` are the updates that wait in the channel
behind `first`; those beyond the batch limit stay there for a later iteration. -/
inductive Event where
  | updates (first : RouteUpdate) (queued : List RouteUpdate)
  | subscribe (accepts : ℕ → Bool)
  | reload (statics : List Route)
  | filterReload (imports : ImportFilters) (fibExport : Option Filter)
  | tick

namespace Router
variable {φ : Type} [Fib φ]

/-- Static routes were installed before the loop starts, so they count as exported. -/
def start (rib : Rib) (fib : φ) (imports : ImportFilters) (fibExport : Option Filter)
    (redist : List RedistTarget) (statics : List Route) : Router φ where
  rib := rib
  plane :=
    { fib := fib
      exported := statics.foldl (fun m route => m.insertIfNew route.fibKey route) ∅
      failed := ∅
      subscribers := [] }
  imports := imports
  fibExport := fibExport
  redist := redist
  currentStatics := indexStatics statics

/-- Program one coalesced change and tell the redistribution targets. -/
def program (s : Router φ) (change : FibChange) : Router φ :=
  { s with
    plane := programFib s.fibExport s.plane change
    redist := redistribute s.redist (redistEvent change) }

/-- The updates that one iteration takes from the channel. -/
def batch (first : RouteUpdate) (queued : List RouteUpdate) : List RouteUpdate :=
  first :: queued.take maxCoalesceBatch

def step (s : Router φ) : Event → Router φ
  | .updates first queued =>
    let (rib, coalesced) := coalesce s.imports s.rib (batch first queued)
    coalesced.toList.foldl (fun s e => s.program e.2) { s with rib := rib }
  | .subscribe accepts =>
    { s with plane.subscribers := subscribeRoutes s.plane.exported s.plane.subscribers ⟨[], accepts⟩ }
  | .reload statics =>
    let r := reloadStatics s.rib s.fibExport s.plane s.currentStatics statics
    { s with rib := r.1.1, plane := r.1.2, currentStatics := r.2 }
  | .filterReload imports fibExport => { s with imports := imports, fibExport := fibExport }
  | .tick => { s with plane := retryFailed s.rib s.fibExport s.plane }

end Router

/-- A table without a route-map keeps every route. -/
def vrfRoutemap (maps : UInt32 → Option Filter) (route : Route) : Option Route :=
  match maps route.table with
  | some filter => (filter.apply route).accepted
  | none => some route

/-- What start-up has made so far: the RIB, the plane, and the static routes admitted. -/
structure Seeded (φ : Type) where
  rib : Rib
  fib : φ
  statics : List Route

section
variable {φ : Type} [Fib φ]

/-- A write whose failure aborts the caller. -/
def tryApply (fib : φ) (change : FibChange) : Except FibError φ :=
  match Fib.apply fib change with
  | (fib, .ok _) => .ok fib
  | (_, .error e) => .error e

/-- A static route enters the RIB through its VRF's import route-map; a best-path change goes
straight to the plane, an installation through the VRF's export route-map. -/
def seedStatic (vrfImports vrfExports : UInt32 → Option Filter) (s : Seeded φ) (route : Route) :
    Except FibError (Seeded φ) :=
  match vrfRoutemap vrfImports route with
  | none => .ok s
  | some route =>
    let statics := s.statics ++ [route]
    match s.rib.update route with
    | (rib, none) => .ok ⟨rib, s.fib, statics⟩
    | (rib, some (.install best)) =>
      match vrfRoutemap vrfExports best with
      | some best => (tryApply s.fib (.install best)).map fun fib => ⟨rib, fib, statics⟩
      | none => .ok ⟨rib, s.fib, statics⟩
    | (rib, some change) => (tryApply s.fib change).map fun fib => ⟨rib, fib, statics⟩

def seedStatics (vrfImports vrfExports : UInt32 → Option Filter) (fib : φ) (statics : List Route) :
    Except FibError (Seeded φ) :=
  statics.foldlM (seedStatic vrfImports vrfExports) ⟨Rib.new, fib, []⟩

end
end Wren.Daemon
