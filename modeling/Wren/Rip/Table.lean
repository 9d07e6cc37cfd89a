import Wren.Core.Route

/-! RIP's distance-vector table. Time is passed in by the caller, in seconds. -/

namespace Wren.Rip
open Std OrdMap Wren.Core

def metricInfinity : UInt32 := 16

def timeoutSecs : UInt64 := 180

def garbageSecs : UInt64 := 120

/-- The largest time, at which nothing is late. -/
def never : UInt64 := 0xffffffffffffffff

inductive RipEvent where
  | learned (route : Route)
  | lost (pfx : Prefix)
deriving DecidableEq

structure Advert where
  pfx : Prefix
  metric : UInt32
deriving DecidableEq

structure RipRoute where
  metric : UInt32
  nextHop : IpAddr
  ifindex : UInt32
  expireAt : UInt64
  deleteAt : Option UInt64
  changed : Bool
  connected : Bool
  redistributed : Bool
deriving DecidableEq

structure RipTable where
  routes : BTreeMap Prefix RipRoute

/-- The route RIP presents to the RIB. -/
def ripToCore (pfx : Prefix) (metric : UInt32) (nh : IpAddr) : Route :=
  Route.new pfx .rip [.via nh] metric

def saturatingAdd (a b : UInt32) : UInt32 :=
  if a.toNat + b.toNat < UInt32.size then a + b else 0xffffffff

/-- The cost of a received route through us. -/
def cost (recvMetric : UInt32) : UInt32 :=
  min (saturatingAdd recvMetric 1) metricInfinity

/-- The next hop "via me", of the prefix's own family. -/
def unspecified (pfx : Prefix) : IpAddr := if pfx.isIpv4 then .v4 0 else .v6 0

namespace RipRoute

def ofReceived (metric : UInt32) (nh : IpAddr) (ifindex : UInt32) (now : UInt64) : RipRoute where
  metric := metric
  nextHop := nh
  ifindex := ifindex
  expireAt := now + timeoutSecs
  deleteAt := none
  changed := true
  connected := false
  redistributed := false

/-- Held at the interface cost. -/
def ofConnected (pfx : Prefix) (ifindex : UInt32) : RipRoute where
  metric := 1
  nextHop := unspecified pfx
  ifindex := ifindex
  expireAt := never
  deleteAt := none
  changed := true
  connected := true
  redistributed := false

/-- Not tied to an interface, so split horizon does not apply. -/
def ofRedistributed (pfx : Prefix) (metric : UInt32) : RipRoute where
  metric := max 1 (min metric (metricInfinity - 1))
  nextHop := unspecified pfx
  ifindex := 0
  expireAt := never
  deleteAt := none
  changed := true
  connected := false
  redistributed := true

/-- Make the route unreachable and start its garbage timer. -/
def poison (r : RipRoute) (now : UInt64) : RipRoute :=
  { r with metric := metricInfinity, deleteAt := some (now + garbageSecs), changed := true }

/-- What a received route does to the entry its prefix has. -/
def receive (r : RipRoute) (pfx : Prefix) (metric : UInt32) (nh : IpAddr) (ifindex : UInt32)
    (now : UInt64) : RipRoute × Option RipEvent :=
  if r.connected ∨ r.redistributed then (r, none)
  else if r.nextHop = nh ∧ r.ifindex = ifindex then
    let fresh :=
      if metric < metricInfinity then { r with expireAt := now + timeoutSecs, deleteAt := none }
      else r
    if metric = r.metric then (fresh, none)
    else if metricInfinity ≤ metric then
      ({ fresh with metric := metric, changed := true, deleteAt := some (now + garbageSecs) },
        some (.lost pfx))
    else ({ fresh with metric := metric, changed := true }, some (.learned (ripToCore pfx metric nh)))
  else if metric < r.metric then
    ({ r with
        metric := metric
        nextHop := nh
        ifindex := ifindex
        expireAt := now + timeoutSecs
        deleteAt := none
        changed := true }, some (.learned (ripToCore pfx metric nh)))
  else (r, none)

inductive Due where
  | keep
  | expire
  | remove
deriving DecidableEq

/-- What the timers make of the entry at time `now`. -/
def due (r : RipRoute) (now : UInt64) : Due :=
  if r.connected then .keep
  else
    match r.deleteAt with
    | some del => if del ≤ now then .remove else .keep
    | none => if r.expireAt ≤ now then .expire else .keep

/-- A usable route learned from `peer`. -/
def via (r : RipRoute) (peer : IpAddr) : Bool :=
  !r.connected && !r.redistributed && r.nextHop = peer && r.metric < metricInfinity

def advertFor (r : RipRoute) (pfx : Prefix) (outIfindex : UInt32) : Advert :=
  ⟨pfx, if r.ifindex = outIfindex then metricInfinity else r.metric⟩

end RipRoute

namespace RipTable

def new : RipTable := ⟨∅⟩

/-- A received route: `nextHop` is the advertised gateway, absent for the sender itself. -/
def processRoute (t : RipTable) (pfx : Prefix) (recvMetric : UInt32) (nextHop : Option IpAddr)
    (sender : IpAddr) (ifindex : UInt32) (now : UInt64) : RipTable × Option RipEvent :=
  let metric := cost recvMetric
  let nh := nextHop.getD sender
  match t.routes[pfx]? with
  | none =>
    if metricInfinity ≤ metric then (t, none)
    else
      (⟨t.routes.insert pfx (.ofReceived metric nh ifindex now)⟩,
        some (.learned (ripToCore pfx metric nh)))
  | some r =>
    (⟨t.routes.insert pfx (r.receive pfx metric nh ifindex now).1⟩,
      (r.receive pfx metric nh ifindex now).2)

def addConnected (t : RipTable) (pfx : Prefix) (ifindex : UInt32) : RipTable :=
  ⟨t.routes.insert pfx (.ofConnected pfx ifindex)⟩

/-- A connected network takes precedence. -/
def addRedistributed (t : RipTable) (pfx : Prefix) (metric : UInt32) : RipTable :=
  if (t.routes[pfx]?).any fun r => r.connected then t
  else ⟨t.routes.insert pfx (.ofRedistributed pfx metric)⟩

def withdrawRedistributed (t : RipTable) (pfx : Prefix) (now : UInt64) : RipTable :=
  match t.routes[pfx]? with
  | some r =>
    if r.redistributed ∧ r.metric < metricInfinity then ⟨t.routes.insert pfx (r.poison now)⟩ else t
  | none => t

/-- Late routes become unreachable, those past their garbage timer are removed. -/
def tick (t : RipTable) (now : UInt64) : RipTable × List RipEvent :=
  let expired := (t.routes.toList.filter fun e => e.2.due now = .expire).map Prod.fst
  let removed := (t.routes.toList.filter fun e => e.2.due now = .remove).map Prod.fst
  let routes := t.routes.map fun _ r => if r.due now = .expire then r.poison now else r
  (⟨removed.foldl (fun routes pfx => routes.erase pfx) routes⟩,
    expired.map .lost ++ removed.map .lost)

def expireVia (t : RipTable) (peer : IpAddr) (now : UInt64) : RipTable × List RipEvent :=
  let expired := (t.routes.toList.filter fun e => e.2.via peer).map Prod.fst
  (⟨t.routes.map fun _ r => if r.via peer then r.poison now else r⟩, expired.map .lost)

/-- Split horizon with poisoned reverse. -/
def adverts (t : RipTable) (outIfindex : UInt32) : List Advert :=
  t.routes.toList.map fun e => e.2.advertFor e.1 outIfindex

def triggeredAdverts (t : RipTable) (outIfindex : UInt32) : List Advert :=
  (t.routes.toList.filter fun e => e.2.changed).map fun e => e.2.advertFor e.1 outIfindex

def clearChanged (t : RipTable) : RipTable := ⟨t.routes.map fun _ r => { r with changed := false }⟩

/-- One call on the table. -/
inductive Op where
  | processRoute (pfx : Prefix) (recvMetric : UInt32) (nextHop : Option IpAddr) (sender : IpAddr)
      (ifindex : UInt32) (now : UInt64)
  | addConnected (pfx : Prefix) (ifindex : UInt32)
  | addRedistributed (pfx : Prefix) (metric : UInt32)
  | withdrawRedistributed (pfx : Prefix) (now : UInt64)
  | tick (now : UInt64)
  | expireVia (peer : IpAddr) (now : UInt64)
  | clearChanged

/-- A call and the events it emits. -/
def apply (t : RipTable) : Op → RipTable × List RipEvent
  | .processRoute pfx recvMetric nextHop sender ifindex now =>
    let (t, event) := t.processRoute pfx recvMetric nextHop sender ifindex now
    (t, event.toList)
  | .addConnected pfx ifindex => (t.addConnected pfx ifindex, [])
  | .addRedistributed pfx metric => (t.addRedistributed pfx metric, [])
  | .withdrawRedistributed pfx now => (t.withdrawRedistributed pfx now, [])
  | .tick now => t.tick now
  | .expireVia peer now => t.expireVia peer now
  | .clearChanged => (t.clearChanged, [])

def run (ops : List Op) : RipTable := ops.foldl (fun t op => (t.apply op).1) new

end RipTable
end Wren.Rip
