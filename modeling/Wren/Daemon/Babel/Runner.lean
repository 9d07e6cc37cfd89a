import Wren.Babel.Neighbor
import Wren.Babel.Packet
import Wren.Babel.Selection
import Wren.Daemon.Router.Basic
import Wren.Lib.Run

/-! The runner that drives the Babel tables from datagrams and timers. Instants are whole seconds. -/

namespace Wren.Daemon.Babel
open Std OrdMap Wren.Core Wren.Babel

def helloInterval : UInt16 := 400
def ihuInterval : UInt16 := 1200
def updateInterval : UInt16 := 1600
def helloTimeout : ℕ := 16
def ihuTimeout : ℕ := 12
def recvBuf : ℕ := 1500
/-- Kept for a whole run. -/
def ourSeqno : UInt16 := 1
def maxUpdatesPerPacket : ℕ := 40

structure Iface where
  name : String
  ifindex : UInt32
  linkLocal : Option (BitVec 128)
deriving DecidableEq

structure Datagram where
  ifindex : UInt32
  src : BitVec 128
  data : List UInt8

/-- The configuration, with the interfaces that were opened and the networks found on them. -/
structure Config where
  routerId : RouterId
  ifaces : List Iface
  connected : List (Prefix × String)
  originate : List Prefix
  redistributeMetric : UInt16
  bfd : Bool
  vrfTable : UInt32

structure State where
  routerId : RouterId
  neighbours : NeighbourTable
  table : RouteTable
  selfPrefixes : List Prefix
  /-- The origin and the metric of the routes that are advertised again. -/
  relayed : BTreeMap Prefix (RouterId × UInt16 × UInt16)
  redistributed : BTreeMap Prefix UInt16
  /-- To be advertised once more, as unreachable. -/
  retractions : List Prefix
  helloSeqno : UInt16
  neighbourIfindex : BTreeMap IpAddr UInt32

/-- What the runner gives to its sockets and channels. -/
inductive Output where
  | send (ifindex : UInt32) (octets : List UInt8)
  | route (update : RouteUpdate)
  | register (peer : IpAddr) (scope : UInt32)
  | deregister (peer : IpAddr) (scope : UInt32)

/-! Advertising -/

/-- One Update, with its originator. -/
structure Advert where
  routerId : RouterId
  seqno : UInt16
  metric : UInt16
  pfx : Prefix
deriving DecidableEq

/-- The stream so far, and the originator in scope at its end. -/
def pushUpdate (out : Option RouterId × List Tlv) (a : Advert) : Option RouterId × List Tlv :=
  let tlvs := if out.1 ≠ some a.routerId then out.2 ++ [.routerId a.routerId] else out.2
  (some a.routerId, tlvs ++ [.update 0 updateInterval a.seqno a.metric a.pfx])

/-- Our own networks, redistributed routes, retractions, and the selected routes of other originators. -/
def State.adverts (s : State) : List Advert :=
  (s.selfPrefixes.map fun p => ⟨s.routerId, ourSeqno, 0, p⟩) ++
  (s.redistributed.toList.map fun e => ⟨s.routerId, ourSeqno, e.2, e.1⟩) ++
  (s.retractions.map fun p => ⟨s.routerId, ourSeqno, metricInfinity, p⟩) ++
  ((s.relayed.toList.filter fun e =>
      ¬ (e.1 ∈ s.selfPrefixes ∨ s.redistributed.contains e.1 ∨ e.2.1 = s.routerId)).map fun e =>
    ⟨e.2.1, e.2.2.1, e.2.2.2, e.1⟩)

def buildUpdateTlvs (s : State) : List Tlv := (s.adverts.foldl pushUpdate (none, [])).2

/-- The packets that are full, and the one that is being filled. -/
structure Chunking where
  packets : List (List Tlv)
  cur : List Tlv
  lastRid : Option RouterId
  updatesInCur : ℕ

namespace Chunking

def new : Chunking := ⟨[], [], none, 0⟩

/-- A full packet is closed, and the next one begins with the originator in scope. -/
def turn (c : Chunking) : Chunking :=
  if c.updatesInCur ≥ maxUpdatesPerPacket then
    { c with
      packets := c.packets ++ [c.cur]
      cur := (c.lastRid.map Tlv.routerId).toList
      updatesInCur := 0 }
  else c

def put (c : Chunking) (tlv : Tlv) : Chunking :=
  let c :=
    match tlv with
    | .routerId id => { c with lastRid := some id }
    | _ => c
  let c := c.turn
  let c :=
    match tlv with
    | .update .. => { c with updatesInCur := c.updatesInCur + 1 }
    | _ => c
  { c with cur := c.cur ++ [tlv] }

end Chunking

def chunkUpdates (tlvs : List Tlv) : List (List Tlv) :=
  let c := tlvs.foldl Chunking.put .new
  if c.cur.isEmpty then c.packets else c.packets ++ [c.cur]

def sendChunks (ifaces : List Iface) (tlvs : List Tlv) : List Output :=
  ifaces.flatMap fun iface => (chunkUpdates tlvs).map fun chunk => .send iface.ifindex (Packet.encode ⟨chunk⟩)

def sendUpdates (ifaces : List Iface) (s : State) : State × List Output :=
  let tlvs := buildUpdateTlvs s
  ({ s with retractions := [] }, if tlvs.isEmpty then [] else sendChunks ifaces tlvs)

def sendHellos (ifaces : List Iface) (s : State) : State × List Output :=
  let ihus := s.neighbours.addresses.map fun addr => Tlv.ihu (s.neighbours.rxcost addr) ihuInterval (some addr)
  let packet : Packet := ⟨.hello 0 s.helloSeqno helloInterval :: ihus⟩
  ({ s with helloSeqno := s.helloSeqno + 1 }, ifaces.map fun iface => .send iface.ifindex packet.encode)

/-- On shutdown, what we originate is retracted. -/
def sendRetractions (ifaces : List Iface) (s : State) : List Output :=
  let updates := (s.selfPrefixes ++ s.redistributed.keys).map fun p =>
    Tlv.update 0 updateInterval ourSeqno metricInfinity p
  if updates.isEmpty then [] else sendChunks ifaces (.routerId s.routerId :: updates)

/-! Changes of the selection, as the RIB is told of them -/

/-- A link-local gateway goes with the interface. -/
def nexthopFor (gw : IpAddr) (ifname : Option String) : NextHop :=
  match gw with
  | .v4 _ => .via gw
  | .v6 a => if isLinkLocal a then ⟨some gw, ifname, 1⟩ else .via gw

def babelRoute (pfx : Prefix) (nextHop : IpAddr) (metric : UInt16) (ifname : Option String) : Route :=
  .new pfx .babel [nexthopFor nextHop ifname] metric.toUInt32

/-- Without an interface where the selection falls back on a stored route. -/
def forwardEvent (ifname : Option String) (vrfTable : UInt32) (s : State) : BabelEvent → State × RouteUpdate
  | .select pfx nextHop metric =>
    (s, .announce { babelRoute pfx nextHop metric ifname with table := vrfTable })
  | .retract pfx => ({ s with relayed := s.relayed.erase pfx }, .withdraw vrfTable pfx .babel 0)

def forwardEvents (vrfTable : UInt32) : State → List BabelEvent → State × List RouteUpdate :=
  Run.outputs fun s ev =>
    let next := forwardEvent none vrfTable s ev
    (next.1, [next.2])

/-- The routes of a neighbour that is gone fall back or are lost. -/
def loseNeighbour (vrfTable : UInt32) (s : State) (addr : IpAddr) : State × List RouteUpdate :=
  let s := { s with neighbourIfindex := s.neighbourIfindex.erase addr }
  let lost := s.table.neighbourLost addr
  forwardEvents vrfTable { s with table := lost.1 } lost.2

/-! Received datagrams -/

/-- An IHU without an address is for everyone; and where our own address is not known, any may be. -/
def ihuIsForUs (iface : Iface) (address : Option IpAddr) : Bool :=
  match address, iface.linkLocal with
  | none, _ => true
  | _, none => true
  | some (.v6 a), some ll => a = ll
  | some _, _ => false

/-- A packet that is being read: the originator and the next hop in scope, and what came of it so far. -/
structure Reading where
  state : State
  routerId : Option RouterId
  nexthop : IpAddr
  changed : Bool
  updates : List RouteUpdate

namespace Reading

/-- An Update that gets selected is remembered with its origin. -/
def select (pfx : Prefix) (id : RouterId) (seqno : UInt16) (nexthop : IpAddr) (s : State) : BabelEvent → State
  | .select _ nextHop metric =>
    if nextHop = nexthop then { s with relayed := s.relayed.insert pfx (id, seqno, metric) } else s
  | .retract _ => s

def onUpdate (iface : Iface) (src : IpAddr) (vrfTable : UInt32) (r : Reading) (id : RouterId) (seqno metric : UInt16)
    (pfx : Prefix) : Reading :=
  let cost := r.state.neighbours.cost src
  let updated := r.state.table.update pfx id src r.nexthop seqno metric cost
  let s := { r.state with table := updated.1 }
  match updated.2 with
  | none => { r with state := s }
  | some ev =>
    let forwarded := forwardEvent (some iface.name) vrfTable (select pfx id seqno r.nexthop s ev) ev
    { r with
      state := forwarded.1
      changed := true
      updates := r.updates ++ [forwarded.2] }

def put (iface : Iface) (ifindex : UInt32) (src : IpAddr) (now : ℕ) (vrfTable : UInt32) (r : Reading) :
    Tlv → Reading
  | .hello _ seqno _ =>
    { r with
      state :=
        { r.state with
          neighbours := r.state.neighbours.onHello src seqno now
          neighbourIfindex := r.state.neighbourIfindex.insert src ifindex } }
  | .ihu rxcost _ address =>
    if ihuIsForUs iface address then
      { r with state := { r.state with neighbours := r.state.neighbours.onIhu src rxcost now } }
    else r
  | .routerId id => { r with routerId := some id }
  | .nextHop ip => { r with nexthop := ip }
  | .update _ _ seqno metric pfx =>
    match r.routerId with
    | none => r
    | some id => r.onUpdate iface src vrfTable id seqno metric pfx
  | .routeRequest _ | .seqnoRequest .. => { r with changed := true }
  | _ => r

end Reading

/-- What a datagram is read as: the interface it came in on, and its records. -/
def parseDatagram (ifaces : List Iface) (dg : Datagram) : Option (Iface × List Tlv) :=
  match Packet.decode dg.data with
  | .error _ => none
  | .ok pkt => (ifaces.find? fun i => i.ifindex = dg.ifindex).map fun iface => (iface, pkt.body)

def handleDatagram (ifaces : List Iface) (vrfTable : UInt32) (s : State) (dg : Datagram) (now : ℕ) :
    State × Bool × List RouteUpdate :=
  match parseDatagram ifaces dg with
  | none => (s, false, [])
  | some (iface, tlvs) =>
    let r := tlvs.foldl (Reading.put iface dg.ifindex (.v6 dg.src) now vrfTable) ⟨s, none, .v6 dg.src, false, []⟩
    (r.state, r.changed, r.updates)

/-! Redistribution -/

/-- Our own networks win over redistributed ones. -/
def applyRedistribution (metric : UInt16) (s : State) : Redistribution → State × Bool
  | .announce route =>
    if route.pfx ∈ s.selfPrefixes then (s, false)
    else if s.redistributed[route.pfx]? = some metric then (s, false)
    else
      ({ s with
          redistributed := s.redistributed.insert route.pfx metric
          retractions := s.retractions.filter fun p => p ≠ route.pfx }, true)
  | .withdraw pfx =>
    if s.redistributed.contains pfx then
      ({ s with redistributed := s.redistributed.erase pfx, retractions := s.retractions ++ [pfx] }, true)
    else (s, false)

/-! The run loop -/

/-- The state, and the neighbours that have a BFD session. -/
structure Runner where
  state : State
  bfdRegistered : BTreeSet (IpAddr × UInt32)

/-- The neighbours that a BFD session is wanted for. -/
def State.active (s : State) : BTreeSet (IpAddr × UInt32) :=
  .ofList (s.neighbours.addresses.filterMap fun a => (s.neighbourIfindex[a]?).map fun scope => (a, scope))

def reconcileBfd (bfd : Bool) (w : Runner) : Runner × List Output :=
  if !bfd then (w, [])
  else
    let active := w.state.active
    ({ w with bfdRegistered := active },
      ((active.toList.filter fun k => !w.bfdRegistered.contains k).map fun k => .register k.1 k.2) ++
      (w.bfdRegistered.toList.filter fun k => !active.contains k).map fun k => .deregister k.1 k.2)

inductive Event where
  | datagram (dg : Datagram) (now : ℕ)
  | bfdDown (peer : IpAddr)
  | hello
  | update
  | housekeeping (now : ℕ)
  | redist (r : Redistribution)
  | shutdown

/-- Every neighbour that was not heard for too long is lost in turn. -/
def loseNeighbours (vrfTable : UInt32) : State → List IpAddr → State × List RouteUpdate :=
  Run.outputs (loseNeighbour vrfTable)

/-- The effect on the state, with what is sent, but for the BFD sessions. -/
def State.step (cfg : Config) (s : State) : Event → State × List Output
  | .datagram dg now =>
    let handled := handleDatagram cfg.ifaces cfg.vrfTable s dg now
    let sent := if handled.2.1 then sendUpdates cfg.ifaces handled.1 else (handled.1, [])
    (sent.1, handled.2.2.map .route ++ sent.2)
  | .bfdDown peer =>
    if s.neighbours.contains peer then
      let lost := loseNeighbour cfg.vrfTable { s with neighbours := s.neighbours.forget peer } peer
      let sent := sendUpdates cfg.ifaces lost.1
      (sent.1, lost.2.map .route ++ sent.2)
    else (s, [])
  | .hello => sendHellos cfg.ifaces s
  | .update => sendUpdates cfg.ifaces s
  | .housekeeping now =>
    let expired := s.neighbours.expire now helloTimeout ihuTimeout
    let lost := loseNeighbours cfg.vrfTable { s with neighbours := expired.1 } expired.2
    (lost.1, lost.2.map .route)
  | .redist r =>
    let applied := applyRedistribution cfg.redistributeMetric s r
    if applied.2 then sendUpdates cfg.ifaces applied.1 else (applied.1, [])
  | .shutdown => (s, sendRetractions cfg.ifaces s)

/-- The events after which the BFD sessions are brought in line. -/
def Event.reconciles : Event → Bool
  | .datagram .. | .bfdDown _ | .housekeeping _ => true
  | _ => false

def Runner.step (cfg : Config) (w : Runner) (event : Event) : Runner × List Output :=
  let stepped := w.state.step cfg event
  let w := { w with state := stepped.1 }
  if event.reconciles then
    let reconciled := reconcileBfd cfg.bfd w
    (reconciled.1, stepped.2 ++ reconciled.2)
  else (w, stepped.2)

/-- The networks of our interfaces, each one once. -/
def Config.discovered (cfg : Config) : List (Prefix × String) :=
  cfg.connected.foldl (fun nets net => if net.1 ∈ nets.map Prod.fst then nets else nets ++ [net]) []

def Config.selfPrefixes (cfg : Config) : List Prefix :=
  cfg.originate.foldl (fun ps p => if p ∈ ps then ps else ps ++ [p]) (cfg.discovered.map Prod.fst)

def Config.start (cfg : Config) : Runner where
  state :=
    { routerId := cfg.routerId
      neighbours := .new
      table := .new
      selfPrefixes := cfg.selfPrefixes
      relayed := ∅
      redistributed := ∅
      retractions := []
      helloSeqno := 0
      neighbourIfindex := ∅ }
  bfdRegistered := ∅

/-- The RIB learns of our networks, and each neighbour is asked for its whole table. -/
def Config.announce (cfg : Config) : List Output :=
  (cfg.discovered.map fun net =>
    .route (.announce { Route.new net.1 .connected [.dev net.2] 0 with table := cfg.vrfTable })) ++
  cfg.ifaces.map fun iface => .send iface.ifindex (Packet.encode ⟨[.routeRequest none]⟩)

/-! The routes of the RIB -/

/-- What an update of the RIB says of its destination. -/
def ribDelta : RouteUpdate → Replica.Delta Prefix Route
  | .announce route => ⟨route.pfx, some route⟩
  | .withdraw _ pfx _ _ => ⟨pfx, none⟩

/-- The Babel routes that a RIB has after some updates. -/
def Mirrored (vrfTable : UInt32) (rib : Prefix → Option Route) (selected : Prefix → Option (IpAddr × UInt16)) : Prop :=
  ∀ p, (rib p = none ∧ selected p = none) ∨
    ∃ hop ifname, selected p = some hop ∧ rib p = some { babelRoute p hop.1 hop.2 ifname with table := vrfTable }

/-- The advertised routes are among the selected ones. -/
def Backed (relayed : BTreeMap Prefix (RouterId × UInt16 × UInt16)) (selected : Prefix → Option (IpAddr × UInt16)) : Prop :=
  ∀ p, (relayed[p]?).isSome = true → (selected p).isSome = true

theorem event_reselect {t : RouteTable} {q : Prefix} {ev : BabelEvent} (h : (t.reselect q).2 = some ev) :
    (∃ k nextHop metric, ev = .select q nextHop metric ∧ (t.reselect q).1.selected[q]? = some (k, nextHop, metric)) ∨
      ev = .retract q := by
  unfold RouteTable.reselect at h ⊢
  cases hbest : t.best q with
  | none =>
    rw [hbest] at h
    obtain ⟨s, -, rfl⟩ := Option.map_eq_some_iff.mp h
    exact .inr rfl
  | some e =>
    rw [hbest] at h
    dsimp only at h ⊢
    split_ifs at h ⊢
    cases h
    exact .inl ⟨e.1, e.2.nextHop, e.2.metric, rfl, by simp⟩

section Mirror
variable {vrfTable : UInt32} {rib : Prefix → Option Route} {selected : Prefix → Option (IpAddr × UInt16)}

theorem Mirrored.forward (h : Mirrored vrfTable rib selected) (ifname : Option String) (s : State) (ev : BabelEvent) :
    Mirrored vrfTable ((ribDelta (forwardEvent ifname vrfTable s ev).2).apply rib) (ev.delta.apply selected) := by
  intro p
  cases ev with
  | select pfx nextHop metric =>
    by_cases hp : p = pfx
    · subst hp
      exact .inr ⟨(nextHop, metric), ifname, by simp [BabelEvent.delta, Replica.Delta.apply],
        by simp [forwardEvent, ribDelta, Replica.Delta.apply, babelRoute, Route.new]⟩
    · have hne : p ≠ (babelRoute pfx nextHop metric ifname).pfx := hp
      simpa [forwardEvent, ribDelta, Replica.Delta.apply, BabelEvent.delta, hp, hne] using h p
  | retract pfx =>
    by_cases hp : p = pfx
    · subst hp
      exact .inl ⟨by simp [forwardEvent, ribDelta, Replica.Delta.apply], by simp [BabelEvent.delta, Replica.Delta.apply]⟩
    · simpa [forwardEvent, ribDelta, Replica.Delta.apply, BabelEvent.delta, hp] using h p

theorem backed_forward {s : State} (h : Backed s.relayed selected) (ifname : Option String) (ev : BabelEvent) :
    Backed (forwardEvent ifname vrfTable s ev).1.relayed (ev.delta.apply selected) := by
  intro p hsome
  cases ev with
  | select pfx nextHop metric =>
    by_cases hp : p = pfx
    · simp [BabelEvent.delta, Replica.Delta.apply, hp]
    · simpa [BabelEvent.delta, Replica.Delta.apply, hp] using h p hsome
  | retract pfx =>
    rw [forwardEvent, getElem?_erase] at hsome
    by_cases hp : p = pfx
    · rw [if_pos hp] at hsome
      cases hsome
    · rw [if_neg hp] at hsome
      simpa [BabelEvent.delta, Replica.Delta.apply, hp] using h p hsome

/-- Between the table that selection has left and the RIB, as it has learnt of it so far. -/
structure Agrees (vrfTable : UInt32) (rib : Prefix → Option Route) (s : State) : Prop where
  mirrored : Mirrored vrfTable rib s.table.selectedHop
  backed : Backed s.relayed s.table.selectedHop

theorem Agrees.events (events : List BabelEvent) {s : State} (hmirrored : Mirrored vrfTable rib selected)
    (hbacked : Backed s.relayed selected)
    (htable : Replica.replay selected (events.map BabelEvent.delta) = s.table.selectedHop) :
    Agrees vrfTable (Replica.replay rib ((forwardEvents vrfTable s events).2.map ribDelta))
      (forwardEvents vrfTable s events).1 := by
  induction events generalizing s selected rib with
  | nil =>
    rw [List.map_nil, Replica.replay_nil] at htable
    rw [htable] at hmirrored hbacked
    exact ⟨hmirrored, hbacked⟩
  | cons ev events ih =>
    simp only [forwardEvents, Run.outputs, List.map_append, Replica.replay_append] at ih ⊢
    refine ih (hmirrored.forward none s ev) (backed_forward hbacked none ev) ?_
    have hsame : (forwardEvent none vrfTable s ev).1.table = s.table := by cases ev <;> rfl
    rw [hsame]
    exact htable

theorem Agrees.lose {s : State} (h : Agrees vrfTable rib s) (addr : IpAddr) :
    Agrees vrfTable (Replica.replay rib ((loseNeighbour vrfTable s addr).2.map ribDelta))
      (loseNeighbour vrfTable s addr).1 :=
  Agrees.events _ h.mirrored h.backed (RouteTable.replay_apply s.table (.neighbourLost addr))

/-- What a step that has no part in selection leaves as it is. -/
theorem Agrees.of_eq {s s' : State} (h : Agrees vrfTable rib s) (htable : s'.table = s.table)
    (hrelayed : s'.relayed = s.relayed) : Agrees vrfTable rib s' :=
  ⟨htable ▸ h.mirrored, by rw [hrelayed, htable]; exact h.backed⟩

theorem Agrees.onUpdate {r : Reading} (h : Agrees vrfTable (Replica.replay rib (r.updates.map ribDelta)) r.state)
    (iface : Iface) (src : IpAddr) (id : RouterId) (seqno metric : UInt16) (pfx : Prefix) :
    Agrees vrfTable (Replica.replay rib ((r.onUpdate iface src vrfTable id seqno metric pfx).updates.map ribDelta))
      (r.onUpdate iface src vrfTable id seqno metric pfx).state := by
  have hevent : ∀ ev,
      (r.state.table.update pfx id src r.nexthop seqno metric (r.state.neighbours.cost src)).2 = some ev →
      (∃ k nextHop metric', ev = .select pfx nextHop metric' ∧
        (r.state.table.update pfx id src r.nexthop seqno metric (r.state.neighbours.cost src)).1.selected[pfx]? =
          some (k, nextHop, metric')) ∨ ev = .retract pfx := fun ev hev => event_reselect hev
  have hreplay := RouteTable.replay_apply r.state.table
    (.update pfx id src r.nexthop seqno metric (r.state.neighbours.cost src))
  unfold RouteTable.apply at hreplay
  dsimp only at hreplay
  unfold Reading.onUpdate
  dsimp only
  generalize r.state.table.update pfx id src r.nexthop seqno metric (r.state.neighbours.cost src) = updated
    at hreplay hevent ⊢
  obtain ⟨table, event⟩ := updated
  cases event with
  | none =>
    have hsame : table.selectedHop = r.state.table.selectedHop := hreplay.symm
    exact ⟨by rw [hsame]; exact h.mirrored, by rw [hsame]; exact h.backed⟩
  | some ev =>
    have htable : ev.delta.apply r.state.table.selectedHop = table.selectedHop := hreplay
    dsimp only
    have hstate : (forwardEvent (some iface.name) vrfTable
        (Reading.select pfx id seqno r.nexthop { r.state with table } ev) ev).1.table = table := by
      cases ev with
      | select q nextHop metric' =>
        simp only [Reading.select, forwardEvent]
        split_ifs
        · rfl
        · rfl
      | retract q => rfl
    refine ⟨?_, ?_⟩
    · rw [List.map_append, Replica.replay_append, hstate, ← htable]
      exact h.mirrored.forward (some iface.name) _ ev
    · rw [hstate, ← htable]
      intro p hsome
      by_cases hp : p = pfx
      · subst hp
        rcases hevent ev rfl with ⟨k, nextHop, metric', rfl, -⟩ | rfl
        · simp [BabelEvent.delta, Replica.Delta.apply]
        · simp [Reading.select, forwardEvent] at hsome
      · have hold : (r.state.relayed[p]?).isSome = true := by
          rcases hevent ev rfl with ⟨k, nextHop, metric', rfl, -⟩ | rfl
          · simp only [Reading.select, forwardEvent] at hsome
            split_ifs at hsome
            · rwa [getElem?_insert, if_neg hp] at hsome
            · exact hsome
          · rwa [Reading.select, forwardEvent, getElem?_erase, if_neg hp] at hsome
        have hsel := h.backed p hold
        rcases hevent ev rfl with ⟨k, nextHop, metric', rfl, -⟩ | rfl
        · simpa [BabelEvent.delta, Replica.Delta.apply, hp] using hsel
        · simpa [BabelEvent.delta, Replica.Delta.apply, hp] using hsel

theorem Agrees.put {r : Reading} (h : Agrees vrfTable (Replica.replay rib (r.updates.map ribDelta)) r.state)
    (iface : Iface) (ifindex : UInt32) (src : IpAddr) (now : ℕ) (tlv : Tlv) :
    Agrees vrfTable (Replica.replay rib ((r.put iface ifindex src now vrfTable tlv).updates.map ribDelta))
      (r.put iface ifindex src now vrfTable tlv).state := by
  cases tlv with
  | hello flags seqno interval => exact h.of_eq rfl rfl
  | ihu rxcost interval address =>
    simp only [Reading.put]
    split_ifs
    · exact h.of_eq rfl rfl
    · exact h
  | update flags interval seqno metric pfx =>
    simp only [Reading.put]
    cases r.routerId with
    | none => exact h
    | some id => exact h.onUpdate iface src id seqno metric pfx
  | _ => exact h

theorem Agrees.read {r : Reading} (h : Agrees vrfTable (Replica.replay rib (r.updates.map ribDelta)) r.state)
    (iface : Iface) (ifindex : UInt32) (src : IpAddr) (now : ℕ) (tlvs : List Tlv) :
    Agrees vrfTable
      (Replica.replay rib ((tlvs.foldl (Reading.put iface ifindex src now vrfTable) r).updates.map ribDelta))
      (tlvs.foldl (Reading.put iface ifindex src now vrfTable) r).state := by
  induction tlvs generalizing r with
  | nil => exact h
  | cons tlv tlvs ih => exact ih (h.put iface ifindex src now tlv)

theorem Agrees.loseAll {s : State} (h : Agrees vrfTable rib s) (dead : List IpAddr) :
    Agrees vrfTable (Replica.replay rib ((loseNeighbours vrfTable s dead).2.map ribDelta))
      (loseNeighbours vrfTable s dead).1 := by
  induction dead generalizing s rib with
  | nil => exact h
  | cons addr dead ih =>
    simp only [loseNeighbours, Run.outputs, List.map_append, Replica.replay_append] at ih ⊢
    exact ih (h.lose addr)

/-- The updates of the RIB among what a runner gives out. -/
def routeUpdates (outputs : List Output) : List RouteUpdate :=
  outputs.filterMap fun output =>
    match output with
    | .route update => some update
    | _ => none

theorem routeUpdates_append (os os' : List Output) :
    routeUpdates (os ++ os') = routeUpdates os ++ routeUpdates os' := List.filterMap_append

theorem routeUpdates_route (us : List RouteUpdate) : routeUpdates (us.map .route) = us := by
  simp [routeUpdates, List.filterMap_map]

theorem routeUpdates_sendChunks (ifaces : List Iface) (tlvs : List Tlv) : routeUpdates (sendChunks ifaces tlvs) = [] := by
  unfold routeUpdates sendChunks
  rw [List.filterMap_eq_nil_iff]
  intro output hmem
  obtain ⟨iface, -, hsend⟩ := List.mem_flatMap.mp hmem
  obtain ⟨chunk, -, rfl⟩ := List.mem_map.mp hsend
  rfl

theorem routeUpdates_sendUpdates (ifaces : List Iface) (s : State) : routeUpdates (sendUpdates ifaces s).2 = [] := by
  unfold sendUpdates
  dsimp only
  split_ifs
  · rfl
  · exact routeUpdates_sendChunks ifaces _

theorem Agrees.step {s : State} (h : Agrees vrfTable rib s) {cfg : Config} (hvrf : cfg.vrfTable = vrfTable)
    (event : Event) :
    Agrees vrfTable (Replica.replay rib ((routeUpdates (s.step cfg event).2).map ribDelta)) (s.step cfg event).1 := by
  subst hvrf
  cases event with
  | datagram dg now =>
    have hhandled : Agrees cfg.vrfTable
        (Replica.replay rib ((handleDatagram cfg.ifaces cfg.vrfTable s dg now).2.2.map ribDelta))
        (handleDatagram cfg.ifaces cfg.vrfTable s dg now).1 := by
      unfold handleDatagram
      cases parseDatagram cfg.ifaces dg with
      | none => exact h
      | some q =>
        exact h.read (r := ⟨s, none, .v6 dg.src, false, []⟩) q.1 dg.ifindex (.v6 dg.src) now q.2
    simp only [State.step, routeUpdates_append, routeUpdates_route]
    split_ifs
    · rw [routeUpdates_sendUpdates, List.append_nil]
      exact hhandled.of_eq rfl rfl
    · exact (List.append_nil _).symm ▸ hhandled
  | bfdDown peer =>
    simp only [State.step]
    split_ifs
    · rw [routeUpdates_append, routeUpdates_route, routeUpdates_sendUpdates, List.append_nil]
      have hforget : Agrees cfg.vrfTable rib { s with neighbours := s.neighbours.forget peer } := h.of_eq rfl rfl
      exact (hforget.lose peer).of_eq rfl rfl
    · exact h
  | hello =>
    have hnone : routeUpdates (s.step cfg .hello).2 = [] := by
      unfold routeUpdates
      rw [List.filterMap_eq_nil_iff]
      intro output hmem
      obtain ⟨iface, -, rfl⟩ := List.mem_map.mp hmem
      rfl
    rw [hnone]
    exact h.of_eq rfl rfl
  | update =>
    simp only [State.step, routeUpdates_sendUpdates]
    exact h.of_eq rfl rfl
  | housekeeping now =>
    have hexpired : Agrees cfg.vrfTable rib
        { s with neighbours := (s.neighbours.expire now helloTimeout ihuTimeout).1 } := h.of_eq rfl rfl
    simp only [State.step, routeUpdates_route]
    exact hexpired.loseAll _
  | redist r =>
    have happlied : Agrees cfg.vrfTable rib (applyRedistribution cfg.redistributeMetric s r).1 := by
      cases r with
      | announce route =>
        simp only [applyRedistribution]
        split_ifs
        · exact h
        · exact h
        · exact h.of_eq rfl rfl
      | withdraw pfx =>
        simp only [applyRedistribution]
        split_ifs
        · exact h.of_eq rfl rfl
        · exact h
    simp only [State.step]
    split_ifs
    · rw [routeUpdates_sendUpdates]
      exact happlied.of_eq rfl rfl
    · exact happlied
  | shutdown =>
    have hnone : routeUpdates (s.step cfg .shutdown).2 = [] := by
      simp only [State.step, sendRetractions]
      split_ifs
      · rfl
      · exact routeUpdates_sendChunks cfg.ifaces _
    rw [hnone]
    exact h

theorem Agrees.run {w : Runner} (h : Agrees vrfTable rib w.state) {cfg : Config} (hvrf : cfg.vrfTable = vrfTable)
    (event : Event) :
    Agrees vrfTable (Replica.replay rib ((routeUpdates (w.step cfg event).2).map ribDelta)) (w.step cfg event).1.state := by
  have hstep := h.step hvrf event
  have hnone : ∀ w : Runner, routeUpdates (reconcileBfd cfg.bfd w).2 = [] ∧ (reconcileBfd cfg.bfd w).1.state = w.state := by
    intro w
    unfold reconcileBfd
    split_ifs
    · exact ⟨rfl, rfl⟩
    · exact ⟨by simp [routeUpdates, List.filterMap_map], rfl⟩
  unfold Runner.step
  dsimp only
  split_ifs
  · obtain ⟨houtputs, hstate⟩ := hnone { w with state := (w.state.step cfg event).1 }
    rw [routeUpdates_append, houtputs, List.append_nil, hstate]
    exact hstep
  · exact hstep

end Mirror

/-- After any events, a RIB that has taken every update has a Babel route to just the networks that have a selected
route, by the selected next hop and with its metric; and every route that is advertised again is to one of them. -/
theorem rib_mirrors_selection (cfg : Config) (events : List Event) :
    let w := events.foldl (fun w e => (w.step cfg e).1) cfg.start
    let rib := Replica.replay (fun _ => none)
      ((Replica.log (fun w e => (w.step cfg e).1) (fun w e => routeUpdates (w.step cfg e).2) cfg.start events).map
        ribDelta)
    (∀ p : Prefix, rib p = none ↔ w.state.table.selected[p]? = none) ∧
    (∀ (p : Prefix) s, w.state.table.selected[p]? = some s →
      ∃ ifname, rib p = some { babelRoute p s.2.1 s.2.2 ifname with table := cfg.vrfTable }) ∧
    ∀ p : Prefix, w.state.relayed[p]? ≠ none → w.state.table.selected[p]? ≠ none := by
  intro w rib
  have hfold : ∀ (w : Runner) (rib : Prefix → Option Route), Agrees cfg.vrfTable rib w.state →
      Agrees cfg.vrfTable (Replica.replay rib
        ((Replica.log (fun w e => (w.step cfg e).1) (fun w e => routeUpdates (w.step cfg e).2) w events).map ribDelta))
        (events.foldl (fun w e => (w.step cfg e).1) w).state := by
    induction events with
    | nil => exact fun _ _ h => h
    | cons e events ih =>
      intro w rib h
      rw [Replica.log, List.map_append, Replica.replay_append]
      exact ih _ _ (h.run rfl e)
  have hstart : Agrees cfg.vrfTable (fun _ => none) cfg.start.state := by
    refine ⟨fun p => .inl ⟨rfl, ?_⟩, ?_⟩
    · simp [Config.start, RouteTable.selectedHop, RouteTable.new]
    · intro p hsome
      simp [Config.start] at hsome
  have h : Agrees cfg.vrfTable rib w.state := hfold cfg.start _ hstart
  have hhop : ∀ p : Prefix, w.state.table.selectedHop p = (w.state.table.selected[p]?).map Prod.snd := fun _ => rfl
  refine ⟨?_, ?_, ?_⟩
  · intro p
    rcases h.mirrored p with ⟨hnone, hsel⟩ | ⟨hop, ifname, hsel, hsome⟩
    · rw [hhop, Option.map_eq_none_iff] at hsel
      exact iff_of_true hnone hsel
    · rw [hhop] at hsel
      obtain ⟨s, hs, -⟩ := Option.map_eq_some_iff.mp hsel
      rw [hsome, hs]
      simp
  · intro p s hs
    rcases h.mirrored p with ⟨-, hsel⟩ | ⟨hop, ifname, hsel, hsome⟩
    · rw [hhop, hs] at hsel
      cases hsel
    · rw [hhop, hs] at hsel
      obtain rfl := Option.some.inj hsel
      exact ⟨ifname, hsome⟩
  · intro p hrelayed hnone
    have hsel := h.backed p (Option.isSome_iff_ne_none.mpr hrelayed)
    rw [hhop, hnone] at hsel
    cases hsel

end Wren.Daemon.Babel
