import Wren.Daemon.Bgp.Import
import Wren.Daemon.Bgp.Session
import Wren.Daemon.Router.Basic

/-! The central BGP task: it owns the routing information bases and the state of every neighbour,
and it answers each message of the sessions with changes of these and with commands to the
sessions. A hash map of the source is an ordered map here; nothing depends on the order. -/

namespace Wren.Daemon.Bgp
open Wren.Core Wren.Bgp Wren.Daemon OrdMap

structure OriginEntry where
  communities : List UInt32
  largeCommunities : List (UInt32 × UInt32 × UInt32)
  extCommunities : List (Vector UInt8 8)
  configured : Bool
deriving DecidableEq

structure Aggregate where
  pfx : Prefix
  summaryOnly : Bool
deriving DecidableEq

/-- A strictly more specific network inside the aggregate. -/
def covers (aggregate contributor : Prefix) : Bool :=
  aggregate.isIpv4 == contributor.isIpv4 && contributor.len > aggregate.len
    && aggregate.contains contributor.addr

def OriginEntry.route (e : OriginEntry) (p : Prefix) : OriginRoute :=
  ⟨p, e.communities, e.largeCommunities, e.extCommunities, false⟩

/-- Add an aggregate that has a contributor, and take these away if it stands for them. -/
def addAggregate (originated : BTreeMap Prefix OriginEntry) (out : BTreeMap Prefix OriginRoute)
    (agg : Aggregate) : BTreeMap Prefix OriginRoute :=
  let contributors := (originated.toList.map Prod.fst).filter fun c => covers agg.pfx c
  if contributors = [] then out
  else
    let out := if agg.summaryOnly then contributors.foldl (fun m c => m.erase c) out else out
    out.insert agg.pfx ⟨agg.pfx, [], [], [], true⟩

/-- What is advertised of the originated routes, after aggregation. -/
def effectiveOrigination (originated : BTreeMap Prefix OriginEntry) (aggregates : List Aggregate) :
    BTreeMap Prefix OriginRoute :=
  aggregates.foldl (addAggregate originated) (originated.map fun p e => e.route p)

/-- A session the central task can send commands to, and all it has sent so far. -/
structure SessionHandle where
  sess : Session
  log : List SessionCmd

def SessionHandle.push (h : SessionHandle) (cmds : List SessionCmd) : SessionHandle :=
  { h with log := h.log ++ cmds }

/-- The routes of a restarting peer that it has not advertised again, and until when they are kept. -/
structure StalePeer where
  prefixes : List Prefix
  deadline : ℕ
deriving DecidableEq

/-- The identifiers under which paths are offered to ADD-PATH peers. -/
structure AddPathState where
  ids : BTreeMap (IpAddr × UInt32) UInt32
  next : UInt32
  out : BTreeMap (IpAddr × Prefix) (BTreeSet UInt32)

/-- The routes one family of the others holds, by peer and NLRI. -/
abbrev FamilyRib := List ((IpAddr × FamilyNlri) × Path)

inductive FamilyOp where
  | update (family : Family) (peer : IpAddr) (nlri : FamilyNlri) (path : Path)
  | withdraw (family : Family) (peer : IpAddr) (nlri : FamilyNlri)
  | withdrawPeer (peer : IpAddr)

def FamilyOp.apply (ribs : Family → FamilyRib) : FamilyOp → Family → FamilyRib
  | .update f peer nlri path =>
    Function.update ribs f ((ribs f).filter (fun e => e.1 ≠ (peer, nlri)) ++ [((peer, nlri), path)])
  | .withdraw f peer nlri => Function.update ribs f ((ribs f).filter fun e => e.1 ≠ (peer, nlri))
  | .withdrawPeer peer => fun f => (ribs f).filter fun e => e.1.1 ≠ peer

structure Central where
  loc : Local
  rpkiReject : Bool
  staticRoas : List Roa
  aggregates : List Aggregate
  neighbors : List IpAddr
  peers : BTreeMap IpAddr PeerProps
  exports : BTreeMap IpAddr Filter
  imports : BTreeMap IpAddr Filter
  defaultOriginate : List IpAddr
  originated : BTreeMap Prefix OriginEntry
  advertised : BTreeMap Prefix OriginRoute
  roa : RoaTable
  sessions : BTreeMap IpAddr SessionHandle
  estInbound : BTreeMap IpAddr Bool
  currentConn : BTreeMap IpAddr UInt64
  grHelper : BTreeMap IpAddr UInt16
  stale : BTreeMap IpAddr StalePeer
  damped : List IpAddr
  addpathSend : List IpAddr
  addpath : AddPathState
  rib : BgpRib
  families : Family → FamilyRib

/-- A new session reports itself. -/
structure EstablishedMsg where
  connId : UInt64
  peerId : Ipv4Addr
  inbound : Bool
  grRestartTime : Option UInt16
  sess : Session

structure NeighborConfig where
  addr : IpAddr
  props : PeerProps
  importFilter : Option Filter
  exportFilter : Option Filter
  defaultOriginate : Bool

/-- What the central task waits for. The connection of an UPDATE and the family of an End-of-RIB
marker are not part of the messages: no handler reads them. -/
inductive Event where
  | established (m : EstablishedMsg)
  | down (peer : IpAddr) (connId : UInt64) (now : ℕ)
  | refreshRequest (peer : IpAddr) (connId : UInt64)
  | endOfRib (peer : IpAddr) (connId : UInt64) (ipv4 : Bool)
  | update (connId : UInt64) (m : UpdateMsg)
  | restartTimer (now : ℕ)
  | teardown (peer : IpAddr)
  | redistribute (r : Redistribution)
  | rtrFeed (feed : List Roa)
  | bfdDown (peer : IpAddr)
  | refresh (peer : IpAddr)
  | reconfig (remove : List IpAddr) (add : List NeighborConfig)

namespace Central

/-- Queue commands for one peer, if it has a session. -/
def sendTo (s : Central) (peer : IpAddr) (cmds : List SessionCmd) : Central :=
  { s with sessions := s.sessions.modify peer fun h => h.push cmds }

def fanout (s : Central) (cmds : List SessionCmd) : Central :=
  { s with sessions := s.sessions.map fun _ h => h.push cmds }

/-- How a change of the Loc-RIB is passed on. -/
def propagate : RibEvent → SessionCmd
  | .best pfx path _ => .propagate [⟨pfx, path⟩]
  | .withdrawn pfx => .withdrawPropagated [pfx]

/-- A change of the unicast RIB and its fan-out. -/
def applyOp (s : Central) (op : BgpRib.Op) : Central :=
  { s.fanout ((s.rib.notify op).map propagate) with rib := s.rib.step op }

def applyOps (s : Central) (ops : List BgpRib.Op) : Central := ops.foldl applyOp s

def applyFamilyOps (s : Central) (ops : List FamilyOp) : Central :=
  { s with families := ops.foldl FamilyOp.apply s.families }

end Central

namespace AddPathState

/-- A source path keeps its identifier as long as it is not forgotten. -/
def idFor (a : AddPathState) (src : IpAddr × UInt32) : UInt32 × AddPathState :=
  match a.ids[src]? with
  | some id => (id, a)
  | none => (a.next + 1, { a with next := a.next + 1, ids := a.ids.insert src (a.next + 1) })

/-- Forget what was offered to a peer and the identifiers of its own paths. -/
def dropPeer (a : AddPathState) (peer : IpAddr) : AddPathState :=
  { a with
    out := a.out.filter fun k _ => k.1 ≠ peer
    ids := a.ids.filter fun src _ => src.1 ≠ peer }

def assignOne (st : BTreeMap UInt32 Path × AddPathState) (e : (IpAddr × UInt32) × Path) :
    BTreeMap UInt32 Path × AddPathState :=
  let (id, a) := st.2.idFor e.1
  (st.1.insert id e.2, a)

/-- The paths to offer under their identifiers. -/
def assign (a : AddPathState) (l : List ((IpAddr × UInt32) × Path)) :
    BTreeMap UInt32 Path × AddPathState :=
  l.foldl assignOne (∅, a)

end AddPathState

namespace Central

/-- The paths of a network that an ADD-PATH peer is to be offered, by their source. -/
def offered (s : Central) (peer : IpAddr) (pfx : Prefix) : List ((IpAddr × UInt32) × Path) :=
  match s.peers[peer]? with
  | none => []
  | some pp =>
    let filter := s.exports[peer]?
    if rfc8212Deny pp.requirePolicy (pp.peerType == .ebgp) filter.isSome then []
    else
      (s.rib.paths pfx).filterMap fun (src, path) =>
        if src.1 = peer ∨ shouldPropagate path pp.peerType pp.rrClient peer = false then none
        else (filterPath filter pfx path).map fun p => (src, p)

/-- Whether the paths of a network are computed for a peer at all. -/
def offers (s : Central) (peer : IpAddr) : Bool :=
  s.sessions.contains peer && (s.peers[peer]?).any fun pp =>
    !rfc8212Deny pp.requirePolicy (pp.peerType == .ebgp) (s.exports[peer]?).isSome

/-- Bring one ADD-PATH peer up to date about one network. -/
def propagateAddPathTo (pfx : Prefix) (s : Central) (peer : IpAddr) : Central :=
  if s.offers peer then
    let (desired, a) := s.addpath.assign (s.offered peer pfx)
    let advertised := a.out[(peer, pfx)]?.getD ∅
    let gone := advertised.toList.filter fun id => id ∉ desired
    let advertised := desired.toList.foldl (fun ids e => ids.insert e.1) (advertised.filter fun id => id ∈ desired)
    let routes := desired.toList.map fun (id, path) => ⟨pfx, id, path⟩
    let out := if advertised.isEmpty then a.out.erase (peer, pfx) else a.out.insert (peer, pfx) advertised
    ({ s with addpath := { a with out } } : Central).sendTo peer
      ((if gone = [] then [] else [.withdrawAddPath pfx gone]) ++
        if routes = [] then [] else [.advertiseAddPath routes])
  else s

def propagateAddPath (s : Central) (pfx : Prefix) : Central :=
  if pfx.isIpv4 then s.addpathSend.foldl (propagateAddPathTo pfx) s else s

/-- The default route of a neighbour that is to be sent one. -/
def defaultRoute : OriginRoute := ⟨⟨.v4 0, 0, Prefix.anyV4_len_le, Prefix.anyV4_masked⟩, [], [], [], false⟩

/-- The routes advertised and the best paths, as a new session or a refreshed one gets them. -/
def snapshot (s : Central) : List SessionCmd :=
  let origin := s.advertised.toList.map Prod.snd
  let best := s.rib.best.toList.map fun (p, path) => PropRoute.mk p path
  (if origin = [] then [] else [.advertise origin]) ++ if best = [] then [] else [.propagate best]

/-- Of two connections that raced, the one opened by the speaker with the higher identifier stays. -/
def collisionKeepsInbound (localId peerId : Ipv4Addr) : Bool := localId < peerId

def newWins (s : Central) (m : EstablishedMsg) : Bool :=
  let keepInbound := collisionKeepsInbound s.loc.routerId m.peerId
  let existingInbound := s.estInbound[m.sess.addr]?.getD false
  m.inbound == keepInbound && existingInbound != keepInbound

/-- A session is turned away if its peer is damped or it loses against one that exists. -/
def refuses (s : Central) (m : EstablishedMsg) : Bool :=
  m.sess.addr ∈ s.damped || s.sessions.contains m.sess.addr && !s.newWins m

/-- The commands that bring a new peer up to date. -/
def greeting (s : Central) (p : IpAddr) : List SessionCmd :=
  s.snapshot ++ (if p ∈ s.defaultOriginate then [.advertise [defaultRoute]] else []) ++ [.sendEndOfRib]

/-- Enter a new session. -/
def register (s : Central) (m : EstablishedMsg) : Central :=
  let p := m.sess.addr
  { s with
    estInbound := s.estInbound.insert p m.inbound
    currentConn := s.currentConn.insert p m.connId
    grHelper :=
      match m.grRestartTime with
      | some t => if t > 0 then s.grHelper.insert p t else s.grHelper.erase p
      | none => s.grHelper.erase p
    sessions := s.sessions.insert p ⟨m.sess, s.greeting p⟩ }

/-- From now on the peer is offered every path of every network. -/
def serveAddPath (s : Central) (p : IpAddr) : Central :=
  (s.rib.best.toList.map Prod.fst).foldl propagateAddPath
    { s with addpathSend := s.addpathSend.insert p }

def established (s : Central) (m : EstablishedMsg) : Central :=
  if s.refuses m then s
  else if m.sess.addPathSend then (s.register m).serveAddPath m.sess.addr
  else s.register m

/-- The networks of a lost peer that are kept, if it may be helped through a restart. -/
def retained (s : Central) (p : IpAddr) : Bool := s.grHelper.contains p && s.rib.prefixesFrom p ≠ []

/-- Strike out the session of a lost peer. -/
def leave (s : Central) (p : IpAddr) (now : ℕ) : Central :=
  let secs := max (s.grHelper[p]?.getD 0).toNat 1
  { s with
    sessions := s.sessions.erase p
    estInbound := s.estInbound.erase p
    currentConn := s.currentConn.erase p
    stale := if s.retained p then s.stale.insert p ⟨s.rib.prefixesFrom p, now + secs⟩ else s.stale
    addpathSend := s.addpathSend.filter (· ≠ p)
    addpath := s.addpath.dropPeer p }

/-- The networks whose ADD-PATH offers are computed anew after a loss. -/
def affected (s : Central) (p : IpAddr) : List Prefix :=
  if s.retained p || (s.addpathSend.filter (· ≠ p)).isEmpty then []
  else (s.rib.prefixesFrom p).filter fun x => x.isIpv4

/-- Routes that are not kept are withdrawn at once. -/
def lossOps (s : Central) (p : IpAddr) : List BgpRib.Op := if s.retained p then [] else [.withdrawPeer p]

def down (s : Central) (p : IpAddr) (connId : UInt64) (now : ℕ) : Central :=
  if s.currentConn[p]? ≠ some connId then s
  else
    (s.affected p).foldl propagateAddPath
      (((s.leave p now).applyOps (s.lossOps p)).applyFamilyOps [.withdrawPeer p])

def refreshRequest (s : Central) (p : IpAddr) (connId : UInt64) : Central :=
  if s.currentConn[p]? ≠ some connId then s else s.sendTo p s.snapshot

/-- Only the path without an identifier is withdrawn. -/
def flushOps (p : IpAddr) (prefixes : List Prefix) : List BgpRib.Op :=
  prefixes.map fun x => .withdraw p 0 x

/-- Give up the routes of a restarting peer that it has not advertised again. -/
def finalise (s : Central) (p : IpAddr) : Central :=
  match s.stale[p]? with
  | none => s
  | some st => ({ s with stale := s.stale.erase p } : Central).applyOps (flushOps p st.prefixes)

def endOfRib (s : Central) (p : IpAddr) (connId : UInt64) : Central :=
  if s.currentConn[p]? ≠ some connId then s else s.finalise p

def expired (s : Central) (now : ℕ) : List IpAddr :=
  (s.stale.toList.filter fun e => e.2.deadline ≤ now).map Prod.fst

def restartTimer (s : Central) (now : ℕ) : Central := (s.expired now).foldl finalise s

/-- The networks an UPDATE makes reachable in the encodings that end their staleness. -/
def refreshed (u : Update) : List Prefix :=
  u.nlri ++ ((mpReachV6 u).elim [] fun r => r.2.1)

/-- What is advertised again is stale no longer. -/
def refresh (u : Update) (st : StalePeer) : StalePeer :=
  { st with prefixes := st.prefixes.filter (· ∉ refreshed u) }

def unstale (s : Central) (m : UpdateMsg) : Central :=
  { s with stale := s.stale.modify m.facts.addr (refresh m.update) }

def policyFor (s : Central) (p : IpAddr) : ImportPolicy where
  loc := s.loc
  importFilter := s.imports[p]?
  requirePolicy := (s.peers[p]?).any fun pp => pp.requirePolicy
  role := (s.peers[p]?).bind fun pp => pp.role
  roa := s.roa
  rpkiReject := s.rpkiReject

/-- With this UPDATE the peer would have more networks than its limit. -/
def overLimit (s : Central) (rib : BgpRib) (m : UpdateMsg) : Bool :=
  ((s.peers[m.facts.addr]?).bind fun pp => pp.maxPrefix).any fun limit =>
    UInt32.ofNat (rib.prefixesFrom m.facts.addr ++ refreshed m.update).dedup.length > limit

end Central

/-- The address in a next-hop field of four or sixteen octets. -/
def evpnNextHopIp (octets : List UInt8) : Option IpAddr :=
  if octets.length = 4 then some (.v4 (BitVec.ofNat 32 (Octets.value octets)))
  else if octets.length = 16 then some (.v6 (BitVec.ofNat 128 (Octets.value octets)))
  else none

def mpReachFamily (f : Family) (u : Update) : Option (List UInt8 × List FamilyNlri) :=
  u.attributes.findSome? fun
    | .mpReachFamily g _ nextHop nlri => if g = f then some (nextHop, nlri) else none
    | _ => none

def mpUnreachFamily (f : Family) (u : Update) : List FamilyNlri :=
  (u.attributes.findSome? fun
    | .mpUnreachFamily g _ withdrawn => if g = f then some withdrawn else none
    | _ => none).getD []

/-- EVPN needs a next hop and skips the route types it does not know. The next hop of the others is
the peer itself. -/
def familyReach (f : Family) (m : UpdateMsg) : List FamilyOp :=
  let peer := m.facts.addr
  (mpReachFamily f m.update).elim [] fun (field, nlri) =>
    match f with
    | .evpn =>
      (evpnNextHopIp field).elim [] fun nh =>
        (nlri.filter fun n => n.known).map fun n =>
          .update .evpn peer n (buildPath m.update nh none m.facts)
    | f => nlri.map fun n => .update f peer n (buildPath m.update peer none m.facts)

def familyOps (m : UpdateMsg) : List FamilyOp :=
  [Family.evpn, .flowSpec, .srPolicy, .linkState].flatMap fun f =>
    (mpUnreachFamily f m.update).map (fun n => .withdraw f m.facts.addr n) ++ familyReach f m

namespace Central

/-- The limit is checked after the withdrawals and before anything is installed. -/
def tooMany (s : Central) (m : UpdateMsg) : Bool :=
  s.overLimit (m.withdrawOps.foldl BgpRib.step s.rib) m

/-- The unicast operations of an UPDATE that is not ignored. -/
def updateOps (s : Central) (m : UpdateMsg) : List BgpRib.Op :=
  m.withdrawOps ++
    if isLoop s.loc m.update then []
    else if s.tooMany m then [.withdrawPeer m.facts.addr]
    else (s.policyFor m.facts.addr).installOps m

/-- The networks whose ADD-PATH offers are computed anew after an UPDATE. -/
def touched (u : Update) : List Prefix := ((u.nlri ++ u.withdrawn).filter fun p => p.isIpv4).dedup

/-- The session of a peer over its limit is told to cease and not heard of again. -/
def damp (s : Central) (p : IpAddr) : Central :=
  { s with
    sessions := s.sessions.erase p
    estInbound := s.estInbound.erase p
    currentConn := s.currentConn.erase p
    damped := s.damped.insert p }

def update (s : Central) (m : UpdateMsg) : Central :=
  if m.facts.addr ∈ s.damped then s
  else
    let s' := (s.unstale m).applyOps (s.updateOps m)
    if isLoop s.loc m.update then s'
    else if s.tooMany m then s'.damp m.facts.addr
    else
      (if s.addpathSend.isEmpty then [] else touched m.update).foldl propagateAddPath
        (s'.applyFamilyOps (familyOps m))

/-- A change of the redistributed routes, none if it says nothing new. -/
def redistributed (s : Central) : Redistribution → Option (BTreeMap Prefix OriginEntry)
  | .announce route =>
    let e : OriginEntry := ⟨route.communities, route.largeCommunities, route.extCommunities, false⟩
    match s.originated[route.pfx]? with
    | some old => if old.configured || old = e then none else some (s.originated.insert route.pfx e)
    | none => some (s.originated.insert route.pfx e)
  | .withdraw p =>
    if (s.originated[p]?).any fun e => !e.configured then some (s.originated.erase p) else none

/-- The networks that a new set of originated routes leaves out. -/
def retired (s : Central) (next : BTreeMap Prefix OriginRoute) : List Prefix :=
  (s.advertised.toList.map Prod.fst).filter fun p => p ∉ next

def changed (s : Central) (next : BTreeMap Prefix OriginRoute) : List OriginRoute :=
  (next.toList.map Prod.snd).filter fun r => s.advertised[r.pfx]? ≠ some r

def originationCmds (s : Central) (next : BTreeMap Prefix OriginRoute) : List SessionCmd :=
  (if s.changed next = [] then [] else [.advertise (s.changed next)]) ++
    if s.retired next = [] then [] else [.withdraw (s.retired next)]

def applyRedistribution (s : Central) (r : Redistribution) : Central :=
  match s.redistributed r with
  | none => s
  | some originated =>
    let next := effectiveOrigination originated s.aggregates
    ({ s with originated, advertised := next } : Central).fanout (s.originationCmds next)

/-- The best paths that a ROA set makes invalid, by the peer they are from. -/
def invalidOps (s : Central) (roa : RoaTable) : List BgpRib.Op :=
  if s.rpkiReject && !roa.isEmpty then
    (s.rib.best.toList.filter fun (p, path) =>
        roa.validate p ((originAs path.asPath).getD path.peerAs) = .invalid).map
      fun (p, path) => .withdraw path.peerAddr 0 p
  else []

def rtrFeed (s : Central) (feed : List Roa) : Central :=
  let roa : RoaTable := ⟨s.staticRoas ++ feed⟩
  ({ s with roa } : Central).applyOps (s.invalidOps roa)

/-- Everything known of a neighbour is forgotten. -/
def forget (s : Central) (p : IpAddr) : Central :=
  { s with
    sessions := s.sessions.erase p
    neighbors := s.neighbors.filter (· ≠ p)
    estInbound := s.estInbound.erase p
    currentConn := s.currentConn.erase p
    grHelper := s.grHelper.erase p
    stale := s.stale.erase p
    damped := s.damped.filter (· ≠ p)
    defaultOriginate := s.defaultOriginate.filter (· ≠ p)
    imports := s.imports.erase p
    addpathSend := s.addpathSend.filter (· ≠ p)
    addpath := s.addpath.dropPeer p
    peers := s.peers.erase p
    exports := s.exports.erase p }

def removeNeighbor (s : Central) (p : IpAddr) : Central :=
  ((s.forget p).applyOps [.withdrawPeer p]).applyFamilyOps [.withdrawPeer p]

def addNeighbor (s : Central) (n : NeighborConfig) : Central :=
  if n.addr ∈ s.neighbors then s
  else
    { s with
      neighbors := s.neighbors.insert n.addr
      defaultOriginate := if n.defaultOriginate then s.defaultOriginate.insert n.addr else s.defaultOriginate
      imports := n.importFilter.elim s.imports fun f => s.imports.insert n.addr f
      exports := n.exportFilter.elim s.exports fun f => s.exports.insert n.addr f
      peers := s.peers.insert n.addr n.props }

def reconfig (s : Central) (remove : List IpAddr) (add : List NeighborConfig) : Central :=
  add.foldl addNeighbor (remove.foldl removeNeighbor s)

def step (s : Central) : Event → Central
  | .established m => s.established m
  | .down p conn now => s.down p conn now
  | .refreshRequest p conn => s.refreshRequest p conn
  | .endOfRib p conn _ => s.endOfRib p conn
  | .update _ m => s.update m
  | .restartTimer now => s.restartTimer now
  -- the session closes when its command channel does, and reports Down
  | .teardown p => { s with sessions := s.sessions.erase p }
  | .redistribute r => s.applyRedistribution r
  | .rtrFeed feed => s.rtrFeed feed
  | .bfdDown p => s.sendTo p [.bfdDown]
  | .refresh p => s.sendTo p [.sendRefresh]
  | .reconfig remove add => s.reconfig remove add

end Central

/-- What the task is started with. -/
structure BgpConfig where
  loc : Local
  rpkiReject : Bool := false
  staticRoas : List Roa := []
  aggregates : List Aggregate := []
  networks : BTreeMap Prefix OriginEntry := ∅
  maxPaths : ℕ := 1
  neighbors : List NeighborConfig

namespace Central

/-- The state before any session. -/
def start (c : BgpConfig) : Central :=
  c.neighbors.foldl addNeighbor
    { loc := c.loc, rpkiReject := c.rpkiReject, staticRoas := c.staticRoas, aggregates := c.aggregates
      neighbors := [], peers := ∅, exports := ∅, imports := ∅, defaultOriginate := []
      originated := c.networks, advertised := effectiveOrigination c.networks c.aggregates
      roa := ⟨c.staticRoas⟩, sessions := ∅, estInbound := ∅, currentConn := ∅, grHelper := ∅, stale := ∅
      damped := [], addpathSend := [], addpath := ⟨∅, 0, ∅⟩
      rib := .withMaxPaths c.maxPaths, families := fun _ => [] }

def run (c : BgpConfig) (es : List Event) : Central := es.foldl step (start c)

end Central

/-- How far a connection has come, as its messages say. -/
inductive Phase where
  | idle
  | up (peer : IpAddr)
  | closed
deriving DecidableEq

/-- A connection reports Established, then sends, then reports Down. -/
def Phase.next (conn : UInt64) (ph : Phase) : Event → Option Phase
  | .established m =>
    if m.connId ≠ conn then some ph else if ph = .idle then some (.up m.sess.addr) else none
  | .down p c _ => if c ≠ conn then some ph else if ph = .up p then some .closed else none
  | .refreshRequest p c => if c ≠ conn then some ph else if ph = .up p then some ph else none
  | .endOfRib p c _ => if c ≠ conn then some ph else if ph = .up p then some ph else none
  | .update c m => if c ≠ conn then some ph else if ph = .up m.facts.addr then some ph else none
  | _ => some ph

/-- The messages of every connection come in order, whatever comes between them. -/
def Interleaved (es : List Event) : Prop := ∀ conn, (es.foldlM (Phase.next conn) .idle).isSome

/-- The connection a message is from. -/
def Event.conn? : Event → Option UInt64
  | .established m => some m.connId
  | .down _ conn _ | .refreshRequest _ conn | .endOfRib _ conn _ | .update conn _ => some conn
  | _ => none

theorem Phase.next_of_ne {conn : UInt64} {e : Event} (h : e.conn? ≠ some conn) (ph : Phase) :
    Phase.next conn ph e = some ph := by
  cases e <;> simp_all [Phase.next, Event.conn?]

theorem interleaved_iff {es : List Event} :
    Interleaved es ↔
      (es.filterMap Event.conn?).all (fun conn => (es.foldlM (Phase.next conn) .idle).isSome) = true := by
  rw [List.all_eq_true]
  constructor
  · intro h conn _
    exact h conn
  · intro h conn
    by_cases hmem : conn ∈ es.filterMap Event.conn?
    · exact h conn hmem
    · have hskip : ∀ (fs : List Event) (ph : Phase), conn ∉ fs.filterMap Event.conn? →
          fs.foldlM (Phase.next conn) ph = some ph := by
        intro fs
        induction fs with
        | nil => exact fun _ _ => rfl
        | cons e fs ih =>
          intro ph hnot
          have hne : e.conn? ≠ some conn := by
            intro he
            simp [he] at hnot
          have hrest : conn ∉ fs.filterMap Event.conn? := by
            intro hin
            obtain ⟨f, hf, hconn⟩ := List.mem_filterMap.mp hin
            exact hnot (List.mem_filterMap.mpr ⟨f, by simp [hf], hconn⟩)
          rw [List.foldlM_cons, Phase.next_of_ne hne]
          exact ih ph hrest
      rw [hskip es .idle hmem]
      rfl

instance (es : List Event) : Decidable (Interleaved es) := decidable_of_iff' _ interleaved_iff

namespace Sample

/-- The external neighbour `192.0.2.o`, without any policy. -/
def neighbor (o : UInt8) : NeighborConfig where
  addr := addr o
  props := ⟨false, .ebgp, none, false, none⟩
  importFilter := none
  exportFilter := none
  defaultOriginate := false

def session (o : UInt8) (addPathSend : Bool) : Session where
  loc := loc
  addr := addr o
  peerType := .ebgp
  rrClient := false
  requirePolicy := false
  exportFilter := none
  role := none
  localAsOverride := none
  localIp := 0xc0000264
  link := none
  fourOctet := true
  mpIpv6 := true
  extNexthopSend := false
  addPathSend := addPathSend

def config : BgpConfig where
  loc := loc
  neighbors := [neighbor 1, neighbor 2, neighbor 3]

def established (o : UInt8) (conn : UInt64) : Event :=
  .established ⟨conn, o.toBitVec.setWidth 32, true, none, session o false⟩

def update (o : UInt8) (conn : UInt64) (u : Update) : Event := .update conn ⟨facts o, none, u⟩

end Sample
end Wren.Daemon.Bgp
