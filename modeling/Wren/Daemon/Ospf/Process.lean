import Wren.Daemon.Ospf.Originate

/-! How the OSPFv2 task handles packets and timers. A packet is taken after its decoding. -/

namespace Wren.Ospf

def LsType.isOpaque : LsType → Bool
  | .opaqueLink | .opaqueArea | .opaqueAs => true
  | _ => false

end Wren.Ospf

namespace Wren.Daemon
open Wren.Core Wren.Ospf OrdMap

namespace Ospf
variable (s : Ospf)

/-! ### The neighbours of an interface -/

/-- Whether there should be an adjacency. On a link that elects a Designated Router the key is an address, and stands in
for the Router ID of a neighbour that is not known. -/
def adjacencyOk (i : Iface) (nbrId : Ipv4Addr) : Bool :=
  if !i.fsm.ifaceType.electsDr then true
  else
    let rid := ((i.neighbors[nbrId]?).map OspfNeighbor.routerId).getD nbrId
    i.fsm.isDrOrBdr || i.fsm.dr = rid || i.fsm.bdr = rid

/-- Enter ExStart. -/
def startDdExchange (idx : ℕ) (nbrId : Ipv4Addr) : Ospf :=
  let seq := s.nextDdSeq + 1
  let s := { s with nextDdSeq := seq }
  match s.iface? idx, s.neighbor? idx nbrId with
  | some i, some n =>
    let r := DbExchange.startDdExchange (H := LsaHeader) seq n.toAdjacency
    let s := s.modifyNeighbor idx nbrId fun n => { n with toAdjacency := r.1, retransmitList := ∅ }
    s.send i n.addr (.databaseDescription ⟨DbExchange.ifaceMtu, s.cfg.areaOptions i.area,
      DbExchange.ddFlagInit ||| DbExchange.ddFlagMore ||| DbExchange.ddFlagMaster, seq, []⟩)
  | _, _ => s

def actOnNeighbor (idx : ℕ) (nbrId : Ipv4Addr) (s : Ospf) : NeighborAction → Ospf
  | .startDdExchange => s.startDdExchange idx nbrId
  | .adjacencyUp => s.onAdjacencyFull
  | .clearAdjacency => s.modifyNeighbor idx nbrId fun n =>
      { n with toAdjacency := DbExchange.clearAdjacency n.toAdjacency, retransmitList := ∅ }
  | _ => s

def actAllOnNeighbor (idx : ℕ) (nbrId : Ipv4Addr) (acts : List NeighborAction) : Ospf :=
  acts.foldl (actOnNeighbor idx nbrId) s

/-- Drive the state machine of a neighbour, and act on what comes of it. -/
def driveNeighbor (idx : ℕ) (nbrId : Ipv4Addr) (ev : NeighborEvent) (adjacencyOk : Bool) : Ospf :=
  match s.neighbor? idx nbrId with
  | none => s
  | some n =>
    let r := n.state.handle ev ⟨adjacencyOk, n.requestList.isEmpty⟩
    (s.modifyNeighbor idx nbrId fun n => { n with state := r.1 }).actAllOnNeighbor idx nbrId r.2

/-- Whether the interface has another Designated Router or Backup after the event. -/
def runInterfaceEvent (idx : ℕ) (ev : InterfaceEvent) : Ospf × Bool :=
  match s.iface? idx with
  | none => (s, false)
  | some i =>
    let fsm := (i.fsm.handle ev i.candidates).1
    (s.modifyIface idx fun i => { i with fsm }, fsm.dr ≠ i.fsm.dr ∨ fsm.bdr ≠ i.fsm.bdr)

/-- After an election, adjacencies come and go. -/
def reevalAdjacency (idx : ℕ) (s : Ospf) (nbrId : Ipv4Addr) : Ospf :=
  match s.iface? idx with
  | none => s
  | some i => s.driveNeighbor idx nbrId .adjOk (adjacencyOk i nbrId)

def reevalAdjacencies (idx : ℕ) : Ospf :=
  match s.iface? idx with
  | none => s
  | some i =>
    ((i.neighbors.toList.filter fun e => e.2.state.isBidirectional).map Prod.fst).foldl (reevalAdjacency idx) s

/-- Let the interface elect, and look at the adjacencies again if that changed anything. -/
def elect (idx : ℕ) (ev : InterfaceEvent) : Ospf :=
  let r := s.runInterfaceEvent idx ev
  if r.2 then r.1.reevalAdjacencies idx else r.1

/-! ### Packets -/

def helloMatches (i : Iface) (h : Hello) : Bool :=
  h.helloInterval = s.cfg.helloInterval ∧ h.deadInterval = s.cfg.deadInterval ∧ h.networkMask = lenToMask i.maskLen ∧
    h.options &&& (optE ||| optNp) = s.cfg.areaOptions i.area &&& (optE ||| optNp)

/-- The neighbour as a Hello leaves it, before its state machine is driven. -/
def heardNeighbor (i : Iface) (nbrId routerId src : Ipv4Addr) (h : Hello) (now : ℕ) : OspfNeighbor :=
  { (i.neighbors[nbrId]?).getD (.new routerId src now) with
    routerId
    addr := src
    lastSeen := now
    priority := h.routerPriority
    declaredDr := s.addrToRouterId i h.designatedRouter
    declaredBdr := s.addrToRouterId i h.backupDesignatedRouter }

def handleHello (idx : ℕ) (nbrId routerId src : Ipv4Addr) (h : Hello) (now : ℕ) : Ospf :=
  match s.iface? idx with
  | none => s
  | some i =>
    if !s.helloMatches i h then s
    else
      let n := s.heardNeighbor i nbrId routerId src h now
      let wasBidir := n.state.isBidirectional
      let ctx : NeighborContext := ⟨adjacencyOk i nbrId, n.requestList.isEmpty⟩
      let heard := n.state.handle .helloReceived ctx
      let ev := if s.cfg.routerId ∈ h.neighbors then .twoWayReceived else .oneWayReceived
      let r := heard.1.handle ev ctx
      let n := { n with state := r.1 }
      let s := s.modifyIface idx fun i => { i with neighbors := i.neighbors.insert nbrId n }
      let revealsDr := h.designatedRouter ≠ 0 ∨ h.backupDesignatedRouter ≠ 0
      let elected :=
        if i.fsm.state = .waiting ∧ revealsDr then s.runInterfaceEvent idx .backupSeen
        else if wasBidir ≠ n.state.isBidirectional then s.runInterfaceEvent idx .neighborChange
        else (s, false)
      let s := elected.1.actAllOnNeighbor idx nbrId (heard.2 ++ r.2)
      if elected.2 then s.reevalAdjacencies idx else s

/-- What the exchange sends, as a packet. -/
def exchangeBody (area : Ipv4Addr) : DbExchange.Message LsaHeader LsaKey → Body
  | .dd d => .databaseDescription ⟨d.interfaceMtu, s.cfg.areaOptions area, d.flags, d.ddSequence, d.lsaHeaders⟩
  | .lsr keys => .linkStateRequest (keys.map fun k => ⟨k.1, k.2.1, k.2.2⟩)

def handleDd (idx : ℕ) (nbrId : Ipv4Addr) (dd : DatabaseDescription) : Ospf :=
  match s.iface? idx, s.neighbor? idx nbrId with
  | some i, some n =>
    let o := DbExchange.handleDd (s.databases i.area) s.cfg.routerId nbrId n.toAdjacency
      ⟨dd.interfaceMtu, dd.flags, dd.ddSequence, dd.lsaHeaders⟩
    let s := s.modifyNeighbor idx nbrId fun n => { n with toAdjacency := o.nbr }
    let s := o.sent.foldl (fun s m => s.send i n.addr (s.exchangeBody i.area m)) s
    s.actAllOnNeighbor idx nbrId o.acts
  | _, _ => s

/-- Answer with what there is of the LSAs asked for. -/
def handleLsr (idx : ℕ) (nbrId : Ipv4Addr) (entries : List LsRequest) : Ospf :=
  match s.iface? idx, s.neighbor? idx nbrId with
  | some i, some n =>
    let lsas := entries.filterMap fun e =>
      (s.lsdbFor i.area e.lsType).get (e.lsType, e.linkStateId, e.advertisingRouter)
    if lsas.isEmpty then s else s.send i n.addr (.linkStateUpdate lsas)
  | _, _ => s

def clearAckedLsas (retransmitList : BTreeMap LsaKey Lsa) (acked : List LsaHeader) : BTreeMap LsaKey Lsa :=
  acked.foldl (fun m h =>
    match m[h.key]? with
    | some pending => if pending.header.lsSeq ≤ h.lsSeq then m.erase h.key else m
    | none => m) retransmitList

def handleLsack (idx : ℕ) (nbrId : Ipv4Addr) (headers : List LsaHeader) : Ospf :=
  s.modifyNeighbor idx nbrId fun n => { n with retransmitList := clearAckedLsas n.retransmitList headers }

/-! ### Helping a neighbour to restart -/

def opaqueTypeGrace : UInt8 := 3

def opaqueTypeOf (linkStateId : Ipv4Addr) : UInt8 := UInt8.ofNat (linkStateId.toNat / 2 ^ 24)

/-- The grace period, and whether there is a reason, in the TLVs from here on. -/
def graceTlvs : ℕ → List UInt8 → Option UInt32 × Bool → Option (Option UInt32 × Bool)
  | 0, _, acc => some acc
  | n + 1, data, acc =>
    if data.length < 4 then some acc
    else
      let tlvType := field data 0 2
      let len := field data 2 2
      if data.length < 4 + len then none
      else
        let acc :=
          if tlvType = 1 ∧ len = 4 then (some (UInt32.ofNat (field data 4 4)), acc.2)
          else if tlvType = 2 ∧ len = 1 then (acc.1, true)
          else acc
        graceTlvs n (data.drop (4 + len + (4 - len % 4) % 4)) acc

/-- The grace period of a Grace-LSA. It must have a reason too. -/
def gracePeriod (data : List UInt8) : Option UInt32 := do
  let r ← graceTlvs data.length data (none, false)
  if r.2 then r.1 else none

/-- The first neighbour with a Router ID. -/
def neighborCalled (rid : Ipv4Addr) : Option OspfNeighbor :=
  s.ifaces.findSome? fun i => i.values.find? fun n => n.routerId = rid

def neighborIsFull (rid : Ipv4Addr) : Bool := s.ifaces.any fun i => i.values.any fun n => n.routerId = rid ∧ n.isFull

def handleGraceLsa (nbrId : Ipv4Addr) (lsa : Lsa) (now : ℕ) : Ospf :=
  match lsa.body with
  | .opq data =>
    match gracePeriod data with
    | none => s
    | some period =>
      if maxAge ≤ lsa.header.lsAge then { s with helping := s.helping.erase nbrId }
      else if !s.neighborIsFull nbrId then s
      else
        let helper : GrHelper :=
          ⟨now + min period.toNat maxGracePeriod, ((s.neighborCalled nbrId).map OspfNeighbor.lastSeen).getD 0⟩
        { s with helping := s.helping.insert nbrId helper }
  | _ => s

/-! ### Link State Updates -/

def dropFromRequestLists (key : LsaKey) : Ospf :=
  { s with ifaces := s.ifaces.map fun i => i.mapNeighbors fun n =>
      { n with requestList := n.requestList.filter (· ≠ key) } }

def retiredSelfExternal (routerId : Ipv4Addr) (originated : Bool) (lsa : Lsa) : Option Lsa :=
  if originated || lsa.header.advertisingRouter ≠ routerId || lsa.header.lsType ≠ .asExternal then none
  else some (lsa.withAge maxAge)

/-- What is noted while the LSAs of an update are looked at one after another. -/
structure Update where
  s : Ospf
  installed : Bool
  reclaimSelf : Bool
  badLsReq : Bool
  ackHeaders : List LsaHeader
  impliedAcks : List LsaHeader
  sendBack : List LsaKey
  refloodArea : List Lsa
  refloodExt : List Lsa

def Update.new (s : Ospf) : Update := ⟨s, false, false, false, [], [], [], [], []⟩

/-- What the flooding decision looks at. -/
def floodInput (idx : ℕ) (nbrId area : Ipv4Addr) (now : ℕ) (lsa : Lsa) : FloodInput :=
  let n := s.neighbor? idx nbrId
  let scope := if lsa.header.lsType = .asExternal then asScope else area
  { selfRouterId := s.cfg.routerId
    dbCopyAgeSinceInstall := (s.lsaInstalledAt[(scope, lsa.key)]?).map fun t => UInt16.ofNat (min (now - t) 65535)
    onRequestList := n.any fun n => lsa.key ∈ n.requestList
    onRetransmitList := n.any fun n => lsa.key ∈ n.retransmitList
    anyNeighborExchanging := s.anyNeighborExchanging }

/-- A more recent instance of an own LSA: the next one of ours is to supersede it. -/
def reclaim (scope : Ipv4Addr) (lsa : Lsa) : Ospf × Bool :=
  let s := { s with lsaSeqs := s.lsaSeqs.insert (scope, lsa.key) (lsa.header.lsSeq + 1) }
  let originated := decide (lsa.key ∈ s.originatedExternals) || decide (lsa.key ∈ s.originatedTranslated)
  match retiredSelfExternal s.cfg.routerId originated lsa with
  | some retired =>
    ({ s with externalLsdb := (s.externalLsdb.install retired).1 }.floodExternalExcept retired 0, true)
  | none => (s, false)

def installForeign (scope area : Ipv4Addr) (now : ℕ) (lsa : Lsa) : Ospf :=
  let s := { s with lsaInstalledAt := s.lsaInstalledAt.insert (scope, lsa.key) now }
  if lsa.header.lsType = .asExternal then { s with externalLsdb := (s.externalLsdb.install lsa).1 }
  else s.modifyArea area fun a => { a with lsdb := (a.lsdb.install lsa).1 }

namespace Update

/-- The LSA is more recent than the one held, if any. -/
def takeLsa (area : Ipv4Addr) (now : ℕ) (u : Update) (lsa : Lsa) : Update :=
  let isExt := lsa.header.lsType = .asExternal
  let scope := if isExt then asScope else area
  let u := { u with ackHeaders := u.ackHeaders ++ [lsa.header], s := u.s.dropFromRequestLists lsa.key }
  if lsa.header.advertisingRouter = u.s.cfg.routerId then
    let r := u.s.reclaim scope lsa
    if r.2 then { u with s := r.1, installed := true } else { u with s := r.1, reclaimSelf := true }
  else
    { u with
      s := u.s.installForeign scope area now lsa
      installed := true
      refloodArea := if isExt then u.refloodArea else u.refloodArea ++ [lsa]
      refloodExt := if isExt then u.refloodExt ++ [lsa] else u.refloodExt }

def handleLsa (idx : ℕ) (nbrId area : Ipv4Addr) (now : ℕ) (u : Update) (lsa : Lsa) : Update :=
  if lsa.header.lsType.isOpaque then
    let grace := lsa.header.lsType = .opaqueLink ∧ opaqueTypeOf lsa.header.linkStateId = opaqueTypeGrace
    { u with
      s := if grace then u.s.handleGraceLsa nbrId lsa now else u.s
      ackHeaders := u.ackHeaders ++ [lsa.header] }
  else if lsa.header.lsType = .asExternal ∧ u.s.cfg.noExternals area then u
  else
    match decideFlood (u.s.lsdbFor area lsa.header.lsType) lsa (u.s.floodInput idx nbrId area now lsa) with
    | .install _ => u.takeLsa area now lsa
    | .directAck => { u with ackHeaders := u.ackHeaders ++ [lsa.header] }
    | .impliedAck => { u with impliedAcks := u.impliedAcks ++ [lsa.header] }
    | .sendBack => { u with sendBack := u.sendBack ++ [lsa.key] }
    | .badLsReq => { u with badLsReq := true }
    | .discard _ => u

end Update

/-- All LSAs of an update, before anything is sent for them. -/
def readLsas (idx : ℕ) (nbrId area : Ipv4Addr) (lsas : List Lsa) (now : ℕ) : Update :=
  lsas.foldl (Update.handleLsa idx nbrId area now) (.new s)

/-- Send back what is more recent here, and acknowledge. -/
def Update.answer (u : Update) (i : Iface) (idx : ℕ) (nbrId src : Ipv4Addr) : Ospf :=
  let s := u.s
  let lsas := u.sendBack.filterMap fun k => (s.lsdbFor i.area k.1).get k
  let s := if lsas.isEmpty then s else s.send i src (.linkStateUpdate lsas)
  let s := s.modifyNeighbor idx nbrId fun n => { n with retransmitList := clearAckedLsas n.retransmitList u.impliedAcks }
  if u.ackHeaders.isEmpty then s else s.send i src (.linkStateAck u.ackHeaders)

/-- Flood what was installed on to the others. -/
def reflood (area src : Ipv4Addr) (u : Update) : Ospf :=
  u.refloodExt.foldl (fun s lsa => s.floodExternalExcept lsa src)
    (u.refloodArea.foldl (fun s lsa => s.floodLsaExcept area lsa src) s)

/-- Nothing is requested any more. -/
def finishLoading (idx : ℕ) (nbrId : Ipv4Addr) : Ospf :=
  if (s.neighbor? idx nbrId).any fun n => n.state = .loading ∧ n.requestList.isEmpty then
    s.driveNeighbor idx nbrId .loadingDone false
  else s

def handleLsu (idx : ℕ) (nbrId : Ipv4Addr) (lsas : List Lsa) (now : ℕ) : Ospf :=
  match s.iface? idx, s.neighbor? idx nbrId with
  | some i, some n =>
    let u := s.readLsas idx nbrId i.area lsas now
    if u.badLsReq then u.s.driveNeighbor idx nbrId .badLsReq false
    else
      let s := (u.answer i idx nbrId n.addr).reflood i.area n.addr u
      let s := if u.reclaimSelf then s.originateExternals.reoriginateAndFlood else s
      let s := s.finishLoading idx nbrId
      if u.installed then s.originateSummaries else s
  | _, _ => s

/-- Own reflections, packets of another area and, where there is a subnet, packets from off it are dropped. -/
def handlePacket (ifindex : UInt32) (src : Ipv4Addr) (p : Packet) (now : ℕ) : Ospf :=
  let idx := s.ifaces.findIdx fun i => i.ifindex = ifindex
  match s.iface? idx with
  | none => s
  | some i =>
    let electsDr := i.fsm.ifaceType.electsDr
    if p.header.routerId = s.cfg.routerId ∨ p.header.areaId ≠ i.area then s
    else if electsDr ∧ ¬ i.onLink src then s
    else
      let nbrId := if electsDr then src else p.header.routerId
      match p.body with
      | .hello h => s.handleHello idx nbrId p.header.routerId src h now
      | .databaseDescription dd => s.handleDd idx nbrId dd
      | .linkStateRequest entries => s.handleLsr idx nbrId entries
      | .linkStateUpdate lsas => s.handleLsu idx nbrId lsas now
      | .linkStateAck headers => s.handleLsack idx nbrId headers

/-! ### Timers -/

/-- A neighbour is gone. -/
def removeNeighbor (idx : ℕ) (s : Ospf) (nbrId : Ipv4Addr) : Ospf :=
  (s.modifyIface idx fun i => { i with neighbors := i.neighbors.erase nbrId }).elect idx .neighborChange

/-- A neighbour that was helped has come back, or was given long enough. -/
def stopHelping (now : ℕ) : Ospf :=
  { s with helping := s.helping.filter fun rid h =>
      !((s.neighborCalled rid).any fun n => h.seenAtEntry < n.lastSeen) && decide (now < h.deadline) }

/-- The keys of the neighbours on an interface that were silent for too long and are not helped. -/
def deadNeighbors (i : Iface) (now : ℕ) : List Ipv4Addr :=
  (i.neighbors.toList.filter fun e =>
    s.cfg.deadInterval.toNat ≤ now - e.2.lastSeen ∧ ¬ e.2.routerId ∈ s.helping).map Prod.fst

/-- Remove the neighbours that `gone` names, interface by interface; whether there were any is the second part. -/
def removeNeighbors (gone : Ospf → Iface → List Ipv4Addr) : Ospf × Bool :=
  (List.range s.ifaces.length).foldl (fun r idx =>
    match r.1.iface? idx with
    | none => r
    | some i =>
      let dead := gone r.1 i
      (dead.foldl (removeNeighbor idx) r.1, r.2 || !dead.isEmpty)) (s, false)

def ageNeighbors (now : ℕ) : Ospf :=
  let r := (s.stopHelping now).removeNeighbors fun s i => s.deadNeighbors i now
  if r.2 then r.1.reoriginateAndFlood else r.1

/-- The neighbour with an address, unless it is helped. -/
def neighborAt (peer : Ipv4Addr) (i : Iface) : List Ipv4Addr :=
  ((i.neighbors.toList.find? fun e => e.2.addr = peer).filter fun e => ¬ e.2.routerId ∈ s.helping).toList.map Prod.fst

/-- BFD found that a neighbour cannot be reached. -/
def forceNeighborDown (peer : Ipv4Addr) : Ospf :=
  let r := s.removeNeighbors fun s i => s.neighborAt peer i
  if r.2 then r.1.reoriginateAndFlood else r.1

def fireWaitTimer (now : ℕ) (s : Ospf) (idx : ℕ) : Ospf :=
  match s.iface? idx with
  | none => s
  | some i =>
    if (∃ deadline ∈ i.waitDeadline, deadline ≤ now) ∧ i.fsm.state = .waiting then
      (s.modifyIface idx fun i => { i with waitDeadline := none }).elect idx .waitTimer
    else s

def fireWaitTimers (now : ℕ) : Ospf := (List.range s.ifaces.length).foldl (fireWaitTimer now) s

/-- The packets of every neighbour, by what there is to send to it. -/
def sendAll (bodies : Iface → OspfNeighbor → List Body) : Ospf :=
  { s with sent := s.sent ++ s.ifaces.flatMap fun i => i.values.flatMap fun n =>
      (bodies i n).map fun b => ⟨i.ifindex, n.addr, s.packet i.area b⟩ }

/-- What opens the exchange is sent again in ExStart. -/
def retransmitInitDds : Ospf :=
  s.sendAll fun i n =>
    if n.state = .exStart then
      [s.exchangeBody i.area (DbExchange.startDdExchange n.ddSeq n.toAdjacency).2]
    else []

/-- What was not acknowledged, and what was requested and did not come, is sent again. -/
def retransmitPending : Ospf :=
  s.sendAll fun i n =>
    (if n.isFull ∧ ¬ n.retransmitList.isEmpty then [.linkStateUpdate (n.retransmitList.toList.map Prod.snd)] else []) ++
      if n.state = .exchange ∨ n.state = .loading then
        (DbExchange.sendLsr n.toAdjacency).map (s.exchangeBody i.area)
      else []

def sendHellos : Ospf :=
  { s with sent := s.sent ++ (s.ifaces.filter fun i => !i.isPassive).map fun i =>
      ⟨i.ifindex, 0xe0000005, s.packet i.area (.hello
        { networkMask := lenToMask i.maskLen
          helloInterval := s.cfg.helloInterval
          options := s.cfg.areaOptions i.area
          routerPriority := i.fsm.priority
          deadInterval := s.cfg.deadInterval
          designatedRouter := s.routerIdToAddr i i.fsm.dr
          backupDesignatedRouter := s.routerIdToAddr i i.fsm.bdr
          neighbors := (i.values.filter fun n => NeighborState.init.rank ≤ n.state.rank).map OspfNeighbor.routerId })⟩ }

/-! ### Runs -/

/-- What the task may be woken by. -/
inductive Event where
  | packet (ifindex : UInt32) (src : Ipv4Addr) (p : Packet) (now : ℕ)
  | inactivity (now : ℕ)
  | wait (now : ℕ)
  | age (secs : UInt16)
  | hello
  | refresh
  | initRxmt
  | rxmt
  | redistribute (r : Redistribution)
  | bfdDown (peer : Ipv4Addr)

/-- A passive interface has no receiver. -/
def hears (ifindex : UInt32) : Bool := s.ifaces.any fun i => i.ifindex = ifindex ∧ ¬ i.isPassive

def step (s : Ospf) : Event → Ospf
  | .packet ifindex src p now => if s.hears ifindex then s.handlePacket ifindex src p now else s
  | .inactivity now => s.ageNeighbors now
  | .wait now => s.fireWaitTimers now
  | .age secs => s.ageLsdbs secs
  | .hello => s.sendHellos
  | .refresh => s.refresh
  | .initRxmt => s.retransmitInitDds
  | .rxmt => s.retransmitPending
  | .redistribute r => s.applyRedistribution r
  | .bfdDown peer => s.forceNeighborDown peer

/-- The interface of a link when the task starts. A passive one stays down. -/
def startIface (cfg : OspfConfig) (l : Link) : Iface where
  toLink := l
  fsm :=
    let fsm := Interface.new cfg.routerId cfg.priority cfg.ifaceType
    if l.isPassive then fsm else (fsm.handle .interfaceUp []).1
  neighbors := ∅
  waitDeadline := some cfg.deadInterval.toNat

/-- The task starts on its links, with the destinations that are redistributed from the start. -/
def start (cfg : OspfConfig) (links : List Link) (redistribute : BTreeMap Prefix UInt32) : Ospf :=
  Ospf.refresh
    { cfg
      ifaces := links.map (startIface cfg)
      areas := links.foldl (fun m l => m.insert l.area .new) ∅
      externalLsdb := .new
      externals := redistribute
      originatedExternals := []
      originatedTranslated := []
      lsaSeqs := ∅
      lsaInstalledAt := ∅
      nextDdSeq := 0x01000000
      helping := ∅
      sent := [] }

end Ospf
end Wren.Daemon
