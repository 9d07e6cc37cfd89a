import Wren.Daemon.Ospf.State

/-! What the OSPFv2 task originates, and how it floods. -/

namespace Wren.Ospf

def Lsa.withSeq (l : Lsa) (seq : Int32) : Lsa := { l with header := { l.header with lsSeq := seq } }

end Wren.Ospf

namespace Wren.Daemon
open Wren.Core Wren.Ospf OrdMap

namespace Ospf

abbrev Seqs := BTreeMap (Ipv4Addr × LsaKey) Int32

/-- The sequence number that comes next. -/
def nextSeq (seqs : Seqs) (scope : Ipv4Addr) (key : LsaKey) : Int32 := (seqs[(scope, key)]?).getD initialSequenceNumber

/-- A database and the sequence numbers while LSAs are originated, and the LSAs to flood. -/
structure Pass where
  lsdb : Lsdb
  seqs : Seqs
  toFlood : List Lsa

namespace Pass

/-- The next instance of an LSA is offered to the own database, and is to be flooded whatever comes of it. -/
def originate (scope : Ipv4Addr) (p : Pass) (lsa : Lsa) : Pass :=
  let seq := nextSeq p.seqs scope lsa.key
  let lsa := lsa.withSeq seq
  ⟨(p.lsdb.install lsa).1, p.seqs.insert (scope, lsa.key) (seq + 1), p.toFlood ++ [lsa]⟩

/-- What the database holds of an LSA is aged out. -/
def flush (scope : Ipv4Addr) (p : Pass) (key : LsaKey) : Pass :=
  match p.lsdb.get key with
  | none => p
  | some lsa => p.originate scope (lsa.withAge maxAge)

/-- What is wanted is originated, then the rest of what was originated before is flushed. -/
def run (scope : Ipv4Addr) (p : Pass) (lsas : List Lsa) (retired : List LsaKey) : Pass :=
  retired.foldl (flush scope) (lsas.foldl (originate scope) p)

end Pass

def keySet (lsas : List Lsa) : List LsaKey := (lsas.map Lsa.key).dedup

/-! ### Flooding -/

def OspfNeighbor.takes (n : OspfNeighbor) (except : Ipv4Addr) : Bool := n.isFull ∧ n.addr ≠ except

def Iface.retransmit (i : Iface) (lsa : Lsa) (except : Ipv4Addr) : Iface :=
  i.mapNeighbors fun n =>
    if n.takes except then { n with retransmitList := n.retransmitList.insert lsa.key lsa } else n

variable (s : Ospf)

/-- Send an LSA to the Full neighbours on some of the interfaces, and keep it until they acknowledge it. -/
def floodOn (on : Iface → Bool) (lsa : Lsa) (except : Ipv4Addr) : Ospf :=
  { s with
    ifaces := s.ifaces.map fun i => if on i then i.retransmit lsa except else i
    sent := s.sent ++ (s.ifaces.filter on).flatMap fun i =>
      (i.values.filter fun n => n.takes except).map fun n =>
        ⟨i.ifindex, n.addr, s.packet i.area (.linkStateUpdate [lsa])⟩ }

def floodLsaExcept (area : Ipv4Addr) (lsa : Lsa) (except : Ipv4Addr) : Ospf :=
  s.floodOn (fun i => i.area = area) lsa except

def floodLsa (area : Ipv4Addr) (lsa : Lsa) : Ospf := s.floodLsaExcept area lsa 0

def floodExternalExcept (lsa : Lsa) (except : Ipv4Addr) : Ospf :=
  s.floodOn (fun i => !s.cfg.noExternals i.area) lsa except

/-! ### Own LSAs -/

/-- Originate into an area and flood there; `note` writes down what is originated. -/
def areaPass (area : Ipv4Addr) (lsas : List Lsa) (retired : List LsaKey) (note : Area → Area) : Ospf :=
  let p := Pass.run area ⟨s.areaLsdb area, s.lsaSeqs, []⟩ lsas retired
  p.toFlood.foldl (fun s lsa => s.floodLsa area lsa)
    { s with lsaSeqs := p.seqs, areas := s.areas.modify area fun a => note { a with lsdb := p.lsdb } }

/-- Originate AS-external LSAs. -/
def externalPass (lsas : List Lsa) (retired : List LsaKey) (note : Ospf → Ospf) : Ospf :=
  let p := Pass.run asScope ⟨s.externalLsdb, s.lsaSeqs, []⟩ lsas retired
  p.toFlood.foldl (fun s lsa => s.floodExternalExcept lsa 0)
    (note { s with lsaSeqs := p.seqs, externalLsdb := p.lsdb })

/-- Length, checksum and sequence number come later. -/
def selfHeader (t : LsType) (linkStateId : Ipv4Addr) (options : UInt8) : LsaHeader where
  lsAge := 0
  options
  lsType := t
  linkStateId
  advertisingRouter := s.cfg.routerId
  lsSeq := 0
  lsChecksum := 0
  length := 0

def externalBody (mask : Ipv4Addr) (metric : UInt32) : LsaBody :=
  .asExternal
    { networkMask := mask
      externalType2 := true
      metric
      forwardingAddress := 0
      routeTag := 0 }

/-- The external destinations, where they are of IPv4. -/
def externalLsas (t : LsType) (options : UInt8) : List Lsa :=
  s.externals.toList.filterMap fun e =>
    match e.1.addr with
    | .v4 net => some ⟨s.selfHeader t net options, externalBody (lenToMask e.1.len) e.2⟩
    | .v6 _ => none

def nssaAreas : List Ipv4Addr := s.areas.keys.filter s.cfg.isNssa

def originateNssaInto (area : Ipv4Addr) : Ospf :=
  let lsas := s.externalLsas .nssa optNp
  let prev := ((s.areas[area]?).map Area.originatedNssa).getD []
  s.areaPass area lsas (prev.filter (· ∉ keySet lsas)) fun a => { a with originatedNssa := keySet lsas }

/-- The external destinations once more, for the areas that do not see AS-external LSAs. -/
def originateNssa : Ospf := s.nssaAreas.foldl originateNssaInto s

/-- The address of the Designated Router, if there is an adjacency with it. -/
def transitDrAddr (i : Iface) : Option Ipv4Addr :=
  let dr := i.fsm.dr
  if dr = 0 then none
  else if if dr = s.cfg.routerId then i.values.any OspfNeighbor.isFull
      else i.values.any fun n => n.routerId = dr ∧ n.isFull then
    some (s.routerIdToAddr i dr)
  else none

def stubLink (i : Iface) : RouterLink := ⟨i.network, lenToMask i.maskLen, .stub, s.cfg.cost⟩

/-- The links of an interface. -/
def routerLinks (i : Iface) : List RouterLink :=
  if i.isPassive then [s.stubLink i]
  else if s.cfg.ifaceType = .pointToPoint then
    (i.values.filter OspfNeighbor.isFull).map (fun n => ⟨n.routerId, i.addr, .pointToPoint, s.cfg.cost⟩) ++
      [s.stubLink i]
  else if s.cfg.ifaceType.electsDr then
    match s.transitDrAddr i with
    | some drAddr => [⟨drAddr, i.addr, .transit, s.cfg.cost⟩]
    | none => [s.stubLink i]
  else [s.stubLink i]

def buildRouterLsa (area : Ipv4Addr) : Lsa where
  header := s.selfHeader .router s.cfg.routerId (s.cfg.areaOptions area)
  body := .router
    { flags := (if s.isAbr then rtrFlagB else 0) ||| (if s.isAsbr then rtrFlagE else 0)
      links := (s.ifaces.filter fun i => i.area = area).flatMap s.routerLinks }

/-- The Network-LSA of an interface, where this router is the Designated Router and has adjacencies. -/
def buildNetworkLsa (i : Iface) : Option Lsa :=
  if !i.fsm.ifaceType.electsDr || i.fsm.dr ≠ s.cfg.routerId then none
  else
    let attached := s.cfg.routerId :: (i.values.filter OspfNeighbor.isFull).map OspfNeighbor.routerId
    if attached.length < 2 then none
    else some
      { header := s.selfHeader .network i.addr (s.cfg.areaOptions i.area)
        body := .network ⟨lenToMask i.maskLen, attached⟩ }

def networkLsas (area : Ipv4Addr) : List Lsa := (s.ifaces.filter fun i => i.area = area).filterMap s.buildNetworkLsa

/-- The Router-LSA and the Network-LSAs for an area. -/
def reoriginateInto (area : Ipv4Addr) : Ospf :=
  let networks := s.networkLsas area
  let prev := ((s.areas[area]?).map Area.originatedNetworks).getD []
  s.areaPass area (s.buildRouterLsa area :: networks) (prev.filter (· ∉ keySet networks))
    fun a => { a with originatedNetworks := keySet networks }

def buildSummaryLsa (pfx : Prefix) (cost : UInt32) (area : Ipv4Addr) : Lsa where
  header := s.selfHeader .summaryNetwork
    (match pfx.addr with
      | .v4 net => net
      | .v6 _ => 0)
    (s.cfg.areaOptions area)
  body := .summary ⟨lenToMask pfx.len, cost⟩

def defaultPrefix : Prefix := ⟨.v4 0, 0, Prefix.anyV4_len_le, Prefix.anyV4_masked⟩

/-- The lowest cost of each destination. -/
def lowestCosts (routes : List SpfRoute) : BTreeMap Prefix UInt32 :=
  routes.foldl (fun m r => m.insert r.pfx (min ((m[r.pfx]?).getD r.cost) r.cost)) ∅

/-- What an area is to know of the other ones: the backbone of all, and all of the backbone. -/
def wantSummaries (dest : Ipv4Addr) : BTreeMap Prefix UInt32 :=
  let sources := s.areas.keys.filter fun a => if dest = backbone then a ≠ backbone else a = backbone
  let routes := sources.flatMap fun a => (compute (s.areaLsdb a) s.cfg.routerId).routes
  let want := if s.cfg.noSummary dest then ∅ else lowestCosts routes
  if s.cfg.isStub dest then want.insert defaultPrefix s.cfg.stubDefaultCost else want

def summaryLsas (want : BTreeMap Prefix UInt32) (area : Ipv4Addr) : List Lsa :=
  want.toList.map fun e => s.buildSummaryLsa e.1 e.2 area

def originateSummariesInto (want : Ipv4Addr → BTreeMap Prefix UInt32) (s : Ospf) (dest : Ipv4Addr) : Ospf :=
  let lsas := s.summaryLsas (want dest) dest
  let prev := ((s.areas[dest]?).map Area.originatedSummaries).getD []
  s.areaPass dest lsas (prev.filter (· ∉ keySet lsas)) fun a => { a with originatedSummaries := keySet lsas }

/-- The default route for an NSSA, which is not to be translated. -/
def nssaDefaultLsa : Lsa := ⟨s.selfHeader .nssa 0 0, externalBody (lenToMask 0) s.cfg.stubDefaultCost⟩

def originateNssaDefault : Ospf :=
  (s.areas.keys.filter s.cfg.wantsNssaDefault).foldl (fun s area => s.areaPass area [s.nssaDefaultLsa] [] id) s

/-- The type-7 LSAs of other routers in an area. -/
def sevens (area : Ipv4Addr) : List Lsa :=
  ((s.areaLsdb area).iterType .nssa).filter fun l =>
    l.header.advertisingRouter ≠ s.cfg.routerId ∧ l.header.lsAge < maxAge

def translate (seven : Lsa) : Option Lsa :=
  match seven.body with
  | .asExternal e => some ⟨s.selfHeader .asExternal seven.header.linkStateId optE, .asExternal e⟩
  | _ => none

def translatedLsas : List Lsa := (s.nssaAreas.flatMap s.sevens).filterMap s.translate

def translateNssa : Ospf :=
  let lsas := s.translatedLsas
  s.externalPass lsas (s.originatedTranslated.filter (· ∉ keySet lsas))
    fun s => { s with originatedTranslated := keySet lsas }

/-- What an area border router says of its areas. The routes are those from before anything is said. -/
def originateSummaries : Ospf :=
  if s.isAbr then
    (s.areas.keys.foldl (originateSummariesInto s.wantSummaries) s).originateNssaDefault.translateNssa
  else s

def reoriginateAndFlood : Ospf := (s.areas.keys.foldl reoriginateInto s).originateSummaries

def originateExternals : Ospf :=
  let wasAsbr := s.isAsbr
  let lsas := s.externalLsas .asExternal optE
  let s := (s.externalPass lsas (s.originatedExternals.filter (· ∉ keySet lsas))
    fun s => { s with originatedExternals := keySet lsas }).originateNssa
  if s.isAsbr = wasAsbr then s else s.reoriginateAndFlood

/-- A neighbour is Full. What was retired while it was not is flooded once more. -/
def onAdjacencyFull : Ospf :=
  let s := s.originateExternals
  let retired := s.externalLsdb.iter.filter fun l =>
    l.header.advertisingRouter = s.cfg.routerId ∧ maxAge ≤ l.header.lsAge
  (retired.foldl (fun s lsa => s.floodExternalExcept lsa 0) s).reoriginateAndFlood

/-- A change of what is redistributed. Routes that are not of IPv4, or bring nothing new, are passed over. -/
def applyRedistribution (r : Redistribution) : Ospf :=
  let wasAsbr := s.isAsbr
  let changed : Option (BTreeMap Prefix UInt32) :=
    match r with
    | .announce route =>
      if !route.pfx.isIpv4 then none
      else if s.externals[route.pfx]? = some s.cfg.redistributeMetric then none
      else some (s.externals.insert route.pfx s.cfg.redistributeMetric)
    | .withdraw pfx => if s.externals[pfx]?.isNone then none else some (s.externals.erase pfx)
  match changed with
  | none => s
  | some externals =>
    let s := { s with externals }
    (if s.isAsbr = wasAsbr then s else s.reoriginateAndFlood).originateExternals

/-- Every LSA gets older, and those that reach MaxAge by it are dropped. -/
def ageLsdbs (secs : UInt16) : Ospf :=
  let reap (db : Lsdb) : Lsdb := (db.age secs).2.foldl Lsdb.remove (db.age secs).1
  { s with areas := s.areas.map fun _ a => { a with lsdb := reap a.lsdb }, externalLsdb := reap s.externalLsdb }

/-- The periodic refresh. -/
def refresh : Ospf := s.originateExternals.reoriginateAndFlood

end Ospf
end Wren.Daemon
