import Wren.Daemon.Isis.State
import Wren.Lib.Chunks

/-! What the IS-IS task originates: its own LSP, the pseudonode LSPs of the LANs where it is the DIS, and purges. Then how it
takes the PDUs that come in, and the Hellos and sequence-number PDUs that it sends. -/

namespace Wren.Daemon
open Wren.Core Wren.Isis OrdMap

namespace Isis

def asV4 : IpAddr → Ipv4Addr
  | .v4 a => a
  | .v6 _ => 0

def asV6 : IpAddr → Ipv6Addr
  | .v6 a => a
  | .v4 _ => 0

def v4Entry (metric : UInt32) (upDown : Bool) (p : Prefix) : ExtIpReach := ⟨metric, upDown, p.len, asV4 p.addr, none⟩

def v6Entry (metric : UInt32) (upDown external : Bool) (p : Prefix) : Ipv6Reach :=
  ⟨metric, upDown, external, p.len, asV6 p.addr, none⟩

/-- A TLV that is left out where it would be empty. -/
def tlvOf {α : Type} (mk : List α → Tlv) (l : List α) : List Tlv := if l.isEmpty then [] else [mk l]

variable (s : Isis)

/-- Links to the pseudonode of a LAN, and to the neighbours on a point-to-point link. -/
def linkReach (level : IsLevel) : List ExtIsReach :=
  s.ifaces.flatMap fun f =>
    match f.ifaceType with
    | .broadcast => ((f.dis.get level).map fun d => ⟨⟨d.1, d.2⟩, s.cfg.metric, []⟩).toList
    | .pointToPoint => (f.upNeighbors level).map fun e => ⟨⟨e.1, 0⟩, s.cfg.metric, []⟩

def leaked (level : IsLevel) : BTreeMap Prefix UInt32 := if level = .l2 then s.leakedIntoL2 else s.leakedIntoL1

/-- Connected networks, redistributed ones and those leaked from the other level. What goes down into Level 1 has the
up/down bit set. -/
def v4Reaches (level : IsLevel) : List ExtIpReach :=
  (s.native.v4Reach.map fun p => v4Entry s.cfg.metric false p) ++
    (s.native.extV4.toList.map fun e => v4Entry e.2 false e.1) ++
    ((s.leaked level).toList.filter fun e => e.1.addr.isIpv4).map fun e => v4Entry e.2 (level = .l1) e.1

def v6Reaches (level : IsLevel) : List Ipv6Reach :=
  (s.native.v6Reach.map fun p => v6Entry s.cfg.metric false false p) ++
    (s.native.extV6.toList.map fun e => v6Entry e.2 false true e.1) ++
    ((s.leaked level).toList.filter fun e => !e.1.addr.isIpv4).map fun e => v6Entry e.2 (level = .l1) false e.1

def ownTlvs (level : IsLevel) : List Tlv :=
  [.areaAddresses [s.cfg.area], .protocolsSupported [nlpidIpv4, nlpidIpv6]] ++
    tlvOf .ipv4InterfaceAddresses (s.ifaces.flatMap (·.v4)) ++ tlvOf .ipv6InterfaceAddresses (s.ifaces.flatMap (·.v6)) ++
    tlvOf .extendedIsReachability (s.linkReach level) ++ tlvOf .extendedIpReachability (s.v4Reaches level) ++
    tlvOf .ipv6Reachability (s.v6Reaches level)

def ownId : LspId := ⟨s.cfg.systemId, 0, 0⟩

def buildOurLsp (level : IsLevel) (seq : UInt32) : Lsp where
  level := level
  remainingLifetime := lspLifetime
  lspId := s.ownId
  sequenceNumber := seq
  checksum := 0
  partition := false
  attached := if level = .l1 ∧ s.cfg.level.hasL2 ∧ s.haveL2Adjacency then 1 else 0
  overload := false
  isType := s.cfg.level
  tlvs := s.pushAuth (s.ownTlvs level)

def pnId (f : Iface) : LspId := ⟨s.cfg.systemId, f.localCircuitId, 0⟩

def pseudonodeReach (f : Iface) (level : IsLevel) : List ExtIsReach :=
  ⟨⟨s.cfg.systemId, 0⟩, 0, []⟩ :: (f.upNeighbors level).map fun e => ⟨⟨e.1, 0⟩, 0, []⟩

def buildPseudonodeLsp (f : Iface) (level : IsLevel) (seq : UInt32) : Lsp where
  level := level
  remainingLifetime := lspLifetime
  lspId := s.pnId f
  sequenceNumber := seq
  checksum := 0
  partition := false
  attached := 0
  overload := false
  isType := s.cfg.level
  tlvs := s.pushAuth [.extendedIsReachability (s.pseudonodeReach f level)]

/-- The LSP that an encoded PDU is read as. -/
def lspOf (bytes : List UInt8) : Option Lsp :=
  match Pdu.decode bytes with
  | .ok ⟨_, .lsp l⟩ => some l
  | _ => none

def flood (level : IsLevel) (bytes : List UInt8) (except : Option ℕ) : Isis := s.push [.flood level bytes except]

def sendOn (idx : ℕ) (level : IsLevel) (bytes : List UInt8) : Isis := s.push [.on idx (levelMac level) bytes]

/-- Offer an LSP to the database of a level. -/
def install (level : IsLevel) (lsp : Lsp) : Isis :=
  { s with dbs := s.dbs.set level ((s.dbs.get level).install lsp).1 }

/-- The stored copy is read back from the octets that are flooded. -/
def storeAndFlood (level : IsLevel) (lsp : Lsp) : Isis :=
  let bytes := s.encodePdu (.lsp lsp)
  let s :=
    match lspOf bytes with
    | some stored => s.install level stored
    | none => s
  s.flood level bytes none

def flushLsp (level : IsLevel) (id : LspId) : Isis :=
  match (s.dbs.get level).get id with
  | none => s
  | some lsp =>
    let s := { s with dbs := s.dbs.set level ((s.dbs.get level).remove id) }
    s.flood level
      (s.encodePdu (.lsp { lsp with remainingLifetime := 0, sequenceNumber := lsp.sequenceNumber + 1 })) none

def reoriginate (level : IsLevel) : Isis :=
  let seq := s.ownSeq.get level + 1
  let s := { s with ownSeq := s.ownSeq.set level seq }
  s.storeAndFlood level (s.buildOurLsp level seq)

/-- The DIS originates the pseudonode LSP of a LAN. A router that is not the DIS flushes the one it may have. -/
def reoriginatePseudonode (idx : ℕ) (level : IsLevel) : Isis :=
  match s.ifaces[idx]? with
  | none => s
  | some f =>
    if f.isDis.get level then
      let seq := f.pnSeq.get level + 1
      let lsp := s.buildPseudonodeLsp f level seq
      let s := s.modifyIface idx fun f => { f with pnSeq := f.pnSeq.set level seq }
      s.storeAndFlood level lsp
    else if (s.dbs.get level).contains (s.pnId f) then s.flushLsp level (s.pnId f)
    else s

/-- Those who take part in the election, this router first. -/
def disCandidates (f : Iface) (level : IsLevel) : List DisCandidate :=
  ⟨s.cfg.systemId, f.snpa, s.cfg.priority⟩ :: (f.upNeighbors level).map fun e => ⟨e.1, e.2.snpa, e.2.priority⟩

/-- A router without neighbours elects nobody. -/
def disWinner (f : Iface) (level : IsLevel) : Option DisCandidate :=
  if (f.upNeighbors level).isEmpty then none else electDis (s.disCandidates f level)

/-- The pseudonode of a LAN: that of this router, or what the winner says it is. -/
def electedLanId (f : Iface) (level : IsLevel) : Option (SystemId × UInt8) :=
  match s.disWinner f level with
  | none => none
  | some w =>
    if w.systemId = s.cfg.systemId then some (s.cfg.systemId, f.localCircuitId)
    else ((f.neighbors[w.systemId]?).bind fun n => n.lanId.get level).or (some (w.systemId, 0))

def runDis (idx : ℕ) (level : IsLevel) : Isis :=
  match s.ifaces[idx]? with
  | none => s
  | some f =>
    if f.ifaceType ≠ .broadcast then s
    else
      let isDis := (s.disWinner f level).any fun w => w.systemId = s.cfg.systemId
      let lanId := s.electedLanId f level
      let changed := f.dis.get level ≠ lanId ∨ f.isDis.get level ≠ isDis
      let s := s.modifyIface idx fun f => { f with dis := f.dis.set level lanId, isDis := f.isDis.set level isDis }
      if changed ∨ isDis then s.reoriginatePseudonode idx level else s

/-! ### What origination leaves alone -/

/-- The database of a level after an encoded LSP was offered to it. -/
def stored (level : IsLevel) (bytes : List UInt8) : Lsdb :=
  (lspOf bytes).elim (s.dbs.get level) fun l => ((s.dbs.get level).install l).1

theorem storeAndFlood_eq (level : IsLevel) (lsp : Lsp) :
    s.storeAndFlood level lsp =
      { s with
        dbs := s.dbs.set level (s.stored level (s.encodePdu (.lsp lsp)))
        sent := s.sent ++ [.flood level (s.encodePdu (.lsp lsp)) none] } := by
  rw [storeAndFlood, stored]
  cases lspOf (s.encodePdu (.lsp lsp)) with
  | none =>
    simp only [Option.elim_none, PerLevel.set_get]
    rfl
  | some l => rfl

/-- The octets of the own LSP at its next sequence number. -/
def nextOwn (level : IsLevel) : List UInt8 := s.encodePdu (.lsp (s.buildOurLsp level (s.ownSeq.get level + 1)))

theorem reoriginate_eq (level : IsLevel) :
    s.reoriginate level =
      { s with
        ownSeq := s.ownSeq.set level (s.ownSeq.get level + 1)
        dbs := s.dbs.set level (s.stored level (s.nextOwn level))
        sent := s.sent ++ [.flood level (s.nextOwn level) none] } := by
  rw [reoriginate, storeAndFlood_eq]
  rfl

/-! ### PDUs -/

/-- The neighbour as a LAN Hello leaves it. -/
def Nbr.hearLan (n : Nbr) (h : LanHello) (src : Snpa) (now : ℕ) (bfdAddr : Option (IpAddr × UInt32))
    (event : AdjEvent) : Nbr :=
  let adj := (n.adj.get h.level).getD (Adjacency.new h.sourceId h.level)
  { n with
    snpa := src, priority := h.priority, lastSeen := now, holding := h.holdingTime, bfdAddr := bfdAddr.or n.bfdAddr
    lanId := n.lanId.set h.level (some h.lanId), adj := n.adj.set h.level (some (adj.handle event).1) }

/-- The neighbour as a point-to-point Hello leaves it at one level. -/
def Nbr.hearP2p (n : Nbr) (h : P2pHello) (src : Snpa) (now : ℕ) (bfdAddr : Option (IpAddr × UInt32))
    (threeWay : Option (UInt32 × Option (SystemId × UInt32))) (event : AdjEvent) (level : IsLevel) : Nbr :=
  let adj := (n.adj.get level).getD (Adjacency.new h.sourceId level)
  { n with
    snpa := src, lastSeen := now, holding := h.holdingTime, bfdAddr := bfdAddr.or n.bfdAddr
    p2pNeighborExtId := (threeWay.map Prod.fst).or n.p2pNeighborExtId
    adj := n.adj.set level (some (adj.handle event).1) }

/-- A new neighbour is turned away once the table is full. -/
def Iface.refuses (f : Iface) (id : SystemId) : Prop := id ∉ f.neighbors ∧ maxNeighborsPerIface ≤ f.neighbors.size

instance (f : Iface) (id : SystemId) : Decidable (f.refuses id) := inferInstanceAs (Decidable (_ ∧ _))

variable (s : Isis)

/-- Level 1 adjacencies stay within an area. -/
def areaMatches (level : IsLevel) (tlvs : List Tlv) : Prop := level = .l1 → s.cfg.area ∈ areaAddresses tlvs

instance (level : IsLevel) (tlvs : List Tlv) : Decidable (s.areaMatches level tlvs) :=
  inferInstanceAs (Decidable (_ → _))

def setNeighbor (idx : ℕ) (id : SystemId) (n : Nbr) : Isis :=
  s.modifyIface idx fun f => { f with neighbors := f.neighbors.insert id n }

def processLanHello (idx : ℕ) (h : LanHello) (src : Snpa) (now : ℕ) : Isis :=
  match s.ifaces[idx]? with
  | none => s
  | some f =>
    if s.cfg.levelActive h.level = false ∨ ¬ s.areaMatches h.level h.tlvs ∨ f.refuses h.sourceId then s
    else
      let event : AdjEvent := if f.snpa ∈ lanNeighbors h.tlvs then .helloTwoWay else .helloOneWay
      let old := f.neighbors[h.sourceId]?.getD (Nbr.new src h.holdingTime)
      let new := old.hearLan h src now (neighborBfdAddr h.tlvs f.ifindex) event
      let upChanged := old.up h.level ≠ new.up h.level
      -- the priority counts in the election, but only that of a neighbour that is up
      let disInputChanged := new.up h.level = true ∧ old.priority ≠ h.priority
      let s := s.setNeighbor idx h.sourceId new
      let s := if upChanged ∨ disInputChanged then s.runDis idx h.level else s
      if upChanged then s.reoriginate h.level else s

/-- Two-way if the neighbour names this router and its circuit, or is of the old kind that names nobody. -/
def p2pEvent (f : Iface) : Option (UInt32 × Option (SystemId × UInt32)) → AdjEvent
  | some (_, some (id, circuit)) =>
    if id = s.cfg.systemId ∧ circuit = f.localCircuitId.toUInt32 then .helloTwoWay else .helloOneWay
  | some (_, none) => .helloOneWay
  | none => .helloTwoWay

def processP2pHello (idx : ℕ) (h : P2pHello) (src : Snpa) (now : ℕ) : Isis :=
  match s.ifaces[idx]? with
  | none => s
  | some f =>
    let threeWay := p2pThreeWay h.tlvs
    let bfdAddr := neighborBfdAddr h.tlvs f.ifindex
    let levels := s.activeLevels.filter fun level =>
      h.circuitType.levelActive level = true ∧ s.areaMatches level h.tlvs
    -- a full table turns the neighbour away at the first level, or at none
    if levels = [] ∨ f.refuses h.sourceId then s
    else
      let old := f.neighbors[h.sourceId]?.getD (Nbr.new src h.holdingTime)
      let new := levels.foldl (fun n => n.hearP2p h src now bfdAddr threeWay (s.p2pEvent f threeWay)) old
      (levels.filter fun level => old.up level ≠ new.up level).foldl reoriginate (s.setNeighbor idx h.sourceId new)

/-- A more recent copy of the own LSP is not stored but outdone. -/
def processLsp (idx : ℕ) (lsp : Lsp) (raw : List UInt8) : Isis :=
  if s.cfg.levelActive lsp.level = false then s
  else if lsp.lspId = s.ownId ∧ s.ownSeq.get lsp.level < lsp.sequenceNumber then
    { s with ownSeq := s.ownSeq.set lsp.level lsp.sequenceNumber }.reoriginate lsp.level
  else if ((s.dbs.get lsp.level).install lsp).2.changed then (s.install lsp.level lsp).flood lsp.level raw (some idx)
  else s

/-- Send the held copies of some LSPs. -/
def sendLsps (idx : ℕ) (level : IsLevel) (ids : List LspId) : Isis :=
  s.push ((ids.filterMap (s.dbs.get level).get).map fun l => .on idx (levelMac level) (s.encodePdu (.lsp l)))

/-- A request for LSPs. -/
def psnp (level : IsLevel) (ids : List LspId) : Psnp where
  level := level
  sourceId := (s.cfg.systemId, 0)
  tlvs := s.pushAuth [.lspEntries (ids.map fun i => ⟨0, i, 0, 0⟩)]

def buildPsnp (level : IsLevel) (ids : List LspId) : List UInt8 := s.encodePdu (.psnp (s.psnp level ids))

/-- There is no next state where the range lookup of the database panics. -/
def processCsnp (idx : ℕ) (csnp : Csnp) : Option Isis :=
  if s.cfg.levelActive csnp.level = false then some s
  else
    ((s.dbs.get csnp.level).evaluateCsnp (lspEntries csnp.tlvs) csnp.startLspId csnp.endLspId).map fun sync =>
      let s := s.sendLsps idx csnp.level sync.send
      if sync.request.isEmpty then s else s.sendOn idx csnp.level (s.buildPsnp csnp.level sync.request)

def processPsnp (idx : ℕ) (psnp : Psnp) : Isis :=
  if s.cfg.levelActive psnp.level = false then s
  else s.sendLsps idx psnp.level ((lspEntries psnp.tlvs).map (·.lspId))

/-- Frames of this router come back to it and are ignored. What is not authentic is not even decoded. -/
def handleFrame (frame : RxFrame) (now : ℕ) : Option Isis :=
  match s.ifaces[frame.idx]?, stripLlc frame.data with
  | some f, some bytes =>
    if frame.src = f.snpa ∨ verifyPduAuth s.cfg.auth bytes = false then some s
    else
      match Pdu.decode bytes with
      | .error _ => some s
      | .ok ⟨_, .lanHello h⟩ => some (s.processLanHello frame.idx h frame.src now)
      | .ok ⟨_, .p2pHello h⟩ => some (s.processP2pHello frame.idx h frame.src now)
      | .ok ⟨_, .lsp l⟩ => some (s.processLsp frame.idx l bytes)
      | .ok ⟨_, .csnp c⟩ => s.processCsnp frame.idx c
      | .ok ⟨_, .psnp p⟩ => some (s.processPsnp frame.idx p)
  | _, _ => some s

/-! ### Hellos -/

/-- A holding time that does not fit its field is cut to the largest that does. -/
def holdingTime : UInt16 := UInt16.ofNat (min (s.cfg.helloInterval * s.cfg.holdingMultiplier.toNat) 65535)

def helloTlvs (f : Iface) : List Tlv :=
  s.pushAuth ([.areaAddresses [s.cfg.area], .protocolsSupported [nlpidIpv4, nlpidIpv6]] ++
    tlvOf .ipv4InterfaceAddresses f.v4 ++ tlvOf .ipv6InterfaceAddresses f.v6)

/-- It lists every neighbour that was heard at the level. -/
def lanHello (f : Iface) (level : IsLevel) : LanHello where
  level := level
  circuitType := s.cfg.level
  sourceId := s.cfg.systemId
  holdingTime := s.holdingTime
  priority := s.cfg.priority
  lanId := (f.dis.get level).getD (0, 0)
  tlvs := s.helloTlvs f ++
    tlvOf .lanNeighbors ((f.neighbors.toList.filter fun e => (e.2.adj.get level).isSome).map fun e => e.2.snpa)

/-- It tells the state of the circuit, and names the neighbour once that was heard. -/
def p2pHello (f : Iface) : P2pHello :=
  let nbr := f.neighbors.toList.head?
  let adjState : UInt8 :=
    match nbr with
    | some (_, n) => if n.up .l1 || n.up .l2 then 0 else 1
    | none => 2
  let neighbor := nbr.bind fun e => e.2.p2pNeighborExtId.map fun ext => (e.1, ext)
  { circuitType := s.cfg.level, sourceId := s.cfg.systemId, holdingTime := s.holdingTime
    localCircuitId := f.localCircuitId
    tlvs := s.helloTlvs f ++ [.p2pThreeWay adjState f.localCircuitId.toUInt32 neighbor] }

def hellosOn (idx : ℕ) (f : Iface) : List Sent :=
  match f.ifaceType with
  | .broadcast => s.activeLevels.map fun level =>
      .on idx (levelMac level) (s.encodePdu (.lanHello (s.lanHello f level)))
  | .pointToPoint => [.on idx allL1Iss (s.encodePdu (.p2pHello (s.p2pHello f)))]

def sendHellos : Isis := s.push (s.ifaces.zipIdx.flatMap fun e => s.hellosOn e.2 e.1)

/-! ### Sequence-number PDUs -/

end Isis

/-- Each fragment starts at the last ID of the one before it, and the last fragment ends at the highest ID. -/
def fragmentsFrom (start : LspId) : List (List LspEntry) → List (LspId × LspId × List LspEntry)
  | [] => []
  | [chunk] => [(start, .greatest, chunk)]
  | chunk :: rest =>
    let stop := (chunk.getLast?.map (·.lspId)).getD start
    (start, stop, chunk) :: fragmentsFrom stop rest

/-- A summary in pieces that fit a CSNP, each with the range that it is complete for. -/
def csnpFragments (entries : List LspEntry) (maxPer : ℕ) : List (LspId × LspId × List LspEntry) :=
  if entries.isEmpty then [(.lowest, .greatest, [])]
  else fragmentsFrom .lowest (Chunks.chunks (max maxPer 1) entries)

namespace Isis
variable (s : Isis)

def csnp (f : Iface) (level : IsLevel) (fragment : LspId × LspId × List LspEntry) : Csnp where
  level := level
  sourceId := (s.cfg.systemId, f.localCircuitId)
  startLspId := fragment.1
  endLspId := fragment.2.1
  tlvs := s.pushAuth [.lspEntries fragment.2.2]

/-- On a LAN only the DIS describes its database. -/
def csnpsOn (idx : ℕ) (f : Iface) (level : IsLevel) : List Sent :=
  if f.ifaceType = .broadcast ∧ f.isDis.get level = false then []
  else (csnpFragments (s.dbs.get level).summary maxCsnpLspEntries).map fun fragment =>
    .on idx (levelMac level) (s.encodePdu (.csnp (s.csnp f level fragment)))

def sendCsnps : Isis :=
  s.push (s.ifaces.zipIdx.flatMap fun e => s.activeLevels.flatMap fun level => s.csnpsOn e.2 e.1 level)

end Isis
end Wren.Daemon
