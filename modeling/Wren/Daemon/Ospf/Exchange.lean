import Wren.Ospf.Neighbor

/-! The Database Exchange with a neighbour. The OSPFv2 and the OSPFv3 task carry it out in the same way; they differ in
what an LSA header looks like and in the databases behind it. -/

namespace Wren.Daemon.DbExchange
open Wren.Ospf

/-- The largest packet that a neighbour may announce. -/
def ifaceMtu : UInt16 := 1500

def ddFlagMaster : UInt8 := 1

def ddFlagMore : UInt8 := 2

def ddFlagInit : UInt8 := 4

/-- A Database Description, without the options, which are not looked at. -/
structure Description (H : Type) where
  interfaceMtu : UInt16
  flags : UInt8
  ddSequence : UInt32
  lsaHeaders : List H
deriving DecidableEq

namespace Description
variable {H : Type} (d : Description H)

def init : Bool := d.flags &&& ddFlagInit ≠ 0

def more : Bool := d.flags &&& ddFlagMore ≠ 0

def master : Bool := d.flags &&& ddFlagMaster ≠ 0

/-- The empty one that opens an exchange. -/
def isInit : Bool := d.init && d.more && d.master && d.lsaHeaders.isEmpty

end Description

/-- What goes to the neighbour in an exchange: Database Descriptions, and requests for LSAs. -/
inductive Message (H K : Type) where
  | dd (d : Description H)
  | lsr (keys : List K)
deriving DecidableEq

/-- The part of a neighbour that the exchange works on. -/
structure Adjacency (K : Type) where
  state : NeighborState
  ddSeq : UInt32
  master : Bool
  summarySent : Bool
  requestList : List K
deriving DecidableEq

/-- What the exchange has to know of the databases: the headers to describe, and which of the neighbour's are needed. -/
structure Databases (H K : Type) where
  headers : List H
  key : H → K
  needLsa : H → Bool

/-- The neighbour after a packet, what was sent to it, and what is left to do. -/
structure Outcome (H K : Type) where
  nbr : Adjacency K
  sent : List (Message H K)
  acts : List NeighborAction

section Exchange
variable {H K : Type} [DecidableEq K] (db : Databases H K)

/-- ExStart is entered: pick a sequence number and claim to be the master until it is negotiated. -/
def startDdExchange (seq : UInt32) (n : Adjacency K) : Adjacency K × Message H K :=
  ({ n with ddSeq := seq, master := true, summarySent := false, requestList := [] },
    .dd ⟨ifaceMtu, ddFlagInit ||| ddFlagMore ||| ddFlagMaster, seq, []⟩)

/-- The summary of the databases the first time, and nothing after it. -/
def sendExchangeDd (n : Adjacency K) : Adjacency K × Message H K :=
  ({ n with summarySent := true },
    .dd ⟨ifaceMtu, if n.master then ddFlagMaster else 0, n.ddSeq, if n.summarySent then [] else db.headers⟩)

/-- Note what is needed of the LSAs that the neighbour describes. -/
def processDdHeaders (headers : List H) (n : Adjacency K) : Adjacency K :=
  { n with
    requestList := ((headers.filter db.needLsa).map db.key).foldl (fun l k => if k ∈ l then l else l ++ [k])
      n.requestList }

def sendLsr (n : Adjacency K) : List (Message H K) := if n.requestList.isEmpty then [] else [.lsr n.requestList]

/-- Finish the negotiation, and send the first Database Description of the exchange. -/
def negotiationDone (master : Bool) (seq : UInt32) (n : Adjacency K) : Outcome H K :=
  let r := sendExchangeDd db { n with master, ddSeq := seq, state := (n.state.handle .negotiationDone {}).1 }
  ⟨r.1, [r.2], []⟩

/-- The exchange is over: Full if nothing is requested, or else the requests go out. -/
def exchangeDone (n : Adjacency K) : Outcome H K :=
  let r := n.state.handle .exchangeDone ⟨true, n.requestList.isEmpty⟩
  let n := { n with state := r.1 }
  ⟨n, if n.state = .loading then sendLsr n else [], r.2⟩

/-- After ExStart, the neighbour has started again or takes itself for the other role. -/
def ddSeqnumMismatch (recvInit recvMaster weAreMaster : Bool) : Bool := recvInit || recvMaster == weAreMaster

/-- A Database Description after ExStart drives the lockstep. -/
def exchangeDd (n : Adjacency K) (dd : Description H) : Outcome H K :=
  if ddSeqnumMismatch dd.init dd.master n.master then
    let r := n.state.handle .seqNumberMismatch {}
    ⟨{ n with state := r.1 }, [], r.2⟩
  else if n.master then
    if dd.ddSequence ≠ n.ddSeq then ⟨n, [], []⟩
    else
      let heard := processDdHeaders db dd.lsaHeaders n
      if n.summarySent && !dd.more then exchangeDone heard
      else
        let r := sendExchangeDd db { heard with ddSeq := n.ddSeq + 1 }
        ⟨r.1, [r.2], []⟩
  else if dd.ddSequence = n.ddSeq then
    let r := sendExchangeDd db n
    ⟨r.1, [r.2], []⟩
  else
    let heard := processDdHeaders db dd.lsaHeaders { n with ddSeq := dd.ddSequence }
    let r := sendExchangeDd db heard
    if dd.more then ⟨r.1, [r.2], []⟩
    else
      let o := exchangeDone r.1
      ⟨o.nbr, r.2 :: o.sent, o.acts⟩

/-- `nbrId` is what the neighbour goes by in the table of the interface. -/
def handleDd (selfId nbrId : Ipv4Addr) (n : Adjacency K) (dd : Description H) : Outcome H K :=
  if dd.interfaceMtu ≠ 0 ∧ ifaceMtu < dd.interfaceMtu then ⟨n, [], []⟩
  else
    match n.state with
    | .exStart =>
      if dd.isInit ∧ selfId < nbrId then negotiationDone db false dd.ddSequence n
      else if dd.init = false ∧ dd.master = false ∧ nbrId < selfId ∧ dd.ddSequence = n.ddSeq then
        negotiationDone db true (n.ddSeq + 1) (processDdHeaders db dd.lsaHeaders n)
      else ⟨n, [], []⟩
    | .exchange | .loading | .full => exchangeDd db n dd
    | _ => ⟨n, [], []⟩

/-- The adjacency is torn down, or starts again. -/
def clearAdjacency (n : Adjacency K) : Adjacency K := { n with requestList := [], summarySent := false }

end Exchange
end Wren.Daemon.DbExchange
