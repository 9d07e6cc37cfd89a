import Wren.Bgp.EvpnRib
import Wren.Daemon.Bgp.Central

/-! The EVPN routes that the central task reflects between its sessions, and what each session writes
for them. -/

namespace Wren.Daemon.Bgp
open Wren.Core Wren.Bgp OrdMap Std

/-- The UPDATEs of the EVPN family: MP_REACH_NLRI beside the other attributes, or MP_UNREACH_NLRI. -/
inductive EvpnMsg where
  | reach (attributes : List PathAttribute) (nextHop : List UInt8) (nlri : List EvpnNlri)
  | unreach (withdrawn : List EvpnNlri)
deriving DecidableEq

def EvpnMsg.nlris : EvpnMsg → List EvpnNlri
  | reach _ _ nlri => nlri
  | unreach withdrawn => withdrawn

/-- What a peer was told last about an NLRI. -/
def lastSent (written : List EvpnMsg) (n : EvpnNlri) : Option EvpnMsg :=
  (written.filter fun m => n ∈ m.nlris).getLast?

/-- The first SID of the service TLV that an UPDATE carries, and whether it is an L2 one. -/
def serviceOf (attributes : List PathAttribute) : Option (Bool × Srv6ServiceSid) :=
  attributes.foldl (fun service a =>
    match a with
    | .prefixSid srv6 _ => srv6.head?.bind fun t => t.sids.head?.map fun sid => (t.isL2, sid)
    | _ => service) none

structure EvpnOriginRoute where
  nlri : EvpnNlri
  extCommunities : List (Vector UInt8 8)
  nextHop : List UInt8
  srv6 : Option (List Srv6ServiceTlv)

structure EvpnPropRoute where
  nlri : EvpnNlri
  path : Path
  nextHop : List UInt8

inductive EvpnCmd where
  | advertise (routes : List EvpnOriginRoute)
  | propagate (routes : List EvpnPropRoute)
  | withdraw (nlris : List EvpnNlri)

namespace Session
variable (s : Session)

/-- One message for each originated route. Those of the same attributes share one on the wire. -/
def advertiseEvpnOne (r : EvpnOriginRoute) : EvpnMsg :=
  let ext : List PathAttribute := if r.extCommunities = [] then [] else [.extendedCommunities r.extCommunities]
  let srv6 : List PathAttribute := r.srv6.elim [] fun tlvs => [.prefixSid tlvs []]
  .reach (s.basePathAttrs ++ ext ++ srv6) r.nextHop [r.nlri]

/-- The service SID is attached again, and the next hop is not changed. -/
def propagateEvpnOne (r : EvpnPropRoute) : Option EvpnMsg :=
  if !shouldPropagate r.path s.peerType s.rrClient s.addr then none
  else
    let srv6 : List PathAttribute := r.path.srv6Sid.elim [] fun sid => [.prefixSid [⟨true, [sid]⟩] []]
    some (.reach (s.propagatedBaseAttrs r.path ++ srv6) r.nextHop [r.nlri])

def withdrawEvpn (nlris : List EvpnNlri) : List EvpnMsg := if nlris = [] then [] else [.unreach nlris]

def writeEvpn : EvpnCmd → List EvpnMsg
  | .advertise routes => routes.map s.advertiseEvpnOne
  | .propagate routes => routes.filterMap s.propagateEvpnOne
  | .withdraw nlris => withdrawEvpn nlris

end Session

/-- An Established session, whether it negotiated the EVPN family and what it wrote since it came up. -/
structure EvpnSession where
  session : Session
  mpEvpn : Bool
  written : List EvpnMsg

def EvpnSession.handle (w : EvpnSession) (cmd : EvpnCmd) : EvpnSession :=
  if w.mpEvpn then { w with written := w.written ++ w.session.writeEvpn cmd } else w

structure EvpnConfig where
  loc : Local
  /-- The peers that EVPN is activated for. -/
  evpn : IpAddr → Bool
  originated : List EvpnOriginRoute

structure EvpnCentral where
  rib : EvpnRib
  nextHops : BTreeMap EvpnNlri (List UInt8)
  sessions : BTreeMap IpAddr EvpnSession

/-- One change at a time: an UPDATE makes several. -/
inductive EvpnChange where
  | withdraw (peer : IpAddr) (nlri : EvpnNlri)
  | offer (facts : PeerFacts) (update : Update) (nextHop : List UInt8) (nlri : EvpnNlri)
  | lost (peer : IpAddr)
  | established (session : Session) (mpEvpn : Bool)

inductive EvpnInput where
  | update (facts : PeerFacts) (update : Update) (unreach : List EvpnNlri) (reach : Option (List UInt8 × List EvpnNlri))
  | lost (peer : IpAddr)
  | established (session : Session) (mpEvpn : Bool)

/-- The path that an UPDATE offers for an NLRI. Unknown route types and next hops of another length are
ignored. -/
def offered (facts : PeerFacts) (update : Update) (nh : List UInt8) : EvpnNlri → Option Path
  | .unknown .. => none
  | _ => (evpnNextHopIp nh).map fun ip => buildPath update ip none facts

namespace EvpnCentral
variable (c : EvpnConfig)

def new : EvpnCentral := ⟨.new, ∅, ∅⟩

/-- A command for every session that EVPN is activated for, but not for the one it comes from. -/
def fanout (fromPeer : IpAddr) (cmd : EvpnCmd) (sessions : BTreeMap IpAddr EvpnSession) : BTreeMap IpAddr EvpnSession :=
  sessions.map fun addr w => if addr = fromPeer ∨ c.evpn addr = false then w else w.handle cmd

def handleEvpnEvent (nh : List UInt8) (fromPeer : IpAddr) (s : EvpnCentral) : EvpnRibEvent → EvpnCentral
  | .best nlri path =>
    { s with
      nextHops := s.nextHops.insert nlri nh
      sessions := fanout c fromPeer (.propagate [⟨nlri, path, nh⟩]) s.sessions }
  | .withdrawn nlri =>
    { s with
      nextHops := s.nextHops.erase nlri
      sessions := fanout c fromPeer (.withdraw [nlri]) s.sessions }

/-- The originated routes, then the best ones with the next hops on record. -/
def greet (s : EvpnCentral) (w : EvpnSession) : EvpnSession :=
  let prop := s.rib.best.toList.filterMap fun e => (s.nextHops[e.1]?).map fun nh => (⟨e.1, e.2, nh⟩ : EvpnPropRoute)
  (w.handle (.advertise c.originated)).handle (.propagate prop)

def step (s : EvpnCentral) : EvpnChange → EvpnCentral
  | .withdraw peer nlri =>
    (s.rib.withdraw peer nlri).2.toList.foldl (handleEvpnEvent c [] peer) { s with rib := (s.rib.withdraw peer nlri).1 }
  | .offer facts update nh nlri =>
    match offered facts update nh nlri with
    | none => s
    | some path =>
      (s.rib.update facts.addr nlri path).2.toList.foldl (handleEvpnEvent c nh facts.addr)
        { s with rib := (s.rib.update facts.addr nlri path).1 }
  | .lost peer =>
    (s.rib.withdrawPeer peer).2.foldl (handleEvpnEvent c [] peer)
      { s with rib := (s.rib.withdrawPeer peer).1, sessions := s.sessions.erase peer }
  | .established session mpEvpn =>
    let w : EvpnSession := ⟨session, mpEvpn, []⟩
    { s with sessions := s.sessions.insert session.addr (if c.evpn session.addr then greet c s w else w) }

end EvpnCentral

namespace EvpnInput

/-- Reachability with a loop in it is ignored, and the rest of the UPDATE with it. -/
def changes (loc : Local) : EvpnInput → List EvpnChange
  | update facts u unreach reach =>
    if isLoop loc u then []
    else unreach.map (.withdraw facts.addr) ++
      reach.elim [] fun r => r.2.map (.offer facts u r.1)
  | lost peer => [.lost peer]
  | established session mpEvpn => [.established session mpEvpn]

end EvpnInput

namespace EvpnCentral

def handle (c : EvpnConfig) (s : EvpnCentral) (e : EvpnInput) : EvpnCentral :=
  (e.changes c.loc).foldl (step c) s

end EvpnCentral
end Wren.Daemon.Bgp
