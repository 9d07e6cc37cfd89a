import Wren.Bgp.Attr

/-! Candidate paths to one destination and the preference between two of them. -/

namespace Wren.Bgp
open Wren.Core

def defaultLocalPref : UInt32 := 100

structure Path where
  origin : Origin
  asPath : List AsPathSegment
  nextHop : IpAddr
  nextHopIface : Option String
  localPref : UInt32
  med : UInt32
  fromEbgp : Bool
  fromConfed : Bool
  peerAs : UInt32
  igpMetric : UInt32
  peerId : Ipv4Addr
  peerAddr : IpAddr
  fromClient : Bool
  originatorId : Option Ipv4Addr
  clusterList : List Ipv4Addr
  communities : List UInt32
  largeCommunities : List (UInt32 × UInt32 × UInt32)
  extCommunities : List (Vector UInt8 8)
  srv6Sid : Option Srv6ServiceSid
  otc : Option UInt32
  passThrough : List PathAttribute
deriving DecidableEq

namespace Path

/-- A set counts once, confederation segments not at all. -/
def asPathLen (p : Path) : ℕ :=
  (p.asPath.map fun
    | .sequence a => a.length
    | .set _ => 1
    | .confedSequence _ | .confedSet _ => 0).sum

/-- A link-local next hop is pinned to its interface. -/
def nextHopEntry (p : Path) : NextHop :=
  match p.nextHopIface with
  | some dev => ⟨some p.nextHop, some dev, 1⟩
  | none => .via p.nextHop

end Path

/-- The attributes that decide forwarding are the same. -/
def multipathEligible (a b : Path) : Bool :=
  a.localPref == b.localPref && a.asPath == b.asPath && a.origin == b.origin && a.med == b.med
    && a.fromEbgp == b.fromEbgp && a.igpMetric == b.igpMetric

/-- Whether `a` is strictly preferred over `b`. -/
def isBetter (a b : Path) : Bool :=
  if a.localPref ≠ b.localPref then a.localPref > b.localPref
  else if a.asPathLen ≠ b.asPathLen then a.asPathLen < b.asPathLen
  else if a.origin ≠ b.origin then a.origin.asU8 < b.origin.asU8
  -- the MED says something only between paths from one neighbouring AS
  else if a.peerAs = b.peerAs ∧ a.med ≠ b.med then a.med < b.med
  else if a.fromEbgp ≠ b.fromEbgp then a.fromEbgp
  else if a.igpMetric ≠ b.igpMetric then a.igpMetric < b.igpMetric
  else if a.clusterList.length ≠ b.clusterList.length then a.clusterList.length < b.clusterList.length
  else
    let ida := a.originatorId.getD a.peerId
    let idb := b.originatorId.getD b.peerId
    if ida ≠ idb then ida < idb else compare a.peerAddr b.peerAddr = .lt

namespace Sample

/-- A path learned over eBGP from the neighbour `192.0.2.o` in `peerAs`. -/
def path (peerAs med : UInt32) (o : UInt8) : Path where
  origin := .igp
  asPath := [.sequence [65001]]
  nextHop := .v4 (0xc0000200 + o.toBitVec.setWidth 32)
  nextHopIface := none
  localPref := defaultLocalPref
  med := med
  fromEbgp := true
  fromConfed := false
  peerAs := peerAs
  igpMetric := 0
  peerId := o.toBitVec.setWidth 32
  peerAddr := .v4 (0xc0000200 + o.toBitVec.setWidth 32)
  fromClient := false
  originatorId := none
  clusterList := []
  communities := []
  largeCommunities := []
  extCommunities := []
  srv6Sid := none
  otc := none
  passThrough := []

end Sample
end Wren.Bgp
