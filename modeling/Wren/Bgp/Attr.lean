import Wren.Core.Route
import Wren.Lib.Octets

/-! BGP path attributes and the UPDATE message that carries them. -/

namespace Wren.Bgp
open Wren.Core

abbrev Ipv4Addr := BitVec 32
abbrev Ipv6Addr := BitVec 128

def flagOptional : UInt8 := 0x80
def flagTransitive : UInt8 := 0x40
def flagPartial : UInt8 := 0x20
def flagExtendedLen : UInt8 := 0x10

def afiIpv4 : UInt16 := 1
def afiIpv6 : UInt16 := 2
def safiUnicast : UInt8 := 1

inductive Origin where
  | igp
  | egp
  | incomplete
deriving DecidableEq

def Origin.asU8 : Origin → UInt8
  | igp => 0
  | egp => 1
  | incomplete => 2

inductive AsPathSegment where
  | set (asns : List UInt32)
  | sequence (asns : List UInt32)
  | confedSequence (asns : List UInt32)
  | confedSet (asns : List UInt32)
deriving DecidableEq

namespace AsPathSegment

def asns : AsPathSegment → List UInt32
  | set a | sequence a | confedSequence a | confedSet a => a

def isConfederation : AsPathSegment → Bool
  | confedSequence _ | confedSet _ => true
  | set _ | sequence _ => false

end AsPathSegment

structure Srv6SidStructure where
  locatorBlockLen : UInt8
  locatorNodeLen : UInt8
  functionLen : UInt8
  argumentLen : UInt8
  transpositionLen : UInt8
  transpositionOffset : UInt8
deriving DecidableEq

structure Srv6ServiceSid where
  sid : Vector UInt8 16
  behavior : UInt16
  flags : UInt8
  layout : Srv6SidStructure
deriving DecidableEq

structure Srv6ServiceTlv where
  isL2 : Bool
  sids : List Srv6ServiceSid
deriving DecidableEq

/-- The families whose routes are not IP networks. -/
inductive Family where
  | evpn
  | flowSpec
  | srPolicy
  | linkState
deriving DecidableEq

/-- A route of such a family, kept as its octets. `known` says whether its route type is one
the speaker understands. -/
structure FamilyNlri where
  octets : List UInt8
  known : Bool
deriving DecidableEq

/-- The contents of TUNNEL_ENCAP and BGP_LS are kept as their octets. -/
inductive PathAttribute where
  | origin (o : Origin)
  | asPath (segs : List AsPathSegment)
  | nextHop (nh : Ipv4Addr)
  | multiExitDisc (med : UInt32)
  | localPref (lp : UInt32)
  | atomicAggregate
  | communities (c : List UInt32)
  | largeCommunities (c : List (UInt32 × UInt32 × UInt32))
  | extendedCommunities (c : List (Vector UInt8 8))
  | mpReachNlri (afi : UInt16) (safi : UInt8) (nextHop : List UInt8) (nlri : List Prefix)
  | mpUnreachNlri (afi : UInt16) (safi : UInt8) (withdrawn : List Prefix)
  | mpReachFamily (family : Family) (afi : UInt16) (nextHop : List UInt8) (nlri : List FamilyNlri)
  | mpUnreachFamily (family : Family) (afi : UInt16) (withdrawn : List FamilyNlri)
  | originatorId (id : Ipv4Addr)
  | clusterList (ids : List Ipv4Addr)
  | aggregator (asn : UInt32) (id : Ipv4Addr)
  | as4Path (segs : List AsPathSegment)
  | as4Aggregator (asn : UInt32) (id : Ipv4Addr)
  | prefixSid (srv6 : List Srv6ServiceTlv) (other : List (UInt8 × List UInt8))
  | tunnelEncap (tlvs : List UInt8)
  | onlyToCustomer (asn : UInt32)
  | bgpLs (tlvs : List UInt8)
  | unknown (flags typeCode : UInt8) (value : List UInt8)
deriving DecidableEq

/-- A BGP UPDATE. The path identifiers run beside the prefixes and are empty without ADD-PATH. -/
structure Update where
  withdrawn : List Prefix := []
  attributes : List PathAttribute := []
  nlri : List Prefix := []
  nlriPathIds : List UInt32 := []
  withdrawnPathIds : List UInt32 := []
deriving DecidableEq

/-- In `fe80::/10`. -/
def isLinkLocal (a : Ipv6Addr) : Bool := a.extractLsb' 112 16 &&& 0xffc0 == 0xfe80

/-- The next-hop field of MP_REACH_NLRI: the global address, then the link-local one if there is. -/
def encodeV6NextHop (glob : Ipv6Addr) (linkLocal : Option Ipv6Addr) : List UInt8 :=
  Octets.digits 16 glob.toNat ++ (linkLocal.elim [] fun ll => Octets.digits 16 ll.toNat)

/-- A second address that is not link-local is ignored. -/
def decodeV6NextHop (field : List UInt8) : Option (Ipv6Addr × Option Ipv6Addr) :=
  if field.length < 16 then none
  else
    let glob := BitVec.ofNat 128 (Octets.value (field.take 16))
    let ll := BitVec.ofNat 128 (Octets.value ((field.drop 16).take 16))
    some (glob, if 32 ≤ field.length ∧ isLinkLocal ll = true then some ll else none)

/-- What an AS path is merged by: one AS of a sequence, or a whole other segment. -/
inductive AsPathElement where
  | asn (a : UInt32)
  | whole (seg : AsPathSegment)

def flatElements (segs : List AsPathSegment) : List AsPathElement :=
  segs.flatMap fun
    | .sequence asns => asns.map .asn
    | seg => [.whole seg]

/-- Runs of single ASes become one sequence. `run` holds the one being built. -/
def coalesce (run : List UInt32) : List AsPathElement → List AsPathSegment
  | [] => if run = [] then [] else [.sequence run]
  | .asn a :: els => coalesce (run ++ [a]) els
  | .whole seg :: els => (if run = [] then [] else [.sequence run]) ++ seg :: coalesce [] els

/-- The hops of AS4_PATH replace the tail of AS_PATH, unless it claims more hops than there are. -/
def reconstructAsPath (asPath as4Path : List AsPathSegment) : List AsPathSegment :=
  if as4Path = [] then asPath
  else
    let path := flatElements asPath
    let path4 := flatElements as4Path
    if path4.length > path.length then asPath
    else coalesce [] (path.take (path.length - path4.length) ++ path4)

end Wren.Bgp
