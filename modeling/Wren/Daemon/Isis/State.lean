import Wren.Daemon.Router.Basic
import Wren.Isis.Adjacency
import Wren.Isis.Auth
import Wren.Isis.Lsdb

/-! The state of the IS-IS task. A hash map of the source is an ordered map here; nothing depends on the order. -/

namespace Wren.Daemon
open Wren.Core Wren.Isis OrdMap

namespace Isis

/-- The lifetime of an originated LSP, in seconds. -/
def lspLifetime : UInt16 := 1200

def maxNeighborsPerIface : ℕ := 1024

def lspRefreshBelow : UInt16 := 300

def housekeepingSecs : UInt16 := 1

def maxCsnpLspEntries : ℕ := 64

def allL1Iss : Snpa := 0x0180C2000014

def allL2Iss : Snpa := 0x0180C2000015

/-- Two values, for Level 1 and for Level 2. -/
structure PerLevel (α : Type) where
  l1 : α
  l2 : α

namespace PerLevel
variable {α : Type}

def get (p : PerLevel α) (level : IsLevel) : α := if level = .l2 then p.l2 else p.l1

def set (p : PerLevel α) (level : IsLevel) (a : α) : PerLevel α :=
  if level = .l2 then { p with l2 := a } else { p with l1 := a }

@[simp] theorem get_set_self (p : PerLevel α) (level : IsLevel) (a : α) : (p.set level a).get level = a := by
  cases level <;> rfl

@[simp] theorem set_get (p : PerLevel α) (level : IsLevel) : p.set level (p.get level) = p := by
  cases level <;> rfl

theorem get_set (p : PerLevel α) (level level' : IsLevel) (a : α) :
    (p.set level a).get level' = if (level' = .l2 ↔ level = .l2) then a else p.get level' := by
  cases level <;> cases level' <;> rfl

end PerLevel

inductive IfaceType where
  | broadcast
  | pointToPoint
deriving DecidableEq

structure IsisConfig where
  systemId : SystemId
  area : AreaAddress
  level : IsLevel
  priority : UInt8
  metric : UInt32
  redistributeMetric : UInt32
  helloInterval : ℕ
  holdingMultiplier : UInt16
  leakL2ToL1 : Bool
  vrfTable : UInt32
  auth : Option IsisAuth

def IsisConfig.levelActive (c : IsisConfig) (level : IsLevel) : Bool := c.level.levelActive level

/-- The group address a PDU of a level is sent to. -/
def levelMac (level : IsLevel) : Snpa := if level.hasL2 && !level.hasL1 then allL2Iss else allL1Iss

structure Nbr where
  snpa : Snpa
  priority : UInt8
  lastSeen : ℕ
  holding : UInt16
  adj : PerLevel (Option Adjacency)
  lanId : PerLevel (Option (SystemId × UInt8))
  bfdAddr : Option (IpAddr × UInt32)
  p2pNeighborExtId : Option UInt32

namespace Nbr

def new (snpa : Snpa) (holding : UInt16) : Nbr := ⟨snpa, 0, 0, holding, ⟨none, none⟩, ⟨none, none⟩, none, none⟩

def up (n : Nbr) (level : IsLevel) : Bool := (n.adj.get level).any Adjacency.isUp

end Nbr

structure Iface where
  name : String
  ifindex : UInt32
  snpa : Snpa
  ifaceType : IfaceType
  /-- The pseudonode number where this router is the DIS. -/
  localCircuitId : UInt8
  v4 : List Ipv4Addr
  v6 : List Ipv6Addr
  neighbors : BTreeMap SystemId Nbr
  dis : PerLevel (Option (SystemId × UInt8))
  isDis : PerLevel Bool
  pnSeq : PerLevel UInt32

/-- The neighbours with an adjacency that is up. -/
def Iface.upNeighbors (f : Iface) (level : IsLevel) : List (SystemId × Nbr) :=
  f.neighbors.toList.filter fun e => e.2.up level

/-- What a router advertises on its own account: its connected networks and what is redistributed to it, each
kept by address family. -/
structure Native where
  v4Reach : List Prefix
  v6Reach : List Prefix
  extV4 : BTreeMap Prefix UInt32
  extV6 : BTreeMap Prefix UInt32
  v4Reach_isIpv4 : ∀ p ∈ v4Reach, p.isIpv4 = true
  v6Reach_isIpv6 : ∀ p ∈ v6Reach, p.isIpv4 = false
  extV4_isIpv4 : ∀ (p : Prefix) (m : UInt32), extV4[p]? = some m → p.isIpv4 = true
  extV6_isIpv6 : ∀ (p : Prefix) (m : UInt32), extV6[p]? = some m → p.isIpv4 = false

namespace Native

def connected (n : Native) (p : Prefix) : Prop := p ∈ n.v4Reach ∨ p ∈ n.v6Reach

def redistributed (n : Native) (p : Prefix) : Prop := p ∈ n.extV4 ∨ p ∈ n.extV6

instance (n : Native) (p : Prefix) : Decidable (n.connected p) := inferInstanceAs (Decidable (_ ∨ _))

instance (n : Native) (p : Prefix) : Decidable (n.redistributed p) := inferInstanceAs (Decidable (_ ∨ _))

end Native

/-- An encoded PDU as it goes out. A flood goes out of every interface, but for one that it came in on. -/
inductive Sent where
  | flood (level : IsLevel) (bytes : List UInt8) (except : Option ℕ)
  | on (idx : ℕ) (mac : Snpa) (bytes : List UInt8)
deriving DecidableEq

end Isis

structure Isis where
  cfg : Isis.IsisConfig
  ifaces : List Isis.Iface
  dbs : Isis.PerLevel Lsdb
  ownSeq : Isis.PerLevel UInt32
  native : Isis.Native
  leakedIntoL2 : BTreeMap Prefix UInt32
  leakedIntoL1 : BTreeMap Prefix UInt32
  announced : BTreeSet Prefix
  /-- All that was sent so far, to the circuits and to the central router. -/
  sent : List Isis.Sent
  updates : List RouteUpdate

namespace Isis

structure RxFrame where
  idx : ℕ
  src : Snpa
  data : List UInt8

def activeLevels (s : Isis) : List IsLevel :=
  match s.cfg.level with
  | .l1 => [.l1]
  | .l2 => [.l2]
  | .l1l2 => [.l1, .l2]

def haveL2Adjacency (s : Isis) : Bool := s.ifaces.any fun f => f.neighbors.toList.any fun e => e.2.up .l2

def modifyIface (s : Isis) (idx : ℕ) (f : Iface → Iface) : Isis := { s with ifaces := s.ifaces.modify idx f }

def push (s : Isis) (out : List Sent) : Isis := { s with sent := s.sent ++ out }

def encodePdu (s : Isis) (body : PduBody) : List UInt8 := Wren.Isis.encodePdu s.cfg.auth ⟨0, body⟩

/-- The Authentication TLV comes first. -/
def pushAuth (s : Isis) (tlvs : List Tlv) : List Tlv :=
  match s.cfg.auth with
  | none => tlvs
  | some auth => .authentication auth.authType auth.placeholder :: tlvs

/-! ### What the TLVs of a PDU say -/

def areaAddresses (tlvs : List Tlv) : List AreaAddress :=
  (tlvs.findSome? fun
    | .areaAddresses a => some a
    | _ => none).getD []

def lanNeighbors (tlvs : List Tlv) : List Snpa :=
  (tlvs.findSome? fun
    | .lanNeighbors m => some m
    | _ => none).getD []

def p2pThreeWay (tlvs : List Tlv) : Option (UInt32 × Option (SystemId × UInt32)) :=
  tlvs.findSome? fun
    | .p2pThreeWay _ ext neighbor => some (ext, neighbor)
    | _ => none

/-- An IPv4 address before an IPv6 one, and a link-local one with the interface as its scope. -/
def neighborBfdAddr (tlvs : List Tlv) (ifindex : UInt32) : Option (IpAddr × UInt32) :=
  let v4 := tlvs.findSome? fun
    | .ipv4InterfaceAddresses (a :: _) => some (IpAddr.v4 a, (0 : UInt32))
    | _ => none
  let v6 := tlvs.findSome? fun
    | .ipv6InterfaceAddresses (a :: _) =>
      let linkLocal : Bool := (a >>> 112).setWidth 16 &&& 0xffc0 = (0xfe80 : BitVec 16)
      some (IpAddr.v6 a, if linkLocal then ifindex else 0)
    | _ => none
  v4.or v6

def lspEntries (tlvs : List Tlv) : List LspEntry :=
  tlvs.flatMap fun
    | .lspEntries e => e
    | _ => []

/-- The frame of a PDU, after its link-layer header. -/
def llcFrame (pdu : List UInt8) : List UInt8 := 0xFE :: 0xFE :: 0x03 :: pdu

def stripLlc : List UInt8 → Option (List UInt8)
  | a :: b :: c :: pdu => if a = 0xFE ∧ b = 0xFE ∧ c = 0x03 then some pdu else none
  | _ => none

def verifyPduAuth (auth : Option IsisAuth) (bytes : List UInt8) : Bool :=
  match auth with
  | none => true
  | some auth => auth.verify bytes

/-! ### A router at the start -/

/-- A circuit on which nobody has been heard. -/
def Iface.quiet (ifaceType : IfaceType) (snpa : Snpa) : Iface where
  name := "eth0"
  ifindex := 2
  snpa := snpa
  ifaceType := ifaceType
  localCircuitId := 1
  v4 := []
  v6 := []
  neighbors := ∅
  dis := ⟨none, none⟩
  isDis := ⟨false, false⟩
  pnSeq := ⟨0, 0⟩

/-- A router of both levels with empty databases. -/
def fresh (systemId : SystemId) (ifaces : List Iface) : Isis where
  cfg :=
    { systemId, area := [0x49], level := .l1l2, priority := 64, metric := 10, redistributeMetric := 10, helloInterval := 10
      holdingMultiplier := 3, leakL2ToL1 := false, vrfTable := rtTableMain, auth := none }
  ifaces := ifaces
  dbs := ⟨Lsdb.new, Lsdb.new⟩
  ownSeq := ⟨0, 0⟩
  native :=
    { v4Reach := [], v6Reach := [], extV4 := ∅, extV6 := ∅, v4Reach_isIpv4 := by simp, v6Reach_isIpv6 := by simp
      extV4_isIpv4 := by simp, extV6_isIpv6 := by simp }
  leakedIntoL2 := ∅
  leakedIntoL1 := ∅
  announced := ∅
  sent := []
  updates := []

end Isis
end Wren.Daemon
