import Wren.Daemon.Igmp.Feed
import Wren.Pim.Tree

/-! The router that keeps the kernel's multicast forwarding cache in step with the trees. -/

namespace Wren.Daemon.Pim
open OrdMap Wren.Pim Wren.Daemon.Igmp
open Std (ExtTreeMap ExtTreeSet)

/-- An interface whose socket was opened, with its name and address. -/
structure Opened where
  name : String
  ifindex : UInt32
  addr : Ipv4Addr

/-- The interfaces that PIM runs on, and the virtual interfaces of the kernel. -/
structure Setup where
  /-- Our addresses on all interfaces. -/
  localAddrs : List Ipv4Addr
  /-- Our address on each interface. -/
  ifaces : BTreeMap UInt32 Ipv4Addr
  nameToIndex : BTreeMap String UInt32
  vifToIndex : BTreeMap UInt16 UInt32
  indexToVif : BTreeMap UInt32 UInt16
  nextVif : UInt16

namespace Setup

def none (localAddrs : List Ipv4Addr) : Setup where
  localAddrs
  ifaces := ∅
  nameToIndex := ∅
  vifToIndex := ∅
  indexToVif := ∅
  nextVif := 0

def activate (setup : Setup) (iface : Opened) : Setup where
  localAddrs := setup.localAddrs
  ifaces := setup.ifaces.insert iface.ifindex iface.addr
  nameToIndex := setup.nameToIndex.insert iface.name iface.ifindex
  vifToIndex := setup.vifToIndex.insert setup.nextVif iface.ifindex
  indexToVif := setup.indexToVif.insert iface.ifindex setup.nextVif
  nextVif := setup.nextVif + 1

def of (localAddrs : List Ipv4Addr) (ifaces : List Opened) : Setup := ifaces.foldl activate (none localAddrs)

end Setup

/-- The longest matching route of the kernel, as the name of its interface and its gateway. -/
abbrev Routes := Ipv4Addr → Option (String × Ipv4Addr)

/-- The way to a destination by the kernel's routes, if it is not local and leads over one of our interfaces. -/
def routeRpf (setup : Setup) (routes : Routes) : RpfLookup := fun dest =>
  if dest ∈ setup.localAddrs then none
  else (routes dest).bind fun route => (setup.nameToIndex[route.1]?).map fun ifindex =>
    { ifindex, neighbor := if route.2 ≠ 0 then some route.2 else none }

def maxVifs : ℕ := 32

/-- An entry of the forwarding cache: where the packets have to come in, and where they go out. -/
structure Mfc where
  parent : UInt16
  ttls : BTreeSet UInt16

abbrev Flow := Ipv4Addr × Ipv4Addr

instance transOrdFlow : Std.TransOrd Flow := inferInstance

/-- What the kernel keeps of the virtual interfaces it is given. -/
def Mfc.of (parent : UInt16) (oifVifis : List UInt16) : Mfc where
  parent
  ttls := insertAll ∅ (oifVifis.filter fun v => v.toNat < maxVifs)

structure Runner where
  tree : TreeTable
  /-- The interface on which each flow in the kernel comes in. -/
  installed : BTreeMap Flow UInt32
  kernel : BTreeMap Flow Mfc

/-- The seconds for which a Join holds, in milliseconds. -/
def joinHoldtime : ℕ := 210000

structure EncodedSource where
  source : Ipv4Addr
  wildcard : Bool
  rpt : Bool

def EncodedSource.isWildcard (s : EncodedSource) : Bool := s.wildcard && s.rpt

def jpSource (s : EncodedSource) : Option Ipv4Addr := if s.isWildcard then none else some s.source

structure JpGroup where
  group : Ipv4Addr
  joins : List EncodedSource
  prunes : List EncodedSource

inductive Event where
  /-- The timers of the trees. -/
  | housekeep (now : ℕ)
  | membership (up : MembershipUpdate)
  /-- A Join/Prune that came in on an interface. -/
  | joinPrune (now : ℕ) (ifindex : UInt32) (upstream : Ipv4Addr) (groups : List JpGroup)
  /-- The kernel has a packet of a flow that it does not know. -/
  | noCache (flow : Flow) (vif : UInt16)
  /-- Hellos, Join refreshes, other packets and upcalls, and queries. -/
  | other

namespace Runner

def start (rp : Ipv4Addr) : Runner where
  tree := .new rp joinHoldtime
  installed := ∅
  kernel := ∅

/-- Program the kernel with an installed flow, or withdraw it where it goes out nowhere. -/
def reprogramSg (setup : Setup) (r : Runner) (flow : Flow) : Runner :=
  match r.installed[flow]? with
  | none => r
  | some iif =>
    match setup.indexToVif[iif]? with
    | none => r
    | some parent =>
      let oifs := (r.tree.oifsFor flow.1 flow.2 iif).getD ∅
      if oifs.isEmpty then
        { r with kernel := r.kernel.erase flow, installed := r.installed.erase flow }
      else
        { r with kernel := r.kernel.insert flow (.of parent (oifs.toList.filterMap fun i => setup.indexToVif[i]?)) }

def reprogramGroup (setup : Setup) (r : Runner) (group : Ipv4Addr) : Runner :=
  (r.installed.keys.filter fun flow => flow.2 = group).foldl (reprogramSg setup) r

/-- What the Joins and Prunes for a group make of the trees. -/
def joinGroup (now : ℕ) (ifindex : UInt32) (rpf : RpfLookup) (t : TreeTable) (g : JpGroup) : TreeTable :=
  let joined := g.joins.foldl (fun t s => (t.onReceivedJoin now ifindex g.group (jpSource s) rpf).1) t
  g.prunes.foldl (fun t s => (t.onReceivedPrune ifindex g.group (jpSource s) rpf).1) joined

/-- One event. `routes` are the kernel's at that time, and all writes to its forwarding cache succeed. -/
def step (setup : Setup) (r : Runner) (ev : Event × Routes) : Runner :=
  let rpf := routeRpf setup ev.2
  match ev.1 with
  | .housekeep now =>
    let expired := r.tree.expire now rpf
    (expired.2.map JoinPruneAction.group).foldl (reprogramGroup setup) { r with tree := expired.1 }
  | .membership up =>
    let tree := (r.tree.onMembership up.ifindex up.group up.source up.present rpf).1
    reprogramGroup setup { r with tree } up.group
  | .joinPrune now ifindex upstream groups =>
    match setup.ifaces[ifindex]? with
    | none => r
    | some addr =>
      if upstream ≠ addr ∧ upstream ≠ 0 then r
      else
        let tree := groups.foldl (joinGroup now ifindex rpf) r.tree
        (groups.map JpGroup.group).foldl (reprogramGroup setup) { r with tree }
  | .noCache flow vif =>
    match ((rpf flow.1).map RpfInfo.ifindex).or setup.vifToIndex[vif]? with
    | none => r
    | some iif => reprogramSg setup { r with installed := r.installed.insert flow iif } flow
  | .other => r

end Runner
end Wren.Daemon.Pim
