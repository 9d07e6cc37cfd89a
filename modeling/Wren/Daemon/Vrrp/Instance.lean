import Mathlib.Data.Finset.Basic
import Wren.Vrrp.Election

/-! A virtual router of the daemon, which carries the machine's actions into timers and addresses.
Times are in milliseconds. -/

namespace Wren.Daemon.Vrrp
open Wren.Core Wren.Vrrp

/-- When the addresses are announced again. -/
structure AnnouncementTimer where
  deadline : Option ℕ
  retries : UInt8

namespace AnnouncementTimer

def arm (now : ℕ) : AnnouncementTimer := ⟨some (now + 100), 2⟩

def cancel : AnnouncementTimer := ⟨none, 0⟩

def due (timer : AnnouncementTimer) (now : ℕ) : Bool × AnnouncementTimer :=
  if !timer.deadline.any (· ≤ now) then (false, timer)
  else
    let retries := if timer.retries = 0 then 0 else timer.retries - 1
    (true, ⟨some (now + if retries > 0 then 100 else 30000), retries⟩)

end AnnouncementTimer

structure InstanceConfig where
  interface : String
  vrid : UInt8
  priority : UInt8
  advertIntCs : UInt16
  preempt : Bool
  addresses : List IpAddr
  addressInterface : String
  trackInterfaces : List String
  priorityDecrement : UInt8

/-- What the host says at one moment: the clock, the interfaces by name, the interface index of a
newly opened socket, and the addresses the kernel lets us add. -/
structure Host where
  now : ℕ
  index : String → Option UInt32
  mac : String → Option (BitVec 48)
  running : String → Bool
  addresses : String → Option (List IpAddr)
  socket : String → Bool → Option UInt32
  adds : IpAddr → Bool

structure Advertisement where
  vrid : UInt8
  priority : UInt8
  maxAdverIntCs : UInt16
  addresses : List IpAddr

structure Instance where
  fsm : Vrrp
  ifname : String
  ifindex : UInt32
  /-- Where the virtual addresses live. -/
  addrIfname : String
  addrIfindex : UInt32
  addrMac : BitVec 48
  primary : IpAddr
  addresses : List IpAddr
  ipv6 : Bool
  /-- The configured priority before any tracking penalty. -/
  basePriority : UInt8
  trackInterfaces : List String
  priorityDecrement : UInt8
  trackedDown : Bool
  adverDeadline : Option ℕ
  masterDownDeadline : Option ℕ
  announcements : AnnouncementTimer
  /-- The addresses this instance has put on `addrIfname`. -/
  held : Finset IpAddr
  /-- Everything sent so far, with the source address. -/
  sent : List (IpAddr × Advertisement)

def unspecified (ipv6 : Bool) : IpAddr := if ipv6 then .v6 0 else .v4 0

def isUnspecified : IpAddr → Bool
  | .v4 a => a = 0
  | .v6 a => a = 0

def eligiblePrimary (ip : IpAddr) (ipv6 : Bool) (virtualAddresses : List IpAddr) : Bool :=
  if ip ∈ virtualAddresses then false
  else
    match ip with
    | .v4 a => !ipv6 ∧ a >>> 24 ≠ 127 ∧ a ≠ 0 ∧ a >>> 28 ≠ 14 ∧ a ≠ BitVec.allOnes 32
    | .v6 a => ipv6 ∧ a >>> 118 = 0x3FA

def Host.ifacePrimary (host : Host) (ifname : String) (ipv6 : Bool) (virtualAddresses : List IpAddr) :
    Option IpAddr := do
  let addresses ← host.addresses ifname
  addresses.find? (eligiblePrimary · ipv6 virtualAddresses)

/-- Add addresses up to the first that the kernel refuses. -/
def addVirtualAddresses (host : Host) : List IpAddr → Finset IpAddr → Bool × Finset IpAddr
  | [], held => (true, held)
  | vip :: rest, held => if host.adds vip then addVirtualAddresses host rest (insert vip held) else (false, held)

namespace Instance
variable (host : Host)

def sendAdvert (inst : Instance) (priority : UInt8) : Instance :=
  { inst with
    sent := inst.sent ++
      [(inst.primary, ⟨inst.fsm.cfg.vrid, priority, inst.fsm.cfg.advertIntCs, inst.addresses⟩)] }

def assumeVip (inst : Instance) : Bool × Instance :=
  let (ok, held) := addVirtualAddresses host inst.addresses inst.held
  (ok, { inst with held })

def releaseVip (inst : Instance) : Instance := { inst with held := inst.held \ inst.addresses.toFinset }

/-- Give up when an address cannot be installed. -/
def withdraw (inst : Instance) : Instance :=
  releaseVip
    { inst.sendAdvert 0 with
      fsm := inst.fsm.onShutdown.1
      adverDeadline := none
      masterDownDeadline := none
      announcements := .cancel }

/-- Carry one transition's actions into the kernel and the timers. -/
def applyActions : List Action → Instance → Instance
  | [], inst => inst
  | .sendAdvert :: rest, inst => applyActions rest (inst.sendAdvert inst.fsm.cfg.priority)
  | .sendAdvertZero :: rest, inst => applyActions rest (inst.sendAdvert 0)
  | .assumeVip :: rest, inst =>
    match inst.assumeVip host with
    | (false, inst) => inst.withdraw
    | (true, inst) => applyActions rest { inst with announcements := .arm host.now }
  | .releaseVip :: rest, inst => applyActions rest { inst with announcements := .cancel }.releaseVip
  | .armAdverTimer cs :: rest, inst =>
    applyActions rest { inst with adverDeadline := some (host.now + 10 * cs.toNat), masterDownDeadline := none }
  | .armMasterDownTimer cs :: rest, inst =>
    applyActions rest { inst with masterDownDeadline := some (host.now + 10 * cs.toNat), adverDeadline := none }
  | .cancelAdverTimer :: rest, inst => applyActions rest { inst with adverDeadline := none }
  | .cancelMasterDownTimer :: rest, inst => applyActions rest { inst with masterDownDeadline := none }

def perform (inst : Instance) (out : Vrrp × List Action) : Instance :=
  applyActions host out.2 { inst with fsm := out.1 }

/-- A virtual router on the links of the moment, before its machine has started. -/
def new (cfg : InstanceConfig) (ipv6 : Bool) (ifindex : UInt32) : Instance :=
  let primary := (host.ifacePrimary cfg.interface ipv6 cfg.addresses).getD (unspecified ipv6)
  { fsm := .new ⟨cfg.vrid, cfg.priority, cfg.advertIntCs, cfg.preempt, primary, cfg.addresses⟩
    ifname := cfg.interface
    ifindex
    addrIfname := cfg.addressInterface
    addrIfindex := (host.index cfg.addressInterface).getD 0
    addrMac := (host.mac cfg.addressInterface).getD 0
    primary
    addresses := cfg.addresses
    ipv6
    basePriority := cfg.priority
    trackInterfaces := cfg.trackInterfaces
    priorityDecrement := cfg.priorityDecrement
    trackedDown := false
    adverDeadline := none
    masterDownDeadline := none
    announcements := .cancel
    held := ∅
    sent := [] }

/-- A virtual router as the runner starts it, if its socket can be opened. -/
def start (cfg : InstanceConfig) : Option Instance := do
  let ipv6 := cfg.addresses.head?.any (!·.isIpv4)
  let ifindex ← host.socket cfg.interface ipv6
  let inst := new host cfg ipv6 ifindex
  if !isUnspecified inst.primary ∧ inst.addrIfindex ≠ 0 ∧ host.running inst.ifname ∧ host.running inst.addrIfname then
    some (inst.perform host inst.fsm.onStartup)
  else some inst

/-- The election address of the moment, if both links can be used. -/
def nextPrimary (inst : Instance) : Option IpAddr :=
  if host.running inst.ifname ∧ host.running inst.addrIfname ∧ (host.index inst.addrIfname).isSome ∧
      (host.mac inst.addrIfname).isSome then
    host.ifacePrimary inst.ifname inst.ipv6 inst.addresses
  else none

def sameLinks (inst : Instance) : Bool :=
  host.index inst.ifname = some inst.ifindex ∧ host.index inst.addrIfname = some inst.addrIfindex ∧
    host.mac inst.addrIfname = some inst.addrMac

/-- Put back an address that something else removed. -/
def repair (inst : Instance) : Instance :=
  if inst.fsm.state = .master ∧ (host.addresses inst.addrIfname).any fun present => inst.addresses.any (· ∉ present) then
    applyActions host [.assumeVip] inst
  else inst

/-- Take over the addresses of the links, and start the election with them. -/
def rejoin (inst : Instance) (next : Option IpAddr) : Instance :=
  let primary := next.getD (unspecified inst.ipv6)
  let inst :=
    { inst with
      addrIfindex := (host.index inst.addrIfname).getD 0
      addrMac := (host.mac inst.addrIfname).getD 0
      primary
      fsm := inst.fsm.setLocalPrimary primary }
  if next.isSome then inst.perform host inst.fsm.onStartup else inst

def pollPrimary (inst : Instance) : Instance :=
  let next := inst.nextPrimary host
  if next.isNone ∧ isUnspecified inst.primary ∧ inst.fsm.state = .init then inst
  else if inst.sameLinks host ∧ (next = some inst.primary ∨ next.isNone ∧ isUnspecified inst.primary) ∧
      inst.fsm.state ≠ .init then
    inst.repair host
  else
    let inst := inst.perform host inst.fsm.onShutdown
    if (host.index inst.ifname).any (· ≠ inst.ifindex) then
      match host.socket inst.ifname inst.ipv6 with
      | none => inst
      | some ifindex => { inst with ifindex }.rejoin host next
    else inst.rejoin host next

def pollTracking (inst : Instance) : Instance :=
  if inst.trackInterfaces.isEmpty then inst
  else
    let anyDown := inst.trackInterfaces.any fun i => !host.running i
    let effective :=
      if anyDown then
        if inst.basePriority ≤ inst.priorityDecrement then 1 else inst.basePriority - inst.priorityDecrement
      else inst.basePriority
    { inst with trackedDown := anyDown }.perform host (inst.fsm.setPriority effective)

def onAdverTimer (inst : Instance) : Instance :=
  if inst.adverDeadline.any (· ≤ host.now) then
    { inst with adverDeadline := none }.perform host inst.fsm.onAdverTimer
  else inst

def onMasterDownTimer (inst : Instance) : Instance :=
  if inst.masterDownDeadline.any (· ≤ host.now) then
    { inst with masterDownDeadline := none }.perform host inst.fsm.onMasterDownTimer
  else inst

def onAnnouncementTimer (inst : Instance) : Instance :=
  { inst with announcements := (inst.announcements.due host.now).2 }

def onAdvertisement (inst : Instance) (ifindex : UInt32) (priority : UInt8) (adverIntCs : UInt16) (src : IpAddr) :
    Instance :=
  if inst.ifindex ≠ ifindex ∨ isUnspecified inst.primary then inst
  else inst.perform host (inst.fsm.onAdvertisement priority adverIntCs src)

end Instance

/-- What the runner does to one instance. A wake-up is a list of these, each with what the host
says by then. -/
inductive Event where
  | shutdown
  | pollPrimary
  | pollTracking
  | adv (ifindex : UInt32) (priority : UInt8) (adverIntCs : UInt16) (src : IpAddr)
  | adverTimer
  | masterDownTimer
  | announcementTimer

namespace Instance

def step (inst : Instance) : Host × Event → Instance
  | (host, .shutdown) => inst.perform host inst.fsm.onShutdown
  | (host, .pollPrimary) => inst.pollPrimary host
  | (host, .pollTracking) => inst.pollTracking host
  | (host, .adv ifindex priority adverIntCs src) => inst.onAdvertisement host ifindex priority adverIntCs src
  | (host, .adverTimer) => inst.onAdverTimer host
  | (host, .masterDownTimer) => inst.onMasterDownTimer host
  | (host, .announcementTimer) => inst.onAnnouncementTimer host

def run (inst : Instance) (es : List (Host × Event)) : Instance := es.foldl step inst

end Instance
end Wren.Daemon.Vrrp
