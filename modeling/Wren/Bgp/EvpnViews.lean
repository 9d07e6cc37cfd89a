import Wren.Bgp.EvpnRib
import Wren.Lib.Octets
import Wren.Lib.Owned

/-! The imported views of the EVPN table: the remote MACs and flood set of an EVPN instance, and the remote
prefixes of an IP-VRF. -/

namespace Wren.Bgp
open Wren.Core OrdMap Std

abbrev RouteTarget := Vector UInt8 8

structure RemoteMac where
  vtep : IpAddr
  vni : UInt32
  ip : Option IpAddr
  srv6Sid : Option (Vector UInt8 16)
  routerMac : Option MacAddr
deriving DecidableEq

inductive EviChange where
  | macLearned (ethTag : UInt32) (mac : MacAddr) (entry : RemoteMac)
  | macForgotten (ethTag : UInt32) (mac : MacAddr)
  | vtepAdded (vtep : IpAddr) (srv6Sid : Option (Vector UInt8 16))
  | vtepRemoved (vtep : IpAddr)
deriving DecidableEq

structure MacMobility where
  seq : UInt32
  sticky : Bool
deriving DecidableEq

def ecTypeEvpn : UInt8 := 0x06
def ecSubtypeMacMobility : UInt8 := 0x00
def macMobilitySticky : UInt8 := 0x01
def ecSubtypeRouterMac : UInt8 := 0x03

/-- The MAC of the advertising PE, where a path names it. -/
def routerMac (path : Path) : Option MacAddr :=
  (path.extCommunities.find? fun ec => ec[0] == ecTypeEvpn && ec[1] == ecSubtypeRouterMac).map fun ec =>
    #v[ec[2], ec[3], ec[4], ec[5], ec[6], ec[7]]

def macMobility (path : Path) : Option MacMobility :=
  (path.extCommunities.find? fun ec => ec[0] == ecTypeEvpn && ec[1] == ecSubtypeMacMobility).map fun ec =>
    ⟨UInt32.ofNat (Octets.value [ec[4], ec[5], ec[6], ec[7]]), ec[2] &&& macMobilitySticky ≠ 0⟩

/-- A path carries one of these Route Targets. -/
def imports (rts : List RouteTarget) (path : Path) : Bool := path.extCommunities.any (· ∈ rts)

abbrev MacKey := UInt32 × MacAddr

instance : Std.TransOrd MacKey := Std.instTransOrdProd

structure EviTable where
  importRts : List RouteTarget
  macs : BTreeMap MacKey RemoteMac
  owners : BTreeMap MacKey EvpnNlri
  mobility : BTreeMap MacKey (Option MacMobility)
  vteps : BTreeMap IpAddr (Option (Vector UInt8 16))
  vtepOwners : BTreeMap IpAddr EvpnNlri

namespace EviTable

def new (importRts : List RouteTarget) : EviTable := ⟨importRts, ∅, ∅, ∅, ∅, ∅⟩

/-- MAC mobility: another NLRI does not take over a MAC with a lower sequence number, from a static MAC, or
with the same number for another VTEP. -/
def refuses (t : EviTable) (key : MacKey) (nlri : EvpnNlri) (path : Path) : Bool :=
  if t.owners[key]? = some nlri then false
  else
    match t.mobility[key]? with
    | none => false
    | some cur =>
      let mob := macMobility path
      let curSeq := (cur.map MacMobility.seq).getD 0
      let newSeq := (mob.map MacMobility.seq).getD 0
      let stale := newSeq < curSeq
      let stickyBlock := cur.any MacMobility.sticky && !mob.any MacMobility.sticky
      let duplicate := cur.isSome && mob.isSome && newSeq == curSeq &&
        (t.macs[key]?).map RemoteMac.vtep != some path.nextHop
      stale || stickyBlock || duplicate

def removeIfOwner (t : EviTable) (nlri : EvpnNlri) : EviTable × Option EviChange :=
  match nlri with
  | .macIp _ _ ethTag mac _ _ _ =>
    if t.owners[(ethTag, mac)]? = some nlri then
      ({ t with
          owners := t.owners.erase (ethTag, mac)
          mobility := t.mobility.erase (ethTag, mac)
          macs := t.macs.erase (ethTag, mac) },
        (t.macs[(ethTag, mac)]?).map fun _ => .macForgotten ethTag mac)
    else (t, none)
  | .imet _ _ origIp =>
    if t.vtepOwners[origIp]? = some nlri then
      ({ t with vtepOwners := t.vtepOwners.erase origIp, vteps := t.vteps.erase origIp },
        (t.vteps[origIp]?).map fun _ => .vtepRemoved origIp)
    else (t, none)
  | .ipPrefix .. | .unknown .. => (t, none)

def apply (t : EviTable) (ev : EvpnRibEvent) : EviTable × Option EviChange :=
  match ev with
  | .withdrawn nlri => t.removeIfOwner nlri
  | .best nlri path =>
    if imports t.importRts path = false then t.removeIfOwner nlri
    else
      match nlri with
      | .macIp _ _ ethTag mac ip label1 _ =>
        if t.refuses (ethTag, mac) nlri path then (t, none)
        else
          let entry := ⟨path.nextHop, label1, ip, path.srv6Sid.map Srv6ServiceSid.sid, routerMac path⟩
          ({ t with
              macs := t.macs.insert (ethTag, mac) entry
              owners := t.owners.insert (ethTag, mac) nlri
              mobility := t.mobility.insert (ethTag, mac) (macMobility path) },
            if t.macs[(ethTag, mac)]? = some entry then none else some (.macLearned ethTag mac entry))
      | .imet _ _ origIp =>
        let srv6Sid := path.srv6Sid.map Srv6ServiceSid.sid
        ({ t with vteps := t.vteps.insert origIp srv6Sid, vtepOwners := t.vtepOwners.insert origIp nlri },
          if t.vteps[origIp]? = some srv6Sid then none else some (.vtepAdded origIp srv6Sid))
      | .ipPrefix .. | .unknown .. => (t, none)

def lookupMac (t : EviTable) (ethTag : UInt32) (mac : MacAddr) : Option RemoteMac := t.macs[(ethTag, mac)]?

def step (t : EviTable) (ev : EvpnRibEvent) : EviTable := (t.apply ev).1

end EviTable

structure RemotePrefix where
  vtep : IpAddr
  vni : UInt32
  gw : Option IpAddr
  routerMac : Option MacAddr
  srv6Sid : Option (Vector UInt8 16)
deriving DecidableEq

inductive IpVrfChange where
  | prefixLearned (pfx : Prefix) (entry : RemotePrefix)
  | prefixForgotten (pfx : Prefix)
deriving DecidableEq

structure IpVrfTable where
  importRts : List RouteTarget
  prefixes : BTreeMap Prefix RemotePrefix
  owners : BTreeMap Prefix EvpnNlri

def specifiedGw (gw : IpAddr) : Option IpAddr := if gw = .v4 0 ∨ gw = .v6 0 then none else some gw

namespace IpVrfTable

def new (importRts : List RouteTarget) : IpVrfTable := ⟨importRts, ∅, ∅⟩

def removeIfOwner (t : IpVrfTable) (nlri : EvpnNlri) : IpVrfTable × Option IpVrfChange :=
  match nlri with
  | .ipPrefix _ _ _ pfx _ _ =>
    if t.owners[pfx]? ≠ some nlri then (t, none)
    else
      ({ t with owners := t.owners.erase pfx, prefixes := t.prefixes.erase pfx },
        (t.prefixes[pfx]?).map fun _ => .prefixForgotten pfx)
  | .macIp .. | .imet .. | .unknown .. => (t, none)

def apply (t : IpVrfTable) (ev : EvpnRibEvent) : IpVrfTable × Option IpVrfChange :=
  match ev with
  | .withdrawn nlri => t.removeIfOwner nlri
  | .best nlri path =>
    if imports t.importRts path = false then t.removeIfOwner nlri
    else
      match nlri with
      | .ipPrefix _ _ _ pfx gw label =>
        let entry := ⟨path.nextHop, label, specifiedGw gw, routerMac path, path.srv6Sid.map Srv6ServiceSid.sid⟩
        ({ t with prefixes := t.prefixes.insert pfx entry, owners := t.owners.insert pfx nlri },
          if t.prefixes[pfx]? = some entry then none else some (.prefixLearned pfx entry))
      | .macIp .. | .imet .. | .unknown .. => (t, none)

def lookup (t : IpVrfTable) (pfx : Prefix) : Option RemotePrefix := t.prefixes[pfx]?

def step (t : IpVrfTable) (ev : EvpnRibEvent) : IpVrfTable := (t.apply ev).1

end IpVrfTable

/-! ### Owners -/

namespace EvpnNlri

def macKey : EvpnNlri → Option MacKey
  | macIp _ _ ethTag mac _ _ _ => some (ethTag, mac)
  | _ => none

def vtepKey : EvpnNlri → Option IpAddr
  | imet _ _ origIp => some origIp
  | _ => none

def prefixKey : EvpnNlri → Option Prefix
  | ipPrefix _ _ _ pfx _ _ => some pfx
  | _ => none

end EvpnNlri

/-- The NLRI has an imported path from now on. -/
def EvpnRibEvent.Live (rts : List RouteTarget) (ev : EvpnRibEvent) : Prop :=
  ∃ p, ev.path = some p ∧ imports rts p = true

theorem EvpnRibEvent.live_best (rts : List RouteTarget) (n : EvpnNlri) (p : Path) :
    (EvpnRibEvent.best n p).Live rts ↔ imports rts p = true := by
  simp [Live, path]

theorem EvpnRibEvent.not_live_withdrawn (rts : List RouteTarget) (n : EvpnNlri) :
    ¬ (EvpnRibEvent.withdrawn n).Live rts := by
  simp [Live, path]

namespace EviTable

/-- Owners, entries and mobility belong together. -/
structure Coherent (rts : List RouteTarget) (t : EviTable) : Prop where
  importRts : t.importRts = rts
  macs : ∀ k : MacKey, t.macs[k]? = none ↔ t.owners[k]? = none
  mobility : ∀ k : MacKey, t.mobility[k]? = none ↔ t.owners[k]? = none
  vteps : ∀ ip : IpAddr, t.vteps[ip]? = none ↔ t.vtepOwners[ip]? = none

theorem coherent_new (rts : List RouteTarget) : (new rts).Coherent rts :=
  ⟨rfl, by simp [new], by simp [new], by simp [new]⟩

theorem none_iff_insert {κ ν μ : Type} [Ord κ] [TransOrd κ] [LawfulEqOrd κ] [DecidableEq κ] {m : BTreeMap κ ν}
    {o : BTreeMap κ μ} (h : ∀ k : κ, m[k]? = none ↔ o[k]? = none) (a : κ) (v : ν) (w : μ) (k : κ) :
    (m.insert a v)[k]? = none ↔ (o.insert a w)[k]? = none := by
  rw [getElem?_insert, getElem?_insert]
  split_ifs
  · simp
  · exact h k

theorem none_iff_erase {κ ν μ : Type} [Ord κ] [TransOrd κ] [LawfulEqOrd κ] [DecidableEq κ] {m : BTreeMap κ ν}
    {o : BTreeMap κ μ} (h : ∀ k : κ, m[k]? = none ↔ o[k]? = none) (a k : κ) :
    (m.erase a)[k]? = none ↔ (o.erase a)[k]? = none := by
  rw [getElem?_erase, getElem?_erase]
  split_ifs
  · simp
  · exact h k

theorem coherent_removeIfOwner {rts : List RouteTarget} {t : EviTable} (h : t.Coherent rts) (n : EvpnNlri) :
    (t.removeIfOwner n).1.Coherent rts := by
  cases n with
  | macIp rd esi ethTag mac ip label1 label2 =>
    simp only [removeIfOwner]
    split_ifs
    · exact ⟨h.importRts, none_iff_erase h.macs _, none_iff_erase h.mobility _, h.vteps⟩
    · exact h
  | imet rd ethTag origIp =>
    simp only [removeIfOwner]
    split_ifs
    · exact ⟨h.importRts, h.macs, h.mobility, none_iff_erase h.vteps _⟩
    · exact h
  | ipPrefix => exact h
  | unknown => exact h

theorem coherent_step {rts : List RouteTarget} {t : EviTable} (h : t.Coherent rts) (ev : EvpnRibEvent) :
    (t.step ev).Coherent rts := by
  cases ev with
  | withdrawn n => exact coherent_removeIfOwner h n
  | best n p =>
    simp only [step, apply]
    by_cases himp : imports t.importRts p = false
    · rw [if_pos himp]
      exact coherent_removeIfOwner h n
    · rw [if_neg himp]
      cases n with
      | macIp rd esi ethTag mac ip label1 label2 =>
        by_cases href : t.refuses (ethTag, mac) (.macIp rd esi ethTag mac ip label1 label2) p = true
        · simp only [href, if_true]
          exact h
        · simp only [href]
          exact ⟨h.importRts, none_iff_insert h.macs _ _ _, none_iff_insert h.mobility _ _ _, h.vteps⟩
      | imet rd ethTag origIp => exact ⟨h.importRts, h.macs, h.mobility, none_iff_insert h.vteps _ _ _⟩
      | ipPrefix => exact h
      | unknown => exact h

end EviTable

/-- A view that lets an NLRI go gives up its key. -/
theorem moves_remove {κ : Type} [Ord κ] [TransOrd κ] [LawfulEqOrd κ] [DecidableEq κ] (key : EvpnNlri → Option κ)
    {rts : List RouteTarget} {ev : EvpnRibEvent} (hdead : ¬ ev.Live rts) (owners : BTreeMap κ EvpnNlri) {a : κ}
    (ha : key ev.nlri = some a) (k : κ) :
    Owned.Moves key EvpnRibEvent.nlri (·.Live rts) k ev owners[k]?
      (if owners[a]? = some ev.nlri then owners.erase a else owners)[k]? := by
  split_ifs with howner
  · rw [getElem?_erase]
    split_ifs with hk
    · rw [hk, howner]
      exact .released ha hdead
    · refine .other ?_
      rw [ha]
      exact fun h => hk (Option.some.inj h).symm
  · by_cases hk : k = a
    · rw [hk]
      exact .spared hdead howner
    · refine .other ?_
      rw [ha]
      exact fun h => hk (Option.some.inj h).symm

theorem moves_take {κ : Type} [Ord κ] [TransOrd κ] [LawfulEqOrd κ] [DecidableEq κ] {key : EvpnNlri → Option κ}
    {rts : List RouteTarget} {ev : EvpnRibEvent} (hlive : ev.Live rts) {owners : BTreeMap κ EvpnNlri} {a : κ}
    (ha : key ev.nlri = some a) (k : κ) :
    Owned.Moves key EvpnRibEvent.nlri (·.Live rts) k ev owners[k]? (owners.insert a ev.nlri)[k]? := by
  rw [getElem?_insert]
  split_ifs with hk
  · rw [hk]
    exact .taken ha hlive
  · refine .other ?_
    rw [ha]
    exact fun h => hk (Option.some.inj h).symm

theorem moves_other {κ : Type} [Ord κ] [TransOrd κ] {key : EvpnNlri → Option κ} {rts : List RouteTarget}
    {ev : EvpnRibEvent} (owners : BTreeMap κ EvpnNlri) (h : key ev.nlri = none) (k : κ) :
    Owned.Moves key EvpnRibEvent.nlri (·.Live rts) k ev owners[k]? owners[k]? :=
  .other (by simp [h])

namespace EviTable
variable {rts : List RouteTarget} {t : EviTable}

theorem moves_removeIfOwner {ev : EvpnRibEvent} (hdead : ¬ ev.Live rts) :
    (∀ k : MacKey, Owned.Moves EvpnNlri.macKey EvpnRibEvent.nlri (·.Live rts) k ev t.owners[k]?
      (t.removeIfOwner ev.nlri).1.owners[k]?) ∧
    ∀ k : IpAddr, Owned.Moves EvpnNlri.vtepKey EvpnRibEvent.nlri (·.Live rts) k ev t.vtepOwners[k]?
      (t.removeIfOwner ev.nlri).1.vtepOwners[k]? := by
  cases hn : ev.nlri with
  | macIp rd esi ethTag mac ip label1 label2 =>
    constructor
    · intro k
      have h := moves_remove EvpnNlri.macKey hdead t.owners (by rw [hn]; rfl) k
      simp only [removeIfOwner]
      rw [hn] at h
      split_ifs at h ⊢ <;> exact h
    · intro k
      have hsame : (t.removeIfOwner (.macIp rd esi ethTag mac ip label1 label2)).1.vtepOwners = t.vtepOwners := by
        simp only [removeIfOwner]
        split_ifs <;> rfl
      rw [hsame]
      exact moves_other _ (by rw [hn]; rfl) k
  | imet rd ethTag origIp =>
    constructor
    · intro k
      have hsame : (t.removeIfOwner (.imet rd ethTag origIp)).1.owners = t.owners := by
        simp only [removeIfOwner]
        split_ifs <;> rfl
      rw [hsame]
      exact moves_other _ (by rw [hn]; rfl) k
    · intro k
      have h := moves_remove EvpnNlri.vtepKey hdead t.vtepOwners (by rw [hn]; rfl) k
      simp only [removeIfOwner]
      rw [hn] at h
      split_ifs at h ⊢ <;> exact h
  | ipPrefix => exact ⟨moves_other _ (by rw [hn]; rfl), moves_other _ (by rw [hn]; rfl)⟩
  | unknown => exact ⟨moves_other _ (by rw [hn]; rfl), moves_other _ (by rw [hn]; rfl)⟩

/-- How an event moves the owners of a MAC and of a VTEP. -/
theorem moves_step (h : t.Coherent rts) (ev : EvpnRibEvent) :
    (∀ k : MacKey, Owned.Moves EvpnNlri.macKey EvpnRibEvent.nlri (·.Live rts) k ev t.owners[k]?
      (t.step ev).owners[k]?) ∧
    ∀ k : IpAddr, Owned.Moves EvpnNlri.vtepKey EvpnRibEvent.nlri (·.Live rts) k ev t.vtepOwners[k]?
      (t.step ev).vtepOwners[k]? := by
  cases ev with
  | withdrawn n => exact moves_removeIfOwner (EvpnRibEvent.not_live_withdrawn rts n)
  | best n p =>
    simp only [step, apply, h.importRts]
    by_cases himp : imports rts p = false
    · simp only [himp, if_true]
      have hdead : ¬ (EvpnRibEvent.best n p).Live rts := by
        rw [EvpnRibEvent.live_best, himp]
        decide
      exact moves_removeIfOwner hdead
    · have hlive : (EvpnRibEvent.best n p).Live rts := (EvpnRibEvent.live_best rts n p).mpr (by simpa using himp)
      simp only [himp]
      cases n with
      | macIp rd esi ethTag mac ip label1 label2 =>
        by_cases href : t.refuses (ethTag, mac) (.macIp rd esi ethTag mac ip label1 label2) p = true
        · simp only [href, if_true]
          refine ⟨?_, moves_other _ rfl⟩
          intro k
          by_cases hk : k = (ethTag, mac)
          · refine .refused hlive ?_
            rw [ne_eq, ← h.mobility, hk]
            intro hnone
            simp [refuses, hnone] at href
          · refine .other ?_
            exact fun heq => hk (Option.some.inj heq).symm
        · simp only [href]
          exact ⟨moves_take hlive rfl, moves_other _ rfl⟩
      | imet rd ethTag origIp => exact ⟨moves_other _ rfl, moves_take hlive rfl⟩
      | ipPrefix => exact ⟨moves_other _ rfl, moves_other _ rfl⟩
      | unknown => exact ⟨moves_other _ rfl, moves_other _ rfl⟩

end EviTable

namespace IpVrfTable
variable {rts : List RouteTarget} {t : IpVrfTable}

structure Coherent (rts : List RouteTarget) (t : IpVrfTable) : Prop where
  importRts : t.importRts = rts
  prefixes : ∀ k : Prefix, t.prefixes[k]? = none ↔ t.owners[k]? = none

theorem coherent_new (rts : List RouteTarget) : (new rts).Coherent rts := ⟨rfl, by simp [new]⟩

theorem step_removeIfOwner {ev : EvpnRibEvent} (h : t.Coherent rts) (hdead : ¬ ev.Live rts) :
    (t.removeIfOwner ev.nlri).1.Coherent rts ∧
    ∀ k : Prefix, Owned.Moves EvpnNlri.prefixKey EvpnRibEvent.nlri (·.Live rts) k ev t.owners[k]?
      (t.removeIfOwner ev.nlri).1.owners[k]? := by
  cases hn : ev.nlri with
  | ipPrefix rd esi ethTag pfx gw label =>
    by_cases howner : t.owners[pfx]? = some (.ipPrefix rd esi ethTag pfx gw label)
    · simp only [removeIfOwner, howner, ne_eq, not_true_eq_false, if_false]
      refine ⟨⟨h.importRts, EviTable.none_iff_erase h.prefixes _⟩, ?_⟩
      intro k
      have hmove := moves_remove EvpnNlri.prefixKey hdead t.owners (by rw [hn]; rfl) k
      rw [hn, if_pos howner] at hmove
      exact hmove
    · simp only [removeIfOwner, ne_eq, howner, not_false_eq_true, if_true]
      refine ⟨h, ?_⟩
      intro k
      have hmove := moves_remove EvpnNlri.prefixKey hdead t.owners (by rw [hn]; rfl) k
      rw [hn, if_neg howner] at hmove
      exact hmove
  | macIp => exact ⟨h, moves_other _ (by rw [hn]; rfl)⟩
  | imet => exact ⟨h, moves_other _ (by rw [hn]; rfl)⟩
  | unknown => exact ⟨h, moves_other _ (by rw [hn]; rfl)⟩

/-- How an event moves the owner of a prefix. -/
theorem step_spec (h : t.Coherent rts) (ev : EvpnRibEvent) :
    (t.step ev).Coherent rts ∧
    ∀ k : Prefix, Owned.Moves EvpnNlri.prefixKey EvpnRibEvent.nlri (·.Live rts) k ev t.owners[k]?
      (t.step ev).owners[k]? := by
  cases ev with
  | withdrawn n => exact step_removeIfOwner h (EvpnRibEvent.not_live_withdrawn rts n)
  | best n p =>
    simp only [step, apply, h.importRts]
    by_cases himp : imports rts p = false
    · simp only [himp, if_true]
      have hdead : ¬ (EvpnRibEvent.best n p).Live rts := by
        rw [EvpnRibEvent.live_best, himp]
        decide
      exact step_removeIfOwner h hdead
    · have hlive : (EvpnRibEvent.best n p).Live rts := (EvpnRibEvent.live_best rts n p).mpr (by simpa using himp)
      simp only [himp]
      cases n with
      | ipPrefix rd esi ethTag pfx gw label =>
        exact ⟨⟨rfl, EviTable.none_iff_insert h.prefixes _ _ _⟩, moves_take hlive rfl⟩
      | macIp => exact ⟨h, moves_other _ rfl⟩
      | imet => exact ⟨h, moves_other _ rfl⟩
      | unknown => exact ⟨h, moves_other _ rfl⟩

end IpVrfTable
end Wren.Bgp
