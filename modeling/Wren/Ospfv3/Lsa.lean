import Wren.Core.Prefix
import Wren.Ospf.Flood

/-! Link-state advertisements of OSPFv3, the database that keeps those of one flooding scope, and the flooding decision. -/

namespace Wren.Ospfv3
open OrdMap Std
open Wren.Ospf (Ipv4Addr maxAge maxAgeDiff minLsArrival maxSequenceNumber Install DiscardReason FloodDecision FloodInput)

abbrev Ipv6Addr := BitVec 128

inductive Scope where
  | linkLocal
  | area
  | as
  | reserved
deriving DecidableEq

inductive LsType where
  | router
  | network
  | interAreaPrefix
  | interAreaRouter
  | asExternal
  | link
  | intraAreaPrefix
  | unknown (v : UInt16)
deriving DecidableEq

namespace LsType

def fromU16 (v : UInt16) : LsType :=
  if v = 0x2001 then router
  else if v = 0x2002 then network
  else if v = 0x2003 then interAreaPrefix
  else if v = 0x2004 then interAreaRouter
  else if v = 0x4005 then asExternal
  else if v = 0x0008 then link
  else if v = 0x2009 then intraAreaPrefix
  else unknown v

def asU16 : LsType → UInt16
  | router => 0x2001
  | network => 0x2002
  | interAreaPrefix => 0x2003
  | interAreaRouter => 0x2004
  | asExternal => 0x4005
  | link => 0x0008
  | intraAreaPrefix => 0x2009
  | unknown v => v

def scope (t : LsType) : Scope :=
  let bits := (t.asU16 >>> 13) &&& 3
  if bits = 0 then .linkLocal
  else if bits = 1 then .area
  else if bits = 2 then .as
  else .reserved

/-- The place in the declaration, by which the types are ordered. -/
def index : LsType → ℕ
  | router => 0
  | network => 1
  | interAreaPrefix => 2
  | interAreaRouter => 3
  | asExternal => 4
  | link => 5
  | intraAreaPrefix => 6
  | unknown v => 7 + v.toNat

theorem index_injective : Function.Injective index := by
  intro s t h
  cases s <;> cases t <;> simp only [index, reduceCtorEq] at h ⊢ <;> try omega
  exact congrArg unknown (UInt16.toNat_inj.mp (by omega))

instance : Ord LsType := ⟨compareOn index⟩

instance : TransOrd LsType := inferInstanceAs (TransCmp (compareOn index))

instance : LawfulEqOrd LsType where
  eq_of_compare h := index_injective (LawfulEqOrd.eq_of_compare h)

end LsType

abbrev LsaKey := LsType × Ipv4Addr × Ipv4Addr

instance : TransOrd LsaKey := instTransOrdProd

structure LsaHeader where
  lsAge : UInt16
  lsType : LsType
  linkStateId : Ipv4Addr
  advertisingRouter : Ipv4Addr
  lsSeq : Int32
  lsChecksum : UInt16
  length : UInt16
deriving DecidableEq

namespace LsaHeader

def key (h : LsaHeader) : LsaKey := (h.lsType, h.linkStateId, h.advertisingRouter)

def compareRecency (h other : LsaHeader) : Ordering :=
  match compare h.lsSeq other.lsSeq with
  | .eq =>
    match compare h.lsChecksum other.lsChecksum with
    | .eq =>
      match decide (maxAge ≤ h.lsAge), decide (maxAge ≤ other.lsAge) with
      | true, false => .gt
      | false, true => .lt
      | _, _ =>
        let diff := max h.lsAge.toNat other.lsAge.toNat - min h.lsAge.toNat other.lsAge.toNat
        if diff > maxAgeDiff.toNat then compare other.lsAge h.lsAge else .eq
    | ord => ord
  | ord => ord

end LsaHeader

/-! ### Bodies -/

/-- The prefix is left out of unicast calculations. -/
def prefixNu : UInt8 := 0x01

/-- A prefix as an LSA carries it, with its high-order octets only. -/
structure Prefix where
  length : UInt8
  options : UInt8
  address : List UInt8
deriving DecidableEq

/-- The base address, padded with zeros. -/
def Prefix.ipv6 (p : Prefix) : Ipv6Addr :=
  BitVec.ofNat 128 (Octets.value (p.address.take 16 ++ List.replicate (16 - p.address.length) 0))

inductive RouterLinkType where
  | pointToPoint
  | transit
  | virtual
deriving DecidableEq

/-- Topology only: interface IDs and the Router ID of the neighbour, or of the DR on a transit link. -/
structure RouterLink where
  linkType : RouterLinkType
  metric : UInt16
  interfaceId : UInt32
  neighborInterfaceId : UInt32
  neighborRouterId : Ipv4Addr
deriving DecidableEq

structure RouterLsa where
  flags : UInt8
  options : UInt32
  links : List RouterLink
deriving DecidableEq

structure NetworkLsa where
  options : UInt32
  attachedRouters : List Ipv4Addr
deriving DecidableEq

structure InterAreaPrefixLsa where
  metric : UInt32
  pfx : Prefix
deriving DecidableEq

structure InterAreaRouterLsa where
  options : UInt32
  metric : UInt32
  destinationRouterId : Ipv4Addr
deriving DecidableEq

structure AsExternalLsa where
  externalType2 : Bool
  metric : UInt32
  pfx : Prefix
  forwardingAddress : Option Ipv6Addr
  routeTag : Option UInt32
  referencedLsType : UInt16
  referencedLinkStateId : Option Ipv4Addr
deriving DecidableEq

structure LinkLsa where
  routerPriority : UInt8
  options : UInt32
  linkLocalAddress : Ipv6Addr
  prefixes : List Prefix
deriving DecidableEq

structure IntraPrefix where
  metric : UInt16
  pfx : Prefix
deriving DecidableEq

/-- Prefixes that belong to a Router-LSA or a Network-LSA. -/
structure IntraAreaPrefixLsa where
  referencedLsType : UInt16
  referencedLinkStateId : Ipv4Addr
  referencedAdvertisingRouter : Ipv4Addr
  prefixes : List IntraPrefix
deriving DecidableEq

inductive LsaBody where
  | router (r : RouterLsa)
  | network (n : NetworkLsa)
  | interAreaPrefix (p : InterAreaPrefixLsa)
  | interAreaRouter (r : InterAreaRouterLsa)
  | asExternal (e : AsExternalLsa)
  | link (l : LinkLsa)
  | intraAreaPrefix (p : IntraAreaPrefixLsa)
  | unknown (raw : List UInt8)
deriving DecidableEq

structure Lsa where
  header : LsaHeader
  body : LsaBody
deriving DecidableEq

def Lsa.key (l : Lsa) : LsaKey := l.header.key

/-- Every LSA is stored under its key. -/
structure Lsdb where
  entries : BTreeMap LsaKey Lsa
  key_eq : ∀ (k : LsaKey) (l : Lsa), entries[k]? = some l → l.key = k

namespace Lsdb

def new : Lsdb where
  entries := ∅
  key_eq k l h := by simp at h

def get (db : Lsdb) (k : LsaKey) : Option Lsa := db.entries[k]?

def put (db : Lsdb) (l : Lsa) : Lsdb where
  entries := db.entries.insert l.key l
  key_eq k m h := by
    rw [getElem?_insert] at h
    split_ifs at h with hk
    · cases h
      exact hk.symm
    · exact db.key_eq k m h

def len (db : Lsdb) : ℕ := db.entries.size

def iterType (db : Lsdb) (t : LsType) : List Lsa := (db.entries.toList.filter fun e => e.1.1 = t).map Prod.snd

theorem get_put (db : Lsdb) (l : Lsa) (k : LsaKey) : (db.put l).get k = if k = l.key then some l else db.get k :=
  getElem?_insert _ _ _ _

@[simp] theorem get_new (k : LsaKey) : new.get k = none := by
  simp [get, new]

theorem mem_iterType {db : Lsdb} {t : LsType} {l : Lsa} :
    l ∈ db.iterType t ↔ l.header.lsType = t ∧ db.get l.key = some l := by
  simp only [iterType, List.mem_map, List.mem_filter, decide_eq_true_eq]
  constructor
  · rintro ⟨⟨k, m⟩, ⟨hmem, ht⟩, rfl⟩
    have hget : db.get k = some m := ExtTreeMap.mem_toList_iff_getElem?_eq_some.mp hmem
    have hkey := db.key_eq k m hget
    rw [← hkey] at hget ht
    exact ⟨ht, hget⟩
  · rintro ⟨ht, hget⟩
    exact ⟨(l.key, l), ⟨ExtTreeMap.mem_toList_iff_getElem?_eq_some.mpr hget, ht⟩, rfl⟩

end Lsdb

/-! ### Offering LSAs to the database, aging it, and the flooding decision -/

def Lsa.withAge (l : Lsa) (age : UInt16) : Lsa := { l with header := { l.header with lsAge := age } }

namespace Lsdb

def header (db : Lsdb) (k : LsaKey) : Option LsaHeader := (db.get k).map Lsa.header

/-- Offer an LSA, as it is. It is kept if it is more recent than the instance held. -/
def install (db : Lsdb) (lsa : Lsa) : Lsdb × Install :=
  match db.get lsa.key with
  | none => (db.put lsa, .new)
  | some existing =>
    match lsa.header.compareRecency existing.header with
    | .gt => (db.put lsa, .newer)
    | .eq => (db, .same)
    | .lt => (db, .haveNewer)

def remove (db : Lsdb) (k : LsaKey) : Lsdb where
  entries := db.entries.erase k
  key_eq a l h := by
    rw [getElem?_erase] at h
    split_ifs at h
    exact db.key_eq a l h

def ageBy (secs : UInt16) (l : Lsa) : Lsa :=
  l.withAge (min (UInt16.ofNat (min (l.header.lsAge.toNat + secs.toNat) 65535)) maxAge)

/-- Every LSA gets older, and those that reach MaxAge by it are to be flushed. -/
def age (db : Lsdb) (secs : UInt16) : Lsdb × List LsaKey :=
  ({ entries := db.entries.map fun _ l => ageBy secs l
     key_eq := by
      intro k l h
      rw [ExtTreeMap.getElem?_map] at h
      obtain ⟨m, hm, rfl⟩ := Option.map_eq_some_iff.mp h
      exact db.key_eq k m hm },
    (db.entries.toList.filter fun e =>
      e.2.header.lsAge < maxAge ∧ maxAge ≤ (ageBy secs e.2).header.lsAge).map Prod.fst)

theorem get_age (db : Lsdb) (secs : UInt16) (k : LsaKey) : (db.age secs).1.get k = (db.get k).map (ageBy secs) :=
  ExtTreeMap.getElem?_map

theorem get_remove (db : Lsdb) (k a : LsaKey) : (db.remove k).get a = if a = k then none else db.get a :=
  getElem?_erase _ _ _

/-- After an offer the database holds the LSA where there was none or an older one. -/
theorem get_install (db : Lsdb) (lsa : Lsa) (k : LsaKey) :
    (db.install lsa).1.get k =
      if k = lsa.key ∧ ∀ l, db.get k = some l → lsa.header.compareRecency l.header = .gt then some lsa
      else db.get k := by
  unfold install
  by_cases hk : k = lsa.key
  · subst hk
    cases hget : db.get lsa.key with
    | none => simp [get_put]
    | some existing =>
      cases hcmp : lsa.header.compareRecency existing.header with
      | lt => simp [hget, hcmp]
      | eq => simp [hget, hcmp]
      | gt => simp [get_put, hcmp]
  · have hput : (db.put lsa).get k = db.get k := by rw [get_put, if_neg hk]
    rw [if_neg (fun h => hk h.1)]
    cases db.get lsa.key with
    | none => exact hput
    | some existing =>
      cases hcmp : lsa.header.compareRecency existing.header with
      | lt => simp [hcmp]
      | eq => simp [hcmp]
      | gt =>
        simp only [hcmp]
        exact hput

end Lsdb

def decideFlood (lsdb : Lsdb) (received : Lsa) (input : FloodInput) : FloodDecision :=
  let db := lsdb.header received.key
  if maxAge ≤ received.header.lsAge ∧ db = none ∧ input.anyNeighborExchanging = false then .directAck
  else
    let selfOriginated := received.header.advertisingRouter == input.selfRouterId
    match db with
    | none => .install selfOriginated
    | some dbHdr =>
      match received.header.compareRecency dbHdr with
      | .gt =>
        if ∃ since ∈ input.dbCopyAgeSinceInstall, since < minLsArrival then .discard .minLsArrival
        else .install selfOriginated
      | .eq =>
        if input.onRequestList then .badLsReq
        else if input.onRetransmitList then .impliedAck
        else .directAck
      | .lt =>
        if input.onRequestList then .badLsReq
        else if maxAge ≤ dbHdr.lsAge ∧ dbHdr.lsSeq = maxSequenceNumber then .discard .maxSeqWrap
        else .sendBack

end Wren.Ospfv3
