import Wren.Lib.Fletcher
import Wren.Lib.Octets
import Wren.Lib.OrdMap

/-! Link-state advertisements of OSPFv2: their header, recency, checksum and wire format. -/

namespace Wren.Ospf
open Octets Std

abbrev Ipv4Addr := BitVec 32

def maxAge : UInt16 := 3600
def maxAgeDiff : UInt16 := 900
def minLsArrival : UInt16 := 1
def maxSequenceNumber : Int32 := 0x7fffffff

inductive LsType where
  | router
  | network
  | summaryNetwork
  | summaryAsbr
  | asExternal
  | nssa
  | opaqueLink
  | opaqueArea
  | opaqueAs
deriving DecidableEq

namespace LsType

def fromU8 (v : UInt8) : Option LsType :=
  if v = 1 then some router
  else if v = 2 then some network
  else if v = 3 then some summaryNetwork
  else if v = 4 then some summaryAsbr
  else if v = 5 then some asExternal
  else if v = 7 then some nssa
  else if v = 9 then some opaqueLink
  else if v = 10 then some opaqueArea
  else if v = 11 then some opaqueAs
  else none

def asU8 : LsType → UInt8
  | router => 1
  | network => 2
  | summaryNetwork => 3
  | summaryAsbr => 4
  | asExternal => 5
  | nssa => 7
  | opaqueLink => 9
  | opaqueArea => 10
  | opaqueAs => 11

theorem fromU8_asU8 (t : LsType) : fromU8 t.asU8 = some t := by
  cases t <;> rfl

theorem asU8_of_fromU8 {v : UInt8} {t : LsType} (h : fromU8 v = some t) : t.asU8 = v := by
  unfold fromU8 at h
  split_ifs at h with h1 h2 h3 h4 h5 h6 h7 h8 h9
  all_goals
    cases h
    symm
    assumption

theorem asU8_injective : Function.Injective asU8 := by
  intro s t h
  have hst := fromU8_asU8 s
  rw [h, fromU8_asU8] at hst
  exact (Option.some.inj hst).symm

/-- In the order of the wire values. -/
instance : Ord LsType := ⟨compareOn asU8⟩

instance : TransOrd LsType := inferInstanceAs (TransCmp (compareOn asU8))

instance : LawfulEqOrd LsType where
  eq_of_compare h := asU8_injective (LawfulEqOrd.eq_of_compare h)

end LsType

abbrev LsaKey := LsType × Ipv4Addr × Ipv4Addr

instance : TransOrd LsaKey := instTransOrdProd

instance : TransOrd (Ipv4Addr × LsaKey) := instTransOrdProd

instance : LawfulBEq LsaKey := inferInstance

structure LsaHeader where
  lsAge : UInt16
  options : UInt8
  lsType : LsType
  linkStateId : Ipv4Addr
  advertisingRouter : Ipv4Addr
  lsSeq : Int32
  lsChecksum : UInt16
  length : UInt16
deriving DecidableEq

def lsaHeaderLen : ℕ := 20

/-- The number in `len` octets of a buffer. -/
def field (buf : List UInt8) (start len : ℕ) : ℕ := value ((buf.drop start).take len)

namespace LsaHeader

def key (h : LsaHeader) : LsaKey := (h.lsType, h.linkStateId, h.advertisingRouter)

/-- Which of two instances is more recent: sequence number, checksum, MaxAge, and last the age, where
small differences do not count. -/
def compareRecency (h other : LsaHeader) : Ordering :=
  match compare h.lsSeq other.lsSeq with
  | .eq =>
    match compare h.lsChecksum other.lsChecksum with
    | .eq =>
      match decide (maxAge ≤ h.lsAge), decide (maxAge ≤ other.lsAge) with
      | true, false => .gt
      | false, true => .lt
      | _, _ =>
        let diff := max h.lsAge.toNat other.lsAge.toNat - min h.lsAge.toNat other.lsAge.toNat
        if diff > maxAgeDiff.toNat then compare other.lsAge h.lsAge else .eq
    | ord => ord
  | ord => ord

def encode (h : LsaHeader) : List UInt8 :=
  digits 2 h.lsAge.toNat ++ [h.options, h.lsType.asU8] ++ digits 4 h.linkStateId.toNat ++
    digits 4 h.advertisingRouter.toNat ++ digits 4 h.lsSeq.toUInt32.toNat ++
    digits 2 h.lsChecksum.toNat ++ digits 2 h.length.toNat

def decode (buf : List UInt8) : Option LsaHeader :=
  if buf.length < lsaHeaderLen then none
  else (LsType.fromU8 (buf.getD 3 0)).map fun lsType =>
    { lsAge := UInt16.ofNat (field buf 0 2)
      options := buf.getD 2 0
      lsType
      linkStateId := BitVec.ofNat 32 (field buf 4 4)
      advertisingRouter := BitVec.ofNat 32 (field buf 8 4)
      lsSeq := (UInt32.ofNat (field buf 12 4)).toInt32
      lsChecksum := UInt16.ofNat (field buf 16 2)
      length := UInt16.ofNat (field buf 18 2) }

end LsaHeader

/-! ### The checksum. The source adds in `i32`, where a block cannot overflow. -/

def modx : ℕ := 4102

/-- Running sums, reduced after each block. -/
def fletcherBlocks : ℕ → List UInt8 → ℕ × ℕ → ℕ × ℕ
  | 0, _, c => c
  | n + 1, region, c =>
    if region.isEmpty then c
    else
      let d := (region.take modx).foldl (fun c b => (c.1 + b.toNat, c.2 + (c.1 + b.toNat))) c
      fletcherBlocks n (region.drop modx) (d.1 % 255, d.2 % 255)

def fletcherSums (region : List UInt8) : ℕ × ℕ := fletcherBlocks region.length region (0, 0)

def fletcher16 (region : List UInt8) (csumOff : ℕ) : List UInt8 × UInt16 :=
  let region := (region.set csumOff 0).set (csumOff + 1) 0
  let c := fletcherSums region
  let x := Int.tmod (((region.length : ℤ) - csumOff - 1) * c.1 - c.2) 255
  let x := if x ≤ 0 then x + 255 else x
  let y := 510 - c.1 - x
  let y := if y > 255 then y - 255 else y
  ((region.set csumOff (UInt8.ofNat x.toNat)).set (csumOff + 1) (UInt8.ofNat y.toNat),
    UInt16.ofNat (x.toNat * 256 + y.toNat % 256))

def fletcher16Valid (region : List UInt8) : Bool :=
  let c := fletcherSums region
  c.1 == 0 && c.2 == 0

def lsaCsumOffset : ℕ := 14

/-- The age is not covered. -/
def stampChecksum (lsa : List UInt8) : List UInt8 :=
  lsa.take 2 ++ (fletcher16 (lsa.drop 2) lsaCsumOffset).1

def checksumValid (lsa : List UInt8) : Bool :=
  decide (lsaHeaderLen ≤ lsa.length) && fletcher16Valid (lsa.drop 2)

/-! ### Bodies -/

inductive RouterLinkType where
  | pointToPoint
  | transit
  | stub
  | virtual
deriving DecidableEq

namespace RouterLinkType

def fromU8 (v : UInt8) : Option RouterLinkType :=
  if v = 1 then some pointToPoint
  else if v = 2 then some transit
  else if v = 3 then some stub
  else if v = 4 then some virtual
  else none

def asU8 : RouterLinkType → UInt8
  | pointToPoint => 1
  | transit => 2
  | stub => 3
  | virtual => 4

theorem asU8_of_fromU8 {v : UInt8} {t : RouterLinkType} (h : fromU8 v = some t) : t.asU8 = v := by
  unfold fromU8 at h
  split_ifs at h
  all_goals
    cases h
    symm
    assumption

end RouterLinkType

structure RouterLink where
  linkId : Ipv4Addr
  linkData : Ipv4Addr
  linkType : RouterLinkType
  metric : UInt16
deriving DecidableEq

structure RouterLsa where
  flags : UInt8
  links : List RouterLink
deriving DecidableEq

structure NetworkLsa where
  networkMask : Ipv4Addr
  attachedRouters : List Ipv4Addr
deriving DecidableEq

structure SummaryLsa where
  networkMask : Ipv4Addr
  metric : UInt32
deriving DecidableEq

structure AsExternalLsa where
  networkMask : Ipv4Addr
  externalType2 : Bool
  metric : UInt32
  forwardingAddress : Ipv4Addr
  routeTag : UInt32
deriving DecidableEq

inductive LsaBody where
  | router (r : RouterLsa)
  | network (n : NetworkLsa)
  | summary (s : SummaryLsa)
  | asExternal (e : AsExternalLsa)
  | opq (data : List UInt8)
deriving DecidableEq

def ipv4Octets (a : Ipv4Addr) : List UInt8 := digits 4 a.toNat

def ipv4At (b : List UInt8) (start : ℕ) : Ipv4Addr := BitVec.ofNat 32 (field b start 4)

def RouterLink.encode (l : RouterLink) : List UInt8 :=
  ipv4Octets l.linkId ++ ipv4Octets l.linkData ++ [l.linkType.asU8, 0] ++ digits 2 l.metric.toNat

def encodeRouter (r : RouterLsa) : List UInt8 :=
  [r.flags, 0] ++ digits 2 r.links.length ++ r.links.flatMap RouterLink.encode

/-- The links of a Router-LSA. Their TOS metrics are skipped. -/
def decodeLinks : ℕ → List UInt8 → Option (List RouterLink)
  | 0, _ => some []
  | n + 1, b =>
    if b.length < 12 then none
    else do
      let linkType ← RouterLinkType.fromU8 (b.getD 8 0)
      let size := 12 + (b.getD 9 0).toNat * 4
      if b.length < size then none
      else do
        let links ← decodeLinks n (b.drop size)
        return ⟨ipv4At b 0, ipv4At b 4, linkType, UInt16.ofNat (field b 10 2)⟩ :: links

def decodeRouter (b : List UInt8) : Option RouterLsa :=
  if b.length < 4 then none
  else (decodeLinks (field b 2 2) (b.drop 4)).map fun links => ⟨b.getD 0 0, links⟩

def encodeNetwork (n : NetworkLsa) : List UInt8 :=
  ipv4Octets n.networkMask ++ n.attachedRouters.flatMap ipv4Octets

def decodeNetwork (b : List UInt8) : Option NetworkLsa :=
  if b.length < 4 ∨ (b.length - 4) % 4 ≠ 0 then none
  else some ⟨ipv4At b 0, (chunksExact 4 (b.drop 4)).map (ipv4At · 0)⟩

def encodeSummary (s : SummaryLsa) : List UInt8 :=
  ipv4Octets s.networkMask ++ [0] ++ digits 3 s.metric.toNat

def decodeSummary (b : List UInt8) : Option SummaryLsa :=
  if b.length < 8 then none
  else some ⟨ipv4At b 0, UInt32.ofNat (field b 5 3)⟩

def encodeExternal (e : AsExternalLsa) : List UInt8 :=
  ipv4Octets e.networkMask ++ [if e.externalType2 then 0x80 else 0] ++ digits 3 e.metric.toNat ++
    ipv4Octets e.forwardingAddress ++ digits 4 e.routeTag.toNat

def decodeExternal (b : List UInt8) : Option AsExternalLsa :=
  if b.length < 16 then none
  else some
    { networkMask := ipv4At b 0
      externalType2 := b.getD 4 0 &&& 0x80 ≠ 0
      metric := UInt32.ofNat (field b 5 3)
      forwardingAddress := ipv4At b 8
      routeTag := UInt32.ofNat (field b 12 4) }

namespace LsaBody

def encode : LsaBody → List UInt8
  | router r => encodeRouter r
  | network n => encodeNetwork n
  | summary s => encodeSummary s
  | asExternal e => encodeExternal e
  | opq data => data

def decode (lsType : LsType) (b : List UInt8) : Option LsaBody :=
  match lsType with
  | .router => (decodeRouter b).map router
  | .network => (decodeNetwork b).map network
  | .summaryNetwork | .summaryAsbr => (decodeSummary b).map summary
  | .asExternal | .nssa => (decodeExternal b).map asExternal
  | .opaqueLink | .opaqueArea | .opaqueAs => some (opq b)

end LsaBody

structure Lsa where
  header : LsaHeader
  body : LsaBody
deriving DecidableEq

namespace Lsa

def key (l : Lsa) : LsaKey := l.header.key

/-- Length and checksum are those of the octets, whatever the header says. -/
def encode (l : Lsa) : List UInt8 :=
  let out := l.header.encode ++ l.body.encode
  let out := out.take 18 ++ digits 2 out.length ++ out.drop 20
  stampChecksum out

/-- Length and checksum of the encoded form, filled in. -/
def stamp (l : Lsa) : Lsa :=
  { l with header := { l.header with
      lsChecksum := UInt16.ofNat (field l.encode 16 2)
      length := UInt16.ofNat (field l.encode 18 2) } }

/-- The LSA at the front, and the octets it takes. -/
def decode (buf : List UInt8) : Option (Lsa × ℕ) := do
  let header ← LsaHeader.decode buf
  let len := header.length.toNat
  if len < lsaHeaderLen ∨ buf.length < len then none
  else do
    let body ← LsaBody.decode header.lsType ((buf.take len).drop lsaHeaderLen)
    return (⟨header, body⟩, len)

end Lsa
end Wren.Ospf
