import Wren.Ospf.Checksum
import Wren.Ospfv3.Lsa

/-! The octets of an LSA of OSPFv3. Length and checksum are filled in when it is encoded, whatever its header says. -/

namespace Wren.Ospfv3
open Octets
open Wren.Ospf (Ipv4Addr lsaHeaderLen field stampChecksum ipv4Octets ipv4At octet fill_eq field_between)

namespace LsaHeader

def encode (h : LsaHeader) : List UInt8 :=
  digits 2 h.lsAge.toNat ++ digits 2 h.lsType.asU16.toNat ++ digits 4 h.linkStateId.toNat ++
    digits 4 h.advertisingRouter.toNat ++ digits 4 h.lsSeq.toUInt32.toNat ++ digits 2 h.lsChecksum.toNat ++
    digits 2 h.length.toNat

def decode (buf : List UInt8) : Option LsaHeader :=
  if buf.length < lsaHeaderLen then none
  else some
    { lsAge := UInt16.ofNat (field buf 0 2)
      lsType := .fromU16 (UInt16.ofNat (field buf 2 2))
      linkStateId := ipv4At buf 4
      advertisingRouter := ipv4At buf 8
      lsSeq := (UInt32.ofNat (field buf 12 4)).toInt32
      lsChecksum := UInt16.ofNat (field buf 16 2)
      length := UInt16.ofNat (field buf 18 2) }

end LsaHeader

/-! ### Prefixes -/

/-- The significant bits, rounded up to words of 32. -/
def prefixAddrBytes (length : UInt8) : ℕ := (length.toNat + 31) / 32 * 4

namespace Prefix

/-- Two octets between the options and the address vary with the LSA. -/
def encode (p : Prefix) (mid : UInt16) : List UInt8 := [p.length, p.options] ++ digits 2 mid.toNat ++ p.address

/-- The prefix at the front, the two octets within, and how many octets it takes. -/
def decode (b : List UInt8) : Option (Prefix × UInt16 × ℕ) :=
  if b.length < 4 then none
  else
    let n := prefixAddrBytes (b.getD 0 0)
    if n > 16 ∨ b.length < 4 + n then none
    else some (⟨b.getD 0 0, b.getD 1 0, (b.drop 4).take n⟩, UInt16.ofNat (field b 2 2), 4 + n)

/-- A number of prefixes, one after another. -/
def decodeMany : ℕ → List UInt8 → Option (List (Prefix × UInt16))
  | 0, _ => some []
  | n + 1, b => do
    let (pfx, mid, used) ← decode b
    let rest ← decodeMany n (b.drop used)
    return (pfx, mid) :: rest

end Prefix

/-! ### Bodies -/

namespace RouterLinkType

def fromU8 (v : UInt8) : Option RouterLinkType :=
  if v = 1 then some pointToPoint
  else if v = 2 then some transit
  else if v = 4 then some virtual
  else none

def asU8 : RouterLinkType → UInt8
  | pointToPoint => 1
  | transit => 2
  | virtual => 4

end RouterLinkType

def putU24 (v : UInt32) : List UInt8 := digits 3 v.toNat

def getU24 (b : List UInt8) (start : ℕ) : UInt32 := UInt32.ofNat (field b start 3)

def ipv6Octets (a : Ipv6Addr) : List UInt8 := digits 16 a.toNat

def ipv6At (b : List UInt8) (start : ℕ) : Ipv6Addr := BitVec.ofNat 128 (field b start 16)

def RouterLink.encode (l : RouterLink) : List UInt8 :=
  [l.linkType.asU8, 0] ++ digits 2 l.metric.toNat ++ digits 4 l.interfaceId.toNat ++
    digits 4 l.neighborInterfaceId.toNat ++ ipv4Octets l.neighborRouterId

def RouterLink.decode (b : List UInt8) : Option RouterLink :=
  (RouterLinkType.fromU8 (b.getD 0 0)).map fun linkType =>
    { linkType
      metric := UInt16.ofNat (field b 2 2)
      interfaceId := UInt32.ofNat (field b 4 4)
      neighborInterfaceId := UInt32.ofNat (field b 8 4)
      neighborRouterId := ipv4At b 12 }

def encodeRouter (r : RouterLsa) : List UInt8 := r.flags :: putU24 r.options ++ r.links.flatMap RouterLink.encode

def decodeRouter (b : List UInt8) : Option RouterLsa :=
  if b.length < 4 ∨ (b.length - 4) % 16 ≠ 0 then none
  else ((chunksExact 16 (b.drop 4)).mapM RouterLink.decode).map fun links => ⟨b.getD 0 0, getU24 b 1, links⟩

def encodeNetwork (n : NetworkLsa) : List UInt8 := 0 :: putU24 n.options ++ n.attachedRouters.flatMap ipv4Octets

def decodeNetwork (b : List UInt8) : Option NetworkLsa :=
  if b.length < 4 ∨ (b.length - 4) % 4 ≠ 0 then none
  else some ⟨getU24 b 1, (chunksExact 4 (b.drop 4)).map (ipv4At · 0)⟩

def encodeInterAreaPrefix (p : InterAreaPrefixLsa) : List UInt8 := 0 :: putU24 p.metric ++ p.pfx.encode 0

def decodeInterAreaPrefix (b : List UInt8) : Option InterAreaPrefixLsa :=
  if b.length < 4 then none
  else (Prefix.decode (b.drop 4)).map fun d => ⟨getU24 b 1, d.1⟩

def encodeInterAreaRouter (r : InterAreaRouterLsa) : List UInt8 :=
  0 :: putU24 r.options ++ 0 :: putU24 r.metric ++ ipv4Octets r.destinationRouterId

def decodeInterAreaRouter (b : List UInt8) : Option InterAreaRouterLsa :=
  if b.length < 12 then none
  else some ⟨getU24 b 1, getU24 b 5, ipv4At b 8⟩

def extFlagE : UInt8 := 0x04

def extFlagF : UInt8 := 0x02

def extFlagT : UInt8 := 0x01

def encodeAsExternal (e : AsExternalLsa) : List UInt8 :=
  let flags := (if e.externalType2 then extFlagE else 0) ||| (if e.forwardingAddress.isSome then extFlagF else 0) |||
    (if e.routeTag.isSome then extFlagT else 0)
  flags :: putU24 e.metric ++ e.pfx.encode e.referencedLsType ++
    (e.forwardingAddress.map ipv6Octets).getD [] ++
    (e.routeTag.map fun tag => digits 4 tag.toNat).getD [] ++
    (if e.referencedLsType ≠ 0 then ipv4Octets (e.referencedLinkStateId.getD 0) else [])

/-- What is there only where something says so: nothing, or what `read` finds in the next octets. -/
def optionalField {α : Type} (present : Bool) (b : List UInt8) (start len : ℕ) (read : List UInt8 → ℕ → α) :
    Option (Option α × ℕ) :=
  if !present then some (none, start)
  else if b.length < start + len then none
  else some (some (read b start), start + len)

def decodeAsExternal (b : List UInt8) : Option AsExternalLsa :=
  if b.length < 4 then none
  else do
    let flags := b.getD 0 0
    let (pfx, referencedLsType, used) ← Prefix.decode (b.drop 4)
    let (forwardingAddress, p) ← optionalField (flags &&& extFlagF ≠ 0) b (4 + used) 16 ipv6At
    let (routeTag, p) ← optionalField (flags &&& extFlagT ≠ 0) b p 4 fun b s => UInt32.ofNat (field b s 4)
    let (referencedLinkStateId, _) ← optionalField (referencedLsType ≠ 0) b p 4 ipv4At
    return ⟨flags &&& extFlagE ≠ 0, getU24 b 1, pfx, forwardingAddress, routeTag, referencedLsType,
      referencedLinkStateId⟩

def encodeLink (l : LinkLsa) : List UInt8 :=
  l.routerPriority :: putU24 l.options ++ ipv6Octets l.linkLocalAddress ++ digits 4 l.prefixes.length ++
    l.prefixes.flatMap fun p => p.encode 0

def decodeLink (b : List UInt8) : Option LinkLsa :=
  if b.length < 24 then none
  else (Prefix.decodeMany (field b 20 4) (b.drop 24)).map fun ps =>
    ⟨b.getD 0 0, getU24 b 1, ipv6At b 4, ps.map Prod.fst⟩

def encodeIntraAreaPrefix (p : IntraAreaPrefixLsa) : List UInt8 :=
  digits 2 p.prefixes.length ++ digits 2 p.referencedLsType.toNat ++ ipv4Octets p.referencedLinkStateId ++
    ipv4Octets p.referencedAdvertisingRouter ++ p.prefixes.flatMap fun e => e.pfx.encode e.metric

def decodeIntraAreaPrefix (b : List UInt8) : Option IntraAreaPrefixLsa :=
  if b.length < 12 then none
  else (Prefix.decodeMany (field b 0 2) (b.drop 12)).map fun ps =>
    ⟨UInt16.ofNat (field b 2 2), ipv4At b 4, ipv4At b 8, ps.map fun e => ⟨e.2, e.1⟩⟩

namespace LsaBody

/-- The type that goes with a body. An unknown body does not say it. -/
def lsType : LsaBody → LsType
  | router _ => .router
  | network _ => .network
  | interAreaPrefix _ => .interAreaPrefix
  | interAreaRouter _ => .interAreaRouter
  | asExternal _ => .asExternal
  | link _ => .link
  | intraAreaPrefix _ => .intraAreaPrefix
  | unknown _ => .unknown 0

def encode : LsaBody → List UInt8
  | router r => encodeRouter r
  | network n => encodeNetwork n
  | interAreaPrefix p => encodeInterAreaPrefix p
  | interAreaRouter r => encodeInterAreaRouter r
  | asExternal e => encodeAsExternal e
  | link l => encodeLink l
  | intraAreaPrefix p => encodeIntraAreaPrefix p
  | unknown raw => raw

def decode (t : LsType) (b : List UInt8) : Option LsaBody :=
  match t with
  | .router => (decodeRouter b).map router
  | .network => (decodeNetwork b).map network
  | .interAreaPrefix => (decodeInterAreaPrefix b).map interAreaPrefix
  | .interAreaRouter => (decodeInterAreaRouter b).map interAreaRouter
  | .asExternal => (decodeAsExternal b).map asExternal
  | .link => (decodeLink b).map link
  | .intraAreaPrefix => (decodeIntraAreaPrefix b).map intraAreaPrefix
  | .unknown _ => some (unknown b)

end LsaBody

namespace Lsa

def encode (l : Lsa) : List UInt8 :=
  let out := l.header.encode ++ l.body.encode
  stampChecksum (out.take 18 ++ digits 2 out.length ++ out.drop 20)

/-- The LSA at the front, and the octets it takes. -/
def decode (buf : List UInt8) : Option (Lsa × ℕ) := do
  let header ← LsaHeader.decode buf
  let len := header.length.toNat
  if len < lsaHeaderLen ∨ buf.length < len then none
  else do
    let body ← LsaBody.decode header.lsType ((buf.take len).drop lsaHeaderLen)
    return (⟨header, body⟩, len)

end Lsa

theorem LsType.fromU16_asU16 (b : LsaBody) : LsType.fromU16 b.lsType.asU16 = b.lsType := by
  cases b <;> rfl

/-- The octets of a header that the checksum covers, up to the checksum itself. -/
def LsaHeader.cover (h : LsaHeader) : List UInt8 :=
  digits 2 h.lsType.asU16.toNat ++ digits 4 h.linkStateId.toNat ++ digits 4 h.advertisingRouter.toNat ++
    digits 4 h.lsSeq.toUInt32.toNat

@[simp] theorem LsaHeader.length_cover (h : LsaHeader) : h.cover.length = 14 := by
  simp [cover]

theorem LsaHeader.encode_eq (h : LsaHeader) :
    h.encode = digits 2 h.lsAge.toNat ++ (h.cover ++ (digits 2 h.lsChecksum.toNat ++ digits 2 h.length.toNat)) := by
  simp [encode, cover]

theorem ofNat_digits2 (v : UInt16) : UInt16.ofNat (value (digits 2 v.toNat)) = v := by
  rw [value_digits_of_lt v.toNat_lt, UInt16.ofNat_toNat]

theorem ofNat_digits4 (a : Ipv4Addr) : BitVec.ofNat 32 (value (digits 4 a.toNat)) = a :=
  ofNat_value_digits a (by norm_num)

theorem toInt32_digits4 (v : Int32) : (UInt32.ofNat (value (digits 4 v.toUInt32.toNat))).toInt32 = v := by
  rw [value_digits_of_lt v.toUInt32.toNat_lt, UInt32.ofNat_toNat, Int32.toInt32_toUInt32]

namespace Lsa

theorem header_of_decode {buf : List UInt8} {m : Lsa} {n : ℕ} (h : decode buf = some (m, n)) :
    LsaHeader.decode buf = some m.header := by
  unfold decode at h
  cases hheader : LsaHeader.decode buf with
  | none =>
    rw [hheader] at h
    cases h
  | some header =>
    simp only [hheader, Option.bind_eq_bind, Option.bind_some] at h
    split_ifs at h
    obtain ⟨body, -, heq⟩ := Option.bind_eq_some_iff.mp h
    cases heq
    rfl

/-- The fields of an LSA on the wire. -/
theorem fields_encode (l : Lsa) :
    ∃ x y : UInt8, x ≠ 0 ∧ field l.encode 0 2 = value (digits 2 l.header.lsAge.toNat) ∧
      field l.encode 2 2 = value (digits 2 l.header.lsType.asU16.toNat) ∧
      field l.encode 4 4 = value (digits 4 l.header.linkStateId.toNat) ∧
      field l.encode 8 4 = value (digits 4 l.header.advertisingRouter.toNat) ∧
      field l.encode 12 4 = value (digits 4 l.header.lsSeq.toUInt32.toNat) ∧
      field l.encode 16 2 = value [x, y] ∧
      field l.encode 18 2 = value (digits 2 (20 + l.body.encode.length)) := by
  obtain ⟨x, y, henc, hx, -, -⟩ := fill_eq (length_digits 2 l.header.lsAge.toNat) l.header.length_cover
    (length_digits 2 l.header.lsChecksum.toNat) (length_digits 2 l.header.length.toNat) (t := l.body.encode)
  rw [← LsaHeader.encode_eq] at henc
  let age := digits 2 l.header.lsAge.toNat
  let type := digits 2 l.header.lsType.asU16.toNat
  let id := digits 4 l.header.linkStateId.toNat
  let router := digits 4 l.header.advertisingRouter.toNat
  let seq := digits 4 l.header.lsSeq.toUInt32.toNat
  let rest := digits 2 (20 + l.body.encode.length) ++ l.body.encode
  have hwire : l.encode = age ++ (type ++ (id ++ (router ++ (seq ++ ([x, y] ++ rest))))) := by
    refine henc.trans ?_
    simp [LsaHeader.cover, age, type, id, router, seq, rest]
  have hage : field l.encode 0 2 = value age := by
    rw [hwire]
    exact field_between (p := []) rfl (length_digits 2 _)
  have htype : field l.encode 2 2 = value type := by
    rw [hwire]
    exact field_between (length_digits 2 _) (length_digits 2 _)
  have hid : field l.encode 4 4 = value id := by
    have hsplit : l.encode = (age ++ type) ++ (id ++ (router ++ (seq ++ ([x, y] ++ rest)))) := by simp [hwire]
    rw [hsplit]
    exact field_between (by simp [age, type]) (length_digits 4 _)
  have hrouter : field l.encode 8 4 = value router := by
    have hsplit : l.encode = (age ++ type ++ id) ++ (router ++ (seq ++ ([x, y] ++ rest))) := by simp [hwire]
    rw [hsplit]
    exact field_between (by simp [age, type, id]) (length_digits 4 _)
  have hseq : field l.encode 12 4 = value seq := by
    have hsplit : l.encode = (age ++ type ++ id ++ router) ++ (seq ++ ([x, y] ++ rest)) := by simp [hwire]
    rw [hsplit]
    exact field_between (by simp [age, type, id, router]) (length_digits 4 _)
  have hcheck : field l.encode 16 2 = value [x, y] := by
    have hsplit : l.encode = (age ++ type ++ id ++ router ++ seq) ++ ([x, y] ++ rest) := by simp [hwire]
    rw [hsplit]
    exact field_between (by simp [age, type, id, router, seq]) rfl
  have hlength : field l.encode 18 2 = value (digits 2 (20 + l.body.encode.length)) := by
    have hsplit : l.encode = (age ++ type ++ id ++ router ++ seq ++ [x, y]) ++
        (digits 2 (20 + l.body.encode.length) ++ l.body.encode) := by
      simp [hwire, rest]
    rw [hsplit]
    exact field_between (by simp [age, type, id, router, seq]) (length_digits 2 _)
  exact ⟨x, y, hx, hage, htype, hid, hrouter, hseq, hcheck, hlength⟩

theorem check_ne_zero {x y : UInt8} (hx : x ≠ 0) : UInt16.ofNat (value [x, y]) ≠ 0 := by
  intro hzero
  have hpos : x.toNat ≠ 0 := fun h0 => hx (UInt8.toNat_inj.mp h0)
  have hvalue : value [x, y] = x.toNat * 256 + y.toNat := by simp [value]
  have hx256 := x.toNat_lt
  have hy256 := y.toNat_lt
  have hnat := congrArg UInt16.toNat hzero
  rw [UInt16.toNat_ofNat', hvalue] at hnat
  have h0 : (0 : UInt16).toNat = 0 := rfl
  omega

theorem ofNat_value_digits2 (n : ℕ) : UInt16.ofNat (value (digits 2 n)) = UInt16.ofNat n := by
  apply UInt16.toNat_inj.mp
  rw [UInt16.toNat_ofNat', UInt16.toNat_ofNat', value_digits]
  omega

/-- The header of an LSA on the wire is its own but for length and checksum, and the checksum is not zero. -/
theorem header_of_decode_encode {l m : Lsa} {n : ℕ} (h : decode l.encode = some (m, n)) :
    ∃ c, c ≠ 0 ∧ m.header = { l.header with
      lsType := .fromU16 l.header.lsType.asU16
      lsChecksum := c
      length := UInt16.ofNat (20 + l.body.encode.length) } := by
  obtain ⟨x, y, hx, hage, htype, hid, hrouter, hseq, hcheck, hlength⟩ := l.fields_encode
  refine ⟨UInt16.ofNat (value [x, y]), check_ne_zero hx, ?_⟩
  have hheader := header_of_decode h
  rw [LsaHeader.decode] at hheader
  split_ifs at hheader
  rw [← Option.some.inj hheader, ipv4At, ipv4At, hage, htype, hid, hrouter, hseq, hcheck, hlength, ofNat_digits2,
    ofNat_digits2, ofNat_digits4, ofNat_digits4, toInt32_digits4, ofNat_value_digits2]

end Lsa
end Wren.Ospfv3
