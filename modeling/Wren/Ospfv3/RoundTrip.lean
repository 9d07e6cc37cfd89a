import Wren.Ospf.RoundTrip
import Wren.Ospfv3.Packet

/-! OSPFv3 packets are read back as they were sent, with and without a trailer. -/

namespace Wren.Ospfv3
open Octets
open Wren.Ospf (Ipv4Addr PacketType DecodeError lsaHeaderLen field checksumValid ipv4Octets ipv4At octet fill_eq
  fields_filled digits_filled checksumValid_of_valid field_append_left field_append_right field_cons_succ field_self
  length_ipv4Octets ipv4At_ipv4Octets digits_mod mapM_chunksExact_flatMap ctEq ctEq_self)

/-! ### Fields -/

section Fields
variable (pre post : List UInt8)

theorem getU24_putU24 {v : UInt32} (h : v.toNat < 2 ^ 24) : getU24 (pre ++ (putU24 v ++ post)) pre.length = v := by
  rw [getU24, field_append_right (le_refl _), Nat.sub_self, putU24, field_append_left (length_digits 3 _),
    Ospf.ofNat_digits3 h]

theorem ipv6At_ipv6Octets (a : Ipv6Addr) : ipv6At (pre ++ (ipv6Octets a ++ post)) pre.length = a := by
  rw [ipv6At, field_append_right (le_refl _), Nat.sub_self, ipv6Octets, field_append_left (length_digits 16 _),
    ofNat_value_digits a (by norm_num)]

theorem ipv4At_append (a : Ipv4Addr) : ipv4At (pre ++ (ipv4Octets a ++ post)) pre.length = a := by
  rw [ipv4At, field_append_right (le_refl _), Nat.sub_self, ipv4Octets, field_append_left (length_digits 4 _),
    ofNat_digits4]

theorem u32_append (v : UInt32) : UInt32.ofNat (field (pre ++ (digits 4 v.toNat ++ post)) pre.length 4) = v := by
  rw [field_append_right (le_refl _), Nat.sub_self, field_append_left (length_digits 4 _), Ospf.ofNat_digits4]

theorem u16_append (v : UInt16) : UInt16.ofNat (field (pre ++ (digits 2 v.toNat ++ post)) pre.length 2) = v := by
  rw [field_append_right (le_refl _), Nat.sub_self, field_append_left (length_digits 2 _), ofNat_digits2]

/-- A field that is there exactly if something says so is read as it was written. -/
theorem optionalField_append {α : Type} {enc : α → List UInt8} {read : List UInt8 → ℕ → α} {len : ℕ}
    (henc : ∀ a, (enc a).length = len)
    (hread : ∀ (pre post : List UInt8) (a : α), read (pre ++ (enc a ++ post)) pre.length = a) (o : Option α) :
    optionalField o.isSome (pre ++ ((o.map enc).getD [] ++ post)) pre.length len read =
      some (o, (pre ++ (o.map enc).getD []).length) := by
  cases o with
  | none => simp [optionalField]
  | some a => simp [optionalField, hread, henc]

end Fields

/-! ### Prefixes -/

namespace Prefix

/-- As many octets as the length takes, and no more bits than an address has. -/
structure WellFormed (p : Prefix) : Prop where
  length_le : p.length.toNat ≤ 128
  address : p.address.length = prefixAddrBytes p.length

theorem length_encode (p : Prefix) (mid : UInt16) : (p.encode mid).length = 4 + p.address.length := by
  simp [encode]
  omega

variable {p : Prefix}

theorem decode_encode (h : p.WellFormed) (mid : UInt16) (r : List UInt8) :
    decode (p.encode mid ++ r) = some (p, mid, (p.encode mid).length) := by
  have hsize : (p.encode mid ++ r).length = 4 + p.address.length + r.length := by
    rw [List.length_append, p.length_encode]
  have hwire : p.encode mid ++ r = [p.length, p.options] ++ (digits 2 mid.toNat ++ (p.address ++ r)) := by
    simp [encode]
  have hmid : UInt16.ofNat (field (p.encode mid ++ r) 2 2) = mid := by
    rw [hwire]
    exact u16_append [p.length, p.options] _ mid
  have haddress : ((p.encode mid ++ r).drop 4).take (prefixAddrBytes p.length) = p.address := by
    have hlead : ([p.length, p.options] ++ digits 2 mid.toNat).length = 4 := by simp
    rw [hwire, ← List.append_assoc, List.drop_left' hlead, List.take_left' h.address]
  have hbits : prefixAddrBytes p.length ≤ 16 := by
    have hle := h.length_le
    rw [prefixAddrBytes]
    omega
  have hlength : (p.encode mid ++ r).getD 0 0 = p.length := by rw [hwire]; rfl
  have hoptions : (p.encode mid ++ r).getD 1 0 = p.options := by rw [hwire]; rfl
  have hfit : ¬ (prefixAddrBytes p.length > 16 ∨ (p.encode mid ++ r).length < 4 + prefixAddrBytes p.length) := by
    rw [hsize, ← h.address] at *
    omega
  rw [decode, if_neg (by omega)]
  simp only [hlength, hoptions, hmid, haddress]
  rw [if_neg hfit, p.length_encode, h.address]

/-- Counted prefixes, each with the two octets that go with it. -/
theorem decodeMany_encode {α : Type} {pfx : α → Prefix} {mid : α → UInt16} {l : List α}
    (h : ∀ a ∈ l, (pfx a).WellFormed) :
    decodeMany l.length (l.flatMap fun a => (pfx a).encode (mid a)) = some (l.map fun a => (pfx a, mid a)) := by
  induction l with
  | nil => rfl
  | cons a l ih =>
    have hrest := ih fun b hb => h b (List.mem_cons_of_mem _ hb)
    rw [List.flatMap_cons, List.length_cons, decodeMany, decode_encode (h a List.mem_cons_self)]
    simp [hrest]

theorem length_le_flatMap {α : Type} (pfx : α → Prefix) (mid : α → UInt16) (l : List α) :
    l.length * 4 ≤ (l.flatMap fun a => (pfx a).encode (mid a)).length := by
  induction l with
  | nil => simp
  | cons a l ih =>
    rw [List.flatMap_cons, List.length_append, List.length_cons, length_encode]
    omega

end Prefix

/-! ### Bodies of LSAs -/

theorem RouterLinkType.fromU8_asU8 (t : RouterLinkType) : fromU8 t.asU8 = some t := by
  cases t <;> rfl

theorem RouterLink.length_encode (l : RouterLink) : l.encode.length = 16 := by
  simp [encode, ipv4Octets]

theorem RouterLink.decode_encode (l : RouterLink) : decode l.encode = some l := by
  have htype : l.encode.getD 0 0 = l.linkType.asU8 := rfl
  rw [decode, htype, RouterLinkType.fromU8_asU8]
  simp [encode, ipv4At, ipv4Octets, field_append_left, field_append_right, field_cons_succ, field_self, ofNat_digits4,
    ofNat_digits2, Ospf.ofNat_digits4]

/-- Records of one size after four octets. -/
theorem drop_four {α : Type} {enc : α → List UInt8} {n : ℕ} (henc : ∀ a, (enc a).length = n) (b : UInt8) (v : UInt32)
    (l : List α) : (b :: putU24 v ++ l.flatMap enc).drop 4 = l.flatMap enc ∧
      (b :: putU24 v ++ l.flatMap enc).length = 4 + l.length * n := by
  have hlead : (b :: putU24 v).length = 4 := by simp [putU24]
  exact ⟨List.drop_left' hlead, by rw [List.length_append, hlead, length_flatMap_of_forall henc]⟩

theorem decodeRouter_encode {r : RouterLsa} (h : r.options.toNat < 2 ^ 24) : decodeRouter (encodeRouter r) = some r := by
  obtain ⟨hdrop, hlen⟩ := drop_four RouterLink.length_encode r.flags r.options r.links
  have hoptions : getU24 (encodeRouter r) 1 = r.options := getU24_putU24 [r.flags] _ h
  have hflags : (encodeRouter r).getD 0 0 = r.flags := rfl
  have hlinks : (chunksExact 16 (r.links.flatMap RouterLink.encode)).mapM RouterLink.decode = some r.links := by
    rw [chunksExact_flatMap (by decide) RouterLink.length_encode, mapM_eq_some_iff, List.forall₂_map_left_iff]
    exact List.forall₂_same.mpr fun l _ => l.decode_encode
  rw [← encodeRouter] at hdrop hlen
  rw [decodeRouter, if_neg (by omega), hdrop, hlinks, hoptions, hflags]
  rfl

theorem decodeNetwork_encode {n : NetworkLsa} (h : n.options.toNat < 2 ^ 24) :
    decodeNetwork (encodeNetwork n) = some n := by
  obtain ⟨hdrop, hlen⟩ := drop_four length_ipv4Octets 0 n.options n.attachedRouters
  have hoptions : getU24 (encodeNetwork n) 1 = n.options := getU24_putU24 [0] _ h
  rw [← encodeNetwork] at hdrop hlen
  rw [decodeNetwork, if_neg (by omega), hdrop, hoptions,
    map_chunksExact_flatMap (by decide) length_ipv4Octets fun a _ => ipv4At_ipv4Octets a]

theorem decodeInterAreaPrefix_encode {p : InterAreaPrefixLsa} (hm : p.metric.toNat < 2 ^ 24) (hp : p.pfx.WellFormed) :
    decodeInterAreaPrefix (encodeInterAreaPrefix p) = some p := by
  have hlead : (0 :: putU24 p.metric).length = 4 := by simp [putU24]
  have hdrop : (encodeInterAreaPrefix p).drop 4 = p.pfx.encode 0 := List.drop_left' hlead
  have hlen : ¬ (encodeInterAreaPrefix p).length < 4 := by simp [encodeInterAreaPrefix, putU24]
  have hmetric : getU24 (encodeInterAreaPrefix p) 1 = p.metric := getU24_putU24 [0] _ hm
  have hpfx := Prefix.decode_encode hp 0 []
  rw [List.append_nil] at hpfx
  rw [decodeInterAreaPrefix, if_neg hlen, hdrop, hpfx, hmetric]
  rfl

theorem decodeInterAreaRouter_encode {r : InterAreaRouterLsa} (ho : r.options.toNat < 2 ^ 24)
    (hm : r.metric.toNat < 2 ^ 24) : decodeInterAreaRouter (encodeInterAreaRouter r) = some r := by
  let id := ipv4Octets r.destinationRouterId
  have hlead : (0 :: putU24 r.options ++ [0]).length = 5 := by simp [putU24]
  have hlead' : (0 :: putU24 r.options ++ 0 :: putU24 r.metric).length = 8 := by simp [putU24]
  have hwire : encodeInterAreaRouter r = [0] ++ (putU24 r.options ++ (0 :: putU24 r.metric ++ id)) := by
    simp [encodeInterAreaRouter, id]
  have hwire' : encodeInterAreaRouter r = (0 :: putU24 r.options ++ [0]) ++ (putU24 r.metric ++ id) := by
    simp [encodeInterAreaRouter, id]
  have hwire'' : encodeInterAreaRouter r = (0 :: putU24 r.options ++ 0 :: putU24 r.metric) ++ (id ++ []) := by
    simp [encodeInterAreaRouter, id]
  have hoptions : getU24 (encodeInterAreaRouter r) 1 = r.options := by
    rw [hwire]
    exact getU24_putU24 [0] _ ho
  have hmetric : getU24 (encodeInterAreaRouter r) 5 = r.metric := by
    rw [hwire', ← hlead]
    exact getU24_putU24 _ _ hm
  have hid : ipv4At (encodeInterAreaRouter r) 8 = r.destinationRouterId := by
    rw [hwire'', ← hlead']
    exact ipv4At_append _ _ _
  have hlen : ¬ (encodeInterAreaRouter r).length < 12 := by simp [encodeInterAreaRouter, putU24, ipv4Octets]
  rw [decodeInterAreaRouter, if_neg hlen, hoptions, hmetric, hid]

/-- What an external body says of its optional fields. -/
structure AsExternalLsa.WellFormed (e : AsExternalLsa) : Prop where
  metric : e.metric.toNat < 2 ^ 24
  pfx : e.pfx.WellFormed
  referenced : e.referencedLinkStateId.isSome ↔ e.referencedLsType ≠ 0

/-- The flags of an external body can be told apart. -/
theorem extFlags (t f r : Bool) :
    let flags := (if t then extFlagE else 0) ||| (if f then extFlagF else 0) ||| (if r then extFlagT else 0)
    decide (flags &&& extFlagE ≠ 0) = t ∧ decide (flags &&& extFlagF ≠ 0) = f ∧
      decide (flags &&& extFlagT ≠ 0) = r := by
  revert t f r
  decide

theorem decodeAsExternal_encode {e : AsExternalLsa} (h : e.WellFormed) :
    decodeAsExternal (encodeAsExternal e) = some e := by
  let flags := (if e.externalType2 then extFlagE else 0) ||| (if e.forwardingAddress.isSome then extFlagF else 0) |||
    (if e.routeTag.isSome then extFlagT else 0)
  let address := (e.forwardingAddress.map ipv6Octets).getD []
  let tag := (e.routeTag.map fun tag => digits 4 tag.toNat).getD []
  let id := (e.referencedLinkStateId.map ipv4Octets).getD []
  let front := flags :: putU24 e.metric ++ e.pfx.encode e.referencedLsType
  have hreferenced : decide (e.referencedLsType ≠ 0) = e.referencedLinkStateId.isSome := by
    rw [Bool.eq_iff_iff, decide_eq_true_eq, h.referenced]
  have hid : (if e.referencedLsType ≠ 0 then ipv4Octets (e.referencedLinkStateId.getD 0) else []) = id := by
    cases hsome : e.referencedLinkStateId with
    | none =>
      have hzero : ¬ e.referencedLsType ≠ 0 := by simp [← h.referenced, hsome]
      simp only [if_neg hzero, id, hsome, Option.map_none, Option.getD_none]
    | some a =>
      have hne : e.referencedLsType ≠ 0 := by simp [← h.referenced, hsome]
      simp only [if_pos hne, id, hsome, Option.map_some, Option.getD_some]
  have hwire : encodeAsExternal e = front ++ (address ++ (tag ++ id)) := by
    rw [encodeAsExternal, hid]
    simp [front, address, tag, flags]
  obtain ⟨htype, hforward, hrouted⟩ := extFlags e.externalType2 e.forwardingAddress.isSome e.routeTag.isSome
  have hflags : (encodeAsExternal e).getD 0 0 = flags := rfl
  have hmetric : getU24 (encodeAsExternal e) 1 = e.metric := by
    have hsplit : encodeAsExternal e = [flags] ++ (putU24 e.metric ++ (e.pfx.encode e.referencedLsType ++
        (address ++ (tag ++ id)))) := by simp [hwire, front]
    rw [hsplit]
    exact getU24_putU24 [flags] _ h.metric
  have hpfx : Prefix.decode ((encodeAsExternal e).drop 4) =
      some (e.pfx, e.referencedLsType, (e.pfx.encode e.referencedLsType).length) := by
    have hlead : (flags :: putU24 e.metric).length = 4 := by simp [putU24]
    have hdrop : (encodeAsExternal e).drop 4 = e.pfx.encode e.referencedLsType ++ (address ++ (tag ++ id)) := by
      rw [hwire, List.append_assoc]
      exact List.drop_left' hlead
    rw [hdrop, Prefix.decode_encode h.pfx]
  have hfront : 4 + (e.pfx.encode e.referencedLsType).length = front.length := by simp [front, putU24]; omega
  have haddress : optionalField e.forwardingAddress.isSome (encodeAsExternal e) front.length 16 ipv6At =
      some (e.forwardingAddress, (front ++ address).length) := by
    rw [hwire]
    exact optionalField_append front (tag ++ id) (fun _ => length_digits 16 _) ipv6At_ipv6Octets e.forwardingAddress
  have htag : optionalField e.routeTag.isSome (encodeAsExternal e) (front ++ address).length 4
      (fun b s => UInt32.ofNat (field b s 4)) = some (e.routeTag, (front ++ address ++ tag).length) := by
    rw [hwire, ← List.append_assoc]
    exact optionalField_append (front ++ address) id (fun _ => length_digits 4 _) u32_append e.routeTag
  have hlast : optionalField e.referencedLinkStateId.isSome (encodeAsExternal e) (front ++ address ++ tag).length 4
      ipv4At = some (e.referencedLinkStateId, (front ++ address ++ tag ++ id).length) := by
    have hsplit : encodeAsExternal e = (front ++ address ++ tag) ++ (id ++ []) := by simp [hwire]
    rw [hsplit]
    exact optionalField_append (front ++ address ++ tag) [] length_ipv4Octets ipv4At_append e.referencedLinkStateId
  have hlen : ¬ (encodeAsExternal e).length < 4 := by
    rw [hwire, List.length_append, ← hfront]
    omega
  rw [decodeAsExternal, if_neg hlen]
  simp only [hflags, hmetric, hpfx, Option.bind_eq_bind, Option.bind_some, hfront]
  rw [hforward, hrouted, hreferenced, htype]
  simp only [haddress, htag, hlast, Option.bind_some]
  rfl

theorem decodeLink_encode {l : LinkLsa} (ho : l.options.toNat < 2 ^ 24) (hp : ∀ p ∈ l.prefixes, p.WellFormed)
    (hlen : (encodeLink l).length < 65536) : decodeLink (encodeLink l) = some l := by
  let prefixes := l.prefixes.flatMap fun p => p.encode 0
  let front := l.routerPriority :: putU24 l.options ++ ipv6Octets l.linkLocalAddress
  have hwire : encodeLink l = front ++ (digits 4 l.prefixes.length ++ prefixes) := by
    simp [encodeLink, front, prefixes]
  have hfront : front.length = 20 := by simp [front, putU24, ipv6Octets]
  have hsize : (encodeLink l).length = 24 + prefixes.length := by
    rw [hwire]
    simp [hfront]
    omega
  have hcount : l.prefixes.length * 4 ≤ prefixes.length := Prefix.length_le_flatMap (fun p => p) (fun _ => 0) _
  have hfield : field (encodeLink l) 20 4 = l.prefixes.length := by
    rw [hwire, field_append_right hfront.le, hfront, Nat.sub_self, field_append_left (length_digits 4 _)]
    exact value_digits_of_lt (by norm_num; omega)
  have hdrop : (encodeLink l).drop 24 = prefixes := by
    rw [hwire, ← List.append_assoc]
    exact List.drop_left' (by simp [hfront])
  have hoptions : getU24 (encodeLink l) 1 = l.options := by
    have hsplit : encodeLink l = [l.routerPriority] ++ (putU24 l.options ++
        (ipv6Octets l.linkLocalAddress ++ (digits 4 l.prefixes.length ++ prefixes))) := by simp [hwire, front]
    rw [hsplit]
    exact getU24_putU24 [l.routerPriority] _ ho
  have haddress : ipv6At (encodeLink l) 4 = l.linkLocalAddress := by
    have hlead : (l.routerPriority :: putU24 l.options).length = 4 := by simp [putU24]
    rw [hwire, ← hlead, List.append_assoc]
    exact ipv6At_ipv6Octets _ _ _
  have hpriority : (encodeLink l).getD 0 0 = l.routerPriority := rfl
  have hmany : Prefix.decodeMany l.prefixes.length prefixes = some (l.prefixes.map fun p => (p, 0)) :=
    Prefix.decodeMany_encode hp
  rw [decodeLink, if_neg (by omega), hfield, hdrop, hmany, hoptions, haddress, hpriority]
  simp [Function.comp_def]

theorem decodeIntraAreaPrefix_encode {p : IntraAreaPrefixLsa} (hp : ∀ e ∈ p.prefixes, e.pfx.WellFormed)
    (hlen : (encodeIntraAreaPrefix p).length < 65536) :
    decodeIntraAreaPrefix (encodeIntraAreaPrefix p) = some p := by
  let prefixes := p.prefixes.flatMap fun e => e.pfx.encode e.metric
  let count := digits 2 p.prefixes.length
  let type := digits 2 p.referencedLsType.toNat
  let id := ipv4Octets p.referencedLinkStateId
  let router := ipv4Octets p.referencedAdvertisingRouter
  have hwire : encodeIntraAreaPrefix p = count ++ (type ++ (id ++ (router ++ prefixes))) := by
    simp [encodeIntraAreaPrefix, count, type, id, router, prefixes]
  have hsize : (encodeIntraAreaPrefix p).length = 12 + prefixes.length := by
    rw [hwire]
    simp [count, type, id, router, ipv4Octets]
    omega
  have hcount : p.prefixes.length * 4 ≤ prefixes.length := Prefix.length_le_flatMap IntraPrefix.pfx IntraPrefix.metric _
  have hfield : field (encodeIntraAreaPrefix p) 0 2 = p.prefixes.length := by
    rw [hwire, field_append_left (length_digits 2 _)]
    exact value_digits_of_lt (by norm_num; omega)
  have hdrop : (encodeIntraAreaPrefix p).drop 12 = prefixes := by
    have hsplit : encodeIntraAreaPrefix p = (count ++ type ++ id ++ router) ++ prefixes := by simp [hwire]
    rw [hsplit]
    exact List.drop_left' (by simp [count, type, id, router, ipv4Octets])
  have htype : UInt16.ofNat (field (encodeIntraAreaPrefix p) 2 2) = p.referencedLsType := by
    have hlead : count.length = 2 := length_digits 2 _
    rw [hwire, ← hlead]
    exact u16_append _ _ _
  have hid : ipv4At (encodeIntraAreaPrefix p) 4 = p.referencedLinkStateId := by
    have hlead : (count ++ type).length = 4 := by simp [count, type]
    rw [hwire, ← List.append_assoc, ← hlead]
    exact ipv4At_append _ _ _
  have hrouter : ipv4At (encodeIntraAreaPrefix p) 8 = p.referencedAdvertisingRouter := by
    have hlead : (count ++ type ++ id).length = 8 := by simp [count, type, id, ipv4Octets]
    have hsplit : encodeIntraAreaPrefix p = (count ++ type ++ id) ++ (router ++ prefixes) := by simp [hwire]
    rw [hsplit, ← hlead]
    exact ipv4At_append _ _ _
  have hread : Prefix.decodeMany p.prefixes.length prefixes = some (p.prefixes.map fun e => (e.pfx, e.metric)) :=
    Prefix.decodeMany_encode hp
  rw [decodeIntraAreaPrefix, if_neg (by omega), hfield, hdrop, hread, htype, hid, hrouter]
  simp [Function.comp_def]

/-- The type in the header is the one of this body, numbers of 24 bits take no more, and prefixes are well formed. -/
def LsaBody.Fits (t : LsType) : LsaBody → Prop
  | router r => t = .router ∧ r.options.toNat < 2 ^ 24
  | network n => t = .network ∧ n.options.toNat < 2 ^ 24
  | interAreaPrefix p => t = .interAreaPrefix ∧ p.metric.toNat < 2 ^ 24 ∧ p.pfx.WellFormed
  | interAreaRouter r => t = .interAreaRouter ∧ r.options.toNat < 2 ^ 24 ∧ r.metric.toNat < 2 ^ 24
  | asExternal e => t = .asExternal ∧ e.WellFormed
  | link l => t = .link ∧ l.options.toNat < 2 ^ 24 ∧ ∀ p ∈ l.prefixes, p.WellFormed
  | intraAreaPrefix p => t = .intraAreaPrefix ∧ ∀ e ∈ p.prefixes, e.pfx.WellFormed
  | unknown _ => ∃ v, t = .unknown v

theorem LsaBody.decode_encode {t : LsType} {body : LsaBody} (h : body.Fits t) (hlen : body.encode.length < 65536) :
    decode t body.encode = some body := by
  cases body with
  | router r =>
    obtain ⟨rfl, ho⟩ := h
    rw [decode, encode, decodeRouter_encode ho, Option.map_some]
  | network n =>
    obtain ⟨rfl, ho⟩ := h
    rw [decode, encode, decodeNetwork_encode ho, Option.map_some]
  | interAreaPrefix p =>
    obtain ⟨rfl, hm, hp⟩ := h
    rw [decode, encode, decodeInterAreaPrefix_encode hm hp, Option.map_some]
  | interAreaRouter r =>
    obtain ⟨rfl, ho, hm⟩ := h
    rw [decode, encode, decodeInterAreaRouter_encode ho hm, Option.map_some]
  | asExternal e =>
    obtain ⟨rfl, he⟩ := h
    rw [decode, encode, decodeAsExternal_encode he, Option.map_some]
  | link l =>
    obtain ⟨rfl, ho, hp⟩ := h
    rw [decode, encode, decodeLink_encode ho hp hlen, Option.map_some]
  | intraAreaPrefix p =>
    obtain ⟨rfl, hp⟩ := h
    rw [decode, encode, decodeIntraAreaPrefix_encode hp hlen, Option.map_some]
  | unknown raw =>
    obtain ⟨v, rfl⟩ := h
    rfl

/-! ### LSAs -/

/-- An unknown type has none of the seven numbers. -/
def LsType.Canonical (t : LsType) : Prop := fromU16 t.asU16 = t

theorem LsaHeader.length_encode (h : LsaHeader) : h.encode.length = lsaHeaderLen := by
  simp [encode, lsaHeaderLen]

theorem LsaHeader.decode_encode {h : LsaHeader} (ht : h.lsType.Canonical) (r : List UInt8) :
    LsaHeader.decode (h.encode ++ r) = some h := by
  have hlen : ¬ (h.encode ++ r).length < lsaHeaderLen := by
    rw [List.length_append, h.length_encode]
    omega
  have htype : LsType.fromU16 h.lsType.asU16 = h.lsType := ht
  rw [decode, if_neg hlen]
  simp [encode, ipv4At, field_append_left, field_append_right, ofNat_digits2, ofNat_digits4, Ospf.ofNat_int32, htype]

namespace Lsa

/-- Length and checksum of the encoded form, filled in. -/
def stamp (l : Lsa) : Lsa :=
  { l with header := { l.header with
      lsChecksum := UInt16.ofNat (field l.encode 16 2)
      length := UInt16.ofNat (field l.encode 18 2) } }

/-- The octets of an LSA: its age, what the checksum covers, and check octets that fit. -/
theorem encode_eq (l : Lsa) :
    ∃ x y, l.encode = digits 2 l.header.lsAge.toNat ++
        (l.header.cover ++ x :: y :: (digits 2 (20 + l.body.encode.length) ++ l.body.encode)) ∧
      Fletcher.Valid ((l.header.cover ++ x :: y ::
        (digits 2 (20 + l.body.encode.length) ++ l.body.encode)).map octet) := by
  obtain ⟨x, y, henc, -, -, hv⟩ := fill_eq (length_digits 2 l.header.lsAge.toNat) l.header.length_cover
    (length_digits 2 l.header.lsChecksum.toNat) (length_digits 2 l.header.length.toNat) (t := l.body.encode)
  rw [← LsaHeader.encode_eq] at henc
  exact ⟨x, y, henc, hv⟩

theorem length_encode (l : Lsa) : l.encode.length = lsaHeaderLen + l.body.encode.length := by
  obtain ⟨x, y, henc, -⟩ := l.encode_eq
  simp [henc, lsaHeaderLen]
  omega

theorem checksumValid_encode (l : Lsa) : checksumValid l.encode = true := by
  obtain ⟨x, y, henc, hv⟩ := l.encode_eq
  have hlen := l.length_encode
  rw [henc] at hlen ⊢
  exact checksumValid_of_valid (length_digits 2 _) (by omega) hv

/-- An LSA whose header was stamped is its header and its body in a row. -/
theorem encode_of_stamped {l : Lsa} (h : l.stamp = l) : l.encode = l.header.encode ++ l.body.encode := by
  obtain ⟨x, y, henc, -⟩ := l.encode_eq
  obtain ⟨hc, hn⟩ := digits_filled (length_digits 2 _) l.header.length_cover henc
  have hcheck : l.header.lsChecksum = UInt16.ofNat (field l.encode 16 2) := by
    conv_lhs => rw [← h]
    rfl
  have hlength : l.header.length = UInt16.ofNat (field l.encode 18 2) := by
    conv_lhs => rw [← h]
    rfl
  rw [← hcheck] at hc
  rw [← hlength] at hn
  rw [LsaHeader.encode_eq, hc, hn, henc]
  simp

/-- What the encoder leaves as it is: a body that fits the header, and a length and checksum that are right. -/
structure WellFormed (l : Lsa) : Prop where
  type : l.header.lsType.Canonical
  fits : l.body.Fits l.header.lsType
  stamped : l.stamp = l

theorem decode_encode {l : Lsa} (h : l.WellFormed) (hlen : l.encode.length < 65536) (r : List UInt8) :
    decode (l.encode ++ r) = some (l, l.encode.length) := by
  have hsize := l.length_encode
  have hstated : l.header.length.toNat = l.encode.length := by
    obtain ⟨x, y, henc, -⟩ := l.encode_eq
    obtain ⟨-, hn⟩ := fields_filled (length_digits 2 _) l.header.length_cover henc
    have hlength : l.header.length = UInt16.ofNat (field l.encode 18 2) := by
      conv_lhs => rw [← h.stamped]
      rfl
    have h20 : lsaHeaderLen = 20 := rfl
    rw [hlength, hn, UInt16.toNat_ofNat']
    omega
  have hheader : LsaHeader.decode (l.encode ++ r) = some l.header := by
    rw [encode_of_stamped h.stamped, List.append_assoc, LsaHeader.decode_encode h.type]
  have hbody : ((l.encode ++ r).take l.encode.length).drop lsaHeaderLen = l.body.encode := by
    rw [List.take_left' rfl, encode_of_stamped h.stamped]
    exact List.drop_left' l.header.length_encode
  have hfit : ¬ (l.encode.length < lsaHeaderLen ∨ (l.encode ++ r).length < l.encode.length) := by
    rw [List.length_append]
    omega
  rw [decode, hheader]
  simp only [Option.bind_eq_bind, Option.bind_some, hstated]
  rw [if_neg hfit, hbody, LsaBody.decode_encode h.fits (by omega)]
  rfl

end Lsa

/-! ### Bodies of packets -/

theorem decodeHello_encode {h : Hello} (ho : h.options.toNat < 2 ^ 24) : decodeHello (encodeHello h) = .ok h := by
  have hrest : (h.neighbors.flatMap ipv4Octets).length = h.neighbors.length * 4 :=
    length_flatMap_of_forall length_ipv4Octets _
  have hsize : (encodeHello h).length = helloFixedLen + h.neighbors.length * 4 := by
    rw [encodeHello, List.length_append, hrest]
    simp [ipv4Octets, putU24, helloFixedLen]
  have hdrop : (encodeHello h).drop helloFixedLen = h.neighbors.flatMap ipv4Octets :=
    List.drop_left' (by simp [ipv4Octets, putU24, helloFixedLen])
  rw [decodeHello, if_neg (by omega), if_neg (by omega), hdrop,
    map_chunksExact_flatMap (by decide) length_ipv4Octets fun a _ => ipv4At_ipv4Octets a]
  simp [encodeHello, getU24, putU24, ipv4At, ipv4Octets, field_append_left, field_append_right, field_cons_succ,
    ofNat_digits4, ofNat_digits2, Ospf.ofNat_digits3 ho, Ospf.ofNat_digits4]

theorem decodeHeaders_encode {headers : List LsaHeader} (h : ∀ x ∈ headers, x.lsType.Canonical) :
    decodeHeaders (headers.flatMap LsaHeader.encode) = .ok headers := by
  have hsize : (headers.flatMap LsaHeader.encode).length = headers.length * lsaHeaderLen :=
    length_flatMap_of_forall LsaHeader.length_encode _
  rw [decodeHeaders, if_neg (by rw [hsize]; simp)]
  refine mapM_chunksExact_flatMap (by decide) LsaHeader.length_encode fun x hx => ?_
  have hone := LsaHeader.decode_encode (h x hx) []
  rw [List.append_nil] at hone
  rw [hone]

theorem decodeDd_encode {d : DatabaseDescription} (ho : d.options.toNat < 2 ^ 24)
    (hh : ∀ x ∈ d.lsaHeaders, x.lsType.Canonical) : decodeDd (encodeDd d) = .ok d := by
  have hdrop : (encodeDd d).drop ddFixedLen = d.lsaHeaders.flatMap LsaHeader.encode :=
    List.drop_left' (by simp [putU24, ddFixedLen])
  have hlen : ¬ (encodeDd d).length < ddFixedLen := by
    simp [encodeDd, putU24, ddFixedLen]
    omega
  rw [decodeDd, if_neg hlen, hdrop, decodeHeaders_encode hh]
  simp [encodeDd, getU24, putU24, field_append_left, field_append_right, field_cons_succ, List.getElem?_append_right,
    ofNat_digits2, Ospf.ofNat_digits3 ho, Ospf.ofNat_digits4, bind, Except.bind, pure, Except.pure]

theorem LsRequest.length_encode (e : LsRequest) : e.encode.length = lsRequestLen := by
  simp [encode, ipv4Octets, lsRequestLen]

theorem decodeLsr_encode {entries : List LsRequest} (h : ∀ e ∈ entries, e.lsType.Canonical) :
    decodeLsr (encodeLsr entries) = .ok entries := by
  have hsize : (encodeLsr entries).length = entries.length * lsRequestLen :=
    length_flatMap_of_forall LsRequest.length_encode _
  rw [decodeLsr, if_neg (by rw [hsize]; simp)]
  refine congrArg Except.ok (map_chunksExact_flatMap (by decide) LsRequest.length_encode fun e he => ?_)
  have htype : LsType.fromU16 e.lsType.asU16 = e.lsType := h e he
  simp [LsRequest.decode, LsRequest.encode, ipv4At, ipv4Octets, field_append_left, field_append_right, field_cons_succ,
    field_self, ofNat_digits2, ofNat_digits4, htype]

theorem decodeLsas_encode {lsas : List Lsa} (h : ∀ l ∈ lsas, l.WellFormed ∧ l.encode.length < 65536) :
    decodeLsas lsas.length (lsas.flatMap Lsa.encode) = .ok lsas := by
  induction lsas with
  | nil => rfl
  | cons l lsas ih =>
    obtain ⟨hl, hlen⟩ := h l List.mem_cons_self
    have hdrop : (l.encode ++ lsas.flatMap Lsa.encode).drop l.encode.length = lsas.flatMap Lsa.encode :=
      List.drop_left' rfl
    have htake : (l.encode ++ lsas.flatMap Lsa.encode).take l.encode.length = l.encode := List.take_left' rfl
    rw [List.flatMap_cons, List.length_cons, decodeLsas, Lsa.decode_encode hl hlen]
    simp only [hdrop, htake, l.checksumValid_encode, ih fun m hm => h m (List.mem_cons_of_mem _ hm)]
    rfl

/-- No LSA takes less than its header, so the count of an update never wraps. -/
theorem decodeLsu_encode {lsas : List Lsa} (h : ∀ l ∈ lsas, l.WellFormed) (hlen : (encodeLsu lsas).length < 65536) :
    decodeLsu (encodeLsu lsas) = .ok lsas := by
  have hsize : (encodeLsu lsas).length = 4 + (lsas.flatMap Lsa.encode).length := by
    rw [encodeLsu, List.length_append, length_digits]
  have hcount : lsas.length ≤ (lsas.flatMap Lsa.encode).length := by
    have hone : ∀ n ∈ lsas.map fun l => l.encode.length, 1 ≤ n := by
      intro n hn
      obtain ⟨l, -, rfl⟩ := List.mem_map.mp hn
      rw [l.length_encode, lsaHeaderLen]
      omega
    have hsum := List.length_le_sum_of_one_le _ hone
    rwa [List.length_map, ← List.length_flatMap] at hsum
  have hfield : field (encodeLsu lsas) 0 4 = lsas.length := by
    rw [encodeLsu, field_append_left (length_digits 4 _), value_digits_of_lt (by norm_num; omega)]
  have hdrop : (encodeLsu lsas).drop 4 = lsas.flatMap Lsa.encode := List.drop_left' (length_digits 4 _)
  have heach : ∀ l ∈ lsas, l.encode.length < 65536 := by
    intro l hl
    have hle : l.encode.length ≤ (lsas.flatMap Lsa.encode).length := by
      rw [List.length_flatMap]
      exact List.single_le_sum (by simp) _ (List.mem_map_of_mem hl)
    omega
  rw [decodeLsu, if_neg (by omega), hfield, hdrop, decodeLsas_encode fun l hl => ⟨h l hl, heach l hl⟩]

/-- What a body keeps to: numbers of 24 bits take no more, types are told by their number, LSAs are well formed. -/
def Body.WellFormed : Body → Prop
  | hello h => h.options.toNat < 2 ^ 24
  | databaseDescription d => d.options.toNat < 2 ^ 24 ∧ ∀ h ∈ d.lsaHeaders, h.lsType.Canonical
  | linkStateRequest entries => ∀ e ∈ entries, e.lsType.Canonical
  | linkStateUpdate lsas => ∀ l ∈ lsas, l.WellFormed
  | linkStateAck headers => ∀ h ∈ headers, h.lsType.Canonical

theorem Body.decode_encode {b : Body} (h : b.WellFormed) (hlen : b.encode.length < 65536) :
    Body.decode b.packetType b.encode = .ok b := by
  cases b with
  | hello x => exact congrArg (Except.map hello) (decodeHello_encode h)
  | databaseDescription d => exact congrArg (Except.map databaseDescription) (decodeDd_encode h.1 h.2)
  | linkStateRequest entries => exact congrArg (Except.map linkStateRequest) (decodeLsr_encode h)
  | linkStateUpdate lsas => exact congrArg (Except.map linkStateUpdate) (decodeLsu_encode h hlen)
  | linkStateAck headers => exact congrArg (Except.map linkStateAck) (decodeHeaders_encode h)

/-! ### Packets -/

theorem packetChecksum_lt (src dst : Ipv6Addr) (pkt : List UInt8) : packetChecksum src dst pkt < 65536 := by
  rw [packetChecksum]
  omega

namespace Packet
variable (p : Packet) (src dst : Ipv6Addr)

/-- The header up to the checksum. -/
def lead : List UInt8 :=
  [version, p.body.packetType.asU8] ++ digits 2 (headerLen + p.body.encode.length) ++
    ipv4Octets p.header.routerId ++ ipv4Octets p.header.areaId

/-- What comes after the checksum. -/
def trail : List UInt8 := [p.header.instanceId, 0] ++ p.body.encode

/-- A packet with some checksum. -/
def wire (csum : List UInt8) : List UInt8 := p.lead ++ (csum ++ p.trail)

theorem length_lead : p.lead.length = 12 := by
  simp [lead, ipv4Octets]

theorem encode_eq : p.encode src dst = p.wire (digits 2 (packetChecksum src dst (p.wire [0, 0]))) := by
  let rest := ipv4Octets p.header.routerId ++ (ipv4Octets p.header.areaId ++ ([0, 0] ++ p.trail))
  have hout : [version, p.body.packetType.asU8, 0, 0] ++ ipv4Octets p.header.routerId ++ ipv4Octets p.header.areaId ++
      [0, 0, p.header.instanceId, 0] ++ p.body.encode =
        [version, p.body.packetType.asU8] ++ ([0, 0] ++ rest) := by simp [rest, trail]
  have hlen : ([version, p.body.packetType.asU8] ++ ([0, 0] ++ rest)).length = headerLen + p.body.encode.length := by
    simp [rest, trail, ipv4Octets, headerLen]
    omega
  have hframe : ([version, p.body.packetType.asU8] ++ ([0, 0] ++ rest)).take 2 ++
      digits 2 (headerLen + p.body.encode.length) ++ ([version, p.body.packetType.asU8] ++ ([0, 0] ++ rest)).drop 4 =
        p.wire [0, 0] := by simp [wire, lead, rest]
  have hdrop : (p.wire [0, 0]).drop 14 = p.trail := by
    have hhead : (p.lead ++ [0, 0]).length = 14 := by simp [length_lead]
    rw [wire, ← List.append_assoc]
    exact List.drop_left' hhead
  have htake : (p.wire [0, 0]).take 12 = p.lead := List.take_left' p.length_lead
  rw [encode, hout, hlen]
  simp only [hframe, hdrop, htake]
  simp [wire]

/-- Taking the checksum out again. -/
theorem clear_wire {csum : List UInt8} (hc : csum.length = 2) : ((p.wire csum).set 12 0).set 13 0 = p.wire [0, 0] := by
  obtain ⟨x, y, rfl⟩ := Ospf.exists_pair hc
  simp [wire, List.set_append_right, length_lead]

section Reading
variable {p src dst} {csum : List UInt8}

theorem fields_wire (hc : csum.length = 2) (hlen : headerLen + p.body.encode.length < 65536) :
    let buf := p.wire csum
    buf.getD 0 0 = version ∧ buf.getD 1 0 = p.body.packetType.asU8 ∧ field buf 2 2 = headerLen + p.body.encode.length ∧
      ipv4At buf 4 = p.header.routerId ∧ ipv4At buf 8 = p.header.areaId ∧ field buf 12 2 = value csum ∧
      buf.getD 14 0 = p.header.instanceId ∧ buf.drop headerLen = p.body.encode ∧
      buf.length = headerLen + p.body.encode.length := by
  intro buf
  obtain ⟨x, y, rfl⟩ := Ospf.exists_pair hc
  have hn : value (digits 2 (headerLen + p.body.encode.length)) = headerLen + p.body.encode.length :=
    value_digits_of_lt (by simpa using hlen)
  have hbuf : buf = [version, p.body.packetType.asU8] ++ (digits 2 (headerLen + p.body.encode.length) ++
      (ipv4Octets p.header.routerId ++ (ipv4Octets p.header.areaId ++ ([x, y] ++ ([p.header.instanceId, 0] ++
        p.body.encode))))) := by
    simp [buf, wire, lead, trail]
  rw [hbuf]
  refine ⟨rfl, rfl, ?_, ?_, ?_, ?_, ?_, ?_, ?_⟩
  · simp [field_append_left, field_cons_succ, hn]
  · simp [ipv4At, ipv4Octets, field_append_left, field_append_right, field_cons_succ, ofNat_digits4]
  · simp [ipv4At, ipv4Octets, field_append_left, field_append_right, field_cons_succ, ofNat_digits4]
  · have hpair : field (x :: y :: p.header.instanceId :: 0 :: p.body.encode) 0 2 = value [x, y] := rfl
    simp [ipv4Octets, field_append_right, field_cons_succ, hpair]
  · simp [ipv4Octets, List.getElem?_append_right]
  · simp [ipv4Octets, List.drop_append, headerLen, List.drop_of_length_le]
  · simp [ipv4Octets, headerLen]
    omega

/-- The packet is read from its octets, whatever the checksum is. -/
theorem parseUnchecked_wire (hp : p.body.WellFormed) (hc : csum.length = 2)
    (hlen : headerLen + p.body.encode.length < 65536) : parseUnchecked (p.wire csum) = .ok p := by
  obtain ⟨hversion, htype, hstated, hrouter, harea, -, hinstance, hbody, hsize⟩ := fields_wire hc hlen
  rw [parseUnchecked, if_neg (by omega), hversion, if_neg (not_not.mpr rfl), htype, Ospf.PacketType.fromU8_asU8]
  simp only [hstated, hsize, hrouter, harea, hinstance, hbody]
  rw [if_neg (not_not.mpr rfl), Body.decode_encode hp (by omega)]
  rfl

theorem decode_encode (hp : p.body.WellFormed) (hlen : headerLen + p.body.encode.length < 65536) :
    decode (p.encode src dst) src dst = .ok p := by
  let csum := digits 2 (packetChecksum src dst (p.wire [0, 0]))
  have hc : csum.length = 2 := length_digits 2 _
  have hvalue : value csum = packetChecksum src dst (p.wire [0, 0]) :=
    value_digits_of_lt (by simpa using packetChecksum_lt src dst (p.wire [0, 0]))
  obtain ⟨hversion, htype, hstated, -, -, hcsum, -, -, hsize⟩ := fields_wire hc hlen
  have hwire : p.encode src dst = p.wire csum := p.encode_eq src dst
  rw [hwire, decode, if_neg (by omega), hversion, if_neg (not_not.mpr rfl), htype, Ospf.PacketType.fromU8_asU8]
  simp only [hstated, hsize, hcsum, p.clear_wire hc, hvalue]
  rw [if_neg (not_not.mpr rfl), if_neg (not_not.mpr rfl), parseUnchecked_wire hp hc hlen]

end Reading

/-- The trailer before the digest. -/
def trailerHead (saId : UInt16) (seq : UInt64) : List UInt8 :=
  digits 2 authTypeHmac ++ digits 2 (atFixedLen + digestLen) ++ [0, 0] ++ digits 2 saId.toNat ++ digits 8 seq.toNat

theorem trailer_fields (saId : UInt16) (seq : UInt64) (digest : List UInt8) :
    let trailer := trailerHead saId seq ++ digest
    field trailer 0 2 = authTypeHmac ∧ field trailer 2 2 = atFixedLen + digestLen ∧
      UInt16.ofNat (field trailer 6 2) = saId ∧ trailer.take atFixedLen = trailerHead saId seq ∧
      trailer.drop atFixedLen = digest := by
  have hlen : (trailerHead saId seq).length = atFixedLen := by simp [trailerHead, atFixedLen]
  have htype : value (digits 2 authTypeHmac) = authTypeHmac := value_digits_of_lt (by simp [authTypeHmac])
  have hsize : value (digits 2 (atFixedLen + digestLen)) = atFixedLen + digestLen :=
    value_digits_of_lt (by simp [atFixedLen, digestLen])
  refine ⟨?_, ?_, ?_, List.take_left' hlen, List.drop_left' hlen⟩
  · simp [trailerHead, field_append_left, htype]
  · simp [trailerHead, field_append_left, field_append_right, hsize]
  · simp [trailerHead, field_append_left, field_append_right, field_cons_succ, ofNat_digits2]

variable (hmac : List UInt8 → List UInt8 → Vector UInt8 32) {p}

theorem decodeAuth_hmac (hp : p.body.WellFormed) (hlen : headerLen + p.body.encode.length < 65536) (saId : UInt16)
    (key : List UInt8) (seq : UInt64) : decodeAuth hmac (p.encodeAuth hmac src dst (.hmac saId key seq)) src dst
      (.hmac saId key seq) = .ok p := by
  let packet := p.wire [0, 0]
  let digest := (hmac key (packet ++ trailerHead saId seq ++ apad src)).toList
  have hsent : p.encodeAuth hmac src dst (.hmac saId key seq) = packet ++ (trailerHead saId seq ++ digest) := by
    rw [encodeAuth, p.encode_eq src dst, p.clear_wire (length_digits 2 _)]
    simp [packet, digest, trailerHead]
  have hc : ([0, 0] : List UInt8).length = 2 := rfl
  obtain ⟨-, -, hstated, -, -, -, -, -, hsize⟩ := fields_wire (p := p) hc hlen
  have hpacket : packet.length = headerLen + p.body.encode.length := hsize
  obtain ⟨htype, htrailer, hsa, htake, hdrop⟩ := trailer_fields saId seq digest
  have htail : (trailerHead saId seq ++ digest).length = atFixedLen + digestLen := by
    simp [trailerHead, digest, atFixedLen, digestLen]
  have hstated' : field (packet ++ (trailerHead saId seq ++ digest)) 2 2 = packet.length := by
    have h16 : headerLen = 16 := rfl
    rw [hpacket, ← hstated, field, field, List.drop_append_of_le_length (by omega),
      List.take_append_of_le_length (by rw [List.length_drop]; omega)]
  have hfit : ¬ (packet.length < headerLen ∨
      (packet ++ (trailerHead saId seq ++ digest)).length ≠ packet.length + atFixedLen + digestLen) := by
    rw [List.length_append, htail]
    omega
  rw [hsent, decodeAuth, if_neg (by rw [List.length_append]; omega)]
  simp only [hstated', List.take_left, List.drop_left]
  rw [if_neg hfit, htype, htrailer, htail, hsa, htake, hdrop, if_neg (by simp)]
  have hclear : (packet.set 12 0).set 13 0 = packet := p.clear_wire hc
  rw [hclear, ctEq_self]
  exact parseUnchecked_wire hp hc hlen

/-- A packet is read back from what was sent, for any addresses and any authentication. -/
theorem decodeAuth_of_encodeAuth (hp : p.body.WellFormed) (hlen : (p.encode src dst).length ≤ 65535) (a : Auth) :
    decodeAuth hmac (p.encodeAuth hmac src dst a) src dst a = .ok p := by
  have hfit : headerLen + p.body.encode.length < 65536 := by
    have hsize : (p.encode src dst).length = headerLen + p.body.encode.length := by
      rw [encode_eq]
      simp [wire, lead, trail, ipv4Octets, headerLen]
      omega
    omega
  cases a with
  | none => exact decode_encode hp hfit
  | hmac saId key seq => exact decodeAuth_hmac src dst hmac hp hfit saId key seq

/-- An update with an external LSA that has all optional fields, a Link-LSA with prefixes of several sizes, and an LSA
of an unknown type. -/
def sampleUpdate : Packet :=
  let header lsType : LsaHeader := ⟨1, lsType, 1, 1, 5, 0, 0⟩
  ⟨⟨1, 0, 7⟩, .linkStateUpdate
    [Lsa.stamp ⟨header .asExternal, .asExternal ⟨true, 20, ⟨32, 0, [32, 1, 13, 184]⟩, some 1, some 9, 0x2001, some 3⟩⟩,
      Lsa.stamp ⟨header .link, .link ⟨1, 0x13, 1, [⟨0, 0, []⟩, ⟨33, 2, [1, 2, 3, 4, 128, 0, 0, 0]⟩]⟩⟩,
      Lsa.stamp ⟨header (.unknown 0x2042), .unknown [1, 2, 3, 4]⟩]⟩

theorem wellFormed_sampleUpdate : sampleUpdate.body.WellFormed := by
  intro l hl
  simp only [List.mem_cons, List.not_mem_nil, or_false] at hl
  obtain rfl | rfl | rfl := hl
  · exact ⟨rfl, ⟨rfl, ⟨by decide, ⟨by decide, rfl⟩, by decide⟩⟩, by decide +kernel⟩
  · refine ⟨rfl, ⟨rfl, by decide, ?_⟩, by decide +kernel⟩
    intro p hp
    simp only [List.mem_cons, List.not_mem_nil, or_false] at hp
    obtain rfl | rfl := hp
    · exact ⟨by decide, rfl⟩
    · exact ⟨by decide, rfl⟩
  · exact ⟨rfl, ⟨0x2042, rfl⟩, by decide +kernel⟩

theorem decodeAuth_of_encodeAuth_sampleUpdate :
    let hmac := fun _ _ => Vector.replicate 32 0
    let auth := Auth.hmac 5 [119, 114, 101, 110] 12
    decodeAuth hmac (sampleUpdate.encodeAuth hmac 1 2 auth) 1 2 auth = .ok sampleUpdate :=
  decodeAuth_of_encodeAuth 1 2 _ wellFormed_sampleUpdate (by decide +kernel) _

end Packet
end Wren.Ospfv3
