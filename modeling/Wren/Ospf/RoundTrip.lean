import Wren.Ospf.Packet
import Wren.Ospf.Checksum

/-! OSPFv2 packets are read back as they were sent, whatever the authentication. -/

namespace Wren.Ospf
open Octets

/-! ### Fields of octets that were put together -/

section Fields
variable {p : List UInt8} {n s : ℕ}

theorem field_append_left (h : p.length = n) (q : List UInt8) : field (p ++ q) 0 n = value p := by
  rw [field, List.drop_zero, List.take_left' h]

theorem field_append_right (h : p.length ≤ s) (q : List UInt8) (n : ℕ) :
    field (p ++ q) s n = field q (s - p.length) n := by
  rw [field, field, List.drop_append, List.drop_of_length_le h, List.nil_append]

theorem field_cons_succ (b : UInt8) (q : List UInt8) (s n : ℕ) : field (b :: q) (s + 1) n = field q s n := by
  rw [field, field, List.drop_succ_cons]

theorem field_self (h : p.length = n) : field p 0 n = value p := by
  rw [field, List.drop_zero, List.take_of_length_le h.le]

end Fields

theorem digits_mod (n x : ℕ) : digits n (x % 256 ^ n) = digits n x := by
  rw [← value_digits, digits_value (length_digits n x)]

theorem ofNat_digits2 (v : UInt16) : UInt16.ofNat (value (digits 2 v.toNat)) = v := by
  rw [value_digits_of_lt v.toNat_lt, UInt16.ofNat_toNat]

theorem ofNat_digits4 (v : UInt32) : UInt32.ofNat (value (digits 4 v.toNat)) = v := by
  rw [value_digits_of_lt v.toNat_lt, UInt32.ofNat_toNat]

theorem ofNat_digits3 {v : UInt32} (h : v.toNat < 2 ^ 24) : UInt32.ofNat (value (digits 3 v.toNat)) = v := by
  rw [value_digits_of_lt (by simpa using h), UInt32.ofNat_toNat]

theorem ofNat_int32 (v : Int32) : Int32.ofNat (value (digits 4 v.toUInt32.toNat)) = v := by
  rw [value_digits_of_lt v.toUInt32.toNat_lt]
  change (UInt32.ofNat v.toUInt32.toNat).toInt32 = v
  rw [UInt32.ofNat_toNat, Int32.toInt32_toUInt32]

theorem ofNat_ipv4 (a : Ipv4Addr) : BitVec.ofNat 32 (value (digits 4 a.toNat)) = a :=
  ofNat_value_digits a (by norm_num)

theorem length_ipv4Octets (a : Ipv4Addr) : (ipv4Octets a).length = 4 := length_digits 4 _

theorem ipv4At_ipv4Octets (a : Ipv4Addr) : ipv4At (ipv4Octets a) 0 = a := by
  rw [ipv4At, ipv4Octets, field_self (length_digits 4 _), ofNat_ipv4]

/-! ### LSAs -/

theorem LsaHeader.length_encode (h : LsaHeader) : h.encode.length = lsaHeaderLen := by
  simp [encode, lsaHeaderLen]

theorem LsaHeader.decode_encode (h : LsaHeader) (r : List UInt8) : LsaHeader.decode (h.encode ++ r) = some h := by
  have hlen : ¬ (h.encode ++ r).length < lsaHeaderLen := by
    rw [List.length_append, h.length_encode]
    omega
  rw [decode, if_neg hlen]
  simp [encode, field_append_left, field_append_right, field_cons_succ, List.getElem?_append_right, ofNat_digits2,
    ofNat_int32, ofNat_ipv4, LsType.fromU8_asU8]

theorem RouterLinkType.fromU8_asU8 (t : RouterLinkType) : fromU8 t.asU8 = some t := by
  cases t <;> rfl

theorem RouterLink.length_encode (l : RouterLink) : l.encode.length = 12 := by
  simp [encode, ipv4Octets]

theorem decodeLinks_succ (l : RouterLink) (n : ℕ) (rest : List UInt8) :
    decodeLinks (n + 1) (l.encode ++ rest) = (decodeLinks n rest).map (l :: ·) := by
  have hlen : (l.encode ++ rest).length = 12 + rest.length := by
    rw [List.length_append, l.length_encode]
  have htype : (l.encode ++ rest).getD 8 0 = l.linkType.asU8 := by
    simp [RouterLink.encode, ipv4Octets, List.getElem?_append_right]
  have htos : (l.encode ++ rest).getD 9 0 = 0 := by
    simp [RouterLink.encode, ipv4Octets, List.getElem?_append_right]
  have hdrop : (l.encode ++ rest).drop 12 = rest := List.drop_left' l.length_encode
  have hsize : 12 + (0 : UInt8).toNat * 4 = 12 := rfl
  rw [decodeLinks, if_neg (by omega), htype, RouterLinkType.fromU8_asU8]
  simp only [htos, hsize, hdrop, Option.bind_eq_bind, Option.bind_some]
  rw [if_neg (by omega)]
  simp [RouterLink.encode, ipv4At, ipv4Octets, field_append_left, field_append_right, field_cons_succ, ofNat_ipv4,
    ofNat_digits2, Option.map_eq_bind]

theorem decodeLinks_encode (links : List RouterLink) :
    decodeLinks links.length (links.flatMap RouterLink.encode) = some links := by
  induction links with
  | nil => rfl
  | cons l links ih => rw [List.flatMap_cons, List.length_cons, decodeLinks_succ, ih, Option.map_some]

theorem decodeRouter_encode {r : RouterLsa} (h : r.links.length < 65536) : decodeRouter (encodeRouter r) = some r := by
  have hlen : ¬ (encodeRouter r).length < 4 := by simp [encodeRouter]
  have hcount : value (digits 2 r.links.length) = r.links.length := value_digits_of_lt (by simpa using h)
  rw [decodeRouter, if_neg hlen]
  simp [encodeRouter, field_append_left, field_cons_succ, hcount, decodeLinks_encode]

theorem decodeNetwork_encode (n : NetworkLsa) : decodeNetwork (encodeNetwork n) = some n := by
  have hrest : (n.attachedRouters.flatMap ipv4Octets).length = n.attachedRouters.length * 4 :=
    length_flatMap_of_forall length_ipv4Octets _
  have hlen : ¬ ((encodeNetwork n).length < 4 ∨ ((encodeNetwork n).length - 4) % 4 ≠ 0) := by
    rw [encodeNetwork, List.length_append, length_ipv4Octets, hrest]
    omega
  have hdrop : (encodeNetwork n).drop 4 = n.attachedRouters.flatMap ipv4Octets :=
    List.drop_left' (length_ipv4Octets _)
  rw [decodeNetwork, if_neg hlen, hdrop,
    map_chunksExact_flatMap (by decide) length_ipv4Octets fun a _ => ipv4At_ipv4Octets a]
  simp [encodeNetwork, ipv4At, ipv4Octets, field_append_left, ofNat_ipv4]

theorem decodeSummary_encode {s : SummaryLsa} (h : s.metric.toNat < 2 ^ 24) :
    decodeSummary (encodeSummary s) = some s := by
  simp [decodeSummary, encodeSummary, ipv4At, ipv4Octets, field_append_left, field_append_right, field_cons_succ,
    field_self, ofNat_ipv4, ofNat_digits3 h]

theorem decodeExternal_encode {e : AsExternalLsa} (h : e.metric.toNat < 2 ^ 24) :
    decodeExternal (encodeExternal e) = some e := by
  have hflag : ((if e.externalType2 then 0x80 else 0 : UInt8) &&& 0x80 ≠ 0) = (e.externalType2 = true) := by
    cases e.externalType2 <;> decide
  simp [decodeExternal, encodeExternal, ipv4At, ipv4Octets, field_append_left, field_append_right, field_cons_succ,
    field_self, ofNat_ipv4, ofNat_digits3 h, ofNat_digits4, hflag]

/-- The type in the header is one for this body, and metrics take their 24 bits. -/
def LsaBody.Fits (t : LsType) : LsaBody → Prop
  | router _ => t = .router
  | network _ => t = .network
  | summary s => (t = .summaryNetwork ∨ t = .summaryAsbr) ∧ s.metric.toNat < 2 ^ 24
  | asExternal e => (t = .asExternal ∨ t = .nssa) ∧ e.metric.toNat < 2 ^ 24
  | opq _ => t = .opaqueLink ∨ t = .opaqueArea ∨ t = .opaqueAs

theorem LsaBody.decode_encode {t : LsType} {body : LsaBody} (h : body.Fits t) (hlen : body.encode.length < 65536) :
    decode t body.encode = some body := by
  cases body with
  | router r =>
    cases h
    have hlinks : (r.links.flatMap RouterLink.encode).length = r.links.length * 12 :=
      length_flatMap_of_forall RouterLink.length_encode _
    have hsize : (encodeRouter r).length = 4 + r.links.length * 12 := by
      rw [encodeRouter, List.length_append, hlinks]
      simp
    have hcount : r.links.length < 65536 := by
      change (encodeRouter r).length < 65536 at hlen
      omega
    rw [decode, encode, decodeRouter_encode hcount, Option.map_some]
  | network n =>
    cases h
    rw [decode, encode, decodeNetwork_encode, Option.map_some]
  | summary s =>
    obtain ⟨rfl | rfl, hmetric⟩ := h
    · rw [decode, encode, decodeSummary_encode hmetric, Option.map_some]
    · rw [decode, encode, decodeSummary_encode hmetric, Option.map_some]
  | asExternal e =>
    obtain ⟨rfl | rfl, hmetric⟩ := h
    · rw [decode, encode, decodeExternal_encode hmetric, Option.map_some]
    · rw [decode, encode, decodeExternal_encode hmetric, Option.map_some]
  | opq data =>
    obtain rfl | rfl | rfl := h
    · rfl
    · rfl
    · rfl

theorem toNat_ofNat_lt (octets : List UInt8) : (UInt32.ofNat (value (octets.take 3))).toNat < 2 ^ 24 := by
  have hlt := value_lt (octets.take 3)
  have hpow : 256 ^ (octets.take 3).length ≤ 256 ^ 3 := Nat.pow_le_pow_right (by norm_num) (List.length_take_le 3 octets)
  have h24 : (256 : ℕ) ^ 3 = 2 ^ 24 := by norm_num
  rw [UInt32.toNat_ofNat']
  exact lt_of_le_of_lt (Nat.mod_le _ _) (by omega)

/-- Only a body that fits is read back. -/
theorem LsaBody.fits_of_decode {t : LsType} {b : List UInt8} {body : LsaBody} (h : decode t b = some body) :
    body.Fits t := by
  have hmetric : ∀ (b : List UInt8) (s : SummaryLsa), decodeSummary b = some s → s.metric.toNat < 2 ^ 24 := by
    intro b s hs
    rw [decodeSummary] at hs
    split_ifs at hs
    obtain rfl := Option.some.inj hs
    exact toNat_ofNat_lt (b.drop 5)
  have hmetric' : ∀ (b : List UInt8) (e : AsExternalLsa), decodeExternal b = some e → e.metric.toNat < 2 ^ 24 := by
    intro b e he
    rw [decodeExternal] at he
    split_ifs at he
    obtain rfl := Option.some.inj he
    exact toNat_ofNat_lt (b.drop 5)
  cases t with
  | router => obtain ⟨r, -, rfl⟩ := Option.map_eq_some_iff.mp h; exact rfl
  | network => obtain ⟨n, -, rfl⟩ := Option.map_eq_some_iff.mp h; exact rfl
  | summaryNetwork => obtain ⟨s, hs, rfl⟩ := Option.map_eq_some_iff.mp h; exact ⟨.inl rfl, hmetric b s hs⟩
  | summaryAsbr => obtain ⟨s, hs, rfl⟩ := Option.map_eq_some_iff.mp h; exact ⟨.inr rfl, hmetric b s hs⟩
  | asExternal => obtain ⟨e, he, rfl⟩ := Option.map_eq_some_iff.mp h; exact ⟨.inl rfl, hmetric' b e he⟩
  | nssa => obtain ⟨e, he, rfl⟩ := Option.map_eq_some_iff.mp h; exact ⟨.inr rfl, hmetric' b e he⟩
  | opaqueLink => obtain rfl := Option.some.inj h; exact .inl rfl
  | opaqueArea => obtain rfl := Option.some.inj h; exact .inr (.inl rfl)
  | opaqueAs => obtain rfl := Option.some.inj h; exact .inr (.inr rfl)

theorem checksumValid_of_valid {a r : List UInt8} (ha : a.length = 2) (hlen : lsaHeaderLen ≤ (a ++ r).length)
    (hv : Fletcher.Valid (r.map octet)) : checksumValid (a ++ r) = true := by
  have hdrop : (a ++ r).drop 2 = r := List.drop_left' ha
  rw [checksumValid, hdrop, (fletcher16Valid_iff _).mpr hv, decide_eq_true hlen, Bool.and_self]

/-- A header with what was filled in is written the same. -/
theorem digits_filled {buf a p t : List UInt8} {x y : UInt8} {n : ℕ} (ha : a.length = 2) (hp : p.length = 14)
    (h : buf = a ++ (p ++ x :: y :: (digits 2 n ++ t))) :
    digits 2 (UInt16.ofNat (field buf 16 2)).toNat = [x, y] ∧
      digits 2 (UInt16.ofNat (field buf 18 2)).toNat = digits 2 n := by
  obtain ⟨hc, hn⟩ := fields_filled ha hp h
  constructor
  · have hlt : value [x, y] < 2 ^ 16 := by
      have := value_lt [x, y]
      norm_num at this ⊢
      exact this
    rw [hc, UInt16.toNat_ofNat', Nat.mod_eq_of_lt hlt]
    exact digits_value rfl
  · have hword : n % 65536 % 2 ^ 16 = n % 256 ^ 2 := by norm_num
    rw [hn, UInt16.toNat_ofNat', hword, digits_mod]

namespace Lsa

theorem length_encode (l : Lsa) : l.encode.length = lsaHeaderLen + l.body.encode.length := by
  obtain ⟨x, y, henc, -, -, -⟩ := l.encode_eq
  simp [henc, lsaHeaderLen]
  omega

theorem checksumValid_encode (l : Lsa) : checksumValid l.encode = true := by
  obtain ⟨x, y, henc, -, -, hv⟩ := l.encode_eq
  have hlen := l.length_encode
  rw [henc] at hlen ⊢
  exact checksumValid_of_valid (length_digits 2 _) (by omega) hv

/-- An LSA whose header was stamped is its header and its body in a row. -/
theorem encode_of_stamped {l : Lsa} (h : l.stamp = l) : l.encode = l.header.encode ++ l.body.encode := by
  obtain ⟨x, y, henc, -, -, -⟩ := l.encode_eq
  obtain ⟨hc, hn⟩ := digits_filled (length_digits 2 _) l.header.length_cover henc
  have hcheck : l.header.lsChecksum = UInt16.ofNat (field l.encode 16 2) := by
    conv_lhs => rw [← h]
    rfl
  have hlength : l.header.length = UInt16.ofNat (field l.encode 18 2) := by
    conv_lhs => rw [← h]
    rfl
  rw [← hcheck] at hc
  rw [← hlength] at hn
  rw [LsaHeader.encode_eq, hc, hn, henc]
  simp

/-- What the encoder leaves as it is: a body that fits the header, and a length and checksum that are right. -/
structure WellFormed (l : Lsa) : Prop where
  fits : l.body.Fits l.header.lsType
  stamped : l.stamp = l

theorem decode_encode {l : Lsa} (h : l.WellFormed) (hlen : l.encode.length < 65536) (r : List UInt8) :
    decode (l.encode ++ r) = some (l, l.encode.length) := by
  have hsize := l.length_encode
  have hstated : l.header.length.toNat = l.encode.length := by
    obtain ⟨x, y, henc, -, -, -⟩ := l.encode_eq
    obtain ⟨-, hn⟩ := fields_filled (length_digits 2 _) l.header.length_cover henc
    have hlength : l.header.length = UInt16.ofNat (field l.encode 18 2) := by
      conv_lhs => rw [← h.stamped]
      rfl
    have h20 : lsaHeaderLen = 20 := rfl
    rw [hlength, hn, UInt16.toNat_ofNat']
    omega
  have hheader : LsaHeader.decode (l.encode ++ r) = some l.header := by
    rw [encode_of_stamped h.stamped, List.append_assoc, LsaHeader.decode_encode]
  have hbody : ((l.encode ++ r).take l.encode.length).drop lsaHeaderLen = l.body.encode := by
    rw [List.take_left' rfl, encode_of_stamped h.stamped]
    exact List.drop_left' l.header.length_encode
  have hfit : ¬ (l.encode.length < lsaHeaderLen ∨ (l.encode ++ r).length < l.encode.length) := by
    rw [List.length_append]
    omega
  rw [decode, hheader]
  simp only [Option.bind_eq_bind, Option.bind_some, hstated]
  rw [if_neg hfit, hbody, LsaBody.decode_encode h.fits (by omega)]
  rfl

theorem encode_stamp (l : Lsa) : l.stamp.encode = l.encode := by
  obtain ⟨x, y, hl, hx, hy, hv⟩ := encode_eq l
  obtain ⟨x', y', hm, hx', hy', hv'⟩ := encode_eq l.stamp
  have hage : l.stamp.header.lsAge = l.header.lsAge := by simp only [stamp]
  rw [l.cover_stamp, l.body_stamp] at hv'
  rw [hage, l.cover_stamp, l.body_stamp] at hm
  obtain ⟨rfl, rfl⟩ := check_unique hx hy hx' hy' hv hv'
  exact hm.trans hl.symm

/-- What an encoded LSA is read back as is the stamped one, if anything. -/
theorem wellFormed_of_decode {l m : Lsa} (hlen : l.encode.length < 65536) {r : List UInt8} {used : ℕ}
    (h : decode (l.encode ++ r) = some (m, used)) : used = l.encode.length ∧ (m = l → l.WellFormed) := by
  have hstamped : l.encode = l.stamp.header.encode ++ l.body.encode := by
    rw [← l.encode_stamp, encode_of_stamped l.stamp_stamp, l.body_stamp]
  have hstated : l.stamp.header.length.toNat = l.encode.length := by
    obtain ⟨x, y, henc, -, -, -⟩ := l.encode_eq
    obtain ⟨-, hn⟩ := fields_filled (length_digits 2 _) l.header.length_cover henc
    have hlength : l.stamp.header.length = UInt16.ofNat (field l.encode 18 2) := rfl
    have hsize := l.length_encode
    have h20 : lsaHeaderLen = 20 := rfl
    rw [hlength, hn, UInt16.toNat_ofNat']
    omega
  have hheader : LsaHeader.decode (l.encode ++ r) = some l.stamp.header := by
    rw [hstamped, List.append_assoc, LsaHeader.decode_encode]
  have hdef : ∃ header, l.stamp.header = header := ⟨_, rfl⟩
  obtain ⟨header, hdef⟩ := hdef
  rw [hdef] at hstated hheader
  rw [decode, hheader] at h
  simp only [Option.bind_eq_bind, Option.bind_some, hstated] at h
  split_ifs at h
  obtain ⟨body, hbody, hm⟩ := Option.bind_eq_some_iff.mp h
  obtain ⟨rfl, rfl⟩ := Prod.mk.inj (Option.some.inj hm)
  refine ⟨rfl, ?_⟩
  rintro rfl
  have heta : ∀ m : Lsa, m = ⟨m.header, m.body⟩ := fun _ => rfl
  exact ⟨LsaBody.fits_of_decode hbody, by rw [heta (stamp _), hdef, body_stamp]⟩

end Lsa

/-! ### Bodies of packets -/

theorem decodeHello_encode (h : Hello) : decodeHello (encodeHello h) = .ok h := by
  have hrest : (h.neighbors.flatMap ipv4Octets).length = h.neighbors.length * 4 :=
    length_flatMap_of_forall length_ipv4Octets _
  have hsize : (encodeHello h).length = helloFixedLen + h.neighbors.length * 4 := by
    rw [encodeHello, List.length_append, hrest]
    simp [ipv4Octets, helloFixedLen]
  have hdrop : (encodeHello h).drop helloFixedLen = h.neighbors.flatMap ipv4Octets :=
    List.drop_left' (by simp [ipv4Octets, helloFixedLen])
  rw [decodeHello, if_neg (by omega), if_neg (by omega), hdrop,
    map_chunksExact_flatMap (by decide) length_ipv4Octets fun a _ => ipv4At_ipv4Octets a]
  simp [encodeHello, ipv4At, ipv4Octets, field_append_left, field_append_right, field_cons_succ,
    List.getElem?_append_right, ofNat_ipv4, ofNat_digits2, ofNat_digits4]

/-- Records of one size that are read back one by one, where each could fail. -/
theorem mapM_chunksExact_flatMap {α ε : Type} {n : ℕ} (hn : 0 < n) {enc : α → List UInt8}
    {dec : List UInt8 → Except ε α} (henc : ∀ a, (enc a).length = n) {l : List α} (hdec : ∀ a ∈ l, dec (enc a) = .ok a) :
    (chunksExact n (l.flatMap enc)).mapM dec = .ok l := by
  rw [chunksExact_flatMap hn henc]
  induction l with
  | nil => rfl
  | cons a l ih =>
    rw [List.map_cons, List.mapM_cons, hdec a List.mem_cons_self, ih fun b hb => hdec b (List.mem_cons_of_mem _ hb)]
    rfl

theorem decodeHeaders_encode (headers : List LsaHeader) :
    decodeHeaders (headers.flatMap LsaHeader.encode) = .ok headers := by
  have hsize : (headers.flatMap LsaHeader.encode).length = headers.length * lsaHeaderLen :=
    length_flatMap_of_forall LsaHeader.length_encode _
  rw [decodeHeaders, if_neg (by rw [hsize]; simp)]
  refine mapM_chunksExact_flatMap (by decide) LsaHeader.length_encode fun h _ => ?_
  have hone := h.decode_encode []
  rw [List.append_nil] at hone
  rw [hone]

theorem decodeDd_encode (d : DatabaseDescription) : decodeDd (encodeDd d) = .ok d := by
  have hdrop : (encodeDd d).drop ddFixedLen = d.lsaHeaders.flatMap LsaHeader.encode :=
    List.drop_left' (by simp [ddFixedLen])
  have hlen : ¬ (encodeDd d).length < ddFixedLen := by
    simp [encodeDd, ddFixedLen]
    omega
  rw [decodeDd, if_neg hlen, hdrop, decodeHeaders_encode]
  simp [encodeDd, field_append_left, field_append_right, field_cons_succ, List.getElem?_append_right, ofNat_digits2,
    ofNat_digits4, bind, Except.bind, pure, Except.pure]

theorem LsRequest.length_encode (e : LsRequest) : e.encode.length = lsRequestLen := by
  simp [encode, ipv4Octets, lsRequestLen]

theorem decodeLsr_encode (entries : List LsRequest) : decodeLsr (encodeLsr entries) = .ok entries := by
  have hsize : (encodeLsr entries).length = entries.length * lsRequestLen :=
    length_flatMap_of_forall LsRequest.length_encode _
  rw [decodeLsr, if_neg (by rw [hsize]; simp)]
  refine mapM_chunksExact_flatMap (by decide) LsRequest.length_encode fun e _ => ?_
  simp [LsRequest.encode, ipv4At, ipv4Octets, field_append_left, field_append_right, field_cons_succ, field_self,
    ofNat_ipv4, LsType.fromU8_asU8]

theorem decodeLsas_encode {lsas : List Lsa} (h : ∀ l ∈ lsas, l.WellFormed ∧ l.encode.length < 65536) :
    decodeLsas lsas.length (lsas.flatMap Lsa.encode) = .ok lsas := by
  induction lsas with
  | nil => rfl
  | cons l lsas ih =>
    obtain ⟨hl, hlen⟩ := h l (by simp)
    have hdrop : (l.encode ++ lsas.flatMap Lsa.encode).drop l.encode.length = lsas.flatMap Lsa.encode :=
      List.drop_left' rfl
    have htake : (l.encode ++ lsas.flatMap Lsa.encode).take l.encode.length = l.encode := List.take_left' rfl
    rw [List.flatMap_cons, List.length_cons, decodeLsas, Lsa.decode_encode hl hlen]
    simp only [hdrop, htake, l.checksumValid_encode, ih fun m hm => h m (by simp [hm])]
    rfl

/-- Only LSAs that are well formed are read back. -/
theorem wellFormed_of_decodeLsas {lsas : List Lsa} (hlen : ∀ l ∈ lsas, l.encode.length < 65536)
    (h : decodeLsas lsas.length (lsas.flatMap Lsa.encode) = .ok lsas) : ∀ l ∈ lsas, l.WellFormed := by
  induction lsas with
  | nil => simp
  | cons l lsas ih =>
    rw [List.flatMap_cons, List.length_cons, decodeLsas] at h
    cases hdec : Lsa.decode (l.encode ++ lsas.flatMap Lsa.encode) with
    | none => rw [hdec] at h; cases h
    | some r =>
      obtain ⟨m, used⟩ := r
      obtain ⟨rfl, hwell⟩ := Lsa.wellFormed_of_decode (hlen l List.mem_cons_self) hdec
      have htake : (l.encode ++ lsas.flatMap Lsa.encode).take l.encode.length = l.encode := List.take_left' rfl
      have hdrop : (l.encode ++ lsas.flatMap Lsa.encode).drop l.encode.length = lsas.flatMap Lsa.encode :=
        List.drop_left' rfl
      rw [hdec] at h
      simp only [htake, hdrop, l.checksumValid_encode] at h
      cases hrest : decodeLsas lsas.length (lsas.flatMap Lsa.encode) with
      | error e => rw [hrest] at h; cases h
      | ok rest =>
        rw [hrest] at h
        obtain ⟨hl, rfl⟩ := List.cons.inj (Except.ok.inj h)
        intro m hm
        rcases List.mem_cons.mp hm with rfl | hm
        · exact hwell hl
        · exact ih (fun m hm => hlen m (List.mem_cons_of_mem _ hm)) hrest m hm

/-- An update is read by its count, LSA after LSA. -/
theorem decodeLsu_eq {lsas : List Lsa} (hlen : (encodeLsu lsas).length < 65536) :
    decodeLsu (encodeLsu lsas) = decodeLsas lsas.length (lsas.flatMap Lsa.encode) ∧
      ∀ l ∈ lsas, l.encode.length < 65536 := by
  have hsize : (encodeLsu lsas).length = 4 + (lsas.flatMap Lsa.encode).length := by
    rw [encodeLsu, List.length_append, length_digits]
  have hcount : lsas.length ≤ (lsas.flatMap Lsa.encode).length := by
    have hone : ∀ n ∈ lsas.map fun l => l.encode.length, 1 ≤ n := by
      intro n hn
      obtain ⟨l, -, rfl⟩ := List.mem_map.mp hn
      rw [l.length_encode, lsaHeaderLen]
      omega
    have hsum := List.length_le_sum_of_one_le _ hone
    rwa [List.length_map, ← List.length_flatMap] at hsum
  have hfield : field (encodeLsu lsas) 0 4 = lsas.length := by
    rw [encodeLsu, field_append_left (length_digits 4 _), value_digits_of_lt (by norm_num; omega)]
  have hdrop : (encodeLsu lsas).drop 4 = lsas.flatMap Lsa.encode := List.drop_left' (length_digits 4 _)
  constructor
  · rw [decodeLsu, if_neg (by omega), hfield, hdrop]
  · intro l hl
    have hle : l.encode.length ≤ (lsas.flatMap Lsa.encode).length := by
      rw [List.length_flatMap]
      exact List.single_le_sum (by simp) _ (List.mem_map_of_mem hl)
    omega

theorem decodeLsu_encode {lsas : List Lsa} (hlen : (encodeLsu lsas).length < 65536) :
    decodeLsu (encodeLsu lsas) = .ok lsas ↔ ∀ l ∈ lsas, l.WellFormed := by
  obtain ⟨heq, heach⟩ := decodeLsu_eq hlen
  rw [heq]
  exact ⟨wellFormed_of_decodeLsas heach, fun h => decodeLsas_encode fun l hl => ⟨h l hl, heach l hl⟩⟩

/-- What an update has to keep to: its LSAs are well formed. -/
def Body.WellFormed : Body → Prop
  | linkStateUpdate lsas => ∀ l ∈ lsas, l.WellFormed
  | _ => True

theorem Body.decode_encode {b : Body} (hlen : b.encode.length < 65536) :
    Body.decode b.packetType b.encode = .ok b ↔ b.WellFormed := by
  cases b with
  | hello x => exact iff_of_true (congrArg (Except.map hello) (decodeHello_encode x)) trivial
  | databaseDescription d => exact iff_of_true (congrArg (Except.map databaseDescription) (decodeDd_encode d)) trivial
  | linkStateRequest entries => exact iff_of_true (congrArg (Except.map linkStateRequest) (decodeLsr_encode entries)) trivial
  | linkStateUpdate lsas =>
    rw [WellFormed, ← decodeLsu_encode hlen]
    change (decodeLsu (encodeLsu lsas)).map linkStateUpdate = _ ↔ _
    cases decodeLsu (encodeLsu lsas) with
    | error e => simp [Except.map]
    | ok l => simp [Except.map]
  | linkStateAck headers => exact iff_of_true (congrArg (Except.map linkStateAck) (decodeHeaders_encode headers)) trivial

/-! ### Packets -/

theorem length_padded (n : ℕ) (octets : List UInt8) : (padded n octets).length = n := by
  simp [padded]
  omega

theorem Auth.length_authField (a : Auth) : a.authField.length = 8 := by
  cases a with
  | null => rfl
  | simple password => exact length_padded 8 password
  | md5 => simp [authField]

/-- How long a digest is that follows a packet. -/
def Auth.digestLen : Auth → ℕ
  | .md5 .. => md5Len
  | .null | .simple _ => 0

theorem PacketType.fromU8_asU8 (t : PacketType) : fromU8 t.asU8 = some t := by
  cases t <;> rfl

theorem ctEq_self (l : List UInt8) : ctEq l l = true := by
  have hzero : (l.zip l).foldl (fun diff p => diff ||| (p.1 ^^^ p.2)) (0 : UInt8) = 0 := by
    induction l with
    | nil => rfl
    | cons b l ih => simpa using ih
  rw [ctEq, if_neg (by simp), hzero]
  rfl

theorem packetChecksum_lt (pkt : List UInt8) : packetChecksum pkt < 65536 := by
  rw [packetChecksum, ipChecksum]
  omega

namespace Packet
variable (md5 : List UInt8 → Vector UInt8 16) (p : Packet) (a : Auth)

/-- The header up to the checksum. -/
def lead : List UInt8 :=
  [version, p.body.packetType.asU8] ++ digits 2 (headerLen + p.body.encode.length) ++
    ipv4Octets p.header.routerId ++ ipv4Octets p.header.areaId

/-- What comes after the checksum. -/
def trail : List UInt8 := digits 2 a.auType ++ (a.authField ++ p.body.encode)

/-- A packet with some checksum, and some octets behind it. -/
def wire (csum digest : List UInt8) : List UInt8 := p.lead ++ (csum ++ (p.trail a ++ digest))

theorem length_lead : p.lead.length = 12 := by
  simp [lead, ipv4Octets]

theorem length_trail : (p.trail a).length = 10 + p.body.encode.length := by
  simp [trail, a.length_authField]
  omega

theorem frame_eq : p.frame a = p.wire a [0, 0] [] := by
  let rest := ipv4Octets p.header.routerId ++ (ipv4Octets p.header.areaId ++ ([0, 0] ++ p.trail a))
  have hlen : ([version, p.body.packetType.asU8] ++ ([0, 0] ++ rest)).length = headerLen + p.body.encode.length := by
    simp [rest, ipv4Octets, length_trail, headerLen]
    omega
  have hout : [version, p.body.packetType.asU8] ++ [0, 0] ++ ipv4Octets p.header.routerId ++
      ipv4Octets p.header.areaId ++ [0, 0] ++ digits 2 a.auType ++ a.authField ++ p.body.encode =
        [version, p.body.packetType.asU8] ++ ([0, 0] ++ rest) := by simp [rest, trail]
  rw [frame, hout, hlen]
  simp [wire, lead, rest]

/-- The checksum is filled in between. -/
theorem fill_wire (csum : List UInt8) : (p.wire a [0, 0] []).take 12 ++ csum ++ (p.wire a [0, 0] []).drop 14 =
    p.wire a csum [] := by
  have hhead : (p.lead ++ [0, 0]).length = 14 := by simp [length_lead]
  have hsplit : p.wire a [0, 0] [] = (p.lead ++ [0, 0]) ++ (p.trail a ++ []) := by simp [wire]
  have hdrop : (p.wire a [0, 0] []).drop 14 = p.trail a ++ [] := by
    rw [hsplit]
    exact List.drop_left' hhead
  rw [hdrop, wire, List.take_left' p.length_lead, wire, List.append_assoc]

section Reading
variable {p a} {csum : List UInt8}

theorem fields_wire (hc : csum.length = 2) (hlen : headerLen + p.body.encode.length < 65536) (digest : List UInt8) :
    let buf := p.wire a csum digest
    buf.getD 0 0 = version ∧ buf.getD 1 0 = p.body.packetType.asU8 ∧
      field buf 2 2 = headerLen + p.body.encode.length ∧ ipv4At buf 4 = p.header.routerId ∧
      ipv4At buf 8 = p.header.areaId ∧ field buf 12 2 = value csum ∧ field buf 14 2 = a.auType ∧
      (buf.drop 16).take 8 = a.authField ∧ (buf.drop headerLen).take p.body.encode.length = p.body.encode ∧
      buf.length = headerLen + p.body.encode.length + digest.length := by
  intro buf
  have hau : value (digits 2 a.auType) = a.auType := value_digits_of_lt (by cases a <;> simp [Auth.auType, auNull, auSimple, auCrypto])
  have hn : value (digits 2 (headerLen + p.body.encode.length)) = headerLen + p.body.encode.length :=
    value_digits_of_lt (by simpa using hlen)
  have hbuf : buf = [version, p.body.packetType.asU8] ++ (digits 2 (headerLen + p.body.encode.length) ++
      (ipv4Octets p.header.routerId ++ (ipv4Octets p.header.areaId ++ (csum ++ (digits 2 a.auType ++
        (a.authField ++ (p.body.encode ++ digest))))))) := by
    simp [buf, wire, lead, trail]
  have h8 := a.length_authField
  rw [hbuf]
  refine ⟨rfl, rfl, ?_, ?_, ?_, ?_, ?_, ?_, ?_, ?_⟩
  · simp [field_append_left, field_cons_succ, hn]
  · simp [ipv4At, ipv4Octets, field_append_left, field_append_right, field_cons_succ, ofNat_ipv4]
  · simp [ipv4At, ipv4Octets, field_append_left, field_append_right, field_cons_succ, ofNat_ipv4]
  · simp [ipv4Octets, field_append_left, field_append_right, field_cons_succ, hc]
  · simp [ipv4Octets, field_append_left, field_append_right, field_cons_succ, hc, hau]
  · simp [ipv4Octets, List.drop_append, hc, List.drop_of_length_le, List.take_left' h8]
  · simp [ipv4Octets, List.drop_append, hc, h8, headerLen, List.drop_of_length_le]
  · simp [ipv4Octets, hc, h8, headerLen]
    omega

/-- What decoding a packet that was sent comes down to. -/
theorem decodeAuth_wire (hc : csum.length = 2) (hlen : headerLen + p.body.encode.length < 65536) (digest : List UInt8)
    (b : Auth) : decodeAuth md5 (p.wire a csum digest) b =
      if a.auType ≠ b.auType then .error .badAuth
      else if !lengthFits (p.wire a csum digest) (headerLen + p.body.encode.length) b then
        .error (.badLength (headerLen + p.body.encode.length) (p.wire a csum digest).length)
      else do
        authenticate md5 (p.wire a csum digest) (headerLen + p.body.encode.length) b
        let body ← Body.decode p.body.packetType p.body.encode
        return ⟨p.header, body⟩ := by
  obtain ⟨hversion, htype, hstated, hrouter, harea, -, hau, -, hbody, hsize⟩ :=
    fields_wire (a := a) hc hlen digest
  have hbody' : ((p.wire a csum digest).take (headerLen + p.body.encode.length)).drop headerLen = p.body.encode := by
    rw [List.drop_take, Nat.add_sub_cancel_left, hbody]
  rw [decodeAuth, if_neg (by omega), hversion, if_neg (not_not.mpr rfl), htype, PacketType.fromU8_asU8]
  simp only [hstated, hau, hrouter, harea, hbody']

/-- The checksum that is filled in is the one that is looked for. -/
theorem verifyChecksum_wire (hlen : headerLen + p.body.encode.length < 65536) :
    verifyChecksum (p.wire a (digits 2 (packetChecksum (p.wire a [0, 0] []))) []) = .ok () := by
  obtain ⟨-, -, -, -, -, hcsum, -⟩ := fields_wire (p := p) (a := a)
    (length_digits 2 (packetChecksum (p.wire a [0, 0] []))) hlen []
  have hclear : ∀ csum : List UInt8, csum.length = 2 →
      ((p.wire a csum []).set 12 0).set 13 0 = p.wire a [0, 0] [] := by
    intro csum hc
    obtain ⟨x, y, rfl⟩ := exists_pair hc
    simp [wire, List.set_append_right, length_lead]
  rw [verifyChecksum, hclear _ (length_digits 2 _), hcsum, value_digits_of_lt (by
    have := packetChecksum_lt (p.wire a [0, 0] [])
    norm_num
    exact this), if_neg (not_not.mpr rfl)]

end Reading

theorem encodeAuth_eq :
    p.encodeAuth md5 a = match a with
      | .md5 _ key _ => p.wire a [0, 0] (md5AuthDigest md5 (p.wire a [0, 0] []) key)
      | .null | .simple _ => p.wire a (digits 2 (packetChecksum (p.wire a [0, 0] []))) [] := by
  cases a with
  | md5 keyId key seq =>
    rw [encodeAuth, frame_eq]
    simp [wire]
  | null =>
    rw [encodeAuth, frame_eq]
    exact p.fill_wire .null _
  | simple password =>
    rw [encodeAuth, frame_eq]
    exact p.fill_wire (.simple password) _

/-- A packet as it is sent: some checksum, and a digest behind it or none. -/
theorem exists_wire : ∃ csum digest : List UInt8, csum.length = 2 ∧ p.encodeAuth md5 a = p.wire a csum digest := by
  rw [encodeAuth_eq]
  cases a with
  | md5 => exact ⟨[0, 0], _, rfl, rfl⟩
  | null => exact ⟨_, [], length_digits 2 _, rfl⟩
  | simple => exact ⟨_, [], length_digits 2 _, rfl⟩

variable {p a}

theorem authenticate_encodeAuth (hlen : headerLen + p.body.encode.length < 65536) :
    lengthFits (p.encodeAuth md5 a) (headerLen + p.body.encode.length) a = true ∧
      authenticate md5 (p.encodeAuth md5 a) (headerLen + p.body.encode.length) a = .ok () := by
  rw [encodeAuth_eq]
  cases a with
  | null =>
    obtain ⟨-, -, -, -, -, -, -, -, -, hsize⟩ := fields_wire (p := p) (a := .null)
      (length_digits 2 (packetChecksum (p.wire .null [0, 0] []))) hlen []
    exact ⟨decide_eq_true (by simpa using hsize.symm), verifyChecksum_wire hlen⟩
  | simple password =>
    obtain ⟨-, -, -, -, -, -, -, hauth, -, hsize⟩ := fields_wire (p := p) (a := .simple password)
      (length_digits 2 (packetChecksum (p.wire (.simple password) [0, 0] []))) hlen []
    refine ⟨decide_eq_true (by simpa using hsize.symm), ?_⟩
    rw [authenticate, verifyChecksum_wire hlen, hauth]
    exact if_neg (not_not.mpr rfl)
  | md5 keyId key seq =>
    let digest := md5AuthDigest md5 (p.wire (.md5 keyId key seq) [0, 0] []) key
    have hdigest : digest.length = md5Len := by simp [digest, md5AuthDigest, md5Len]
    obtain ⟨-, -, -, -, -, -, -, hauth, -, hsize⟩ := @fields_wire p (.md5 keyId key seq) [0, 0] rfl hlen digest
    obtain ⟨-, -, -, -, -, -, -, -, -, hsize'⟩ := @fields_wire p (.md5 keyId key seq) [0, 0] rfl hlen []
    rw [List.length_nil, Nat.add_zero] at hsize'
    have hsplit : p.wire (.md5 keyId key seq) [0, 0] digest = p.wire (.md5 keyId key seq) [0, 0] [] ++ digest := by
      simp [wire]
    have hid : (p.wire (.md5 keyId key seq) [0, 0] digest).getD 18 0 = keyId := by
      have hthird := congrArg (fun l : List UInt8 => l.getD 2 0) hauth
      simpa [Auth.authField, List.getElem?_take, List.getElem?_drop] using hthird
    change lengthFits (p.wire (.md5 keyId key seq) [0, 0] digest) _ _ = true ∧
      authenticate md5 (p.wire (.md5 keyId key seq) [0, 0] digest) _ _ = .ok ()
    refine ⟨decide_eq_true ⟨by rw [hsize, hdigest], by omega⟩, ?_⟩
    rw [authenticate, if_neg (not_not.mpr hid), hsplit, List.take_left' hsize', List.drop_left' hsize',
      List.take_of_length_le hdigest.le, ctEq_self]
    rfl

theorem length_encodeAuth : (p.encodeAuth md5 a).length = headerLen + p.body.encode.length + a.digestLen := by
  have hone : ∀ csum digest : List UInt8, csum.length = 2 →
      (p.wire a csum digest).length = headerLen + p.body.encode.length + digest.length := by
    intro csum digest hc
    simp [wire, length_lead, length_trail, hc, headerLen]
    omega
  rw [encodeAuth_eq]
  cases a with
  | null => exact hone _ [] (length_digits 2 _)
  | simple password => exact hone _ [] (length_digits 2 _)
  | md5 keyId key seq =>
    refine (hone _ _ rfl).trans ?_
    simp [md5AuthDigest, Auth.digestLen, md5Len]

/-- Exactly the packets whose LSAs are well formed are read back. -/
theorem decodeAuth_encodeAuth_iff (hlen : (p.encodeAuth md5 a).length ≤ 65535) :
    decodeAuth md5 (p.encodeAuth md5 a) a = .ok p ↔ p.body.WellFormed := by
  obtain ⟨csum, digest, hc, hwire⟩ := exists_wire md5 p a
  have hfit : headerLen + p.body.encode.length < 65536 := by
    rw [length_encodeAuth] at hlen
    omega
  obtain ⟨hlength, hauth⟩ := authenticate_encodeAuth md5 (p := p) (a := a) hfit
  rw [hwire] at hlength hauth ⊢
  rw [decodeAuth_wire md5 hc hfit, if_neg (not_not.mpr rfl), hlength, hauth, ← Body.decode_encode (by omega)]
  cases Body.decode p.body.packetType p.body.encode with
  | error e => exact iff_of_false (fun h => by cases h) (fun h => by cases h)
  | ok body =>
    constructor
    · intro h
      exact congrArg Except.ok (congrArg Packet.body (Except.ok.inj h))
    · intro h
      rw [Except.ok.inj h]
      rfl

/-- A packet is read back from what was sent, and by no router that expects another kind of authentication. -/
theorem decodeAuth_encodeAuth (hp : p.body.WellFormed) (hlen : (p.encodeAuth md5 a).length ≤ 65535) :
    decodeAuth md5 (p.encodeAuth md5 a) a = .ok p ∧
      ∀ b : Auth, b.auType ≠ a.auType → decodeAuth md5 (p.encodeAuth md5 a) b = .error .badAuth := by
  refine ⟨(decodeAuth_encodeAuth_iff md5 hlen).mpr hp, fun b hb => ?_⟩
  obtain ⟨csum, digest, hc, hwire⟩ := exists_wire md5 p a
  have hfit : headerLen + p.body.encode.length < 65536 := by
    rw [length_encodeAuth] at hlen
    omega
  rw [hwire, decodeAuth_wire md5 hc hfit, if_pos hb.symm]

/-- An update with a Router-LSA, a summary and an opaque LSA. -/
def sampleUpdate : Packet :=
  let header lsType : LsaHeader := ⟨1, 2, lsType, 1, 1, 5, 0, 0⟩
  ⟨⟨1, 0⟩, .linkStateUpdate
    [Lsa.stamp ⟨header .router, .router ⟨1, [⟨2, 3, .pointToPoint, 10⟩]⟩⟩,
      Lsa.stamp ⟨header .summaryAsbr, .summary ⟨0, 0xffffff⟩⟩,
      Lsa.stamp ⟨header .opaqueAs, .opq [1, 2, 3, 4]⟩]⟩

theorem wellFormed_sampleUpdate : sampleUpdate.body.WellFormed := by
  intro l hl
  simp only [List.mem_cons, List.not_mem_nil, or_false] at hl
  obtain rfl | rfl | rfl := hl
  · exact ⟨rfl, Lsa.stamp_stamp _⟩
  · exact ⟨⟨Or.inr rfl, by decide⟩, Lsa.stamp_stamp _⟩
  · exact ⟨Or.inr (Or.inr rfl), Lsa.stamp_stamp _⟩

theorem decodeAuth_encodeAuth_sampleUpdate :
    decodeAuth (fun _ => Vector.replicate 16 0) (sampleUpdate.encodeAuth (fun _ => Vector.replicate 16 0)
      (.simple [119, 114, 101, 110])) (.simple [119, 114, 101, 110]) = .ok sampleUpdate :=
  (decodeAuth_encodeAuth (fun _ => Vector.replicate 16 0) wellFormed_sampleUpdate (by decide +kernel)).1

end Packet

end Wren.Ospf
