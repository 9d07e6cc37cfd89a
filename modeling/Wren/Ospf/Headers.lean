import Wren.Ospf.Lsdb
import Wren.Ospf.Packet
import Wren.Lib.Run

/-! Whether the header of a stored LSA describes the octets that the LSA is flooded as. A received LSA
keeps its header, but what its body loses in decoding is not sent on. -/

namespace Wren.Ospf
open Octets

/-! ### Fields of a buffer -/

/-- The octets of a field. -/
def seg (b : List UInt8) (start len : ℕ) : List UInt8 := (b.drop start).take len

theorem seg_append (b : List UInt8) (s n m : ℕ) : seg b s n ++ seg b (s + n) m = seg b s (n + m) := by
  rw [seg, seg, seg, List.take_add, List.drop_drop]

theorem length_seg {b : List UInt8} {s n : ℕ} (h : s + n ≤ b.length) : (seg b s n).length = n := by
  rw [seg, List.length_take, List.length_drop]
  omega

theorem seg_one {b : List UInt8} {s : ℕ} (h : s < b.length) : seg b s 1 = [b.getD s 0] := by
  rw [seg, List.take_one, List.head?_drop]
  simp [h]

/-- The last field is all that is left. -/
theorem seg_eq_drop {b : List UInt8} {s n : ℕ} (h : b.length = s + n) : seg b s n = b.drop s := by
  rw [seg, List.take_of_length_le]
  rw [List.length_drop]
  omega

theorem eq_seg_getD_drop {b : List UInt8} {s : ℕ} (h : s < b.length) :
    b = seg b 0 s ++ b.getD s 0 :: b.drop (s + 1) := by
  have hone : [b.getD s 0] = (b.drop s).take 1 := (seg_one h).symm
  have hrest : b.getD s 0 :: b.drop (s + 1) = b.drop s := by
    rw [← List.singleton_append, hone, ← List.drop_drop, List.take_append_drop]
  rw [hrest]
  exact (List.take_append_drop s b).symm

theorem field_lt (b : List UInt8) (s : ℕ) {n : ℕ} : field b s n < 256 ^ n := by
  have hle : (seg b s n).length ≤ n := List.length_take_le _ _
  have hlt := value_lt (seg b s n)
  exact hlt.trans_le (Nat.pow_le_pow_right (by decide) hle)

theorem digits_field {b : List UInt8} {s n : ℕ} (h : s + n ≤ b.length) : digits n (field b s n) = seg b s n :=
  digits_value (length_seg h)

theorem seg_take {b : List UInt8} {s n m : ℕ} (h : s + n ≤ m) : seg (b.take m) s n = seg b s n := by
  rw [seg, seg, List.drop_take, List.take_take]
  congr 1
  omega

theorem toNat_u16 (b : List UInt8) (s : ℕ) : (UInt16.ofNat (field b s 2)).toNat = field b s 2 := by
  rw [UInt16.toNat_ofNat']
  exact Nat.mod_eq_of_lt (field_lt b s)

theorem toNat_u32 (b : List UInt8) (s : ℕ) {n : ℕ} (hn : n ≤ 4) :
    (UInt32.ofNat (field b s n)).toNat = field b s n := by
  rw [UInt32.toNat_ofNat']
  have hle : 256 ^ n ≤ 256 ^ 4 := Nat.pow_le_pow_right (by decide) hn
  exact Nat.mod_eq_of_lt ((field_lt b s).trans_le hle)

theorem ipv4Octets_ipv4At {b : List UInt8} {s : ℕ} (h : s + 4 ≤ b.length) :
    ipv4Octets (ipv4At b s) = seg b s 4 := by
  have hlt : field b s 4 < 2 ^ 32 := field_lt b s
  rw [ipv4Octets, ipv4At, BitVec.toNat_ofNat, Nat.mod_eq_of_lt hlt, digits_field h]

/-! ### What decoding loses -/

/-- Nothing is lost: no TOS metrics and no octets after the body, and reserved bits that count as zero
in the checksum. -/
def PlainBody (lsType : LsType) (b : List UInt8) : Prop :=
  match lsType with
  | .router => b.length = 4 + 12 * field b 2 2 ∧ (b.getD 1 0 = 0 ∨ b.getD 1 0 = 255)
  | .summaryNetwork | .summaryAsbr => b.length = 8 ∧ (b.getD 4 0 = 0 ∨ b.getD 4 0 = 255)
  | .asExternal | .nssa => b.length = 16 ∧ (b.getD 4 0 = 0 ∨ b.getD 4 0 = 0x80)
  | .network | .opaqueLink | .opaqueArea | .opaqueAs => True

theorem decodeLinks_length {n : ℕ} {b : List UInt8} {links : List RouterLink} (h : decodeLinks n b = some links) :
    links.length = n ∧ 12 * n ≤ b.length ∧ (b.length = 12 * n → links.flatMap RouterLink.encode = b) := by
  induction n generalizing b links with
  | zero =>
    cases h
    refine ⟨rfl, by omega, ?_⟩
    intro hlen
    exact (List.length_eq_zero_iff.mp hlen).symm
  | succ n ih =>
    rw [decodeLinks] at h
    split_ifs at h with hshort
    obtain ⟨linkType, htype, h⟩ := Option.bind_eq_some_iff.mp h
    dsimp only at h
    split_ifs at h with hsize
    obtain ⟨rest, hrest, h⟩ := Option.bind_eq_some_iff.mp h
    cases h
    obtain ⟨hcount, hfit, hwhole⟩ := ih hrest
    rw [List.length_drop] at hfit hwhole
    refine ⟨by rw [List.length_cons, hcount], by omega, ?_⟩
    intro hlen
    have htos : b.getD 9 0 = 0 := by
      apply UInt8.toNat_inj.mp
      have h0 : (0 : UInt8).toNat = 0 := rfl
      omega
    have h12 : 12 + (b.getD 9 0).toNat * 4 = 12 := by
      rw [htos]
      rfl
    have hlink : RouterLink.encode ⟨ipv4At b 0, ipv4At b 4, linkType, UInt16.ofNat (field b 10 2)⟩ = seg b 0 12 := by
      have hoctets : [linkType.asU8, 0] = seg b 8 2 := by
        rw [← seg_append b 8 1 1, seg_one (by omega), seg_one (by omega), htos, RouterLinkType.asU8_of_fromU8 htype]
        rfl
      rw [RouterLink.encode, ipv4Octets_ipv4At (by omega), ipv4Octets_ipv4At (by omega), hoctets, toNat_u16,
        digits_field (by omega), seg_append b 0 4 4, seg_append b 0 8 2, seg_append b 0 10 2]
    rw [List.flatMap_cons, hlink, hwhole (by omega), h12]
    exact List.take_append_drop 12 b

/-- Where the body of an LSA loses nothing but one octet, that octet decides. -/
theorem lost_octet_cases {b enc : List UInt8} {s n : ℕ} {t : UInt8} {P : Prop} (hs : s < n) (hn : n ≤ b.length)
    (henc : b.length = n → enc = seg b 0 s ++ t :: b.drop (s + 1)) (hlen : enc.length = n)
    (hP : P ↔ b.length = n ∧ octet (b.getD s 0) = octet t) :
    (∃ p r r' q, b = p ++ r :: q ∧ enc = p ++ r' :: q ∧ (octet r = octet r' ↔ P)) ∨ (enc.length < b.length ∧ ¬ P) := by
  by_cases hb : b.length = n
  · refine .inl ⟨_, _, _, _, eq_seg_getD_drop (by omega), henc hb, ?_⟩
    rw [hP]
    exact ⟨fun h => ⟨hb, h⟩, fun h => h.2⟩
  · refine .inr ⟨by omega, ?_⟩
    rw [hP]
    exact fun h => hb h.1

theorem decodeRouter_cases {b : List UInt8} {r : RouterLsa} (h : decodeRouter b = some r) :
    (∃ p o o' q, b = p ++ o :: q ∧ encodeRouter r = p ++ o' :: q ∧ (octet o = octet o' ↔ PlainBody .router b)) ∨
      ((encodeRouter r).length < b.length ∧ ¬ PlainBody .router b) := by
  unfold decodeRouter at h
  split_ifs at h with hshort
  obtain ⟨links, hlinks, rfl⟩ := Option.map_eq_some_iff.mp h
  obtain ⟨hcount, hfit, hwhole⟩ := decodeLinks_length hlinks
  rw [List.length_drop] at hfit hwhole
  refine lost_octet_cases (s := 1) (n := 4 + 12 * field b 2 2) (t := 0) (by omega) (by omega) ?_ ?_ ?_
  · intro hb
    have hdrop : digits 2 links.length ++ links.flatMap RouterLink.encode = b.drop 2 := by
      rw [hcount, digits_field (by omega), hwhole (by omega)]
      exact (congrArg _ (List.drop_drop).symm).trans (List.take_append_drop 2 (b.drop 2))
    rw [encodeRouter, List.append_assoc, hdrop, seg_one (by omega)]
    rfl
  · have hsize : ∀ l : RouterLink, l.encode.length = 12 := by
      intro l
      simp [RouterLink.encode, ipv4Octets]
    rw [encodeRouter, List.length_append, List.length_append, length_digits, length_flatMap_of_forall hsize, hcount]
    simp
    omega
  · rw [show octet 0 = 0 from rfl, octet_eq_zero_iff]
    rfl

theorem decodeSummary_cases {b : List UInt8} {s : SummaryLsa} (h : decodeSummary b = some s) {t : LsType}
    (ht : PlainBody t b ↔ b.length = 8 ∧ (b.getD 4 0 = 0 ∨ b.getD 4 0 = 255)) :
    (∃ p o o' q, b = p ++ o :: q ∧ encodeSummary s = p ++ o' :: q ∧ (octet o = octet o' ↔ PlainBody t b)) ∨
      ((encodeSummary s).length < b.length ∧ ¬ PlainBody t b) := by
  unfold decodeSummary at h
  split_ifs at h with hshort
  cases h
  refine lost_octet_cases (s := 4) (n := 8) (t := 0) (by omega) (by omega) ?_ ?_ ?_
  · intro hb
    rw [encodeSummary, ipv4Octets_ipv4At (by omega), toNat_u32 b 5 (by decide), digits_field (by omega),
      seg_eq_drop (s := 5) (by omega)]
    simp
  · simp [encodeSummary, ipv4Octets]
  · rw [ht, show octet 0 = 0 from rfl, octet_eq_zero_iff]

theorem octet_eq_external_iff (o : UInt8) :
    octet o = octet (if o &&& 0x80 ≠ 0 then 0x80 else 0) ↔ o = 0 ∨ o = 0x80 := by
  revert o
  decide +kernel

theorem decodeExternal_cases {b : List UInt8} {e : AsExternalLsa} (h : decodeExternal b = some e) {t : LsType}
    (ht : PlainBody t b ↔ b.length = 16 ∧ (b.getD 4 0 = 0 ∨ b.getD 4 0 = 0x80)) :
    (∃ p o o' q, b = p ++ o :: q ∧ encodeExternal e = p ++ o' :: q ∧ (octet o = octet o' ↔ PlainBody t b)) ∨
      ((encodeExternal e).length < b.length ∧ ¬ PlainBody t b) := by
  unfold decodeExternal at h
  split_ifs at h with hshort
  cases h
  refine lost_octet_cases (s := 4) (n := 16) (t := if b.getD 4 0 &&& 0x80 ≠ 0 then 0x80 else 0) (by omega)
    (by omega) ?_ ?_ ?_
  · intro hb
    have htail : seg b 5 3 ++ (seg b 8 4 ++ seg b 12 4) = b.drop 5 := by
      rw [seg_append b 8 4 4, seg_append b 5 3 8, seg_eq_drop (by omega)]
    rw [encodeExternal, ipv4Octets_ipv4At (by omega), ipv4Octets_ipv4At (by omega), toNat_u32 b 5 (by decide),
      toNat_u32 b 12 (by decide), digits_field (by omega), digits_field (by omega)]
    simp [← htail]
  · simp [encodeExternal, ipv4Octets]
  · rw [ht, octet_eq_external_iff]

theorem encode_decodeNetwork {b : List UInt8} {n : NetworkLsa} (h : decodeNetwork b = some n) :
    encodeNetwork n = b := by
  unfold decodeNetwork at h
  split_ifs at h with hbad
  cases h
  rw [not_or, not_not] at hbad
  obtain ⟨k, hk⟩ := Nat.dvd_of_mod_eq_zero hbad.2
  have hlen : (b.drop 4).length = k * 4 := by
    rw [List.length_drop]
    omega
  obtain ⟨hflat, hall⟩ := flatten_chunksExact (by decide) k hlen
  have hmap : ((chunksExact 4 (b.drop 4)).map (ipv4At · 0)).flatMap ipv4Octets = b.drop 4 := by
    rw [List.flatMap_map]
    conv_rhs => rw [← hflat]
    rw [← List.flatMap_id]
    apply List.flatMap_congr
    intro c hc
    have hc4 := hall c hc
    rw [ipv4Octets_ipv4At (by omega), seg_eq_drop (by omega)]
    rfl
  rw [encodeNetwork, hmap, ipv4Octets_ipv4At (by omega)]
  exact List.take_append_drop 4 b

/-- Bodies that lose octets get shorter, the others change in one octet at most. -/
theorem decode_body_cases {lsType : LsType} {b : List UInt8} {body : LsaBody}
    (h : LsaBody.decode lsType b = some body) :
    (body.encode = b ∧ PlainBody lsType b) ∨
    (∃ p r r' q, b = p ++ r :: q ∧ body.encode = p ++ r' :: q ∧ (octet r = octet r' ↔ PlainBody lsType b)) ∨
    (body.encode.length < b.length ∧ ¬ PlainBody lsType b) := by
  cases lsType with
  | router =>
    obtain ⟨r, hr, rfl⟩ := Option.map_eq_some_iff.mp h
    exact .inr (decodeRouter_cases hr)
  | network =>
    obtain ⟨n, hn, rfl⟩ := Option.map_eq_some_iff.mp h
    exact .inl ⟨encode_decodeNetwork hn, trivial⟩
  | summaryNetwork | summaryAsbr =>
    obtain ⟨s, hs, rfl⟩ := Option.map_eq_some_iff.mp h
    exact .inr (decodeSummary_cases hs Iff.rfl)
  | asExternal | nssa =>
    obtain ⟨e, he, rfl⟩ := Option.map_eq_some_iff.mp h
    exact .inr (decodeExternal_cases he Iff.rfl)
  | opaqueLink | opaqueArea | opaqueAs =>
    cases h
    exact .inl ⟨rfl, trivial⟩

/-! ### Received LSAs -/

/-- The header of an LSA has the length and the checksum that its encoding has. -/
def Lsa.Described (l : Lsa) : Prop :=
  l.header.length.toNat = field l.encode 18 2 ∧ l.header.lsChecksum.toNat = field l.encode 16 2

/-- Octets of an LSA that are encoded again as they were received, as far as the checksum can tell. A
check octet may be sent as zero, but is never written so. -/
def Plain (wire : List UInt8) : Prop :=
  wire.getD 16 0 ≠ 0 ∧ wire.getD 17 0 ≠ 0 ∧
    ∀ lsType ∈ LsType.fromU8 (wire.getD 3 0), PlainBody lsType (wire.drop lsaHeaderLen)

/-- What a decoded LSA takes from its octets. -/
structure Lsa.OfWire (wire : List UInt8) (l : Lsa) : Prop where
  fits : lsaHeaderLen ≤ wire.length
  cover : l.header.cover = seg wire 2 14
  checksum : l.header.lsChecksum.toNat = field wire 16 2
  stated : field wire 18 2 = wire.length
  length : l.header.length.toNat = wire.length
  lsType : LsType.fromU8 (wire.getD 3 0) = some l.header.lsType
  body : LsaBody.decode l.header.lsType (wire.drop lsaHeaderLen) = some l.body

theorem LsaHeader.cover_decode {buf : List UInt8} {h : LsaHeader} (hd : LsaHeader.decode buf = some h) :
    lsaHeaderLen ≤ buf.length ∧ h.cover = seg buf 2 14 ∧ h.lsChecksum.toNat = field buf 16 2 ∧
      h.length.toNat = field buf 18 2 ∧ LsType.fromU8 (buf.getD 3 0) = some h.lsType := by
  have h20 : lsaHeaderLen = 20 := rfl
  unfold decode at hd
  split_ifs at hd with hshort
  obtain ⟨lsType, htype, rfl⟩ := Option.map_eq_some_iff.mp hd
  refine ⟨by omega, ?_, toNat_u16 buf 16, toNat_u16 buf 18, htype⟩
  have hoctets : [buf.getD 2 0, lsType.asU8] = seg buf 2 2 := by
    rw [← seg_append buf 2 1 1, seg_one (by omega), seg_one (by omega), LsType.asU8_of_fromU8 htype]
    rfl
  have hid : digits 4 (BitVec.ofNat 32 (field buf 4 4)).toNat = seg buf 4 4 := ipv4Octets_ipv4At (by omega)
  have hadv : digits 4 (BitVec.ofNat 32 (field buf 8 4)).toNat = seg buf 8 4 := ipv4Octets_ipv4At (by omega)
  have hseq : digits 4 (UInt32.ofNat (field buf 12 4)).toInt32.toUInt32.toNat = seg buf 12 4 := by
    rw [UInt32.toUInt32_toInt32, toNat_u32 buf 12 (by decide), digits_field (by omega)]
  simp only [cover, hoctets, hid, hadv, hseq]
  rw [seg_append buf 2 2 4, seg_append buf 2 6 4, seg_append buf 2 10 4]

theorem Lsa.ofWire {wire : List UInt8} {l : Lsa} (h : Lsa.decode wire = some (l, wire.length)) : l.OfWire wire := by
  unfold decode at h
  obtain ⟨header, hhead, h⟩ := Option.bind_eq_some_iff.mp h
  dsimp only at h
  split_ifs at h with hbad
  obtain ⟨body, hbody, h⟩ := Option.bind_eq_some_iff.mp h
  obtain ⟨rfl, hlen⟩ : ⟨header, body⟩ = l ∧ header.length.toNat = wire.length := by simpa using h
  obtain ⟨hfits, hcover, hsum, hstated, htype⟩ := LsaHeader.cover_decode hhead
  rw [hlen, List.take_length] at hbody
  exact ⟨hfits, hcover, hsum, hstated.symm.trans hlen, hlen, htype, hbody⟩

theorem value_pair_inj {a b c d : UInt8} (h : value [a, b] = value [c, d]) : a = c ∧ b = d := by
  have hab : digits 2 (value [a, b]) = [a, b] := digits_value rfl
  have hcd : digits 2 (value [c, d]) = [c, d] := digits_value rfl
  rw [h, hcd] at hab
  simpa using hab.symm

/-- The octets that the checksum covers. -/
theorem Lsa.OfWire.drop_two {wire : List UInt8} {l : Lsa} (hw : l.OfWire wire) :
    wire.drop 2 = l.header.cover ++ wire.getD 16 0 :: wire.getD 17 0 ::
      (digits 2 wire.length ++ wire.drop 20) := by
  have h20 : lsaHeaderLen = 20 := rfl
  have hfits := hw.fits
  have hstated : digits 2 wire.length = seg wire 18 2 := by
    rw [← hw.stated, digits_field (by omega)]
  have hpair : [wire.getD 16 0] ++ [wire.getD 17 0] = seg wire 16 2 := by
    rw [← seg_one (by omega), ← seg_one (by omega)]
    exact seg_append wire 16 1 1
  have hcheck : wire.getD 16 0 :: wire.getD 17 0 :: (digits 2 wire.length ++ wire.drop 20) = wire.drop 16 := by
    calc wire.getD 16 0 :: wire.getD 17 0 :: (digits 2 wire.length ++ wire.drop 20)
        = ([wire.getD 16 0] ++ [wire.getD 17 0]) ++ seg wire 18 2 ++ wire.drop 20 := by simp [hstated]
      _ = seg wire 16 4 ++ (wire.drop 16).drop 4 := by rw [hpair, seg_append wire 16 2 2, List.drop_drop]
      _ = wire.drop 16 := List.take_append_drop 4 _
  have hsplit : wire.drop 16 = (wire.drop 2).drop 14 := by rw [List.drop_drop]
  rw [hcheck, hw.cover, hsplit]
  exact (List.take_append_drop 14 (wire.drop 2)).symm

/-- The header of a received LSA describes what is sent on exactly if its octets are plain. -/
theorem Lsa.described_iff_plain {wire : List UInt8} {l : Lsa} (h : Lsa.decode wire = some (l, wire.length))
    (hv : checksumValid wire = true) : l.Described ↔ Plain wire := by
  have hw := l.ofWire h
  have h20 : lsaHeaderLen = 20 := rfl
  have hfits := hw.fits
  have hmax : wire.length < 65536 := by
    rw [← hw.stated]
    exact field_lt wire 18
  have hregion := hw.drop_two
  have hvalid : Fletcher.Valid ((wire.drop 2).map octet) := by
    rw [← fletcher16Valid_iff]
    simpa [checksumValid, hfits] using hv
  rw [hregion] at hvalid
  obtain ⟨x, y, henc, hx, hy, hvalid'⟩ := l.encode_eq
  obtain ⟨hsum, hlen⟩ := fields_filled (length_digits 2 _) l.header.length_cover henc
  have hpairs : field wire 16 2 = value [wire.getD 16 0, wire.getD 17 0] := by
    change value (seg wire 16 2) = _
    rw [← seg_append wire 16 1 1, seg_one (by omega), seg_one (by omega)]
    rfl
  have hdescribed : l.Described ↔ l.body.encode.length = (wire.drop 20).length ∧
      wire.getD 16 0 = x ∧ wire.getD 17 0 = y := by
    rw [Described, hlen, hsum, hw.length, hw.checksum, hpairs, List.length_drop]
    refine and_congr ?_ ⟨value_pair_inj, fun h => by rw [h.1, h.2]⟩
    have hle : l.body.encode.length ≤ (wire.drop 20).length := by
      rcases decode_body_cases hw.body with ⟨heq, -⟩ | ⟨p, r, r', q, hb, hb', -⟩ | ⟨hlt, -⟩
      · exact heq ▸ le_refl _
      · rw [h20] at hb
        rw [hb, hb']
        simp
      · exact hlt.le
    rw [List.length_drop] at hle
    omega
  have hplain : Plain wire ↔ wire.getD 16 0 ≠ 0 ∧ wire.getD 17 0 ≠ 0 ∧ PlainBody l.header.lsType (wire.drop 20) := by
    rw [Plain, hw.lsType, h20]
    simp
  rw [hdescribed, hplain]
  rcases decode_body_cases hw.body with ⟨heq, hp⟩ | ⟨p, r, r', q, hb, hb', hp⟩ | ⟨hlt, hp⟩
  · rw [h20] at heq hp
    have hlen20 : 20 + (wire.drop 20).length = wire.length := by
      rw [List.length_drop]
      omega
    rw [heq, hlen20] at hvalid'
    constructor
    · rintro ⟨-, hcx, hcy⟩
      exact ⟨hcx ▸ hx, hcy ▸ hy, hp⟩
    · rintro ⟨hcx, hcy, -⟩
      exact ⟨by rw [heq], check_unique hcx hcy hx hy hvalid hvalid'⟩
  · rw [h20] at hb hp
    have hsame : l.body.encode.length = (wire.drop 20).length := by
      rw [hb, hb']
      simp
    have hlen20 : 20 + l.body.encode.length = wire.length := by
      rw [hsame, List.length_drop]
      omega
    rw [hlen20, hb'] at hvalid'
    rw [hb] at hvalid
    constructor
    · rintro ⟨-, rfl, rfl⟩
      refine ⟨hx, hy, ?_⟩
      rw [hb, ← hb, ← hp]
      have hsums := hvalid.1.trans hvalid'.1.symm
      simpa using hsums
    · rintro ⟨hcx, hcy, hplain⟩
      refine ⟨hsame, check_unique hcx hcy hx hy hvalid ?_⟩
      have hoct := hp.mpr hplain
      have hmap : (p ++ r :: q).map octet = (p ++ r' :: q).map octet := by simp [hoct]
      simp only [List.map_append, List.map_cons] at hvalid' hmap ⊢
      rw [hmap]
      exact hvalid'
  · rw [h20] at hlt hp
    constructor
    · rintro ⟨hsame, -⟩
      omega
    · rintro ⟨-, -, hplain⟩
      exact absurd hplain hp

/-! ### Databases -/

/-- An LSA stands at the front of its octets. -/
theorem Lsa.decode_take {buf : List UInt8} {l : Lsa} {n : ℕ} (h : Lsa.decode buf = some (l, n)) :
    Lsa.decode (buf.take n) = some (l, (buf.take n).length) := by
  have h20 : lsaHeaderLen = 20 := rfl
  unfold decode at h
  obtain ⟨header, hhead, h⟩ := Option.bind_eq_some_iff.mp h
  dsimp only at h
  split_ifs at h with hbad
  obtain ⟨body, hbody, h⟩ := Option.bind_eq_some_iff.mp h
  obtain ⟨rfl, rfl⟩ : ⟨header, body⟩ = l ∧ header.length.toNat = n := by simpa using h
  have hlen : (buf.take header.length.toNat).length = header.length.toNat := by
    rw [List.length_take]
    omega
  have hfield : ∀ s k, s + k ≤ 20 → field (buf.take header.length.toNat) s k = field buf s k := by
    intro s k hsk
    exact congrArg value (seg_take (by omega))
  have hgetD : ∀ i < 20, (buf.take header.length.toNat).getD i 0 = buf.getD i 0 := by
    intro i hi
    rw [List.getD_eq_getElem?_getD, List.getD_eq_getElem?_getD, List.getElem?_take_of_lt (by omega)]
  have hhead' : LsaHeader.decode (buf.take header.length.toNat) = some header := by
    rw [← hhead]
    unfold LsaHeader.decode
    rw [if_neg (by omega), if_neg (by omega), hgetD 3 (by omega), hgetD 2 (by omega), hfield 0 2 (by omega),
      hfield 4 4 (by omega), hfield 8 4 (by omega), hfield 12 4 (by omega), hfield 16 2 (by omega),
      hfield 18 2 (by omega)]
  unfold decode
  rw [hhead']
  have hgood : ¬ (header.length.toNat < lsaHeaderLen ∨ header.length.toNat < header.length.toNat) := by omega
  simp only [Option.bind_eq_bind, Option.bind_some, List.take_take, Nat.min_self, hbody, hlen, if_neg hgood]
  rfl

/-- An LSA of an update is the decoded form of octets with a good checksum. -/
theorem exists_wire_of_mem_decodeLsas {n : ℕ} {octets : List UInt8} {lsas : List Lsa} {l : Lsa}
    (h : decodeLsas n octets = .ok lsas) (hl : l ∈ lsas) :
    ∃ wire, Lsa.decode wire = some (l, wire.length) ∧ checksumValid wire = true := by
  induction n generalizing octets lsas with
  | zero =>
    rw [decodeLsas] at h
    split_ifs at h
    cases h
    cases hl
  | succ n ih =>
    rw [decodeLsas] at h
    cases hdec : Lsa.decode octets with
    | none =>
      rw [hdec] at h
      cases h
    | some r =>
      obtain ⟨m, used⟩ := r
      cases hrest : decodeLsas n (octets.drop used) with
      | error e =>
        simp only [hdec, hrest] at h
        cases h
      | ok rest =>
        simp only [hdec, hrest] at h
        have hlist : (if checksumValid (octets.take used) = true then m :: rest else rest) = lsas :=
          Except.ok.inj h
        split_ifs at hlist with hv
        · subst hlist
          rcases List.mem_cons.mp hl with rfl | hl
          · exact ⟨_, Lsa.decode_take hdec, hv⟩
          · exact ih hrest hl
        · subst hlist
          exact ih hrest hl

/-- An LSA of a Link State Update that was accepted. -/
def Lsa.Received (l : Lsa) : Prop :=
  ∃ packet header lsas, Packet.decode packet = .ok ⟨header, .linkStateUpdate lsas⟩ ∧ l ∈ lsas

/-- An accepted packet has an accepted body. -/
theorem Packet.body_of_decode {buf : List UInt8} {p : Packet} (h : Packet.decode buf = .ok p) :
    ∃ ptype, Body.decode ptype (buf.drop headerLen) = .ok p.body := by
  unfold decode at h
  split at h
  · cases h
  split at h
  · cases h
  split at h
  · cases h
  · rename_i ptype _
    dsimp only at h
    split at h
    · cases h
    split at h
    · cases h
    cases hsum : verifyChecksum buf with
    | error e =>
      rw [hsum] at h
      cases h
    | ok u =>
      cases hbody : Body.decode ptype (buf.drop headerLen) with
      | error e =>
        rw [hsum, hbody] at h
        cases h
      | ok body =>
        rw [hsum, hbody] at h
        cases h
        exact ⟨ptype, hbody⟩

theorem decodeLsu_of_decode {ptype : PacketType} {b : List UInt8} {lsas : List Lsa}
    (h : Body.decode ptype b = .ok (.linkStateUpdate lsas)) : decodeLsu b = .ok lsas := by
  cases ptype with
  | linkStateUpdate =>
    cases hlsu : decodeLsu b with
    | error e =>
      simp only [Body.decode, hlsu] at h
      cases h
    | ok l =>
      simp only [Body.decode, hlsu] at h
      cases h
      rfl
  | hello =>
    cases hd : decodeHello b <;> simp [Body.decode, hd, Except.map] at h
  | databaseDescription =>
    cases hd : decodeDd b <;> simp [Body.decode, hd, Except.map] at h
  | linkStateRequest =>
    cases hd : decodeLsr b <;> simp [Body.decode, hd, Except.map] at h
  | linkStateAck =>
    cases hd : decodeHeaders b <;> simp [Body.decode, hd, Except.map] at h

theorem Lsa.Received.exists_wire {l : Lsa} (h : l.Received) :
    ∃ wire, Lsa.decode wire = some (l, wire.length) ∧ checksumValid wire = true := by
  obtain ⟨packet, header, lsas, hdec, hl⟩ := h
  obtain ⟨ptype, hbody⟩ := Packet.body_of_decode hdec
  have hlsu := decodeLsu_of_decode hbody
  unfold decodeLsu at hlsu
  split_ifs at hlsu
  exact exists_wire_of_mem_decodeLsas hlsu hl

namespace Lsdb

/-- Every header describes the LSA it is stored with. -/
def Described (db : Lsdb) : Prop := ∀ k l, db.get k = some l → l.Described

/-- The LSA would be stored. -/
def Takes (db : Lsdb) (l : Lsa) : Prop :=
  ∀ m, db.get l.key = some m → l.header.compareRecency m.header = .gt

/-- An LSA was built here and not encoded yet, or received. -/
def Op.Sourced : Op → Prop
  | .install l => l.header.length = 0 ∨ l.Received
  | .age _ => True

/-- A received LSA that is stored came in plain octets. -/
def Clean (db : Lsdb) : Op → Prop
  | .install l => l.header.length ≠ 0 → db.Takes l → ∀ wire, Lsa.decode wire = some (l, wire.length) →
      checksumValid wire = true → Plain wire
  | .age _ => True

end Lsdb

theorem Lsa.described_stamp (l : Lsa) : l.stamp.Described := by
  obtain ⟨hsum, hlen⟩ := encode_congr l.cover_stamp l.body_stamp
  rw [Described, hsum, hlen]
  simp only [stamp]
  exact ⟨toNat_u16 _ _, toNat_u16 _ _⟩

theorem Lsa.described_withAge (l : Lsa) (age : UInt16) : (l.withAge age).Described ↔ l.Described := by
  have hcover : (l.withAge age).header.cover = l.header.cover := by simp only [withAge, LsaHeader.cover]
  have hbody : (l.withAge age).body = l.body := by simp only [withAge]
  obtain ⟨hsum, hlen⟩ := encode_congr hcover hbody
  rw [Described, Described, hsum, hlen]
  simp only [withAge]

namespace Lsdb

theorem described_age {db : Lsdb} (h : db.Described) (secs : UInt16) : (db.age secs).1.Described := by
  intro k l hl
  rw [get_age] at hl
  obtain ⟨m, hm, rfl⟩ := Option.map_eq_some_iff.mp hl
  exact (m.described_withAge _).mpr (h k m hm)

/-- Only the LSA that is stored matters. -/
theorem described_install_iff {db : Lsdb} (h : db.Described) (l : Lsa) :
    (db.install l).1.Described ↔ (db.Takes l.filled → l.filled.Described) := by
  constructor
  · intro hd htakes
    refine hd l.key _ ?_
    rw [get_install, if_pos]
    refine ⟨rfl, ?_⟩
    intro m hm
    exact htakes m (by rw [l.key_filled, hm])
  · intro hd k m hm
    rw [get_install] at hm
    split_ifs at hm with hput
    · cases hm
      refine hd ?_
      intro m hm
      rw [l.key_filled] at hm
      exact hput.2 m (hput.1 ▸ hm)
    · exact h k m hm

theorem described_apply_iff {db : Lsdb} (h : db.Described) {op : Op} (hop : op.Sourced) :
    (db.apply op).Described ↔ db.Clean op := by
  cases op with
  | age secs => exact iff_of_true (described_age h secs) trivial
  | install l =>
    change (db.install l).1.Described ↔ _
    rw [described_install_iff h]
    by_cases hlen : l.header.length = 0
    · have hfill : l.filled = l.stamp := if_pos hlen
      rw [hfill]
      exact iff_of_true (fun _ => l.described_stamp) (fun hne => absurd hlen hne)
    · have hfill : l.filled = l := if_neg hlen
      obtain ⟨wire, hwire, hv⟩ := (hop.resolve_left hlen).exists_wire
      rw [hfill]
      constructor
      · intro hd _ htakes wire' hwire' hv'
        exact (Lsa.described_iff_plain hwire' hv').mp (hd htakes)
      · intro hclean htakes
        exact (Lsa.described_iff_plain hwire hv).mpr (hclean hlen htakes wire hwire hv)

/-- Along every run of a database, all headers describe their LSAs exactly when every received LSA that
is stored came in plain octets. -/
theorem every_described_iff (ops : List Op) (hops : ∀ op ∈ ops, op.Sourced) :
    Run.Every apply (fun db op => (db.apply op).Described) new ops ↔ Run.Every apply Clean new ops := by
  have hsourced : Run.Every apply (fun _ op => op.Sourced) new ops :=
    Run.every_of_forall (fun _ _ h => h) hops new
  refine Run.every_good_iff (fun _ => True) Described (fun _ _ _ _ => trivial)
    (fun db op _ hop hd => described_apply_iff hd hop) hsourced trivial ?_
  intro k l hl
  rw [get_new] at hl
  cases hl

/-- A Router-LSA of this router is installed and grows old. -/
theorem every_described_own :
    Run.Every apply (fun db op => (db.apply op).Described) new
      [.install ⟨⟨0, 2, .router, 1, 1, 1, 0, 0⟩, .router ⟨0, []⟩⟩, .age 3600] := by
  refine (every_described_iff _ ?_).mpr ⟨fun h => absurd rfl h, trivial, trivial⟩
  intro op hop
  simp only [List.mem_cons, List.not_mem_nil, or_false] at hop
  rcases hop with rfl | rfl
  · exact .inl rfl
  · trivial

/-- A Router-LSA whose only link, to a stub network, has a metric for TOS 8. -/
def tosLsa : Lsa :=
  ⟨⟨1, 2, .router, 0x0a000001, 0x0a000001, (0x80000001 : UInt32).toInt32, 0xff16, 40⟩,
    .router ⟨0, [⟨0x0a010000, 0xffff0000, .stub, 10⟩]⟩⟩

/-- The Link State Update that brings it. -/
def tosPacket : List UInt8 :=
  [2, 4, 0, 68, 10, 0, 0, 1, 0, 0, 0, 0, 73, 95, 0, 0, 0, 0, 0, 0, 0, 0, 0, 0, 0, 0, 0, 1,
    0, 1, 2, 1, 10, 0, 0, 1, 10, 0, 0, 1, 128, 0, 0, 1, 255, 22, 0, 40,
    0, 0, 0, 1, 10, 1, 0, 0, 255, 255, 0, 0, 3, 1, 0, 10, 8, 0, 0, 5]

/-- It is stored with a length of 40 and flooded with 36 octets. -/
theorem not_forall_described :
    ¬ ∀ ops : List Op, (∀ op ∈ ops, op.Sourced) → (ops.foldl apply new).Described := by
  intro h
  have hreceived : tosLsa.Received :=
    ⟨tosPacket, ⟨0x0a000001, 0⟩, [tosLsa], by decide +kernel, by simp⟩
  have hall := h [.install tosLsa] (by simpa [Op.Sourced] using .inr hreceived)
  have hstored : ([Op.install tosLsa].foldl apply new).get tosLsa.key = some tosLsa := by
    change (new.install tosLsa).1.get tosLsa.key = _
    rw [get_install, if_pos ⟨rfl, fun m hm => by rw [get_new] at hm; cases hm⟩]
    decide +kernel
  have hbad := (hall _ _ hstored).1
  revert hbad
  decide +kernel

end Lsdb
end Wren.Ospf
