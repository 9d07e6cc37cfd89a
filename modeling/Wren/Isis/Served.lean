import Wren.Isis.Lsdb
import Wren.Isis.Reencode

/-! What a neighbour is sent of an LSP that came from another. -/

namespace Wren.Isis
open Octets

/-! ### TLVs one after another -/

/-- The octets of one TLV, after whose type and length stands a plain value. -/
def PlainTlv (w : List UInt8) : Prop := Tlv.Plain (w.getD 0 0) (w.drop 2)

theorem encode_of_decodeNext {buf : List UInt8} {t : Tlv} {used : ℕ} (h : decodeNext buf = some (t, used)) :
    used ≤ buf.length ∧ used ≤ t.encode.length ∧ (t.encode = buf.take used ↔ PlainTlv (buf.take used)) := by
  rw [decodeNext] at h
  dsimp only at h
  split_ifs at h with hhead hshort
  obtain ⟨u, hu, heq⟩ := Option.map_eq_some_iff.mp h
  obtain ⟨rfl, rfl⟩ := Prod.mk.inj heq
  obtain ⟨⟨hle, hmax⟩, hiff⟩ := Tlv.encodeValue_of_decodeOne hu
  have hlen := length_take_drop (v := buf) (p := 2) (n := (buf.getD 1 0).toNat) (by omega)
  have hlt := (buf.getD 1 0).toNat_lt
  have hcut : u.encodeValue.take 255 = u.encodeValue := List.take_of_length_le (by omega)
  have htake : buf.take (2 + (buf.getD 1 0).toNat) =
      buf.getD 0 0 :: buf.getD 1 0 :: (buf.drop 2).take (buf.getD 1 0).toNat := by
    have h0 := take_drop_one (v := buf) (n := 0) (by omega)
    have h1 := take_drop_one (v := buf) (n := 1) (by omega)
    rw [List.drop_zero] at h0
    rw [show 2 = 1 + 1 from rfl, List.take_add, List.take_add, h0, h1]
    rfl
  have hencode : u.encode = buf.getD 0 0 :: UInt8.ofNat u.encodeValue.length :: u.encodeValue := by
    rw [Tlv.encode, hcut, (Tlv.of_decodeOne hu).1]
  refine ⟨by omega, by rw [hencode, List.length_cons, List.length_cons]; omega, ?_⟩
  rw [hencode, htake]
  change _ ↔ Tlv.Plain (buf.getD 0 0) ((buf.drop 2).take (buf.getD 1 0).toNat)
  rw [← hiff]
  constructor
  · intro heq
    injection heq with _ heq
    injection heq
  · intro heq
    rw [heq, hlen, UInt8.ofNat_toNat]

theorem encodeAll_of_decodeAll {buf : List UInt8} {ts : List Tlv} (h : decodeAll buf = some ts) :
    encodeAll ts = buf ↔ ∀ w ∈ pieces decodeNext buf, PlainTlv w :=
  flatMap_eq_iff (fun _ _ _ => encode_of_decodeNext) h

/-! ### The database -/

/-- A database that took an LSP in, and neither dropped nor replaced it since. -/
inductive Stored (l : Lsp) : Lsdb → Prop
  | install {db : Lsdb} (h : (db.install l).2.changed = true) : Stored l (db.install l).1
  | other {db : Lsdb} {m : Lsp} (hs : Stored l db) (h : m.lspId = l.lspId → (db.install m).2.changed = false) :
      Stored l (db.install m).1
  | remove {db : Lsdb} {i : LspId} (hs : Stored l db) (h : i ≠ l.lspId) : Stored l (db.remove i)
  | age {db : Lsdb} (hs : Stored l db) (secs : UInt16) : Stored l (db.age secs).1

theorem Lsdb.install_cases (db : Lsdb) (m : Lsp) :
    (db.install m).2.changed = true ∧ (db.install m).1 = db.put m ∨
      (db.install m).2.changed = false ∧ (db.install m).1 = db := by
  unfold install
  cases db.get m.lspId with
  | none =>
    dsimp only
    split_ifs
    · exact Or.inr ⟨rfl, rfl⟩
    · exact Or.inl ⟨rfl, rfl⟩
  | some held =>
    dsimp only
    cases recency m held with
    | gt => exact Or.inl ⟨rfl, rfl⟩
    | eq => exact Or.inr ⟨rfl, rfl⟩
    | lt => exact Or.inr ⟨rfl, rfl⟩

/-- All that happens to a stored LSP is that its lifetime runs down. -/
theorem Stored.get_eq {l : Lsp} {db : Lsdb} (h : Stored l db) :
    ∃ n, db.get l.lspId = some { l with remainingLifetime := n } := by
  induction h with
  | @install db h =>
    rcases db.install_cases l with ⟨-, hput⟩ | ⟨hkept, -⟩
    · exact ⟨l.remainingLifetime, by rw [hput, Lsdb.get_put, if_pos rfl]⟩
    · rw [h] at hkept
      cases hkept
  | @other db m hs h ih =>
    rcases db.install_cases m with ⟨hchanged, hput⟩ | ⟨-, hkept⟩
    · have hne : ¬ l.lspId = m.lspId := by
        intro heq
        rw [h heq.symm] at hchanged
        cases hchanged
      rw [hput, Lsdb.get_put, if_neg hne]
      exact ih
    · rw [hkept]
      exact ih
  | @remove db i hs h ih =>
    rw [Lsdb.get_remove, if_neg (Ne.symm h)]
    exact ih
  | @age db hs secs ih =>
    obtain ⟨n, hn⟩ := ih
    rw [Lsdb.get_age, hn]
    exact ⟨_, rfl⟩

/-! ### LSPs -/

/-- A stored LSP as a neighbour is sent it who asks for it, without authentication. -/
def served (l : Lsp) : List UInt8 := encodePdu none ⟨0, .lsp l⟩

/-- What the checksum of an LSP covers: its ID and all that follows, up to the stated length. -/
def covered (bytes : List UInt8) : List UInt8 := (bytes.take (Pdu.u16At bytes 8).toNat).drop 12

/-- The copy that is sent out is the one that came in, under the checksum that the database tells of it. -/
def ServedUnchanged (bytes : List UInt8) (m : Lsp) : Prop :=
  (served m).drop 12 = covered bytes ∧ Pdu.u16At (served m) 24 = m.checksum

/-- An LSP that says nothing which the database does not keep. -/
structure PlainLsp (bytes : List UInt8) : Prop where
  isType : bytes.getD 26 0 &&& 1 = 1
  check_ne_zero : bytes.getD 24 0 ≠ 0 ∧ bytes.getD 25 0 ≠ 0
  tlvs : ∀ w ∈ pieces decodeNext ((bytes.take (Pdu.u16At bytes 8).toNat).drop 27), PlainTlv w

/-- What is served, octet by octet. Its check octets are computed anew and are never zero. -/
theorem served_drop (l : Lsp) : ∃ x y, (served l).drop 12 = (l.lspId.encode ++ digits 4 l.sequenceNumber.toNat) ++
    x :: y :: lspFlags l :: encodeAll l.tlvs ∧ x ≠ 0 ∧ y ≠ 0 ∧
      Fletcher.Valid (((l.lspId.encode ++ digits 4 l.sequenceNumber.toNat) ++
        x :: y :: lspFlags l :: encodeAll l.tlvs).map Ospf.octet) := by
  let cover := l.lspId.encode ++ digits 4 l.sequenceNumber.toNat
  obtain ⟨total, htotal⟩ : ∃ total, (Pdu.mk 0 (.lsp l)).pduType.fixedHeaderLen + (encodeAll l.tlvs).length = total :=
    ⟨_, rfl⟩
  let lead := (Pdu.mk 0 (.lsp l)).commonHeader ++ (digits 2 total ++ digits 2 l.remainingLifetime.toNat)
  have hlead : lead.length = 12 := by simp [lead, Pdu.commonHeader]
  have hcover : cover.length = 12 := by simp [cover]
  have hoctets : (Pdu.mk 0 (.lsp l)).octets = lead ++ (cover ++ 0 :: 0 :: (lspFlags l :: encodeAll l.tlvs)) := by
    have hbody : (PduBody.lsp l).tlvs = l.tlvs := rfl
    rw [Pdu.octets]
    simp only [hbody, htotal, Pdu.fixedFields]
    simp [lead, cover]
  obtain ⟨x, y, hsum, hx, hy, hvalid⟩ := Ospf.fletcher16_eq cover (lspFlags l :: encodeAll l.tlvs) 0 0
  rw [hcover] at hsum
  refine ⟨x, y, ?_, hx, hy, hvalid⟩
  change ((Pdu.mk 0 (.lsp l)).octets.take 12 ++ (Ospf.fletcher16 ((Pdu.mk 0 (.lsp l)).octets.drop 12) 12).1).drop 12 = _
  rw [hoctets, List.take_left' hlead, List.drop_left' hlead, List.drop_left' hlead, hsum]

/-- The flags are written from what was read of them, and the type of the originator has two values of four. -/
theorem lspFlags_of_read {l : Lsp} {f : UInt8} (hpart : l.partition = decide (f &&& 0x80 ≠ 0))
    (hatt : l.attached = (f >>> 3) &&& 0x0f) (hover : l.overload = decide (f &&& 0x04 ≠ 0))
    (htype : l.isType = .isTypeFromBits f) : lspFlags l = f ↔ f &&& 1 = 1 := by
  rw [lspFlags, hpart, hatt, hover, htype]
  clear hpart hatt hover htype
  revert f
  decide +kernel

/-- The octets that an LSP was read from, field by field. -/
theorem covered_of_decode {bytes : List UInt8} {mx : UInt8} {l : Lsp} (h : Pdu.decode bytes = .ok ⟨mx, .lsp l⟩) :
    let tlvs := (bytes.take (Pdu.u16At bytes 8).toNat).drop 27
    covered bytes = (l.lspId.encode ++ digits 4 l.sequenceNumber.toNat) ++
      bytes.getD 24 0 :: bytes.getD 25 0 :: bytes.getD 26 0 :: tlvs ∧
    decodeAll tlvs = some l.tlvs ∧ (lspFlags l = bytes.getD 26 0 ↔ bytes.getD 26 0 &&& 1 = 1) ∧
    l.checksum = Pdu.u16At (covered bytes) 12 ∧
    (l.remainingLifetime ≠ 0 → fletcher16Valid (covered bytes) = true) := by
  obtain ⟨pt, ts, -, hfixed, hlen, hall, hbody⟩ := Pdu.exists_read_of_decode h
  obtain ⟨hpt, hvalid, i, hid, hl⟩ := Pdu.lsp_of_decodeBody hbody
  have h27 : pt.fixedHeaderLen = 27 := by rcases hpt with rfl | rfl <;> rfl
  have hoff : pt.lenOff = 8 := by rcases hpt with rfl | rfl <;> rfl
  rw [h27, hoff] at hfixed
  rw [hoff] at hlen
  rw [h27, hoff] at hall
  rw [hoff] at hvalid
  clear h hbody
  unfold covered
  generalize (Pdu.u16At bytes 8).toNat = n at *
  have hpart : ∀ p k, p + k ≤ 27 → ((bytes.take n).drop p).take k = (bytes.drop p).take k := by
    intro p k hp
    rw [List.drop_take, List.take_take, Nat.min_eq_left (by omega)]
  have hone : ∀ p, p < 27 → ((bytes.take n).drop p).take 1 = [bytes.getD p 0] := by
    intro p hp
    rw [hpart p 1 (by omega), take_drop_one (by omega)]
  have hi : l.lspId.encode = ((bytes.take n).drop 12).take 8 := by
    rw [hl, hpart 12 8 (by norm_num), LspId.encode_of_decode hid, List.take_take]
    rfl
  have hseq : digits 4 l.sequenceNumber.toNat = ((bytes.take n).drop 20).take 4 := by
    rw [hl, hpart 20 4 (by norm_num)]
    exact digits_ofNat_u32 (length_take_drop (by omega)) (by norm_num)
  refine ⟨?_, by rw [hl]; exact hall, ?_, ?_, ?_⟩
  · calc (bytes.take n).drop 12
        = ((bytes.take n).drop 12).take (8 + 4 + 1 + 1 + 1) ++ (bytes.take n).drop 27 := by
          conv_lhs => rw [← List.take_append_drop 15 ((bytes.take n).drop 12), List.drop_drop]
      _ = _ := by
          rw [List.take_add, List.take_add, List.take_add, List.take_add, List.drop_drop, List.drop_drop,
            List.drop_drop, List.drop_drop, hone 24 (by norm_num), hone 25 (by norm_num), hone 26 (by norm_num), hi, hseq]
          simp
  · exact lspFlags_of_read (by rw [hl]) (by rw [hl]) (by rw [hl]) (by rw [hl])
  · have hsum : l.checksum = Pdu.u16At bytes 24 := congrArg Lsp.checksum hl
    rw [hsum, Pdu.u16At, Pdu.u16At, List.drop_drop, hpart 24 2 (by norm_num)]
  · intro hlive
    rw [hl] at hlive
    by_contra hbad
    exact hvalid ⟨hlive, by simpa using hbad⟩

/-- Check octets that are not zero are determined by the rest. -/
theorem check_eq {p t : List UInt8} {x y a b : UInt8} (hx : x ≠ 0) (hy : y ≠ 0) (ha : a ≠ 0) (hb : b ≠ 0)
    (hxy : Fletcher.Valid ((p ++ x :: y :: t).map Ospf.octet)) (hab : Fletcher.Valid ((p ++ a :: b :: t).map Ospf.octet)) :
    x = a ∧ y = b := by
  rw [List.map_append, List.map_cons, List.map_cons, Fletcher.valid_check_iff] at hxy hab
  have hxa : Ospf.octet x = Ospf.octet a := hxy.1.trans hab.1.symm
  have hyb : Ospf.octet y = Ospf.octet b := by rw [hxy.2, hab.2, hxa]
  exact ⟨Ospf.octet_inj hx ha hxa, Ospf.octet_inj hy hb hyb⟩

/-- An LSP that came in and is still held is sent out as it came in exactly if it is a plain one. -/
theorem servedUnchanged_iff {bytes : List UInt8} {mx : UInt8} {l : Lsp} {db : Lsdb}
    (hdec : Pdu.decode bytes = .ok ⟨mx, .lsp l⟩) (hlive : l.remainingLifetime ≠ 0) (hstored : Stored l db) :
    ∃ m, db.get l.lspId = some m ∧ (ServedUnchanged bytes m ↔ PlainLsp bytes) := by
  obtain ⟨n, hget⟩ := hstored.get_eq
  refine ⟨_, hget, ?_⟩
  obtain ⟨hcov, hall, hflags, hsum, hvalid⟩ := covered_of_decode hdec
  obtain ⟨x, y, hserved, hx, hy, hxy⟩ := served_drop { l with remainingLifetime := n }
  have hvalid' := (Ospf.fletcher16Valid_iff _).mp (hvalid hlive)
  rw [hcov] at hvalid'
  change Fletcher.Valid (((l.lspId.encode ++ digits 4 l.sequenceNumber.toNat) ++
    x :: y :: lspFlags l :: encodeAll l.tlvs).map Ospf.octet) at hxy
  change _ = (l.lspId.encode ++ digits 4 l.sequenceNumber.toNat) ++ x :: y :: lspFlags l :: encodeAll l.tlvs at hserved
  have htlvs := encodeAll_of_decodeAll hall
  constructor
  · rintro ⟨hsame, -⟩
    rw [hserved, hcov] at hsame
    injection List.append_cancel_left hsame with h24 hsame
    injection hsame with h25 hsame
    injection hsame with h26 hsame
    exact ⟨hflags.mp h26, ⟨h24 ▸ hx, h25 ▸ hy⟩, htlvs.mp hsame⟩
  · intro hplain
    have h26 : lspFlags l = bytes.getD 26 0 := hflags.mpr hplain.isType
    have hrest := htlvs.mpr hplain.tlvs
    rw [h26, hrest] at hxy
    obtain ⟨h24, h25⟩ := check_eq hx hy hplain.check_ne_zero.1 hplain.check_ne_zero.2 hxy hvalid'
    have hsame : (served { l with remainingLifetime := n }).drop 12 = covered bytes := by
      rw [hserved, hcov, h24, h25, h26, hrest]
    have h12 : Pdu.u16At ((served { l with remainingLifetime := n }).drop 12) 12 =
        Pdu.u16At (served { l with remainingLifetime := n }) 24 := by
      rw [Pdu.u16At, Pdu.u16At, List.drop_drop]
    exact ⟨hsame, by rw [← h12, hsame, ← hsum]⟩

/-! ### An LSP with one IPv6 prefix -/

/-- Its octets, given the flags of the prefix and the check octets. -/
def ipv6LspOctets (flags x y : UInt8) : List UInt8 :=
  [0x83, 27, 1, 0, 20, 1, 0, 0, 0, 39, 4, 176, 0, 0, 0, 0, 0, 2, 0, 0, 0, 0, 0, 1, x, y, 3,
    236, 10, 0, 0, 0, 10, flags, 32, 0x20, 1, 0x0d, 0xb8]

def ipv6Lsp (checksum : UInt16) : Lsp where
  level := .l2
  remainingLifetime := 1200
  lspId := ⟨2, 0, 0⟩
  sequenceNumber := 1
  checksum := checksum
  partition := false
  attached := 0
  overload := false
  isType := .l2
  tlvs := [.ipv6Reachability [⟨10, false, false, 32, 0x20010db8000000000000000000000000, none⟩]]

theorem install_ipv6Lsp (checksum : UInt16) : (Lsdb.new.install (ipv6Lsp checksum)).2.changed = true ∧
    (Lsdb.new.install (ipv6Lsp checksum)).1.get (ipv6Lsp checksum).lspId = some (ipv6Lsp checksum) := by
  have hlen : Lsdb.new.len = 0 := rfl
  unfold Lsdb.install
  rw [Lsdb.get_new, hlen]
  exact ⟨rfl, by rw [if_neg (by decide), Lsdb.get_put, if_pos rfl]⟩

theorem servedUnchanged_iff_ipv6Lsp : ∃ m, (Lsdb.new.install (ipv6Lsp 0x9a57)).1.get (ipv6Lsp 0x9a57).lspId = some m ∧
    ServedUnchanged (ipv6LspOctets 0 0x9a 0x57) m := by
  obtain ⟨m, hget, hiff⟩ := @servedUnchanged_iff (ipv6LspOctets 0 0x9a 0x57) 0 (ipv6Lsp 0x9a57) _
    (by decide +kernel) (by decide) (.install (install_ipv6Lsp 0x9a57).1)
  refine ⟨m, hget, hiff.mpr ⟨by decide, by decide, ?_⟩⟩
  have hpieces : pieces decodeNext (((ipv6LspOctets 0 0x9a 0x57).take
      (Pdu.u16At (ipv6LspOctets 0 0x9a 0x57) 8).toNat).drop 27) = [(ipv6LspOctets 0 0x9a 0x57).drop 27] := by
    decide +kernel
  have hrecord : ∀ w ∈ pieces Ipv6Reach.decode ((ipv6LspOctets 0 0x9a 0x57).drop 29), w.getD 4 0 &&& 0x1f = 0 := by
    decide +kernel
  rw [hpieces]
  intro w hw
  rw [List.mem_singleton.mp hw]
  exact (Tlv.plain_ipv6Reachability_iff _).mpr hrecord

/-- A flag of the prefix that is not assigned is gone from the copy that is served. -/
theorem not_servedUnchanged_ipv6Lsp : ¬ ∀ (bytes : List UInt8) (mx : UInt8) (l : Lsp) (db : Lsdb),
    Pdu.decode bytes = .ok ⟨mx, .lsp l⟩ → l.remainingLifetime ≠ 0 → Stored l db →
      ∃ m, db.get l.lspId = some m ∧ ServedUnchanged bytes m := by
  intro hall
  obtain ⟨hchanged, hget⟩ := install_ipv6Lsp 0x1bc6
  obtain ⟨m, hm, hsame, -⟩ := hall (ipv6LspOctets 0x10 0x1b 0xc6) 0 (ipv6Lsp 0x1bc6) _ (by decide +kernel) (by decide)
    (.install hchanged)
  rw [hget] at hm
  cases hm
  have hdiffer : (served (ipv6Lsp 0x1bc6)).drop 12 ≠ covered (ipv6LspOctets 0x10 0x1b 0xc6) := by decide +kernel
  exact hdiffer hsame

end Wren.Isis
