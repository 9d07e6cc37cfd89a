import Wren.Lib.Octets
import Wren.Lib.OrdMap
import Wren.Ospf.Checksum

/-! Identifiers of IS-IS, its two levels, and the checksum of an LSP. -/

namespace Wren.Isis
open Octets

/-- Six octets, compared as the number they spell. -/
abbrev SystemId := BitVec 48

/-- A station address on the LAN. -/
abbrev Snpa := BitVec 48

abbrev Ipv4Addr := BitVec 32

abbrev Ipv6Addr := BitVec 128

def intradomainDiscriminator : UInt8 := 0x83
def protocolIdExtension : UInt8 := 1
def version : UInt8 := 1
def systemIdLen : ℕ := 6
def lspIdLen : ℕ := systemIdLen + 2
def nlpidIpv4 : UInt8 := 0xCC
def nlpidIpv6 : UInt8 := 0x8E

/-- A vertex of the topology: a router, or with a pseudonode number a LAN. -/
structure NodeId where
  systemId : SystemId
  pseudonode : UInt8
deriving DecidableEq

namespace NodeId

def key (n : NodeId) : ℕ ×ₗ ℕ := toLex (n.systemId.toNat, n.pseudonode.toNat)

theorem key_injective : Function.Injective key := by
  rintro ⟨s, p⟩ ⟨t, q⟩ h
  have hpair := toLex.injective h
  have hs : s = t := BitVec.eq_of_toNat_eq (congrArg Prod.fst hpair)
  have hp : p = q := UInt8.toNat_inj.mp (congrArg Prod.snd hpair)
  rw [hs, hp]

instance : LinearOrder NodeId := LinearOrder.lift' key key_injective

instance : Std.TransOrd NodeId := inferInstance

instance : Std.LawfulEqOrd NodeId where
  eq_of_compare h := compare_eq_iff_eq.mp h

def encode (n : NodeId) : List UInt8 := digits 6 n.systemId.toNat ++ [n.pseudonode]

@[simp] theorem length_encode (n : NodeId) : n.encode.length = 7 := by simp [encode]

end NodeId

/-- Originator, pseudonode number and fragment, in that order of significance. -/
structure LspId where
  systemId : SystemId
  pseudonode : UInt8
  fragment : UInt8
deriving DecidableEq

namespace LspId

def node (i : LspId) : NodeId := ⟨i.systemId, i.pseudonode⟩

def key (i : LspId) : ℕ ×ₗ ℕ ×ₗ ℕ := toLex (i.systemId.toNat, toLex (i.pseudonode.toNat, i.fragment.toNat))

theorem key_injective : Function.Injective key := by
  rintro ⟨s, p, f⟩ ⟨t, q, g⟩ h
  have hpair := toLex.injective h
  have hs : s = t := BitVec.eq_of_toNat_eq (congrArg Prod.fst hpair)
  have hrest := toLex.injective (congrArg Prod.snd hpair)
  have hp : p = q := UInt8.toNat_inj.mp (congrArg Prod.fst hrest)
  have hf : f = g := UInt8.toNat_inj.mp (congrArg Prod.snd hrest)
  rw [hs, hp, hf]

instance : LinearOrder LspId := LinearOrder.lift' key key_injective

instance : Std.TransOrd LspId := inferInstance

instance : Std.LawfulEqOrd LspId where
  eq_of_compare h := compare_eq_iff_eq.mp h

/-- The lowest and the highest ID there can be. -/
def lowest : LspId := ⟨0, 0, 0⟩

def greatest : LspId := ⟨BitVec.allOnes 48, 0xff, 0xff⟩

theorem lowest_le (i : LspId) : lowest ≤ i := by
  change lowest.key ≤ i.key
  rw [key, key, Prod.Lex.toLex_le_toLex, Prod.Lex.toLex_le_toLex]
  change 0 < i.systemId.toNat ∨ 0 = i.systemId.toNat ∧ (0 < i.pseudonode.toNat ∨ 0 = i.pseudonode.toNat ∧ 0 ≤ i.fragment.toNat)
  omega

theorem le_greatest (i : LspId) : i ≤ greatest := by
  change i.key ≤ greatest.key
  have hs := i.systemId.isLt
  have hp := i.pseudonode.toNat_lt
  have hf := i.fragment.toNat_lt
  rw [key, key, Prod.Lex.toLex_le_toLex, Prod.Lex.toLex_le_toLex]
  change i.systemId.toNat < 281474976710655 ∨ i.systemId.toNat = 281474976710655 ∧
    (i.pseudonode.toNat < 255 ∨ i.pseudonode.toNat = 255 ∧ i.fragment.toNat ≤ 255)
  omega

def encode (i : LspId) : List UInt8 := digits 6 i.systemId.toNat ++ [i.pseudonode, i.fragment]

def decode (b : List UInt8) : Option LspId :=
  if b.length < lspIdLen then none
  else some ⟨BitVec.ofNat 48 (value (b.take systemIdLen)), b.getD 6 0, b.getD 7 0⟩

@[simp] theorem length_encode (i : LspId) : i.encode.length = 8 := by simp [encode]

theorem decode_encode (i : LspId) (r : List UInt8) : decode (i.encode ++ r) = some i := by
  have hlen : ¬ (i.encode ++ r).length < lspIdLen := by
    rw [List.length_append, length_encode]
    simp [lspIdLen, systemIdLen]
  have htake : (i.encode ++ r).take systemIdLen = digits 6 i.systemId.toNat := by
    simp [encode, systemIdLen]
  have hvalue : BitVec.ofNat 48 (value (digits 6 i.systemId.toNat)) = i.systemId :=
    ofNat_value_digits i.systemId (by norm_num)
  have h6 : (i.encode ++ r).getD 6 0 = i.pseudonode := by
    simp [encode, List.getD_eq_getElem?_getD]
  have h7 : (i.encode ++ r).getD 7 0 = i.fragment := by
    simp [encode, List.getD_eq_getElem?_getD, List.getElem?_append_right]
  rw [decode, if_neg hlen, htake, hvalue, h6, h7]

theorem encode_of_decode {b : List UInt8} {i : LspId} (h : decode b = some i) : i.encode = b.take lspIdLen := by
  rw [decode] at h
  split_ifs at h with hlen
  cases h
  have hsix : (b.take systemIdLen).length = 6 := by
    simp only [lspIdLen, systemIdLen, List.length_take] at *
    omega
  have hlt : value (b.take systemIdLen) < 2 ^ 48 := by
    have hv := value_lt (b.take systemIdLen)
    rw [hsix] at hv
    exact hv.trans_eq (by norm_num)
  have hdigits : digits 6 (BitVec.ofNat 48 (value (b.take systemIdLen))).toNat = b.take systemIdLen := by
    rw [BitVec.toNat_ofNat, Nat.mod_eq_of_lt hlt, digits_value hsix]
  have h6 : 6 < b.length := by
    simp only [lspIdLen, systemIdLen] at hlen
    omega
  have h7 : 7 < b.length := by
    simp only [lspIdLen, systemIdLen] at hlen
    omega
  calc digits 6 (BitVec.ofNat 48 (value (b.take systemIdLen))).toNat ++ [b.getD 6 0, b.getD 7 0]
      = b.take 6 ++ [b[6], b[7]] := by
        rw [hdigits, List.getD_eq_getElem b 0 h6, List.getD_eq_getElem b 0 h7]
        rfl
    _ = b.take lspIdLen := by
        have hseven : b.take (6 + 1) = b.take 6 ++ [b[6]] := (List.take_concat_get' b 6 h6).symm
        have height : b.take (7 + 1) = b.take 7 ++ [b[7]] := (List.take_concat_get' b 7 h7).symm
        change _ = b.take (7 + 1)
        rw [height, hseven, List.append_assoc]
        rfl

theorem value_encode (i : LspId) :
    value i.encode = i.systemId.toNat * 65536 + i.pseudonode.toNat * 256 + i.fragment.toNat := by
  have hsys : value (digits 6 i.systemId.toNat) = i.systemId.toNat := value_digits_of_lt i.systemId.isLt
  rw [encode, value_append, hsys]
  simp [value]
  omega

/-- IDs are in the order of their octets. -/
theorem le_iff_value_encode (i j : LspId) : i ≤ j ↔ value i.encode ≤ value j.encode := by
  have hip := i.pseudonode.toNat_lt
  have hif := i.fragment.toNat_lt
  have hjp := j.pseudonode.toNat_lt
  have hjf := j.fragment.toNat_lt
  rw [value_encode, value_encode]
  change i.key ≤ j.key ↔ _
  rw [key, key, Prod.Lex.toLex_le_toLex, Prod.Lex.toLex_le_toLex]
  dsimp only
  omega

end LspId

inductive IsLevel where
  | l1
  | l2
  | l1l2
deriving DecidableEq

namespace IsLevel

def hasL1 : IsLevel → Bool
  | l1 | l1l2 => true
  | l2 => false

def hasL2 : IsLevel → Bool
  | l2 | l1l2 => true
  | l1 => false

/-- The circuit type of a Hello. Zero is read as both levels. -/
def fromBits (v : UInt8) : IsLevel :=
  if v &&& 3 = 1 then l1 else if v &&& 3 = 2 then l2 else l1l2

def bits : IsLevel → UInt8
  | l1 => 1
  | l2 => 2
  | l1l2 => 3

/-- The type of the originator of an LSP, which has no value for both levels. -/
def isTypeBits : IsLevel → UInt8
  | l1 => 1
  | l2 | l1l2 => 3

def isTypeFromBits (v : UInt8) : IsLevel :=
  if v &&& 3 = 1 then l1 else if v &&& 3 = 3 then l2 else l1l2

/-- Whether a set of levels includes one. -/
def levelActive (s level : IsLevel) : Bool :=
  match level with
  | l1 => s.hasL1
  | l2 => s.hasL2
  | l1l2 => s.hasL1 || s.hasL2

end IsLevel

/-- The check octets of an LSP are computed as those of an LSA. -/
def fletcher16 (region : List UInt8) (csumOff : ℕ) : List UInt8 := (Ospf.fletcher16 region csumOff).1

def fletcher16Valid (region : List UInt8) : Bool := Ospf.fletcher16Valid region

theorem fletcher16_spec (p t : List UInt8) (a b : UInt8) :
    ∃ x y, fletcher16 (p ++ a :: b :: t) p.length = p ++ x :: y :: t ∧ fletcher16Valid (p ++ x :: y :: t) = true := by
  obtain ⟨x, y, heq, -, -, hvalid⟩ := Ospf.fletcher16_eq p t a b
  exact ⟨x, y, heq, (Ospf.fletcher16Valid_iff _).mpr hvalid⟩

end Wren.Isis
