import Wren.Bgp.RoundTrip
import Wren.Lib.Argmin

/-! FlowSpec rules: what traffic they match, and their octets. -/

namespace Wren.Bgp
open Wren.Core Octets

structure NumOp where
  and : Bool
  lt : Bool
  gt : Bool
  eq : Bool
  value : UInt64
deriving DecidableEq

structure BitOp where
  and : Bool
  not : Bool
  match_ : Bool
  value : UInt64
deriving DecidableEq

inductive Component where
  | destPrefix (p : Prefix)
  | srcPrefix (p : Prefix)
  | ipProto (ops : List NumOp)
  | port (ops : List NumOp)
  | destPort (ops : List NumOp)
  | srcPort (ops : List NumOp)
  | icmpType (ops : List NumOp)
  | icmpCode (ops : List NumOp)
  | tcpFlags (ops : List BitOp)
  | pktLen (ops : List NumOp)
  | dscp (ops : List NumOp)
  | fragment (ops : List BitOp)
deriving DecidableEq

structure FlowSpec where
  components : List Component
deriving DecidableEq

/-- How the lengths 1, 2, 4 and 8 are written in an operator octet. -/
def lenBits (value : UInt64) : UInt8 :=
  if value ≤ 0xff then 0 else if value ≤ 0xffff then 1 else if value ≤ 0xffffffff then 2 else 3

/-- The octets of a value behind an operator octet. -/
def valueLen (op : UInt8) : ℕ := 2 ^ (op >>> 4 &&& 3).toNat

def flagIf (b : Bool) (flag : UInt8) : UInt8 := if b then flag else 0

def endOfList : UInt8 := 0x80

def NumOp.bits (op : NumOp) : UInt8 :=
  flagIf op.and 0x40 ||| flagIf op.lt 0x04 ||| flagIf op.gt 0x02 ||| flagIf op.eq 0x01

def NumOp.ofBits (b : UInt8) (value : UInt64) : NumOp :=
  ⟨b &&& 0x40 != 0, b &&& 0x04 != 0, b &&& 0x02 != 0, b &&& 0x01 != 0, value⟩

def BitOp.bits (op : BitOp) : UInt8 := flagIf op.and 0x40 ||| flagIf op.not 0x02 ||| flagIf op.match_ 0x01

def BitOp.ofBits (b : UInt8) (value : UInt64) : BitOp := ⟨b &&& 0x40 != 0, b &&& 0x02 != 0, b &&& 0x01 != 0, value⟩

section Ops
variable {α : Type}

/-- An operator octet, then the value. -/
def encodeOp (last : Bool) (bits : UInt8) (value : UInt64) : List UInt8 :=
  let op := lenBits value <<< 4 ||| flagIf last endOfList ||| bits
  op :: digits (valueLen op) value.toNat

/-- Operators up to the one that is marked as the last. -/
def encodeOps (bits : α → UInt8) (value : α → UInt64) : List α → List UInt8
  | [] => []
  | op :: ops => encodeOp ops.isEmpty (bits op) (value op) ++ encodeOps bits value ops

/-- At most `n` operators from the front. -/
def decodeOpsFrom (ofBits : UInt8 → UInt64 → α) : ℕ → List UInt8 → Option (List α × ℕ)
  | 0, _ => none
  | _, [] => none
  | n + 1, b :: rest =>
    if rest.length < valueLen b then none
    else
      let op := ofBits b (UInt64.ofNat (value (rest.take (valueLen b))))
      if b &&& endOfList ≠ 0 then some ([op], 1 + valueLen b)
      else (decodeOpsFrom ofBits n (rest.drop (valueLen b))).map fun (ops, used) =>
        (op :: ops, 1 + valueLen b + used)

/-- An operator takes an octet at least, so there are no more of them than octets. -/
def decodeOps (ofBits : UInt8 → UInt64 → α) (buf : List UInt8) : Option (List α × ℕ) :=
  decodeOpsFrom ofBits buf.length buf

end Ops

def encodeNumOps : List NumOp → List UInt8 := encodeOps NumOp.bits NumOp.value

def decodeNumOps : List UInt8 → Option (List NumOp × ℕ) := decodeOps NumOp.ofBits

def encodeBitOps : List BitOp → List UInt8 := encodeOps BitOp.bits BitOp.value

def decodeBitOps : List UInt8 → Option (List BitOp × ℕ) := decodeOps BitOp.ofBits

namespace Component

def typeCode : Component → UInt8
  | destPrefix _ => 1
  | srcPrefix _ => 2
  | ipProto _ => 3
  | port _ => 4
  | destPort _ => 5
  | srcPort _ => 6
  | icmpType _ => 7
  | icmpCode _ => 8
  | tcpFlags _ => 9
  | pktLen _ => 10
  | dscp _ => 11
  | fragment _ => 12

def encodeValue : Component → List UInt8
  | destPrefix p | srcPrefix p => encodePrefix p
  | ipProto ops | port ops | destPort ops | srcPort ops | icmpType ops | icmpCode ops | pktLen ops | dscp ops =>
    encodeNumOps ops
  | tcpFlags ops | fragment ops => encodeBitOps ops

def encode (c : Component) : List UInt8 := c.typeCode :: c.encodeValue

/-- A component of the type, and the octets of its value. -/
def decodeValue (type : UInt8) (rest : List UInt8) : Option (Component × ℕ) :=
  let num (make : List NumOp → Component) := (decodeNumOps rest).map fun (ops, used) => (make ops, used)
  let bit (make : List BitOp → Component) := (decodeBitOps rest).map fun (ops, used) => (make ops, used)
  if type = 1 then (decodePrefix rest).map fun (p, used) => (destPrefix p, used)
  else if type = 2 then (decodePrefix rest).map fun (p, used) => (srcPrefix p, used)
  else if type = 3 then num ipProto
  else if type = 4 then num port
  else if type = 5 then num destPort
  else if type = 6 then num srcPort
  else if type = 7 then num icmpType
  else if type = 8 then num icmpCode
  else if type = 9 then bit tcpFlags
  else if type = 10 then num pktLen
  else if type = 11 then num dscp
  else if type = 12 then bit fragment
  else none

def decode : List UInt8 → Option (Component × ℕ)
  | [] => none
  | type :: rest => (decodeValue type rest).map fun (c, used) => (c, 1 + used)

/-- The prefix is of IPv4, or there is an operator at least. -/
def WellFormed : Component → Prop
  | destPrefix p | srcPrefix p => p.isIpv4 = true
  | ipProto ops | port ops | destPort ops | srcPort ops | icmpType ops | icmpCode ops | pktLen ops | dscp ops =>
    ops ≠ []
  | tcpFlags ops | fragment ops => ops ≠ []

end Component

namespace FlowSpec

/-- Components in the order of their types. -/
def sorted (spec : FlowSpec) : FlowSpec := ⟨spec.components.mergeSort fun a b => a.typeCode ≤ b.typeCode⟩

def encodeBody (spec : FlowSpec) : List UInt8 := spec.sorted.components.flatMap Component.encode

/-- The length of a body in one octet, or in the twelve low bits of two. -/
def lengthOctets (len : ℕ) : List UInt8 :=
  if len < 240 then [UInt8.ofNat len]
  else [0xf0 ||| UInt8.ofNat (len % 65536 / 256), UInt8.ofNat (len % 256)]

def encode (spec : FlowSpec) : List UInt8 := lengthOctets spec.encodeBody.length ++ spec.encodeBody

/-- The length of a body and the octets that it takes. -/
def readLength : List UInt8 → Option (ℕ × ℕ)
  | [] => none
  | first :: rest =>
    if first &&& 0xf0 = 0xf0 then rest.head?.map fun lo => ((first &&& 0x0f).toNat * 256 + lo.toNat, 2)
    else some (first.toNat, 1)

def decode (buf : List UInt8) : Option (FlowSpec × ℕ) := do
  let (len, hdr) ← readLength buf
  let body ← slice? buf hdr len
  let components ← readAll Component.decode body
  return (⟨components⟩, hdr + len)

def decodeNlris (buf : List UInt8) : Option (List FlowSpec) := readAll decode buf

/-- Each component can be read back, and the length of all of them fits twelve bits. -/
structure WellFormed (spec : FlowSpec) : Prop where
  components : ∀ c ∈ spec.components, c.WellFormed
  length : spec.encodeBody.length ≤ 4095

end FlowSpec

/-! Operators -/

section Ops
variable {α : Type} {bits : α → UInt8} {value : α → UInt64} {ofBits : UInt8 → UInt64 → α}

theorem lt_of_lenBits (v : UInt64) : v.toNat < 256 ^ 2 ^ (lenBits v).toNat := by
  have hlt := v.toNat_lt
  unfold lenBits
  split_ifs with h₁ h₂ h₃
  · have hle := UInt64.le_iff_toNat_le.mp h₁
    exact Nat.lt_succ_of_le hle
  · have hle := UInt64.le_iff_toNat_le.mp h₂
    exact Nat.lt_succ_of_le hle
  · have hle := UInt64.le_iff_toNat_le.mp h₃
    exact Nat.lt_succ_of_le hle
  · exact hlt

theorem lenBits_mem (v : UInt64) : lenBits v ∈ ([0, 1, 2, 3] : List UInt8) := by
  unfold lenBits
  split_ifs <;> simp

/-- The operator octet keeps its three parts apart. -/
structure Separate (bits : UInt8) : Prop where
  length : ∀ l ∈ ([0, 1, 2, 3] : List UInt8), ∀ last, (l <<< 4 ||| flagIf last endOfList ||| bits) >>> 4 &&& 3 = l
  last : ∀ l ∈ ([0, 1, 2, 3] : List UInt8), ∀ last,
    (l <<< 4 ||| flagIf last endOfList ||| bits) &&& endOfList ≠ 0 ↔ last = true

/-- A list of operators is read back, whatever follows it. -/
theorem decodeOpsFrom_encodeOps (hsep : ∀ a, Separate (bits a))
    (hback : ∀ a, ∀ l ∈ ([0, 1, 2, 3] : List UInt8), ∀ last,
      ofBits (l <<< 4 ||| flagIf last endOfList ||| bits a) (value a) = a)
    {ops : List α} (hne : ops ≠ []) {n : ℕ} (hn : ops.length ≤ n) (r : List UInt8) :
    decodeOpsFrom ofBits n (encodeOps bits value ops ++ r) = some (ops, (encodeOps bits value ops).length) := by
  induction ops generalizing n with
  | nil => exact absurd rfl hne
  | cons a ops ih =>
    obtain ⟨m, rfl⟩ : ∃ m, n = m + 1 := ⟨n - 1, by simp at hn; omega⟩
    have hmem := lenBits_mem (value a)
    have hlen := (hsep a).length _ hmem ops.isEmpty
    have hlast := (hsep a).last _ hmem ops.isEmpty
    have hof := hback a _ hmem ops.isEmpty
    rw [encodeOps, List.append_assoc, encodeOp, List.cons_append, decodeOpsFrom]
    set op := lenBits (value a) <<< 4 ||| flagIf ops.isEmpty endOfList ||| bits a with hop
    have hvalue : Octets.value (digits (valueLen op) (value a).toNat) = (value a).toNat := by
      apply value_digits_of_lt
      rw [valueLen, hlen]
      exact lt_of_lenBits (value a)
    have hfits : ¬ (digits (valueLen op) (value a).toNat ++ (encodeOps bits value ops ++ r)).length < valueLen op := by
      simp
    simp only [if_neg hfits, List.take_left' (length_digits _ _), List.drop_left' (length_digits _ _), hvalue,
      UInt64.ofNat_toNat, hof]
    by_cases hnil : ops = []
    · subst hnil
      rw [if_pos (hlast.mpr rfl)]
      simp [encodeOps, Nat.add_comm]
    · have hmore : ops.isEmpty = false := by simpa using hnil
      have hnot : ¬ op &&& endOfList ≠ 0 := by
        rw [hlast, hmore]
        exact Bool.false_ne_true
      rw [if_neg hnot, ih hnil (by simpa using hn), Option.map_some]
      simp only [List.length_append, List.length_cons, length_digits, Option.some.injEq, Prod.mk.injEq, true_and]
      omega

theorem length_le_encodeOps (bits : α → UInt8) (value : α → UInt64) (ops : List α) :
    ops.length ≤ (encodeOps bits value ops).length := by
  induction ops with
  | nil => exact Nat.le_refl 0
  | cons a ops ih =>
    simp only [encodeOps, encodeOp, List.length_append, List.length_cons]
    omega

theorem decodeOps_encodeOps (hsep : ∀ a, Separate (bits a))
    (hback : ∀ a, ∀ l ∈ ([0, 1, 2, 3] : List UInt8), ∀ last,
      ofBits (l <<< 4 ||| flagIf last endOfList ||| bits a) (value a) = a)
    {ops : List α} (hne : ops ≠ []) (r : List UInt8) :
    decodeOps ofBits (encodeOps bits value ops ++ r) = some (ops, (encodeOps bits value ops).length) := by
  refine decodeOpsFrom_encodeOps hsep hback hne ?_ r
  have hle := length_le_encodeOps bits value ops
  rw [List.length_append]
  omega

end Ops

theorem NumOp.separate (op : NumOp) : Separate op.bits := by
  obtain ⟨a, l, g, e, v⟩ := op
  simp only [NumOp.bits]
  constructor <;> revert a l g e <;> decide +kernel

theorem NumOp.ofBits_bits (op : NumOp) : ∀ l ∈ ([0, 1, 2, 3] : List UInt8), ∀ last,
    NumOp.ofBits (l <<< 4 ||| flagIf last endOfList ||| op.bits) op.value = op := by
  obtain ⟨a, l, g, e, v⟩ := op
  simp only [NumOp.ofBits, NumOp.bits, NumOp.mk.injEq, and_true]
  revert a l g e
  decide +kernel

theorem BitOp.separate (op : BitOp) : Separate op.bits := by
  obtain ⟨a, n, m, v⟩ := op
  simp only [BitOp.bits]
  constructor <;> revert a n m <;> decide +kernel

theorem BitOp.ofBits_bits (op : BitOp) : ∀ l ∈ ([0, 1, 2, 3] : List UInt8), ∀ last,
    BitOp.ofBits (l <<< 4 ||| flagIf last endOfList ||| op.bits) op.value = op := by
  obtain ⟨a, n, m, v⟩ := op
  simp only [BitOp.ofBits, BitOp.bits, BitOp.mk.injEq, and_true]
  revert a n m
  decide +kernel

theorem decodeNumOps_encode {ops : List NumOp} (h : ops ≠ []) (r : List UInt8) :
    decodeNumOps (encodeNumOps ops ++ r) = some (ops, (encodeNumOps ops).length) :=
  decodeOps_encodeOps NumOp.separate NumOp.ofBits_bits h r

theorem decodeBitOps_encode {ops : List BitOp} (h : ops ≠ []) (r : List UInt8) :
    decodeBitOps (encodeBitOps ops ++ r) = some (ops, (encodeBitOps ops).length) :=
  decodeOps_encodeOps BitOp.separate BitOp.ofBits_bits h r

/-! Components and rules -/

theorem decodePrefix_encodePrefix {p : Prefix} (hp : p.isIpv4 = true) (r : List UInt8) :
    decodePrefix (encodePrefix p ++ r) = some (p, (encodePrefix p).length) := by
  rw [encodePrefix_eq hp]
  exact decodePrefix_encodePrefixAny hp r

namespace Component

theorem decode_encode {c : Component} (h : c.WellFormed) (r : List UInt8) :
    decode (c.encode ++ r) = some (c, c.encode.length) := by
  have hvalue : decodeValue c.typeCode (c.encodeValue ++ r) = some (c, c.encodeValue.length) := by
    cases c with
    | destPrefix p | srcPrefix p => simp [decodeValue, typeCode, encodeValue, decodePrefix_encodePrefix h]
    | tcpFlags ops | fragment ops => simp +decide [decodeValue, typeCode, encodeValue, decodeBitOps_encode h]
    | ipProto ops | port ops | destPort ops | srcPort ops | icmpType ops | icmpCode ops | pktLen ops | dscp ops =>
      simp +decide [decodeValue, typeCode, encodeValue, decodeNumOps_encode h]
  simp only [encode, List.cons_append, decode, hvalue, Option.map_some, List.length_cons, Nat.add_comm 1]

theorem encode_ne_nil (c : Component) : c.encode ≠ [] := List.cons_ne_nil _ _

end Component

namespace FlowSpec

theorem readLength_lengthOctets {len : ℕ} (h : len ≤ 4095) (r : List UInt8) :
    readLength (lengthOctets len ++ r) = some (len, (lengthOctets len).length) := by
  unfold lengthOctets
  split_ifs with hshort
  · have hoctet : (UInt8.ofNat len).toNat = len := by
      rw [UInt8.toNat_ofNat']
      omega
    have hnot : ¬ UInt8.ofNat len &&& 0xf0 = 0xf0 := by
      have hsmall : ∀ b : UInt8, b.toNat < 240 → ¬ b &&& 0xf0 = 0xf0 := by decide +kernel
      apply hsmall
      rwa [hoctet]
    rw [List.singleton_append, readLength, if_neg hnot, hoctet]
    rfl
  · have hhigh : ∀ b : UInt8, b.toNat < 16 → (0xf0 ||| b) &&& 0xf0 = 0xf0 ∧ (0xf0 ||| b) &&& 0x0f = b := by
      decide +kernel
    have hb : (UInt8.ofNat (len % 65536 / 256)).toNat = len / 256 := by
      rw [UInt8.toNat_ofNat']
      omega
    obtain ⟨hmark, hlow⟩ := hhigh (UInt8.ofNat (len % 65536 / 256)) (by omega)
    have hlo : (UInt8.ofNat (len % 256)).toNat = len % 256 := by
      rw [UInt8.toNat_ofNat']
      omega
    rw [List.cons_append, readLength, if_pos hmark, hlow, hb]
    simp only [List.singleton_append, List.head?_cons, Option.map_some, hlo, List.length_cons, List.length_nil,
      Option.some.injEq, Prod.mk.injEq, and_true]
    omega

theorem components_sorted (spec : FlowSpec) {c : Component} : c ∈ spec.sorted.components ↔ c ∈ spec.components :=
  List.mem_mergeSort

/-- The components of the rule in the order of their types, and those of one type in the order of the rule. -/
def SortsTo (spec out : FlowSpec) : Prop :=
  StableSort.Sorts (fun c : Component => c.typeCode.toNat) spec.components out.components

theorem sortsTo_iff {spec out : FlowSpec} : spec.SortsTo out ↔ spec.sorted = out := by
  have hle : (fun a b : Component => decide (a.typeCode ≤ b.typeCode)) =
      fun a b => decide (a.typeCode.toNat ≤ b.typeCode.toNat) := by
    funext a b
    exact decide_eq_decide.mpr UInt8.le_iff_toNat_le
  rw [SortsTo, StableSort.sorts_iff, sorted, hle, FlowSpec.mk.injEq]

theorem pairwise_sorted (spec : FlowSpec) : spec.sorted.components.Pairwise fun a b => a.typeCode ≤ b.typeCode :=
  (sortsTo_iff.mpr rfl).ordered.imp UInt8.le_iff_toNat_le.mpr

theorem sorted_of_pairwise {spec : FlowSpec} (h : spec.components.Pairwise fun a b => a.typeCode ≤ b.typeCode) :
    spec.sorted = spec := by
  rw [sorted, List.mergeSort_of_pairwise (h.imp decide_eq_true)]

@[simp] theorem encode_sorted (spec : FlowSpec) : spec.sorted.encode = spec.encode := by
  simp only [encode, encodeBody, sorted_of_pairwise spec.pairwise_sorted]

/-- A rule is read back with its components in order, whatever follows it. -/
theorem decode_encode_append {spec : FlowSpec} (h : spec.WellFormed) (r : List UInt8) :
    decode (spec.encode ++ r) = some (spec.sorted, spec.encode.length) := by
  have hbody : readAll Component.decode spec.encodeBody = some (spec.sorted.components.map id) :=
    readAll_flatMap id (fun c hc => Component.decode_encode (h.components c (spec.components_sorted.mp hc)))
      fun c _ => c.encode_ne_nil
  have hslice : slice? (lengthOctets spec.encodeBody.length ++ (spec.encodeBody ++ r))
      (lengthOctets spec.encodeBody.length).length spec.encodeBody.length = some spec.encodeBody := by
    rw [← Nat.add_zero (lengthOctets spec.encodeBody.length).length, slice?_append_right rfl]
    exact slice?_append rfl r
  rw [encode, List.append_assoc, decode, readLength_lengthOctets h.length]
  simp only [Option.bind_eq_bind, Option.bind_some, hslice, hbody, List.map_id, Option.pure_def, List.length_append]

theorem encode_ne_nil (spec : FlowSpec) : spec.encode ≠ [] := by
  unfold encode lengthOctets
  split_ifs <;> simp

/-- Rules one after the other are read back, each in order. -/
theorem decodeNlris_flatMap {l : List FlowSpec} (h : ∀ spec ∈ l, spec.WellFormed) :
    decodeNlris (l.flatMap encode) = some (l.map sorted) :=
  readAll_flatMap sorted (fun spec hspec => decode_encode_append (h spec hspec)) fun spec _ => spec.encode_ne_nil

/-- Rules one after the other are read back with their components in the order of their types, and as they are
where that is the order they are stored in. -/
theorem decodeNlris_encode {l : List FlowSpec} (h : ∀ spec ∈ l, spec.WellFormed) :
    (∀ out, decodeNlris (l.flatMap encode) = some out ↔ List.Forall₂ SortsTo l out) ∧
    ((∀ spec ∈ l, spec.components.Pairwise fun a b => a.typeCode ≤ b.typeCode) →
      decodeNlris (l.flatMap encode) = some l) := by
  have hread := decodeNlris_flatMap h
  refine ⟨fun out => ?_, fun hordered => ?_⟩
  · have hsorts : SortsTo = fun spec out => spec.sorted = out := by
      funext spec out
      exact propext sortsTo_iff
    rw [hread, Option.some.injEq, hsorts, ← List.forall₂_eq_eq_eq, List.forall₂_map_left_iff]
  · have hsame : l.map sorted = l.map id := List.map_congr_left fun spec hspec => sorted_of_pairwise (hordered spec hspec)
    rw [hread, hsame, List.map_id]

/-- 80 and above, up to 8080, which takes two octets. -/
def webPorts : List NumOp := [⟨false, false, true, true, 80⟩, ⟨true, true, false, true, 8080⟩]

def net10 : Prefix := ⟨.v4 0x0a000000, 8, Prefix.net10_len_le, Prefix.net10_masked⟩

/-- The port is stored before the destination. -/
def toWeb : FlowSpec := ⟨[.destPort webPorts, .destPrefix net10]⟩

theorem sortsTo_toWeb : toWeb.SortsTo ⟨[.destPrefix net10, .destPort webPorts]⟩ where
  ordered := by simp [Component.typeCode]
  stable k := by
    have hone : (1 : UInt8).toNat = 1 := rfl
    have hfive : (5 : UInt8).toNat = 5 := rfl
    simp only [toWeb, List.filter_cons, List.filter_nil, Component.typeCode, hone, hfive]
    split_ifs with h₁ h₅
    · have := of_decide_eq_true h₁
      have := of_decide_eq_true h₅
      omega
    all_goals rfl

theorem decodeNlris_encode_toWeb :
    decodeNlris ([toWeb].flatMap encode) = some [⟨[.destPrefix net10, .destPort webPorts]⟩] := by
  have hwf : ∀ spec ∈ [toWeb], spec.WellFormed := by
    intro spec hspec
    rw [List.mem_singleton.mp hspec]
    refine ⟨?_, ?_⟩
    · simp [toWeb, webPorts, Component.WellFormed, net10, Prefix.isIpv4, IpAddr.isIpv4]
    · rw [encodeBody, sortsTo_iff.mp sortsTo_toWeb]
      decide +kernel
  rw [(decodeNlris_encode hwf).1, List.forall₂_cons]
  exact ⟨sortsTo_toWeb, .nil⟩

end FlowSpec
end Wren.Bgp
