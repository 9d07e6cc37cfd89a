import Wren.Core.Prefix
import Wren.Lib.Octets

/-! RIPng messages. The next hop of an entry is on the wire only where it differs from that of the entry before it. -/

namespace Wren.Rip
open Octets Wren.Core

inductive Command where
  | request
  | response
deriving DecidableEq

namespace Command

def fromU8 (v : UInt8) : Option Command :=
  if v = 1 then some .request else if v = 2 then some .response else none

def asU8 : Command → UInt8
  | request => 1
  | response => 2

@[simp] theorem fromU8_asU8 (c : Command) : fromU8 c.asU8 = some c := by
  cases c <;> rfl

end Command

inductive RipError where
  | tooShort
  | badLength (n : ℕ)
  | unknownCommand (v : UInt8)
deriving DecidableEq

namespace Ng

abbrev Ipv6Addr := BitVec 128

def version : UInt8 := 1

/-- The metric that marks a next hop. -/
def nextHopMetric : UInt8 := 0xff

def rteLen : ℕ := 20

def headerLen : ℕ := 4

/-- An entry with its next hop, which is the sender where there is none. -/
structure Rte where
  pfx : Prefix
  tag : UInt16
  nextHop : Option Ipv6Addr
  metric : UInt8
deriving DecidableEq

structure Message where
  command : Command
  entries : List Rte
deriving DecidableEq

/-- One entry of 20 octets. -/
def pushRte (addr : Ipv6Addr) (tag : UInt16) (prefixLen metric : UInt8) : List UInt8 :=
  digits 16 addr.toNat ++ digits 2 tag.toNat ++ [prefixLen, metric]

namespace Message

/-- The entries of IPv6 after those before them, the last of which had this next hop. -/
def encodeEntries : Option Ipv6Addr → List Rte → List UInt8
  | _, [] => []
  | currentNh, e :: es =>
    match e.pfx.addr with
    | .v4 _ => encodeEntries currentNh es
    | .v6 addr =>
      (if e.nextHop ≠ currentNh then pushRte (e.nextHop.getD 0) 0 0 nextHopMetric else []) ++
        pushRte addr e.tag e.pfx.len e.metric ++ encodeEntries e.nextHop es

def encode (m : Message) : List UInt8 := [m.command.asU8, version, 0, 0] ++ encodeEntries none m.entries

/-- What a chunk adds to the entries, and the next hop after it. A prefix that is too long is passed over. -/
def decodeChunk (s : List Rte × Option Ipv6Addr) (chunk : List UInt8) : List Rte × Option Ipv6Addr :=
  let addr : Ipv6Addr := BitVec.ofNat 128 (value (chunk.take 16))
  let tag := UInt16.ofNat (value ((chunk.drop 16).take 2))
  let prefixLen := chunk.getD 18 0
  let metric := chunk.getD 19 0
  if metric = nextHopMetric then (s.1, if addr = 0 then none else some addr)
  else
    match Prefix.new (.v6 addr) prefixLen with
    | .error _ => s
    | .ok pfx => (s.1 ++ [⟨pfx, tag, s.2, metric⟩], s.2)

def decode (buf : List UInt8) : Except RipError Message :=
  match buf with
  | c :: _ :: _ :: _ :: body =>
    match Command.fromU8 c with
    | none => .error (.unknownCommand c)
    | some command =>
      if body.length % rteLen ≠ 0 then .error (.badLength body.length)
      else .ok ⟨command, ((chunksExact rteLen body).foldl decodeChunk ([], none)).1⟩
  | _ => .error .tooShort

end Message

/-- An entry that the wire can carry. -/
structure Rte.Plain (e : Rte) : Prop where
  ipv6 : e.pfx.isIpv4 = false
  metric : e.metric ≠ nextHopMetric
  specified : e.nextHop ≠ some 0

instance : DecidablePred Rte.Plain := fun e =>
  decidable_of_iff (e.pfx.isIpv4 = false ∧ e.metric ≠ nextHopMetric ∧ e.nextHop ≠ some 0)
    ⟨fun h => ⟨h.1, h.2.1, h.2.2⟩, fun h => ⟨h.ipv6, h.metric, h.specified⟩⟩

@[simp] theorem length_pushRte (addr : Ipv6Addr) (tag : UInt16) (prefixLen metric : UInt8) :
    (pushRte addr tag prefixLen metric).length = rteLen := by
  simp [pushRte, rteLen]

namespace Message

section Chunk
variable (s : List Rte × Option Ipv6Addr) (addr : Ipv6Addr) (tag : UInt16) (prefixLen metric : UInt8)

theorem decodeChunk_pushRte : decodeChunk s (pushRte addr tag prefixLen metric) =
    if metric = nextHopMetric then (s.1, if addr = 0 then none else some addr)
    else
      match Prefix.new (.v6 addr) prefixLen with
      | .error _ => s
      | .ok pfx => (s.1 ++ [⟨pfx, tag, s.2, metric⟩], s.2) := by
  have htake : (pushRte addr tag prefixLen metric).take 16 = digits 16 addr.toNat := by
    rw [pushRte, List.append_assoc, List.take_left' (length_digits 16 _)]
  have hdrop : (pushRte addr tag prefixLen metric).drop 16 = digits 2 tag.toNat ++ [prefixLen, metric] := by
    rw [pushRte, List.append_assoc, List.drop_left' (length_digits 16 _)]
  have haddr : BitVec.ofNat 128 (value (digits 16 addr.toNat)) = addr := ofNat_value_digits addr (by decide)
  have htag : UInt16.ofNat (value ((digits 2 tag.toNat ++ [prefixLen, metric]).take 2)) = tag := by
    rw [List.take_left' (length_digits 2 _), value_digits_of_lt tag.toNat_lt, UInt16.ofNat_toNat]
  have hlen : (digits 16 addr.toNat ++ digits 2 tag.toNat).length = 18 := by simp
  have hlast : ∀ i, (pushRte addr tag prefixLen metric).getD (18 + i) 0 = [prefixLen, metric].getD i 0 := by
    intro i
    rw [pushRte, List.getD_eq_getElem?_getD, List.getElem?_append_right (by omega), hlen, Nat.add_sub_cancel_left,
      List.getD_eq_getElem?_getD]
  have hfirst : (pushRte addr tag prefixLen metric).getD 18 0 = prefixLen := hlast 0
  have hsecond : (pushRte addr tag prefixLen metric).getD 19 0 = metric := hlast 1
  simp only [decodeChunk, htake, hdrop, haddr, htag, hfirst, hsecond]

end Chunk

theorem new_self (p : Prefix) : Prefix.new p.addr p.len = .ok p := by
  obtain ⟨addr, len, hlen, hmask⟩ := p
  simp only [Prefix.new, dif_pos hlen, hmask]

/-- The next hop is told, if it is another one. -/
theorem decodeChunk_nextHop (acc : List Rte) (nh : Option Ipv6Addr) {next : Option Ipv6Addr} (h : next ≠ some 0) :
    decodeChunk (acc, nh) (pushRte (next.getD 0) 0 0 nextHopMetric) = (acc, next) := by
  rw [decodeChunk_pushRte, if_pos rfl]
  cases next with
  | none => rfl
  | some a =>
    have ha : a ≠ 0 := fun h0 => h (congrArg some h0)
    rw [Option.getD_some, if_neg ha]

theorem decodeChunk_entry (acc : List Rte) {e : Rte} {addr : Ipv6Addr} (haddr : e.pfx.addr = .v6 addr)
    (hmetric : e.metric ≠ nextHopMetric) :
    decodeChunk (acc, e.nextHop) (pushRte addr e.tag e.pfx.len e.metric) = (acc ++ [e], e.nextHop) := by
  have hnew : Prefix.new (.v6 addr) e.pfx.len = .ok e.pfx := by
    rw [← haddr]
    exact new_self e.pfx
  rw [decodeChunk_pushRte, if_neg hmetric, hnew]

theorem foldl_decodeChunk_append (s : List Rte × Option Ipv6Addr) {chunk : List UInt8} (h : chunk.length = rteLen)
    (rest : List UInt8) : (chunksExact rteLen (chunk ++ rest)).foldl decodeChunk s =
      (chunksExact rteLen rest).foldl decodeChunk (decodeChunk s chunk) := by
  rw [chunksExact_append (by decide) h, List.foldl_cons]

theorem encodeEntries_cons (nh : Option Ipv6Addr) {e : Rte} {addr : Ipv6Addr} (haddr : e.pfx.addr = .v6 addr) (es : List Rte) :
    encodeEntries nh (e :: es) = (if e.nextHop ≠ nh then pushRte (e.nextHop.getD 0) 0 0 nextHopMetric else []) ++
      (pushRte addr e.tag e.pfx.len e.metric ++ encodeEntries e.nextHop es) := by
  simp only [encodeEntries, haddr, List.append_assoc]

/-- Both sides go through the entries with the same next hop in hand. -/
theorem decode_encodeEntries (es : List Rte) (h : ∀ e ∈ es, e.Plain) (acc : List Rte) (nh : Option Ipv6Addr) :
    ((chunksExact rteLen (encodeEntries nh es)).foldl decodeChunk (acc, nh)).1 = acc ++ es := by
  induction es generalizing acc nh with
  | nil =>
    have hnil : chunksExact rteLen (encodeEntries nh []) = [] := by simp [encodeEntries, chunksExact]
    rw [hnil, List.foldl_nil, List.append_nil]
  | cons e es ih =>
    have he := h e List.mem_cons_self
    have hes : ∀ e' ∈ es, e'.Plain := fun e' he' => h e' (List.mem_cons_of_mem e he')
    cases haddr : e.pfx.addr with
    | v4 a =>
      have hno := he.ipv6
      rw [Prefix.isIpv4, haddr] at hno
      cases hno
    | v6 addr =>
      have hentry := decodeChunk_entry acc haddr he.metric
      have hlater := ih hes (acc ++ [e]) e.nextHop
      rw [List.append_assoc, List.singleton_append] at hlater
      rw [encodeEntries_cons nh haddr]
      by_cases hsame : e.nextHop = nh
      · rw [if_neg (not_not.mpr hsame), List.nil_append, foldl_decodeChunk_append _ (length_pushRte ..), ← hsame, hentry]
        exact hlater
      · rw [if_pos hsame, foldl_decodeChunk_append _ (length_pushRte ..),
          decodeChunk_nextHop acc nh he.specified, foldl_decodeChunk_append _ (length_pushRte ..), hentry]
        exact hlater

theorem length_encodeEntries (nh : Option Ipv6Addr) (es : List Rte) : (encodeEntries nh es).length % rteLen = 0 := by
  induction es generalizing nh with
  | nil => rfl
  | cons e es ih =>
    unfold encodeEntries
    split
    · exact ih nh
    · have hrest := ih e.nextHop
      unfold rteLen at hrest ⊢
      split_ifs
      · simp only [List.length_append, length_pushRte, rteLen]
        omega
      · simp only [List.nil_append, List.length_append, length_pushRte, rteLen]
        omega

/-- A message of plain entries comes back as it was. -/
theorem decode_encode_plain (m : Message) (h : ∀ e ∈ m.entries, e.Plain) : decode m.encode = .ok m := by
  have hentries := decode_encodeEntries m.entries h [] none
  have hlen := length_encodeEntries none m.entries
  have hshape : m.encode = m.command.asU8 :: version :: 0 :: 0 :: encodeEntries none m.entries := rfl
  rw [hshape]
  simp only [decode, Command.fromU8_asU8, hlen, hentries, ne_eq, not_true_eq_false, if_false, List.nil_append]

/-- 2001:db8::/32. -/
def docPrefix : Prefix where
  addr := .v6 0x20010db8000000000000000000000000
  len := 32
  len_le := by decide
  masked := by decide

/-- A next hop, the same once more, and then the sender. -/
def threeHops : Message where
  command := .response
  entries := [⟨docPrefix, 0, some 0xfe800000000000000000000000000001, 2⟩,
    ⟨docPrefix, 1, some 0xfe800000000000000000000000000001, 16⟩, ⟨docPrefix, 2, none, 1⟩]

theorem decode_encode_threeHops : decode threeHops.encode = .ok threeHops := decode_encode_plain threeHops (by decide)

end Message
end Ng
end Wren.Rip
