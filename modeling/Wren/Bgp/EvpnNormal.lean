import Wren.Bgp.EvpnCodec
import Wren.Lib.Tlv

/-! What is read as EVPN routes is read back once it is written again, and reading them indexes nothing out of bounds. -/

namespace Wren.Bgp
open Wren.Core Octets Indexed

/-! ### Fields by offset -/

def readRdAt (buf : List UInt8) (start : ℕ) : Indexed Rd := get (slice? buf start 8) >>= copy 8

def readEsiAt (buf : List UInt8) (start : ℕ) : Indexed Esi := get (slice? buf start 10) >>= copy 10

def readMacAt (buf : List UInt8) (start : ℕ) : Indexed MacAddr := get (slice? buf start 6) >>= copy 6

/-- A number of `n` octets. -/
def readUIntAt (n : ℕ) (buf : List UInt8) (start : ℕ) : Indexed UInt32 :=
  get (slice? buf start n) >>= fun b => number n b >>= fun v => get (some (UInt32.ofNat v))

def readIpv4At (buf : List UInt8) (start : ℕ) : Indexed IpAddr :=
  get (slice? buf start 4) >>= fun b => number 4 b >>= fun v => get (some (.v4 (BitVec.ofNat 32 v)))

def readIpv6At (buf : List UInt8) (start : ℕ) : Indexed IpAddr :=
  get (slice? buf start 16) >>= fun b => number 16 b >>= fun v => get (some (.v6 (BitVec.ofNat 128 v)))

/-- An address of so many bits, and the octets it takes. -/
def readIpAt (bits : UInt8) (buf : List UInt8) (start : ℕ) : Indexed (Option IpAddr × ℕ) :=
  if bits = 0 then get (some (none, 0))
  else if bits = 32 then readIpv4At buf start >>= fun ip => get (some (some ip, 4))
  else if bits = 128 then readIpv6At buf start >>= fun ip => get (some (some ip, 16))
  else get none

namespace EvpnNlri

def decodeMacIpAt (body : List UInt8) : Indexed EvpnNlri := do
  let rd ← readRdAt body 0
  let esi ← readEsiAt body 8
  let ethTag ← readUIntAt 4 body 18
  let macLen ← get body[22]?
  if macLen ≠ 48 then get none
  else do
    let mac ← readMacAt body 23
    let bits ← get body[29]?
    let (ip, ipLen) ← readIpAt bits body 30
    let label1 ← readUIntAt 3 body (30 + ipLen)
    let rest ← minus body.length (30 + ipLen + 3)
    if 3 ≤ rest then do
      let label2 ← readUIntAt 3 body (30 + ipLen + 3)
      get (some (macIp rd esi ethTag mac ip label1 (some label2)))
    else get (some (macIp rd esi ethTag mac ip label1 none))

def decodeImetAt (body : List UInt8) : Indexed EvpnNlri := do
  let rd ← readRdAt body 0
  let ethTag ← readUIntAt 4 body 8
  let bits ← get body[12]?
  let (ip, _) ← readIpAt bits body 13
  let ip ← get ip
  get (some (imet rd ethTag ip))

/-- A network and its gateway, which take `n` octets each, and the label behind them. -/
def decodeNetworkAt (n : ℕ) (readAt : List UInt8 → ℕ → Indexed IpAddr) (rd : Rd) (esi : Esi) (ethTag : UInt32)
    (len : UInt8) (body : List UInt8) : Indexed EvpnNlri := do
  let addr ← readAt body 23
  let gw ← readAt body (23 + n)
  let label ← readUIntAt 3 body (23 + n + n)
  let pfx ← get (Prefix.new addr len).toOption
  get (some (ipPrefix rd esi ethTag pfx gw label))

def decodeIpPrefixAt (body : List UInt8) : Indexed EvpnNlri := do
  let rd ← readRdAt body 0
  let esi ← readEsiAt body 8
  let ethTag ← readUIntAt 4 body 18
  let len ← get body[22]?
  if body.length = 34 then decodeNetworkAt 4 readIpv4At rd esi ethTag len body
  else if body.length = 58 then decodeNetworkAt 16 readIpv6At rd esi ethTag len body
  else get none

def decodeBodyAt (routeType : UInt8) (body : List UInt8) : Indexed EvpnNlri :=
  if routeType = routeTypeMacIp then decodeMacIpAt body
  else if routeType = routeTypeImet then decodeImetAt body
  else if routeType = routeTypeIpPrefix then decodeIpPrefixAt body
  else get none

def decodeAt (buf : List UInt8) : Indexed (EvpnNlri × ℕ) := do
  let routeType ← get buf[0]?
  let len ← get buf[1]?
  let body ← get (slice? buf 2 len.toNat)
  -- nothing but a fault keeps a body from being kept as it is
  let nlri ← OptionT.mk ((decodeBodyAt routeType body).run.map fun n => some (n.getD (unknown routeType body)))
  get (some (nlri, 2 + len.toNat))

/-- The loop over the octets, each turn of which takes one at least. -/
def decodeAllFrom : ℕ → List UInt8 → Indexed (List EvpnNlri)
  | _, [] => get (some [])
  | 0, _ :: _ => get none
  | n + 1, buf => do
    let (nlri, used) ← decodeAt buf
    let buf ← sliceFrom buf used
    let rest ← decodeAllFrom n buf
    get (some (nlri :: rest))

def decodeAllAt (buf : List UInt8) : Indexed (List EvpnNlri) := decodeAllFrom buf.length buf

end EvpnNlri

/-! ### Nothing is out of bounds -/

theorem reads_rd : ReadsField 8 readRd readRdAt := .mk' (fun _ => rfl) fun _ h => copy_eq h

theorem reads_esi : ReadsField 10 readEsi readEsiAt := .mk' (fun _ => rfl) fun _ h => copy_eq h

theorem reads_mac : ReadsField 6 readMac readMacAt := .mk' (fun _ => rfl) fun _ h => copy_eq h

theorem reads_uint (n : ℕ) : ReadsField n (readUInt n) (readUIntAt n) :=
  .mk' (fun _ => rfl) fun _ h => by rw [number_eq h]; rfl

theorem reads_ipv4 : ReadsField 4 readIpv4 readIpv4At :=
  .mk' (f := fun b => IpAddr.v4 (ipv4OfOctets b)) (fun _ => rfl) fun _ h => by rw [number_eq h]; rfl

theorem reads_ipv6 : ReadsField 16 readIpv6 readIpv6At :=
  .mk' (f := fun b => IpAddr.v6 (BitVec.ofNat 128 (value b))) (fun _ => rfl) fun _ h => by rw [number_eq h]; rfl

theorem isIpv4_of_new {addr : IpAddr} {len : UInt8} {p : Prefix} (h : (Prefix.new addr len).toOption = some p) :
    p.isIpv4 = addr.isIpv4 := by
  unfold Prefix.new at h
  split_ifs at h
  · cases h
    cases addr <;> rfl
  · cases h

theorem exists_readUInt {n : ℕ} {buf : List UInt8} (h : n ≤ buf.length) : ∃ v, readUInt n buf = some (v, buf.drop n) := by
  rw [readUInt, field?, if_neg (Nat.not_lt.mpr h)]
  exact ⟨_, rfl⟩

theorem readUInt_eq_none {n : ℕ} {buf : List UInt8} (h : buf.length < n) : readUInt n buf = none := by
  rw [readUInt, field?, if_pos h, Option.map_none]

/-- The octet at the offset that the fields before it end at, and what is read after it. -/
theorem octet_bind {β : Type} {body : List UInt8} {k : ℕ} {next : UInt8 → Indexed β} {next' : UInt8 → Option β}
    (hnext : ∀ b, k + 1 ≤ body.length → next b = get (next' b)) :
    (get body[k]? >>= next) = get ((body.drop k).head?.bind next') := by
  rw [List.head?_drop]
  cases hk : body[k]? with
  | none => rfl
  | some b => exact hnext b (List.getElem?_eq_some_iff.mp hk).1

theorem ip_bind {β : Type} {bits : UInt8} {body : List UInt8} {k : ℕ} (hk : k ≤ body.length)
    {next : Option IpAddr × ℕ → Indexed β} {next' : Option IpAddr × List UInt8 → Option β}
    (hnext : ∀ ip n, k + n ≤ body.length → next (ip, n) = get (next' (ip, body.drop (k + n)))) :
    (readIpAt bits body k >>= next) = get ((readIp bits (body.drop k)).bind next') := by
  unfold readIpAt readIp
  split_ifs
  · exact hnext none 0 hk
  · rw [bind_assoc, Option.bind_map]
    exact reads_ipv4.bind hk fun ip hle => hnext (some ip) 4 hle
  · rw [bind_assoc, Option.bind_map]
    exact reads_ipv6.bind hk fun ip hle => hnext (some ip) 16 hle
  · rfl

namespace EvpnNlri

theorem decodeMacIpAt_eq (body : List UInt8) : decodeMacIpAt body = get (decodeMacIp body) := by
  refine reads_rd.bind (Nat.zero_le _) fun rd hrd => ?_
  refine reads_esi.bind hrd fun esi hesi => ?_
  refine (reads_uint 4).bind hesi fun ethTag htag => ?_
  refine octet_bind fun macLen hlen => ?_
  by_cases h48 : macLen = 48
  · rw [if_neg (not_not.mpr h48)]
    simp only [h48, guard_true, List.tail_drop]
    refine reads_mac.bind hlen fun mac hmac => ?_
    refine octet_bind fun bits hbits => ?_
    rw [List.tail_drop]
    refine ip_bind hbits fun ip n hip => ?_
    refine (reads_uint 3).bind hip fun label1 hlabel => ?_
    rw [minus_eq hlabel, get_some_bind]
    split_ifs with hrest
    · have hsecond : 3 ≤ (body.drop (30 + n + 3)).length := by rwa [List.length_drop]
      obtain ⟨v, hv⟩ := exists_readUInt hsecond
      rw [(reads_uint 3).indexed _ _ hlabel, hv]
      rfl
    · rw [readUInt_eq_none (by rw [List.length_drop]; omega)]
      rfl
  · rw [if_pos h48]
    simp only [h48, guard_false]
    rfl

theorem decodeImetAt_eq (body : List UInt8) : decodeImetAt body = get (decodeImet body) := by
  refine reads_rd.bind (Nat.zero_le _) fun rd hrd => ?_
  refine (reads_uint 4).bind hrd fun ethTag htag => ?_
  refine octet_bind fun bits hbits => ?_
  rw [List.tail_drop]
  refine ip_bind hbits fun ip n hip => ?_
  cases ip <;> rfl

/-- The network, its gateway and the label, whichever family they are of. -/
theorem decodeNetworkAt_eq {n : ℕ} {read : List UInt8 → Option (IpAddr × List UInt8)}
    {readAt : List UInt8 → ℕ → Indexed IpAddr} (hread : ReadsField n read readAt) (rd : Rd) (esi : Esi) (ethTag : UInt32)
    (len : UInt8) {body : List UInt8} (h : 23 ≤ body.length) :
    decodeNetworkAt n readAt rd esi ethTag len body = get ((read (body.drop 23)).bind fun (addr, rest) =>
      (read rest).bind fun (gw, rest) => (readUInt 3 rest).bind fun (label, _) =>
        (Prefix.new addr len).toOption.bind fun pfx => some (ipPrefix rd esi ethTag pfx gw label)) := by
  refine hread.bind h fun addr haddr => ?_
  refine hread.bind haddr fun gw hgw => ?_
  refine (reads_uint 3).bind hgw fun label hlabel => ?_
  exact get_bind _ _

theorem decodeIpPrefixAt_eq (body : List UInt8) : decodeIpPrefixAt body = get (decodeIpPrefix body) := by
  refine reads_rd.bind (Nat.zero_le _) fun rd hrd => ?_
  refine reads_esi.bind hrd fun esi hesi => ?_
  refine (reads_uint 4).bind hesi fun ethTag htag => ?_
  refine octet_bind fun len hlen => ?_
  rw [List.tail_drop]
  split_ifs with h34 h58
  · rw [decodeNetworkAt_eq reads_ipv4 _ _ _ _ hlen]
    simp only [h34, guard_true, true_or]
    rfl
  · rw [decodeNetworkAt_eq reads_ipv6 _ _ _ _ hlen]
    simp only [h58, guard_true, or_true]
    rfl
  · simp only [h34, h58, guard_false, or_self]
    rfl

theorem decodeBodyAt_eq (routeType : UInt8) (body : List UInt8) :
    decodeBodyAt routeType body = get (decodeBody routeType body) := by
  unfold decodeBodyAt decodeBody
  split_ifs
  · exact decodeMacIpAt_eq body
  · exact decodeImetAt_eq body
  · exact decodeIpPrefixAt_eq body
  · rfl

/-- A record of one length octet, by offset. -/
theorem decodeTlv_one (t len : UInt8) (rest : List UInt8) : decodeTlv 1 (t :: len :: rest) =
    (slice? (t :: len :: rest) 2 len.toNat).map fun body => ((t, body), 2 + len.toNat) := by
  have hlen : field? 1 (len :: rest) = some ([len], rest) := field?_append (l := [len]) rfl rest
  have hvalue : value [len] = len.toNat := by simp [value]
  rw [slice?_cons_succ, slice?_cons_succ, slice?_eq_field? (Nat.zero_le _), List.drop_zero]
  simp only [decodeTlv, hlen, hvalue, Option.bind_eq_bind, Option.bind_some, Option.pure_def, Option.map_map]
  cases field? len.toNat rest <;> rfl

theorem decodeAt_eq (buf : List UInt8) : decodeAt buf = get (decode buf) := by
  unfold decodeAt decode
  simp only [decodeBodyAt_eq]
  match buf with
  | [] => rfl
  | [t] => rfl
  | t :: len :: rest =>
    rw [decodeTlv_one]
    simp only [List.getElem?_cons_zero, List.getElem?_cons_succ, get_some_bind]
    cases slice? (t :: len :: rest) 2 len.toNat <;> rfl

theorem used_le_of_decode {buf : List UInt8} {n : EvpnNlri} {used : ℕ} (h : decode buf = some (n, used)) :
    used ≤ buf.length := by
  obtain ⟨⟨⟨t, body⟩, used'⟩, htlv, heq⟩ := Option.map_eq_some_iff.mp h
  obtain rfl : used' = used := congrArg Prod.snd heq
  exact (of_decodeTlv htlv).2.2

theorem decodeAllFrom_eq (n : ℕ) (buf : List UInt8) : decodeAllFrom n buf = get (readRecords decode n buf) := by
  induction n generalizing buf with
  | zero => cases buf <;> rfl
  | succ n ih =>
    by_cases hnil : buf = []
    · subst hnil
      rfl
    · obtain ⟨b, bs, rfl⟩ := List.exists_cons_of_ne_nil hnil
      rw [decodeAllFrom, readRecords_succ hnil, decodeAt_eq]
      · cases hdecode : decode (b :: bs) with
        | none => rfl
        | some r =>
          obtain ⟨nlri, used⟩ := r
          rw [get_some_bind, Option.bind_some]
          simp only [sliceFrom_eq (used_le_of_decode hdecode), get_some_bind, ih]
          cases readRecords decode n ((b :: bs).drop used) <;> rfl
      · exact hnil

theorem decodeAllAt_eq (buf : List UInt8) : decodeAllAt buf = get (decodeAll buf) := decodeAllFrom_eq _ _

/-! ### What is read is read back -/

theorem value_toNat_lt {n : ℕ} {buf rest : List UInt8} {v : UInt32} (h : readUInt n buf = some (v, rest)) :
    v.toNat < 256 ^ n := by
  obtain ⟨⟨b, r⟩, hfield, heq⟩ := Option.map_eq_some_iff.mp h
  obtain ⟨hle, rfl, -⟩ := field?_eq_some.mp hfield
  have hlt := value_lt (buf.take n)
  rw [List.length_take, Nat.min_eq_left hle] at hlt
  obtain rfl : u32OfOctets (buf.take n) = v := congrArg Prod.fst heq
  exact lt_of_le_of_lt (UInt32.toNat_ofNat'.trans_le (Nat.mod_le _ _)) hlt

theorem wellFormed_of_decodeMacIp {body : List UInt8} {n : EvpnNlri} (h : decodeMacIp body = some n) : n.WellFormed := by
  simp only [decodeMacIp, Option.bind_eq_bind, Option.bind_eq_some_iff, Option.pure_def, Option.some.injEq] at h
  obtain ⟨⟨rd, _⟩, -, ⟨esi, _⟩, -, ⟨ethTag, _⟩, -, macLen, -, -, -, ⟨mac, _⟩, -, bits, -, ⟨ip, _⟩, -, ⟨label1, rest⟩,
    hlabel, rfl⟩ := h
  refine ⟨value_toNat_lt hlabel, fun l hl => ?_⟩
  obtain ⟨⟨v, _⟩, hsecond, rfl⟩ := Option.map_eq_some_iff.mp hl
  exact value_toNat_lt hsecond

theorem isIpv4_of_readIpv4 {buf rest : List UInt8} {ip : IpAddr} (h : readIpv4 buf = some (ip, rest)) : ip.isIpv4 = true := by
  obtain ⟨r, -, heq⟩ := Option.map_eq_some_iff.mp h
  obtain rfl : IpAddr.v4 (ipv4OfOctets r.1) = ip := congrArg Prod.fst heq
  rfl

theorem isIpv4_of_readIpv6 {buf rest : List UInt8} {ip : IpAddr} (h : readIpv6 buf = some (ip, rest)) : ip.isIpv4 = false := by
  obtain ⟨r, -, heq⟩ := Option.map_eq_some_iff.mp h
  obtain rfl : IpAddr.v6 (BitVec.ofNat 128 (value r.1)) = ip := congrArg Prod.fst heq
  rfl

theorem wellFormed_of_decodeIpPrefix {body : List UInt8} {n : EvpnNlri} (h : decodeIpPrefix body = some n) :
    n.WellFormed := by
  simp only [decodeIpPrefix, Option.bind_eq_bind, Option.bind_eq_some_iff, Option.pure_def, Option.some.injEq] at h
  obtain ⟨⟨rd, _⟩, -, ⟨esi, _⟩, -, ⟨ethTag, _⟩, -, len, -, -, -, ⟨addr, _⟩, haddr, ⟨gw, _⟩, hgw, ⟨label, _⟩, hlabel, pfx,
    hpfx, rfl⟩ := h
  refine ⟨?_, value_toNat_lt hlabel⟩
  rw [isIpv4_of_new hpfx]
  split_ifs at haddr hgw
  · rw [isIpv4_of_readIpv4 haddr, isIpv4_of_readIpv4 hgw]
  · rw [isIpv4_of_readIpv6 haddr, isIpv4_of_readIpv6 hgw]

theorem wellFormed_of_decodeBody {t : UInt8} {body : List UInt8} {n : EvpnNlri} (h : decodeBody t body = some n) :
    n.WellFormed := by
  unfold decodeBody at h
  split_ifs at h
  · exact wellFormed_of_decodeMacIp h
  · simp only [decodeImet, Option.bind_eq_bind, Option.bind_eq_some_iff, Option.pure_def, Option.some.injEq] at h
    obtain ⟨⟨rd, _⟩, -, ⟨ethTag, _⟩, -, bits, -, ⟨ip, _⟩, -, origIp, -, rfl⟩ := h
    trivial
  · exact wellFormed_of_decodeIpPrefix h

/-- Written again, a route that was read is read as the same, whatever follows it. A body that was not understood
is not understood then either. -/
theorem decode_encode_of_decode {buf : List UInt8} {n : EvpnNlri} {used : ℕ} (h : decode buf = some (n, used))
    (r : List UInt8) : decode (n.encode ++ r) = some (n, n.encode.length) := by
  obtain ⟨⟨⟨t, body⟩, used'⟩, htlv, heq⟩ := Option.map_eq_some_iff.mp h
  obtain rfl : (decodeBody t body).getD (unknown t body) = n := congrArg Prod.fst heq
  cases hbody : decodeBody t body with
  | some m => exact decode_encode_append (wellFormed_of_decodeBody hbody) r
  | none =>
    simp only [decode, encode, Option.getD_none, routeType, encodeBody, decodeTlv_encodeTlv t (of_decodeTlv htlv).1,
      Option.map_some, hbody]

/-- Routes that can be written are read back one after the other, reading any octets indexes nothing out of bounds,
and the routes that are read are read back once they are written again. -/
theorem decodeAll_normal : (∀ l : List EvpnNlri, (∀ n ∈ l, n.WellFormed) → decodeAll (l.flatMap encode) = some l) ∧
    ∀ buf, decodeAllAt buf = get (decodeAll buf) ∧
      ∀ l, decodeAll buf = some l → decodeAll (l.flatMap encode) = some l := by
  refine ⟨fun l h => decodeAll_flatMap h, fun buf => ⟨decodeAllAt_eq buf, fun l hl => ?_⟩⟩
  have hback := forall_of_readRecords (P := fun n => ∀ r, decode (n.encode ++ r) = some (n, n.encode.length))
    (fun _ n used h => decode_encode_of_decode h) hl
  have hall : decodeAll (l.flatMap encode) = some (l.map id) :=
    readAll_flatMap id hback fun n _ => encode_ne_nil n
  rw [hall, List.map_id]

/-- 10.1.2.3/8 has host bits, and the route of type 3 behind it is too short for one. -/
def hostBits : List UInt8 :=
  [5, 34] ++ List.replicate 22 0 ++ [8, 10, 1, 2, 3, 0, 0, 0, 0, 0, 0, 1] ++ [3, 1, 7]

/-- They are gone once it is written again. -/
theorem decodeAll_normal_hostBits :
    let l := [ipPrefix (Vector.replicate 8 0) (Vector.replicate 10 0) 0
      ⟨.v4 0x0a000000, 8, Prefix.net10_len_le, Prefix.net10_masked⟩ (.v4 0) 1, unknown 3 [7]]
    l.flatMap encode ≠ hostBits ∧ decodeAll (l.flatMap encode) = some l :=
  ⟨by decide +kernel, (decodeAll_normal.2 hostBits).2 _ (by decide +kernel)⟩

end EvpnNlri
end Wren.Bgp
