import Wren.Bfd.Packet

/-! The digests of keyed authentication, and the Authentication Section of BFD with its window against replays. -/

namespace Wren.Bfd.Digest
open Octets

def rotateLeft (x n : UInt32) : UInt32 := x <<< n ||| x >>> (32 - n)

/-- The message with a one bit, as many zeros as needed and its length in bits, a multiple of 64 octets in all. -/
def pad (msg bitlen : List UInt8) : List UInt8 :=
  msg ++ 0x80 :: (List.replicate ((119 - msg.length % 64) % 64) 0 ++ bitlen)

def beWords (chunk : List UInt8) : List UInt32 := (chunksExact 4 chunk).map fun c => UInt32.ofNat (value c)

def leWords (chunk : List UInt8) : List UInt32 := (chunksExact 4 chunk).map fun c => UInt32.ofNat (value c.reverse)

def toBeBytes (x : UInt32) : List UInt8 := digits 4 x.toNat

def toLeBytes (x : UInt32) : List UInt8 := (digits 4 x.toNat).reverse

structure Md5 where
  a : UInt32
  b : UInt32
  c : UInt32
  d : UInt32

namespace Md5

def S : List UInt32 :=
  [7, 12, 17, 22, 7, 12, 17, 22, 7, 12, 17, 22, 7, 12, 17, 22, 5, 9, 14, 20, 5, 9, 14, 20, 5, 9, 14, 20, 5, 9, 14, 20,
    4, 11, 16, 23, 4, 11, 16, 23, 4, 11, 16, 23, 4, 11, 16, 23, 6, 10, 15, 21, 6, 10, 15, 21, 6, 10, 15, 21, 6, 10, 15,
    21]

def K : List UInt32 :=
  [0xd76aa478, 0xe8c7b756, 0x242070db, 0xc1bdceee, 0xf57c0faf, 0x4787c62a, 0xa8304613, 0xfd469501, 0x698098d8,
    0x8b44f7af, 0xffff5bb1, 0x895cd7be, 0x6b901122, 0xfd987193, 0xa679438e, 0x49b40821, 0xf61e2562, 0xc040b340,
    0x265e5a51, 0xe9b6c7aa, 0xd62f105d, 0x02441453, 0xd8a1e681, 0xe7d3fbc8, 0x21e1cde6, 0xc33707d6, 0xf4d50d87,
    0x455a14ed, 0xa9e3e905, 0xfcefa3f8, 0x676f02d9, 0x8d2a4c8a, 0xfffa3942, 0x8771f681, 0x6d9d6122, 0xfde5380c,
    0xa4beea44, 0x4bdecfa9, 0xf6bb4b60, 0xbebfbc70, 0x289b7ec6, 0xeaa127fa, 0xd4ef3085, 0x04881d05, 0xd9d4d039,
    0xe6db99e5, 0x1fa27cf8, 0xc4ac5665, 0xf4292244, 0x432aff97, 0xab9423a7, 0xfc93a039, 0x655b59c3, 0x8f0ccc92,
    0xffeff47d, 0x85845dd1, 0x6fa87e4f, 0xfe2ce6e0, 0xa3014314, 0x4e0811a1, 0xf7537e82, 0xbd3af235, 0x2ad7d2bb,
    0xeb86d391]

def init : Md5 := ⟨0x67452301, 0xefcdab89, 0x98badcfe, 0x10325476⟩

def round (w : List UInt32) (v : Md5) (i : ℕ) : Md5 :=
  let fg :=
    if i < 16 then ((v.b &&& v.c) ||| (~~~v.b &&& v.d), i)
    else if i < 32 then ((v.d &&& v.b) ||| (~~~v.d &&& v.c), (5 * i + 1) % 16)
    else if i < 48 then (v.b ^^^ v.c ^^^ v.d, (3 * i + 5) % 16)
    else (v.c ^^^ (v.b ||| ~~~v.d), 7 * i % 16)
  let f := fg.1 + v.a + K.getD i 0 + w.getD fg.2 0
  ⟨v.d, v.b + rotateLeft f (S.getD i 0), v.b, v.c⟩

def block (h : Md5) (chunk : List UInt8) : Md5 :=
  let v := (List.range 64).foldl (round (leWords chunk)) h
  ⟨h.a + v.a, h.b + v.b, h.c + v.c, h.d + v.d⟩

end Md5

def md5 (msg : List UInt8) : List UInt8 :=
  let h := (chunksExact 64 (pad msg (digits 8 (8 * msg.length)).reverse)).foldl Md5.block Md5.init
  toLeBytes h.a ++ toLeBytes h.b ++ toLeBytes h.c ++ toLeBytes h.d

structure Sha1 where
  a : UInt32
  b : UInt32
  c : UInt32
  d : UInt32
  e : UInt32

namespace Sha1

def init : Sha1 := ⟨0x67452301, 0xEFCDAB89, 0x98BADCFE, 0x10325476, 0xC3D2E1F0⟩

/-- The sixteen words of a chunk, extended to eighty. -/
def schedule (chunk : List UInt8) : List UInt32 :=
  (List.range 64).foldl
    (fun w j => w ++ [rotateLeft (w.getD (j + 13) 0 ^^^ w.getD (j + 8) 0 ^^^ w.getD (j + 2) 0 ^^^ w.getD j 0) 1])
    (beWords chunk)

def round (w : List UInt32) (v : Sha1) (i : ℕ) : Sha1 :=
  let fk :=
    if i < 20 then ((v.b &&& v.c) ||| (~~~v.b &&& v.d), 0x5A827999)
    else if i < 40 then (v.b ^^^ v.c ^^^ v.d, 0x6ED9EBA1)
    else if i < 60 then ((v.b &&& v.c) ||| (v.b &&& v.d) ||| (v.c &&& v.d), 0x8F1BBCDC)
    else (v.b ^^^ v.c ^^^ v.d, 0xCA62C1D6)
  ⟨rotateLeft v.a 5 + fk.1 + v.e + fk.2 + w.getD i 0, v.a, rotateLeft v.b 30, v.c, v.d⟩

def block (h : Sha1) (chunk : List UInt8) : Sha1 :=
  let v := (List.range 80).foldl (round (schedule chunk)) h
  ⟨h.a + v.a, h.b + v.b, h.c + v.c, h.d + v.d, h.e + v.e⟩

end Sha1

def sha1 (msg : List UInt8) : List UInt8 :=
  let h := (chunksExact 64 (pad msg (digits 8 (8 * msg.length)))).foldl Sha1.block Sha1.init
  toBeBytes h.a ++ toBeBytes h.b ++ toBeBytes h.c ++ toBeBytes h.d ++ toBeBytes h.e

@[simp] theorem length_md5 (msg : List UInt8) : (md5 msg).length = 16 := by
  simp [md5, toLeBytes]

@[simp] theorem length_sha1 (msg : List UInt8) : (sha1 msg).length = 20 := by
  simp [sha1, toBeBytes]

example : md5 [0x61, 0x62, 0x63] =
    [0x90, 0x01, 0x50, 0x98, 0x3c, 0xd2, 0x4f, 0xb0, 0xd6, 0x96, 0x3f, 0x7d, 0x28, 0xe1, 0x7f, 0x72] := by
  decide +kernel

example : sha1 [0x61, 0x62, 0x63] =
    [0xa9, 0x99, 0x3e, 0x36, 0x47, 0x06, 0x81, 0x6a, 0xba, 0x3e, 0x25, 0x71, 0x78, 0x50, 0xc2, 0x6c, 0x9c, 0xd0, 0xd8,
      0x9d] := by
  decide +kernel

end Wren.Bfd.Digest

/-! ### The Authentication Section -/

namespace Wren.Bfd
open Octets

inductive AuthType where
  | simplePassword
  | keyedMd5
  | meticulousKeyedMd5
  | keyedSha1
  | meticulousKeyedSha1
deriving DecidableEq

namespace AuthType

def code : AuthType → UInt8
  | simplePassword => 1
  | keyedMd5 => 2
  | meticulousKeyedMd5 => 3
  | keyedSha1 => 4
  | meticulousKeyedSha1 => 5

def digestLen : AuthType → ℕ
  | keyedMd5 | meticulousKeyedMd5 => 16
  | keyedSha1 | meticulousKeyedSha1 => 20
  | simplePassword => 0

/-- Whether the sequence number has to advance with every packet. -/
def meticulous : AuthType → Bool
  | meticulousKeyedMd5 | meticulousKeyedSha1 => true
  | _ => false

end AuthType

structure AuthConfig where
  authType : AuthType
  keyId : UInt8
  /-- The digest types pad or cut it to the length of the digest. -/
  secret : List UInt8
deriving DecidableEq

structure AuthState where
  cfg : AuthConfig
  detectMult : UInt8
  xmitSeq : UInt32
  /-- The sequence number accepted last. -/
  rxSeq : Option UInt32
deriving DecidableEq

def AuthConfig.newState (c : AuthConfig) (detectMult : UInt8) : AuthState where
  cfg := c
  detectMult := max detectMult 1
  xmitSeq := 1
  rxSeq := none

def digestFor : AuthType → List UInt8 → List UInt8
  | .keyedMd5, data | .meticulousKeyedMd5, data => Digest.md5 data
  | .keyedSha1, data | .meticulousKeyedSha1, data => Digest.sha1 data
  | .simplePassword, _ => []

/-- Equality that looks at every octet. -/
def constantEq (a b : List UInt8) : Bool :=
  a.length = b.length && (List.zipWith (· ^^^ ·) a b).foldl (· ||| ·) 0 = 0

/-- The sequence numbers are circular: what counts is how far one is past the other. -/
def withinReplayWindow (last seq : UInt32) (detectMult : UInt8) (meticulous : Bool) : Bool :=
  let window := 3 * detectMult.toUInt32
  let delta := seq - last
  let floor := if meticulous then 1 else 0
  floor ≤ delta && delta ≤ window

/-- The window in numbers: at most three times the multiplier ahead, and ahead at all where that is asked for. -/
theorem withinReplayWindow_iff (last seq : UInt32) (detectMult : UInt8) (meticulous : Bool) :
    withinReplayWindow last seq detectMult meticulous = true ↔
      (seq - last).toNat ≤ 3 * detectMult.toNat ∧ (meticulous = true → seq ≠ last) := by
  have hwindow : (3 * detectMult.toUInt32).toNat = 3 * detectMult.toNat := by
    have hlt := detectMult.toNat_lt
    rw [UInt32.toNat_mul, UInt8.toNat_toUInt32]
    show 3 * detectMult.toNat % 2 ^ 32 = 3 * detectMult.toNat
    omega
  have hne : seq ≠ last ↔ 1 ≤ (seq - last).toNat := by
    rw [Nat.one_le_iff_ne_zero, ne_eq, ne_eq, ← UInt32.toNat_zero, UInt32.toNat_inj, sub_eq_zero]
  rw [hne, withinReplayWindow, Bool.and_eq_true, decide_eq_true_iff, decide_eq_true_iff, UInt32.le_iff_toNat_le,
    UInt32.le_iff_toNat_le, hwindow, and_comm]
  cases meticulous <;> simp

namespace AuthState

def key (st : AuthState) : List UInt8 :=
  (st.cfg.secret ++ List.replicate st.cfg.authType.digestLen 0).take st.cfg.authType.digestLen

/-- The A bit set, and the length of the whole packet. -/
def mark (mand : List UInt8) (len : ℕ) : List UInt8 := (mand.set 1 (mand.getD 1 0 ||| bit true 2)).set 3 (UInt8.ofNat len)

/-- The digest is taken with the shared key in its place. -/
def append (st : AuthState) (mand : List UInt8) : AuthState × List UInt8 :=
  let ty := st.cfg.authType
  if ty = .simplePassword then
    let authLen := 3 + st.cfg.secret.length
    (st, mark mand (24 + authLen) ++ ([ty.code, UInt8.ofNat authLen, st.cfg.keyId] ++ st.cfg.secret))
  else
    let authLen := 8 + ty.digestLen
    let seq := st.xmitSeq + 1
    let out := mark mand (24 + authLen) ++ ([ty.code, UInt8.ofNat authLen, st.cfg.keyId, 0] ++ octets seq)
    ({ st with xmitSeq := seq }, out ++ digestFor ty (out ++ st.key))

def accepts (st : AuthState) (seq : UInt32) : Bool :=
  match st.rxSeq with
  | none => true
  | some last => withinReplayWindow last seq st.detectMult st.cfg.authType.meticulous

/-- A packet that fails in any respect changes nothing. -/
def verify (st : AuthState) (buf : List UInt8) : AuthState × Bool :=
  let ty := st.cfg.authType
  let total := (buf.getD 3 0).toNat
  let sec := (buf.take total).drop 24
  if buf.length < 25 then (st, false)
  else if total < 26 ∨ buf.length < total then (st, false)
  else if sec.length < 2 ∨ (sec.getD 1 0).toNat ≠ sec.length then (st, false)
  else if sec.getD 0 0 ≠ ty.code then (st, false)
  else if ty = .simplePassword then
    if sec.length ≠ 3 + st.cfg.secret.length then (st, false)
    else (st, sec.getD 2 0 = st.cfg.keyId && constantEq (sec.drop 3) st.cfg.secret)
  else if sec.length ≠ 8 + ty.digestLen ∨ sec.getD 2 0 ≠ st.cfg.keyId then (st, false)
  else
    let seq := u32At sec 4
    let tmp := buf.take total
    let recv := (tmp.drop 32).take ty.digestLen
    let digest := digestFor ty (tmp.take 32 ++ st.key ++ tmp.drop (32 + ty.digestLen))
    if !constantEq digest recv then (st, false)
    else if st.accepts seq then ({ st with rxSeq := some seq }, true)
    else (st, false)

theorem accepts_iff (st : AuthState) (seq : UInt32) : st.accepts seq = true ↔
    ∀ last ∈ st.rxSeq, (seq - last).toNat ≤ 3 * st.detectMult.toNat ∧ (st.cfg.authType.meticulous = true → seq ≠ last) := by
  unfold accepts
  cases st.rxSeq with
  | none => simp
  | some last => simp [withinReplayWindow_iff]

/-! ### Any digest -/

end AuthState

/-- A digest for each type, of the length that the type says. -/
structure Digests where
  digest : AuthType → List UInt8 → List UInt8
  length_digest : ∀ (ty : AuthType) (data : List UInt8), (digest ty data).length = ty.digestLen

/-- The digests of the code. -/
def Digests.code : Digests where
  digest := digestFor
  length_digest ty data := by
    cases ty <;> simp [digestFor, AuthType.digestLen]

namespace AuthState

/-- `append` with another digest. -/
def appendWith (d : Digests) (st : AuthState) (mand : List UInt8) : AuthState × List UInt8 :=
  let ty := st.cfg.authType
  if ty = .simplePassword then
    let authLen := 3 + st.cfg.secret.length
    (st, mark mand (24 + authLen) ++ ([ty.code, UInt8.ofNat authLen, st.cfg.keyId] ++ st.cfg.secret))
  else
    let authLen := 8 + ty.digestLen
    let seq := st.xmitSeq + 1
    let out := mark mand (24 + authLen) ++ ([ty.code, UInt8.ofNat authLen, st.cfg.keyId, 0] ++ octets seq)
    ({ st with xmitSeq := seq }, out ++ d.digest ty (out ++ st.key))

/-- `verify` with another digest. -/
def verifyWith (d : Digests) (st : AuthState) (buf : List UInt8) : AuthState × Bool :=
  let ty := st.cfg.authType
  let total := (buf.getD 3 0).toNat
  let sec := (buf.take total).drop 24
  if buf.length < 25 then (st, false)
  else if total < 26 ∨ buf.length < total then (st, false)
  else if sec.length < 2 ∨ (sec.getD 1 0).toNat ≠ sec.length then (st, false)
  else if sec.getD 0 0 ≠ ty.code then (st, false)
  else if ty = .simplePassword then
    if sec.length ≠ 3 + st.cfg.secret.length then (st, false)
    else (st, sec.getD 2 0 = st.cfg.keyId && constantEq (sec.drop 3) st.cfg.secret)
  else if sec.length ≠ 8 + ty.digestLen ∨ sec.getD 2 0 ≠ st.cfg.keyId then (st, false)
  else
    let seq := u32At sec 4
    let tmp := buf.take total
    let recv := (tmp.drop 32).take ty.digestLen
    let digest := d.digest ty (tmp.take 32 ++ st.key ++ tmp.drop (32 + ty.digestLen))
    if !constantEq digest recv then (st, false)
    else if st.accepts seq then ({ st with rxSeq := some seq }, true)
    else (st, false)

theorem append_eq (st : AuthState) (mand : List UInt8) : st.append mand = st.appendWith .code mand := rfl

theorem verify_eq (st : AuthState) (buf : List UInt8) : st.verify buf = st.verifyWith .code buf := rfl

@[simp] theorem length_key (st : AuthState) : st.key.length = st.cfg.authType.digestLen := by
  simp [key]

@[simp] theorem length_digestFor (ty : AuthType) (data : List UInt8) : (digestFor ty data).length = ty.digestLen :=
  Digests.code.length_digest ty data

@[simp] theorem length_mark (mand : List UInt8) (len : ℕ) : (mark mand len).length = mand.length := by
  simp [mark]

theorem constantEq_self (a : List UInt8) : constantEq a a = true := by
  have hzero : ∀ n : ℕ, (List.replicate n (0 : UInt8)).foldl (· ||| ·) 0 = 0 := by
    intro n
    induction n with
    | zero => rfl
    | succ n ih => simpa [List.replicate_succ] using ih
  simp [constantEq, hzero a.length]

theorem getD_mark {mand : List UInt8} (hmand : 4 ≤ mand.length) (len : ℕ) (post : List UInt8) :
    (mark mand len ++ post).getD 3 0 = UInt8.ofNat len := by
  have hset : 3 < (mand.set 1 (mand.getD 1 0 ||| bit true 2)).length := by
    rw [List.length_set]
    omega
  rw [List.getD_eq_getElem?_getD, List.getElem?_append_left (by rw [length_mark]; omega), mark,
    List.getElem?_set_self hset, Option.getD_some]

/-- What precedes the digest in the packet of a keyed sender. -/
def image (st : AuthState) (mand : List UInt8) : List UInt8 :=
  mark mand (32 + st.cfg.authType.digestLen) ++ ([st.cfg.authType.code, UInt8.ofNat (8 + st.cfg.authType.digestLen),
    st.cfg.keyId, 0] ++ octets (st.xmitSeq + 1))

theorem appendWith_keyed (d : Digests) (st : AuthState) (mand : List UInt8) (hty : st.cfg.authType ≠ .simplePassword) :
    st.appendWith d mand = ({ st with xmitSeq := st.xmitSeq + 1 },
      st.image mand ++ d.digest st.cfg.authType (st.image mand ++ st.key)) := by
  have hlen : 24 + (8 + st.cfg.authType.digestLen) = 32 + st.cfg.authType.digestLen := by omega
  simp only [appendWith, if_neg hty, hlen, image]

theorem append_keyed (st : AuthState) (mand : List UInt8) (hty : st.cfg.authType ≠ .simplePassword) :
    st.append mand = ({ st with xmitSeq := st.xmitSeq + 1 },
      st.image mand ++ digestFor st.cfg.authType (st.image mand ++ st.key)) := appendWith_keyed .code st mand hty

theorem length_image (st : AuthState) {mand : List UInt8} (hmand : mand.length = 24) : (st.image mand).length = 32 := by
  simp [image, octets, hmand]

/-- A packet under the shared key passes whenever its sequence number does. -/
theorem verifyWith_appendWith (d : Digests) {st rx : AuthState} {mand : List UInt8} (hcfg : rx.cfg = st.cfg)
    (hty : st.cfg.authType ≠ .simplePassword) (hmand : mand.length = 24) :
    rx.verifyWith d (st.appendWith d mand).2 =
      if rx.accepts (st.xmitSeq + 1) then ({ rx with rxSeq := some (st.xmitSeq + 1) }, true) else (rx, false) := by
  rw [appendWith_keyed d st mand hty]
  have hkey : rx.key = st.key := by rw [key, key, hcfg]
  have hdlen : st.cfg.authType.digestLen ≤ 20 := by cases st.cfg.authType <;> decide
  have himage := st.length_image hmand
  have hdigest := d.length_digest st.cfg.authType (st.image mand ++ st.key)
  have hself : constantEq (d.digest st.cfg.authType (st.image mand ++ st.key))
      (d.digest st.cfg.authType (st.image mand ++ st.key)) = true := constantEq_self _
  generalize hd : d.digest st.cfg.authType (st.image mand ++ st.key) = digest at hdigest hself
  have hlength : (st.image mand ++ digest).length = 32 + st.cfg.authType.digestLen := by
    rw [List.length_append, himage, hdigest]
  have hthird : ((st.image mand ++ digest).getD 3 0).toNat = 32 + st.cfg.authType.digestLen := by
    have hthird : (st.image mand ++ digest).getD 3 0 = UInt8.ofNat (32 + st.cfg.authType.digestLen) := by
      rw [image, List.append_assoc]
      exact getD_mark (by omega) _ _
    rw [hthird, UInt8.toNat_ofNat']
    omega
  have hall : (st.image mand ++ digest).take (32 + st.cfg.authType.digestLen) = st.image mand ++ digest :=
    List.take_of_length_le (by omega)
  have hsec : (st.image mand ++ digest).drop 24 = [st.cfg.authType.code, UInt8.ofNat (8 + st.cfg.authType.digestLen),
      st.cfg.keyId, 0] ++ (octets (st.xmitSeq + 1) ++ digest) := by
    rw [image, List.append_assoc, List.drop_left' (by simp [hmand]), List.append_assoc]
  have hseclen : ((st.image mand ++ digest).drop 24).length = 8 + st.cfg.authType.digestLen := by
    rw [List.length_drop, hlength]
    omega
  have hstated : (((st.image mand ++ digest).drop 24).getD 1 0).toNat = 8 + st.cfg.authType.digestLen := by
    have hsecond : ((st.image mand ++ digest).drop 24).getD 1 0 = UInt8.ofNat (8 + st.cfg.authType.digestLen) := by
      rw [hsec]
      rfl
    rw [hsecond, UInt8.toNat_ofNat']
    omega
  have hcode : ((st.image mand ++ digest).drop 24).getD 0 0 = st.cfg.authType.code := by
    rw [hsec]
    rfl
  have hid : ((st.image mand ++ digest).drop 24).getD 2 0 = st.cfg.keyId := by
    rw [hsec]
    rfl
  have hseq : u32At ((st.image mand ++ digest).drop 24) 4 = st.xmitSeq + 1 := by
    rw [hsec, ControlPacket.u32At_append _ _ (n := 0) (k := 4) rfl, ControlPacket.u32At_octets]
  have hfront : (st.image mand ++ digest).take 32 = st.image mand := List.take_left' himage
  have hrecv : ((st.image mand ++ digest).drop 32).take st.cfg.authType.digestLen = digest := by
    rw [List.drop_left' himage, List.take_of_length_le (by omega)]
  have hrest : (st.image mand ++ digest).drop (32 + st.cfg.authType.digestLen) = [] :=
    List.drop_of_length_le (by omega)
  simp only [verifyWith, hcfg, hthird, hall, hseclen, hstated, hcode, hid, hseq, hfront, hrecv, hrest, hkey, hlength,
    List.append_nil, hd, hself, if_neg hty, ne_eq, not_true_eq_false, or_false, if_false, Bool.not_true,
    Bool.false_eq_true]
  rw [if_neg (by omega), if_neg (by omega), if_neg (by omega)]

/-- Of the digest that the code takes. -/
theorem verify_append {st rx : AuthState} {mand : List UInt8} (hcfg : rx.cfg = st.cfg)
    (hty : st.cfg.authType ≠ .simplePassword) (hmand : mand.length = 24) :
    rx.verify (st.append mand).2 =
      if rx.accepts (st.xmitSeq + 1) then ({ rx with rxSeq := some (st.xmitSeq + 1) }, true) else (rx, false) :=
  verifyWith_appendWith .code hcfg hty hmand

end AuthState

/-- The mandatory section of a keyed packet is read as it was sent. -/
theorem ControlPacket.decode_append {p : ControlPacket} (h : p.Valid) {st : AuthState}
    (hty : st.cfg.authType ≠ .simplePassword) :
    decode (st.append p.encode).2 = some { p with diag := .fromCode p.diag.code, authPresent := true } := by
  have hdlen : st.cfg.authType.digestLen ≤ 20 := by cases st.cfg.authType <;> decide
  have hlen : (UInt8.ofNat (32 + st.cfg.authType.digestLen)).toNat = 32 + st.cfg.authType.digestLen := by
    rw [UInt8.toNat_ofNat']
    omega
  have hmark : ∀ post, AuthState.mark p.encode (32 + st.cfg.authType.digestLen) ++ post =
      p.wire true (UInt8.ofNat (32 + st.cfg.authType.digestLen)) post := by
    intro post
    simp [AuthState.mark, encode, wire]
  rw [st.append_keyed p.encode hty, AuthState.image, List.append_assoc, hmark]
  refine decode_wire h ?_ ?_
  · rw [hlen]
    show 26 ≤ _
    omega
  · rw [hlen]
    simp only [List.length_append, List.length_cons, List.length_nil, AuthState.length_digestFor, octets, length_digits,
      mandatoryLen]
    omega

end Wren.Bfd
