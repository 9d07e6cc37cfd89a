import Wren.Lib.Octets

/-! The Control packet of BFD. -/

namespace Wren.Bfd
open Octets

def version : UInt8 := 1

/-- The length of a packet without authentication. -/
def mandatoryLen : ℕ := 24

def minAuthenticatedLen : ℕ := 26

inductive State where
  | down
  | init
  | up
  | adminDown
deriving DecidableEq

namespace State

def toBits : State → UInt8
  | adminDown => 0
  | down => 1
  | init => 2
  | up => 3

def fromBits (bits : UInt8) : State :=
  if bits &&& 3 = 0 then adminDown
  else if bits &&& 3 = 1 then down
  else if bits &&& 3 = 2 then init
  else up

end State

/-- Why the state changed last. Codes without a name are kept as they are. -/
inductive Diag where
  | none
  | controlDetectionTimeExpired
  | echoFunctionFailed
  | neighborSignaledDown
  | administrativelyDown
  | other (c : UInt8)
deriving DecidableEq

namespace Diag

def code : Diag → UInt8
  | none => 0
  | controlDetectionTimeExpired => 1
  | echoFunctionFailed => 2
  | neighborSignaledDown => 3
  | administrativelyDown => 7
  | other c => c &&& 0x1f

def fromCode (code : UInt8) : Diag :=
  let c := code &&& 0x1f
  if c = 0 then none
  else if c = 1 then controlDetectionTimeExpired
  else if c = 2 then echoFunctionFailed
  else if c = 3 then neighborSignaledDown
  else if c = 7 then administrativelyDown
  else other c

end Diag

structure ControlPacket where
  diag : Diag
  state : State
  poll : Bool
  final : Bool
  cpi : Bool
  demand : Bool
  detectMult : UInt8
  myDiscr : UInt32
  yourDiscr : UInt32
  desiredMinTx : UInt32
  requiredMinRx : UInt32
  requiredMinEchoRx : UInt32
  /-- An Authentication Section follows. `encode` does not add one. -/
  authPresent : Bool
deriving DecidableEq

def octets (x : UInt32) : List UInt8 := digits 4 x.toNat

def u32At (buf : List UInt8) (start : ℕ) : UInt32 := UInt32.ofNat (value ((buf.drop start).take 4))

def bit (b : Bool) (n : UInt8) : UInt8 := if b then 1 <<< n else 0

def bitAt (v n : UInt8) : Bool := v &&& bit true n ≠ 0

namespace ControlPacket

def flags (p : ControlPacket) : UInt8 :=
  p.state.toBits <<< 6 ||| bit p.poll 5 ||| bit p.final 4 ||| bit p.cpi 3 ||| bit p.demand 1

def encode (p : ControlPacket) : List UInt8 :=
  [version <<< 5 ||| p.diag.code, p.flags, p.detectMult, UInt8.ofNat mandatoryLen] ++ octets p.myDiscr ++
    octets p.yourDiscr ++ octets p.desiredMinTx ++ octets p.requiredMinRx ++ octets p.requiredMinEchoRx

/-- What can be checked of a packet on its own is checked. -/
def decode (buf : List UInt8) : Option ControlPacket :=
  if buf.length < mandatoryLen then none
  else if buf.getD 0 0 >>> 5 ≠ version then none
  else
    let flags := buf.getD 1 0
    let state := State.fromBits (flags >>> 6)
    let authPresent := bitAt flags 2
    let multipoint := bitAt flags 0
    let detectMult := buf.getD 2 0
    let length := (buf.getD 3 0).toNat
    let myDiscr := u32At buf 4
    let yourDiscr := u32At buf 8
    if multipoint ∨ detectMult = 0 then none
    else if length < (if authPresent then minAuthenticatedLen else mandatoryLen) ∨ buf.length < length then none
    else if myDiscr = 0 then none
    else if yourDiscr = 0 ∧ ¬ (state = .down ∨ state = .adminDown) then none
    else some
      { diag := .fromCode (buf.getD 0 0 &&& 0x1f)
        state
        poll := bitAt flags 5
        final := bitAt flags 4
        cpi := bitAt flags 3
        demand := bitAt flags 1
        detectMult
        myDiscr
        yourDiscr
        desiredMinTx := u32At buf 12
        requiredMinRx := u32At buf 16
        requiredMinEchoRx := u32At buf 20
        authPresent }

/-- What a receiver takes: a multiplier, a discriminator and, from Init on, that of the other side. -/
structure Valid (p : ControlPacket) : Prop where
  detectMult : p.detectMult ≠ 0
  myDiscr : p.myDiscr ≠ 0
  yourDiscr : p.state = .init ∨ p.state = .up → p.yourDiscr ≠ 0

@[simp] theorem length_encode (p : ControlPacket) : p.encode.length = mandatoryLen := by
  simp [encode, octets, mandatoryLen]

/-- The flags, read back, with the bit for authentication set or not. -/
theorem flags_spec (p : ControlPacket) (auth : Bool) :
    State.fromBits ((p.flags ||| bit auth 2) >>> 6) = p.state ∧ bitAt (p.flags ||| bit auth 2) 5 = p.poll ∧
      bitAt (p.flags ||| bit auth 2) 4 = p.final ∧ bitAt (p.flags ||| bit auth 2) 3 = p.cpi ∧
      bitAt (p.flags ||| bit auth 2) 2 = auth ∧ bitAt (p.flags ||| bit auth 2) 1 = p.demand ∧
      bitAt (p.flags ||| bit auth 2) 0 = false := by
  unfold flags
  cases p.state <;> cases p.poll <;> cases p.final <;> cases p.cpi <;> cases p.demand <;> cases auth <;> decide

theorem code_lt (d : Diag) : (version <<< 5 ||| d.code) >>> 5 = version ∧
    (version <<< 5 ||| d.code) &&& 0x1f = d.code := by
  have hother : ∀ c : BitVec 8, ((1#8 <<< 5 ||| (c &&& 0x1f)) >>> 5 = 1#8) ∧
      ((1#8 <<< 5 ||| (c &&& 0x1f)) &&& 0x1f = c &&& 0x1f) := by decide
  cases d with
  | other c =>
    obtain ⟨hshift, hand⟩ := hother c.toBitVec
    constructor
    · exact UInt8.toBitVec_inj.mp hshift
    · exact UInt8.toBitVec_inj.mp hand
  | _ => decide

theorem u32At_octets (x : UInt32) (post : List UInt8) : u32At (octets x ++ post) 0 = x := by
  have htake : ((octets x ++ post).drop 0).take 4 = octets x := by
    rw [List.drop_zero]
    exact List.take_left' (length_digits 4 x.toNat)
  have hlt : x.toNat < 256 ^ 4 := x.toNat_lt
  rw [u32At, htake, octets, value_digits_of_lt hlt]
  exact UInt32.ofNat_toNat

theorem u32At_append (pre post : List UInt8) {n k : ℕ} (h : pre.length = k) : u32At (pre ++ post) (k + n) = u32At post n := by
  rw [u32At, u32At, ← h, ← List.drop_drop, List.drop_left]

/-- The mandatory section with this bit for authentication and this length, in front of other octets. -/
def wire (p : ControlPacket) (auth : Bool) (len : UInt8) (post : List UInt8) : List UInt8 :=
  [version <<< 5 ||| p.diag.code, p.flags ||| bit auth 2, p.detectMult, len] ++ (octets p.myDiscr ++
    (octets p.yourDiscr ++ (octets p.desiredMinTx ++ (octets p.requiredMinRx ++ (octets p.requiredMinEchoRx ++ post)))))

theorem encode_eq_wire (p : ControlPacket) : p.encode = p.wire false (UInt8.ofNat mandatoryLen) [] := by
  simp [encode, wire, bit]

@[simp] theorem length_wire (p : ControlPacket) (auth : Bool) (len : UInt8) (post : List UInt8) :
    (p.wire auth len post).length = mandatoryLen + post.length := by
  simp only [wire, octets, mandatoryLen, List.length_append, List.length_cons, List.length_nil, length_digits]
  omega

/-- The numbers of a packet, read back. -/
theorem u32At_wire (p : ControlPacket) (auth : Bool) (len : UInt8) (post : List UInt8) :
    u32At (p.wire auth len post) 4 = p.myDiscr ∧ u32At (p.wire auth len post) 8 = p.yourDiscr ∧
      u32At (p.wire auth len post) 12 = p.desiredMinTx ∧ u32At (p.wire auth len post) 16 = p.requiredMinRx ∧
      u32At (p.wire auth len post) 20 = p.requiredMinEchoRx := by
  have hlen : ∀ x : UInt32, (octets x).length = 4 := fun x => length_digits 4 x.toNat
  unfold wire
  refine ⟨?_, ?_, ?_, ?_, ?_⟩
  · rw [u32At_append _ _ (n := 0) (k := 4) rfl, u32At_octets]
  · rw [u32At_append _ _ (n := 4) (k := 4) rfl, u32At_append _ _ (n := 0) (hlen _), u32At_octets]
  · rw [u32At_append _ _ (n := 8) (k := 4) rfl, u32At_append _ _ (n := 4) (hlen _), u32At_append _ _ (n := 0) (hlen _),
      u32At_octets]
  · rw [u32At_append _ _ (n := 12) (k := 4) rfl, u32At_append _ _ (n := 8) (hlen _), u32At_append _ _ (n := 4) (hlen _),
      u32At_append _ _ (n := 0) (hlen _), u32At_octets]
  · rw [u32At_append _ _ (n := 16) (k := 4) rfl, u32At_append _ _ (n := 12) (hlen _),
      u32At_append _ _ (n := 8) (hlen _), u32At_append _ _ (n := 4) (hlen _), u32At_append _ _ (n := 0) (hlen _),
      u32At_octets]

/-- A valid packet is taken as it was sent, up to codes of which only five bits are sent, whatever follows it within
its length. -/
theorem decode_wire {p : ControlPacket} (h : p.Valid) {auth : Bool} {len : UInt8} {post : List UInt8}
    (hmin : (if auth then minAuthenticatedLen else mandatoryLen) ≤ len.toNat)
    (hmax : len.toNat ≤ mandatoryLen + post.length) :
    decode (p.wire auth len post) = some { p with diag := .fromCode p.diag.code, authPresent := auth } := by
  obtain ⟨hmy, hyour, htx, hrx, hecho⟩ := p.u32At_wire auth len post
  obtain ⟨hstate, hpoll, hfinal, hcpi, hauth, hdemand, hmulti⟩ := p.flags_spec auth
  obtain ⟨hversion, hcode⟩ := code_lt p.diag
  have hlength : ¬ (p.wire auth len post).length < mandatoryLen := by simp
  have hfirst : (p.wire auth len post).getD 0 0 = version <<< 5 ||| p.diag.code := rfl
  have hflags : (p.wire auth len post).getD 1 0 = p.flags ||| bit auth 2 := rfl
  have hmult : (p.wire auth len post).getD 2 0 = p.detectMult := rfl
  have hstated : (p.wire auth len post).getD 3 0 = len := rfl
  have hroom : ¬ (len.toNat < (if auth then minAuthenticatedLen else mandatoryLen) ∨
      (p.wire auth len post).length < len.toNat) := by
    rw [length_wire]
    omega
  have hdiscr : ¬ (p.yourDiscr = 0 ∧ ¬ (p.state = .down ∨ p.state = .adminDown)) := by
    intro hno
    refine h.yourDiscr ?_ hno.1
    cases hs : p.state <;> simp [hs] at hno ⊢
  unfold decode
  simp only [hfirst, hflags, hmult, hstated, hversion, hcode, hstate, hpoll, hfinal, hcpi, hauth, hdemand, hmulti, hmy,
    hyour, htx, hrx, hecho, if_neg hlength, ne_eq, not_true_eq_false, if_false, Bool.false_eq_true, false_or,
    h.detectMult, h.myDiscr, if_neg hroom, if_neg hdiscr]

theorem decode_encode {p : ControlPacket} (h : p.Valid) :
    decode p.encode = some { p with diag := .fromCode p.diag.code, authPresent := false } := by
  rw [encode_eq_wire]
  exact decode_wire h (Nat.le_refl _) (Nat.le_refl _)

/-- What is taken is valid. -/
theorem valid_of_decode {buf : List UInt8} {p : ControlPacket} (h : decode buf = some p) : p.Valid := by
  simp only [decode] at h
  generalize (if bitAt (buf.getD 1 0) 2 then minAuthenticatedLen else mandatoryLen) = minLen at h
  split_ifs at h with hlen hversion hmulti hlength hmy hyour
  cases h
  have hnone : ¬ (State.init = .down ∨ State.init = .adminDown) ∧ ¬ (State.up = .down ∨ State.up = .adminDown) := by
    decide
  refine ⟨fun hzero => hmulti (.inr hzero), hmy, ?_⟩
  intro hs hzero
  refine hyour ⟨hzero, ?_⟩
  rcases hs with hs | hs
  · exact fun hdown => hnone.1 (hs ▸ hdown)
  · exact fun hdown => hnone.2 (hs ▸ hdown)

end ControlPacket
end Wren.Bfd
