import Wren.Babel.Packet

/-! Updates that leave out octets of their prefix. A packet says the same where they are written out, and reading one
indexes nothing out of bounds. -/

namespace Wren.Babel
open Wren.Core Octets

/-! ### Slices that are bounds-checked -/

/-- A slice or an index was out of bounds. -/
inductive Fault where
  | outOfBounds
deriving DecidableEq

/-- The octets of a buffer from `start` up to `stop`. -/
def slice (buf : List UInt8) (start stop : ℕ) : Except Fault (List UInt8) :=
  if start ≤ stop ∧ stop ≤ buf.length then .ok ((buf.drop start).take (stop - start)) else .error .outOfBounds

/-- Overwrite the octets from `start` up to `stop`, which must be as many as are copied. -/
def copyFromSlice (dst : List UInt8) (start stop : ℕ) (src : List UInt8) : Except Fault (List UInt8) :=
  if start ≤ stop ∧ stop ≤ dst.length ∧ src.length = stop - start then .ok (dst.take start ++ src ++ dst.drop stop)
  else .error .outOfBounds

def octetAt (buf : List UInt8) (i : ℕ) : Except Fault UInt8 :=
  match buf[i]? with
  | some b => .ok b
  | none => .error .outOfBounds

theorem slice_eq_ok {buf : List UInt8} {start stop : ℕ} (h : start ≤ stop ∧ stop ≤ buf.length) :
    slice buf start stop = .ok ((buf.drop start).take (stop - start)) := if_pos h

theorem octetAt_eq_ok {buf : List UInt8} {i : ℕ} {b : UInt8} (h : buf[i]? = some b) : octetAt buf i = .ok b := by
  rw [octetAt, h]

/-- The width of the addresses with an encoding. -/
def maxBits? (ae : UInt8) : Option ℕ := if ae = aeIpv4 then some 32 else if ae = aeIpv6 then some 128 else none

/-- Put an address together in a buffer of 16 octets. There are too few default octets where nothing comes of it. -/
def assemble (deflt : List UInt8) (omitted present : ℕ) (buf : List UInt8) : Except Fault (Option (List UInt8)) :=
  if deflt.length < min omitted 16 then .ok none
  else do
    let addr := deflt.take (min omitted 16) ++ List.replicate (16 - min omitted 16) 0
    let src ← slice buf 0 present
    let addr ← copyFromSlice addr omitted (omitted + present) src
    return some addr

def addressOf (ae : UInt8) (addr : List UInt8) : Except Fault IpAddr :=
  if ae = aeIpv4 then (slice addr 0 4).map fun b => .v4 (BitVec.ofNat 32 (value b))
  else .ok (.v6 (BitVec.ofNat 128 (value addr)))

def readPrefixIndexed (ae plen omitted : UInt8) (buf : List UInt8) (ctx : Compress) :
    Except Fault (Option (Prefix × ℕ)) :=
  match maxBits? ae with
  | none => .ok none
  | some maxBits =>
    let total := (plen.toNat + 7) / 8
    let present := total - omitted.toNat
    if maxBits < plen.toNat then .ok none
    else if total < omitted.toNat then .ok none
    else if buf.length < present then .ok none
    else do
      match ← assemble (ctx.defaultFor ae) omitted.toNat present buf with
      | none => return none
      | some addr =>
        let ip ← addressOf ae addr
        return (Prefix.new ip plen).toOption.map fun p => (p, present)

/-- The buffer has room for the address, and all of it is written. -/
theorem assemble_eq {deflt buf : List UInt8} {omitted present : ℕ} (htotal : omitted + present ≤ 16)
    (hbuf : present ≤ buf.length) : assemble deflt omitted present buf =
      .ok (if deflt.length < omitted then none
        else some (deflt.take omitted ++ buf.take present ++ List.replicate (16 - (omitted + present)) 0)) := by
  have hmin : min omitted 16 = omitted := by omega
  unfold assemble
  rw [hmin]
  split_ifs with hdeflt
  · rfl
  · have htake : (deflt.take omitted).length = omitted := by
      rw [List.length_take]
      omega
    have hsrc : slice buf 0 present = .ok (buf.take present) := by
      rw [slice_eq_ok ⟨Nat.zero_le _, hbuf⟩, List.drop_zero, Nat.sub_zero]
    have hsrcLen : (buf.take present).length = present := by
      rw [List.length_take]
      omega
    have hlen : (deflt.take omitted ++ List.replicate (16 - omitted) (0 : UInt8)).length = 16 := by
      rw [List.length_append, htake, List.length_replicate]
      omega
    have hdrop : (deflt.take omitted ++ List.replicate (16 - omitted) (0 : UInt8)).drop (omitted + present) =
        List.replicate (16 - (omitted + present)) 0 := by
      rw [List.drop_append, htake, List.drop_of_length_le (by omega), List.nil_append, List.drop_replicate]
      congr 1
      omega
    have hcopy : copyFromSlice (deflt.take omitted ++ List.replicate (16 - omitted) 0) omitted (omitted + present)
        (buf.take present) = .ok (deflt.take omitted ++ buf.take present ++ List.replicate (16 - (omitted + present)) 0) := by
      rw [copyFromSlice, if_pos ⟨Nat.le_add_right _ _, by omega, by omega⟩, List.take_left' htake, hdrop]
    rw [hsrc]
    simp only [bind, Except.bind, hcopy]
    rfl

/-- The address that its octets spell, of which IPv4 has the first four. -/
def spelled (ae : UInt8) (addr : List UInt8) : IpAddr :=
  if ae = aeIpv4 then .v4 (BitVec.ofNat 32 (value (addr.take 4))) else .v6 (BitVec.ofNat 128 (value addr))

theorem addressOf_eq (ae : UInt8) {addr : List UInt8} (h : addr.length = 16) : addressOf ae addr = .ok (spelled ae addr) := by
  have hfour : slice addr 0 4 = .ok (addr.take 4) := by
    rw [slice_eq_ok ⟨Nat.zero_le _, by omega⟩, List.drop_zero, Nat.sub_zero]
  unfold addressOf spelled
  split_ifs
  · rw [hfour]
    rfl
  · rfl

theorem length_defaultFor (ctx : Compress) (ae : UInt8) : (ctx.defaultFor ae).length = if ae = aeIpv4 then 4 else 16 := by
  unfold Compress.defaultFor
  split_ifs <;> exact length_digits _ _

/-- The checks one after the other. -/
theorem readPrefix_eq (ae plen omitted : UInt8) (buf : List UInt8) (ctx : Compress) :
    readPrefix ae plen omitted buf ctx =
      (maxBits? ae).bind fun maxBits =>
        if maxBits < plen.toNat then none
        else if (plen.toNat + 7) / 8 < omitted.toNat then none
        else if buf.length < (plen.toNat + 7) / 8 - omitted.toNat then none
        else if (ctx.defaultFor ae).length < omitted.toNat then none
        else (Prefix.new (spelled ae ((ctx.defaultFor ae).take omitted.toNat ++
          buf.take ((plen.toNat + 7) / 8 - omitted.toNat) ++ List.replicate (16 - (plen.toNat + 7) / 8) 0)) plen).toOption.map
            fun p => (p, (plen.toNat + 7) / 8 - omitted.toNat) := by
  have hguard : ∀ (p : Prop) [Decidable p] (x : Option (Prefix × ℕ)), (do guard p; x) = if p then x else none := by
    intro p _ x
    by_cases hp : p
    · rw [if_pos hp]
      simp [hp]
    · rw [if_neg hp]
      simp [hp]
  have hmap : ∀ (o : Option Prefix) (n : ℕ), (do let p ← o; some (p, n)) = o.map fun p => (p, n) := by
    intro o n
    cases o <;> rfl
  by_cases hae4 : ae = aeIpv4
  · simp only [readPrefix, maxBits?, spelled, hae4, if_true, hguard, hmap, Option.bind_some, ← Nat.not_le, ite_not,
      Option.bind_eq_bind]
  by_cases hae6 : ae = aeIpv6
  · have hne : aeIpv6 ≠ aeIpv4 := by decide
    simp only [readPrefix, maxBits?, spelled, hae6, hne, if_true, if_false, hguard, hmap, Option.bind_some, ← Nat.not_le,
      ite_not, Option.bind_eq_bind]
  · simp only [readPrefix, maxBits?, hae4, hae6, if_false, Option.bind_eq_bind, Option.bind_none]

/-- Whatever the octets of the record are, nothing is out of bounds. -/
theorem readPrefixIndexed_eq (ae plen omitted : UInt8) (buf : List UInt8) (ctx : Compress) :
    readPrefixIndexed ae plen omitted buf ctx = .ok (readPrefix ae plen omitted buf ctx) := by
  rw [readPrefix_eq, readPrefixIndexed]
  cases hbits : maxBits? ae with
  | none => rfl
  | some maxBits =>
    have hmax : maxBits ≤ 128 := by
      unfold maxBits? at hbits
      split_ifs at hbits <;> cases hbits <;> omega
    simp only [Option.bind_some]
    split_ifs with hplen homitted hbuf hdeflt
    · rfl
    · rfl
    · rfl
    · rw [assemble_eq (by omega) (by omega), if_pos hdeflt]
      rfl
    · have hsum : omitted.toNat + ((plen.toNat + 7) / 8 - omitted.toNat) = (plen.toNat + 7) / 8 := by omega
      rw [assemble_eq (by omega) (by omega), if_neg hdeflt, hsum]
      simp only [bind, Except.bind]
      rw [addressOf_eq]
      · rfl
      · simp only [List.length_append, List.length_take, List.length_replicate]
        omega

/-! ### Records and packets -/

/-- An optional value, of which nothing is out of bounds. -/
def checked {α : Type} (o : Option α) : OptionT (Except Fault) α := OptionT.mk (pure o)

theorem checked_bind {α β : Type} (o : Option α) (f : α → Option β) :
    checked (o >>= f) = checked o >>= fun a => checked (f a) := by
  cases o <;> rfl

/-- The records that have a prefix in them read it by index, and the others look up every octet. -/
def Tlv.decodeIndexed (type : UInt8) (body : List UInt8) (ctx : Compress) : OptionT (Except Fault) (Tlv × Compress) :=
  if type = typeUpdate then do
    let ae ← checked body[0]?
    let flags ← checked body[1]?
    let plen ← checked body[2]?
    let omitted ← checked body[3]?
    let interval ← checked (be16 body 4)
    let seqno ← checked (be16 body 6)
    let metric ← checked (be16 body 8)
    let rest ← checked (from? body 10)
    let (p, _) ← OptionT.mk (readPrefixIndexed ae plen omitted rest ctx)
    let ctx := if flags &&& updateFlagDefaultPrefix ≠ 0 then ctx.setDefault p else ctx
    checked (some (update flags interval seqno metric p, ctx))
  else if type = typeRouteRequest then do
    let ae ← checked body[0]?
    let plen ← checked body[1]?
    if ae = aeWildcard then checked (some (routeRequest none, ctx))
    else do
      let rest ← checked (from? body 2)
      let (p, _) ← OptionT.mk (readPrefixIndexed ae plen 0 rest ctx)
      checked (some (routeRequest (some p), ctx))
  else if type = typeSeqnoRequest then do
    let ae ← checked body[0]?
    let plen ← checked body[1]?
    let seqno ← checked (be16 body 2)
    let hopCount ← checked body[4]?
    let id ← checked (octets8 body 6)
    let rest ← checked (from? body 14)
    let (p, _) ← OptionT.mk (readPrefixIndexed ae plen 0 rest ctx)
    checked (some (seqnoRequest seqno hopCount id p, ctx))
  else checked (decode type body ctx)

theorem Tlv.decodeIndexed_eq (type : UInt8) (body : List UInt8) (ctx : Compress) :
    decodeIndexed type body ctx = checked (decode type body ctx) := by
  have hread : ∀ ae plen omitted rest, OptionT.mk (readPrefixIndexed ae plen omitted rest ctx) =
      checked (readPrefix ae plen omitted rest ctx) := by
    intro ae plen omitted rest
    rw [readPrefixIndexed_eq]
    rfl
  unfold decodeIndexed
  simp only [hread]
  split_ifs with hupdate hroute hseqno
  · simp +decide only [decode, hupdate, if_true, if_false, checked_bind]
  · simp +decide only [decode, hroute, if_true, if_false, checked_bind, apply_ite checked]
  · simp +decide only [decode, hseqno, if_true, if_false, checked_bind]
  · rfl

namespace Packet

/-- What a record is taken for, and the default prefixes after it. -/
def record (t : UInt8) (body : List UInt8) (ctx : Compress) : Tlv × Compress :=
  (Tlv.decode t body ctx).getD (.unknown t body, ctx)

/-- The loop over the body, from the octet at `i` on. -/
def decodeLoop (body : List UInt8) (i : ℕ) (ctx : Compress) (tlvs : List Tlv) :
    Except Fault (Except DecodeError (List Tlv)) :=
  if i < body.length then do
    let t ← octetAt body i
    if t = Tlv.typePad1 then decodeLoop body (i + 1) ctx (tlvs ++ [.pad1])
    else if body.length < i + 2 then return .error .malformed
    else do
      let len ← octetAt body (i + 1)
      if body.length < i + 2 + len.toNat then return .error .malformed
      else do
        let octets ← slice body (i + 2) (i + 2 + len.toNat)
        let decoded ← (Tlv.decodeIndexed t octets ctx).run
        let (tlv, ctx) := decoded.getD (.unknown t octets, ctx)
        decodeLoop body (i + 2 + len.toNat) ctx (tlvs ++ [tlv])
  else return .ok tlvs
termination_by body.length - i
decreasing_by all_goals omega

def decodeIndexed (buf : List UInt8) : Except Fault (Except DecodeError Packet) :=
  if buf.length < headerLen then return .error .tooShort
  else do
    let m ← octetAt buf 0
    let v ← octetAt buf 1
    if m ≠ magic then return .error (.badMagic m)
    else if v ≠ version then return .error (.badVersion v)
    else do
      let l₁ ← octetAt buf 2
      let l₀ ← octetAt buf 3
      let bodyLen := value [l₁, l₀]
      if headerLen + bodyLen > buf.length then return .error .badBodyLength
      else do
        let body ← slice buf headerLen (headerLen + bodyLen)
        let decoded ← decodeLoop body 0 {} []
        return decoded.map Packet.mk

section Body
variable (ctx : Compress) {t : UInt8}

theorem decodeBody_pad1 (rest : List UInt8) :
    decodeBody ctx (Tlv.typePad1 :: rest) = (decodeBody ctx rest).map (.pad1 :: ·) := by
  rw [decodeBody.eq_def]
  rfl

theorem decodeBody_short (ht : t ≠ Tlv.typePad1) : decodeBody ctx [t] = .error .malformed := by
  rw [decodeBody.eq_def]
  simp only [if_neg ht]

theorem decodeBody_truncated (ht : t ≠ Tlv.typePad1) {len : UInt8} {rest : List UInt8} (h : rest.length < len.toNat) :
    decodeBody ctx (t :: len :: rest) = .error .malformed := by
  rw [decodeBody.eq_def]
  simp only [if_neg ht, if_neg (Nat.not_le.mpr h)]

theorem decodeBody_record (ht : t ≠ Tlv.typePad1) {len : UInt8} {body : List UInt8} (h : body.length = len.toNat)
    (rest : List UInt8) : decodeBody ctx (t :: len :: (body ++ rest)) =
      (decodeBody (record t body ctx).2 rest).map ((record t body ctx).1 :: ·) := by
  have hle : len.toNat ≤ (body ++ rest).length := by
    rw [List.length_append]
    omega
  rw [decodeBody.eq_def]
  simp only [if_neg ht, if_pos hle, List.take_left' h, List.drop_left' h]
  rfl

end Body

/-- The loop is the recursion on what is left of the body, and never leaves the body. -/
theorem decodeLoop_eq (body : List UInt8) (i : ℕ) (ctx : Compress) (tlvs : List Tlv) :
    decodeLoop body i ctx tlvs = .ok ((decodeBody ctx (body.drop i)).map (tlvs ++ ·)) := by
  induction hn : body.length - i using Nat.strong_induction_on generalizing i ctx tlvs with
  | _ n ih =>
    have hagain : ∀ (j : ℕ) (ctx' : Compress) (tlv : Tlv), i < j → i < body.length →
        decodeLoop body j ctx' (tlvs ++ [tlv]) =
          .ok (((decodeBody ctx' (body.drop j)).map (tlv :: ·)).map (tlvs ++ ·)) := by
      intro j ctx' tlv hj hi
      rw [ih (body.length - j) (by omega) j ctx' (tlvs ++ [tlv]) rfl]
      cases decodeBody ctx' (body.drop j) with
      | error e => rfl
      | ok later => simp [Except.map]
    rw [decodeLoop]
    by_cases hi : i < body.length
    · have hcons : body.drop i = body[i] :: body.drop (i + 1) := List.drop_eq_getElem_cons hi
      have hfirst : octetAt body i = .ok body[i] := octetAt_eq_ok (List.getElem?_eq_getElem hi)
      rw [if_pos hi, hcons]
      simp only [hfirst, bind, Except.bind]
      generalize body[i] = t
      by_cases ht : t = Tlv.typePad1
      · rw [if_pos ht, ht, decodeBody_pad1]
        exact hagain (i + 1) ctx .pad1 (by omega) hi
      · rw [if_neg ht]
        by_cases hshort : body.length < i + 2
        · have hnil : body.drop (i + 1) = [] := List.drop_of_length_le (by omega)
          rw [if_pos hshort, hnil, decodeBody_short ctx ht]
          rfl
        · have hcons' : body.drop (i + 1) = body[i + 1] :: body.drop (i + 2) := List.drop_eq_getElem_cons (by omega)
          have hsecond : octetAt body (i + 1) = .ok body[i + 1] := octetAt_eq_ok (List.getElem?_eq_getElem (by omega))
          rw [if_neg hshort, hcons']
          simp only [hsecond]
          generalize body[i + 1] = len
          by_cases hlong : body.length < i + 2 + len.toNat
          · have hless : (body.drop (i + 2)).length < len.toNat := by
              rw [List.length_drop]
              omega
            rw [if_pos hlong, decodeBody_truncated ctx ht hless]
            rfl
          · have hslice : slice body (i + 2) (i + 2 + len.toNat) = .ok ((body.drop (i + 2)).take len.toNat) := by
              rw [slice_eq_ok ⟨by omega, by omega⟩, Nat.add_sub_cancel_left]
            have htake : ((body.drop (i + 2)).take len.toNat).length = len.toNat := by
              rw [List.length_take, List.length_drop]
              omega
            have hsplit : body.drop (i + 2) = (body.drop (i + 2)).take len.toNat ++ body.drop (i + 2 + len.toNat) := by
              have hdrop : body.drop (i + 2 + len.toNat) = (body.drop (i + 2)).drop len.toNat := List.drop_drop.symm
              rw [hdrop, List.take_append_drop]
            rw [if_neg hlong, hsplit, decodeBody_record ctx ht htake]
            simp only [hslice, Tlv.decodeIndexed_eq, checked, OptionT.run_mk, pure, Except.pure]
            exact hagain (i + 2 + len.toNat) _ _ (by omega) hi
    · have hnil : body.drop i = [] := List.drop_of_length_le (by omega)
      rw [if_neg hi, hnil, decodeBody]
      simp [Except.map, pure, Except.pure]

theorem decodeIndexed_eq (buf : List UInt8) : decodeIndexed buf = .ok (decode buf) := by
  match buf with
  | [] => rfl
  | [_] => rfl
  | [_, _] => rfl
  | [_, _, _] => rfl
  | m :: v :: l₁ :: l₀ :: rest =>
    have hlen : ¬ (m :: v :: l₁ :: l₀ :: rest).length < headerLen := by
      simp only [List.length_cons, headerLen]
      omega
    have hm : octetAt (m :: v :: l₁ :: l₀ :: rest) 0 = .ok m := rfl
    have hv : octetAt (m :: v :: l₁ :: l₀ :: rest) 1 = .ok v := rfl
    have hl₁ : octetAt (m :: v :: l₁ :: l₀ :: rest) 2 = .ok l₁ := rfl
    have hl₀ : octetAt (m :: v :: l₁ :: l₀ :: rest) 3 = .ok l₀ := rfl
    unfold decodeIndexed
    rw [if_neg hlen]
    simp only [hm, hv, hl₁, hl₀, bind, Except.bind, decode]
    split_ifs with hmagic hversion hlong
    · rfl
    · rfl
    · rfl
    · have hslice : slice (m :: v :: l₁ :: l₀ :: rest) headerLen (headerLen + value [l₁, l₀]) =
          .ok (rest.take (value [l₁, l₀])) := by
        rw [slice_eq_ok ⟨Nat.le_add_right _ _, Nat.not_lt.mp hlong⟩, Nat.add_sub_cancel_left]
        rfl
      have hid : ∀ r : Except DecodeError (List Tlv), r.map ([] ++ ·) = r := by
        intro r
        cases r <;> rfl
      simp only [hslice, decodeLoop_eq, List.drop_zero, hid]
      cases decodeBody {} (rest.take (value [l₁, l₀])) <;> rfl

/-! ### Writing the octets out -/

/-- The octets of a record. An Update that leaves out octets of its prefix is the one with all of them. -/
def expandRecord (ctx : Compress) (t len : UInt8) (body : List UInt8) : List UInt8 :=
  match Tlv.decode t body ctx with
  | some (.update flags interval seqno metric p, _) =>
    if 0 < body.getD 3 0 then (Tlv.update flags interval seqno metric p).encode else t :: len :: body
  | _ => t :: len :: body

def expandBody (ctx : Compress) : List UInt8 → List UInt8
  | [] => []
  | t :: rest =>
    if t = Tlv.typePad1 then t :: expandBody ctx rest
    else
      match rest with
      | [] => [t]
      | len :: rest =>
        if len.toNat ≤ rest.length then
          let body := rest.take len.toNat
          expandRecord ctx t len body ++ expandBody (record t body ctx).2 (rest.drop len.toNat)
        else t :: len :: rest
termination_by body => body.length
decreasing_by all_goals simp only [List.length_cons, List.length_drop]; omega

/-- The default prefixes after a record are told by what it is taken for. -/
theorem decode_setsDefault {t : UInt8} {body : List UInt8} {ctx : Compress} {r : Tlv × Compress}
    (h : Tlv.decode t body ctx = some r) : r.2 = r.1.setsDefault ctx := by
  have hbind : ∀ {α : Type} (o : Option α) (f : α → Option (Tlv × Compress)),
      (∀ a, f a = some r → r.2 = r.1.setsDefault ctx) → o >>= f = some r → r.2 = r.1.setsDefault ctx := by
    intro α o f hf ho
    obtain ⟨a, -, ha⟩ := Option.bind_eq_some_iff.mp ho
    exact hf a ha
  have hite : ∀ (c : Prop) [Decidable c] (x y : Option (Tlv × Compress)), (x = some r → r.2 = r.1.setsDefault ctx) →
      (y = some r → r.2 = r.1.setsDefault ctx) → (if c then x else y) = some r → r.2 = r.1.setsDefault ctx := by
    intro c _ x y hx hy
    by_cases hc : c
    · rwa [if_pos hc]
    · rwa [if_neg hc]
  revert h
  unfold Tlv.decode
  repeat' first
    | refine hite _ _ _ ?_ ?_
    | refine hbind _ _ ?_; intro _
  all_goals intro h
  all_goals cases h
  all_goals rfl

/-- The record without gaps is taken for the same. -/
theorem decodeBody_expandRecord (ctx : Compress) {t len : UInt8} {body : List UInt8} (ht : t ≠ Tlv.typePad1)
    (h : body.length = len.toNat) (rest : List UInt8) : decodeBody ctx (expandRecord ctx t len body ++ rest) =
      (decodeBody (record t body ctx).2 rest).map ((record t body ctx).1 :: ·) := by
  have hplain : decodeBody ctx (t :: len :: body ++ rest) =
      (decodeBody (record t body ctx).2 rest).map ((record t body ctx).1 :: ·) := decodeBody_record ctx ht h rest
  unfold expandRecord
  split
  next flags interval seqno metric p ctx' hdecode =>
    split_ifs with homitted
    · have hctx := decode_setsDefault hdecode
      have hrecord : record t body ctx = (.update flags interval seqno metric p, ctx') := by
        rw [record, hdecode, Option.getD_some]
      have hbounded : (Tlv.update flags interval seqno metric p).Bounded := trivial
      rw [decodeBody_encode_append hbounded ctx rest, hrecord, hctx]
      rfl
    · exact hplain
  · exact hplain

/-- Writing out all octets changes nothing that is read, be the body well formed or not. -/
theorem decodeBody_expandBody (ctx : Compress) (buf : List UInt8) :
    decodeBody ctx (expandBody ctx buf) = decodeBody ctx buf := by
  induction hn : buf.length using Nat.strong_induction_on generalizing ctx buf with
  | _ n ih =>
    match buf with
    | [] => rw [expandBody]
    | t :: rest =>
      rw [expandBody.eq_def]
      dsimp only
      by_cases ht : t = Tlv.typePad1
      · have hlater := ih rest.length (by rw [← hn, List.length_cons]; omega) ctx rest rfl
        rw [if_pos ht, ht, decodeBody_pad1, decodeBody_pad1, hlater]
      · rw [if_neg ht]
        match rest with
        | [] => rfl
        | len :: rest =>
          dsimp only
          by_cases hlen : len.toNat ≤ rest.length
          · have htake : (rest.take len.toNat).length = len.toNat := by
              rw [List.length_take]
              omega
            have hlater := ih (rest.drop len.toNat).length
              (by rw [← hn, List.length_drop, List.length_cons, List.length_cons]; omega)
              (record t (rest.take len.toNat) ctx).2 (rest.drop len.toNat) rfl
            have hplain := decodeBody_record ctx ht htake (rest.drop len.toNat)
            rw [List.take_append_drop] at hplain
            rw [if_pos hlen, decodeBody_expandRecord ctx ht htake, hlater, hplain]
          · rw [if_neg hlen]

/-- The body of a packet. -/
def bodyOf (buf : List UInt8) : List UInt8 := (buf.drop headerLen).take (value ((buf.drop 2).take 2))

/-- A body with its header. -/
def frame (body : List UInt8) : List UInt8 := [magic, version] ++ digits 2 body.length ++ body

theorem decode_eq_ok {buf : List UInt8} {p : Packet} (h : decode buf = .ok p) : decodeBody {} (bodyOf buf) = .ok p.body := by
  unfold decode at h
  split at h
  next m v l₁ l₀ rest =>
    split_ifs at h
    dsimp only at h
    split_ifs at h
    have hbody : bodyOf (m :: v :: l₁ :: l₀ :: rest) = rest.take (value [l₁, l₀]) := rfl
    rw [hbody]
    cases hdecode : decodeBody {} (rest.take (value [l₁, l₀])) with
    | error e =>
      rw [hdecode] at h
      cases h
    | ok tlvs =>
      rw [hdecode] at h
      cases h
      rfl
  · cases h

theorem decode_frame {body : List UInt8} {tlvs : List Tlv} (hlen : body.length ≤ 65535)
    (h : decodeBody {} body = .ok tlvs) : decode (frame body) = .ok ⟨tlvs⟩ := by
  have hval : value [UInt8.ofNat (body.length / 256), UInt8.ofNat body.length] = body.length :=
    value_digits_of_lt (n := 2) (by omega)
  have hle : ¬ headerLen + body.length > body.length + 1 + 1 + 1 + 1 := by
    rw [headerLen]
    omega
  have hshape : frame body = magic :: version :: UInt8.ofNat (body.length / 256) :: UInt8.ofNat body.length :: body := rfl
  rw [hshape]
  simp only [decode, ne_eq, not_true_eq_false, if_false, hval, List.length_cons, if_neg hle, List.take_length, h]
  rfl

/-- Reading a packet indexes nothing out of bounds, whatever its octets are. Where the octets left out of the prefixes
of an accepted body are written out, it says the same, and so does its packet where there is one, which is where the
length of the body has room in the header. -/
theorem decode_expanded (buf : List UInt8) : decodeIndexed buf = .ok (decode buf) ∧
    ∀ p, decode buf = .ok p → decodeBody {} (expandBody {} (bodyOf buf)) = .ok p.body ∧
      ((expandBody {} (bodyOf buf)).length ≤ 65535 → decode (frame (expandBody {} (bodyOf buf))) = .ok p) := by
  refine ⟨decodeIndexed_eq buf, ?_⟩
  intro p hp
  have hbody : decodeBody {} (expandBody {} (bodyOf buf)) = .ok p.body := by
    rw [decodeBody_expandBody]
    exact decode_eq_ok hp
  exact ⟨hbody, fun hlen => decode_frame hlen hbody⟩

/-- 10.1.0.0/16 sets the default prefix, and 10.1.2.0/24 leaves out the two octets that it shares with it. -/
def compressedPacket : List UInt8 :=
  [42, 2, 0, 27, 8, 12, 1, 0x80, 16, 0, 1, 0x90, 0, 1, 0, 0, 10, 1, 8, 11, 1, 0, 24, 2, 1, 0x90, 0, 2, 0, 110, 2]

/-- The same with all octets. -/
theorem decode_expanded_compressedPacket : decode (frame (expandBody {} (bodyOf compressedPacket))) =
    .ok ⟨[.update 0x80 400 1 0 ⟨.v4 0x0a010000, 16, by decide, by decide⟩,
      .update 0 400 2 110 ⟨.v4 0x0a010200, 24, by decide, by decide⟩]⟩ :=
  ((decode_expanded compressedPacket).2 _ (by decide +kernel)).2 (by decide +kernel)

end Packet

end Wren.Babel
