import Wren.Isis.Tlv

/-! The PDUs of IS-IS and their wire format. -/

namespace Wren.Isis
open Octets

def commonHeaderLen : ℕ := 8

inductive PduType where
  | l1LanHello
  | l2LanHello
  | p2pHello
  | l1Lsp
  | l2Lsp
  | l1Csnp
  | l2Csnp
  | l1Psnp
  | l2Psnp
deriving DecidableEq

namespace PduType

def fromU8 (v : UInt8) : Option PduType :=
  if v = 15 then some l1LanHello
  else if v = 16 then some l2LanHello
  else if v = 17 then some p2pHello
  else if v = 18 then some l1Lsp
  else if v = 20 then some l2Lsp
  else if v = 24 then some l1Csnp
  else if v = 25 then some l2Csnp
  else if v = 26 then some l1Psnp
  else if v = 27 then some l2Psnp
  else none

def asU8 : PduType → UInt8
  | l1LanHello => 15
  | l2LanHello => 16
  | p2pHello => 17
  | l1Lsp => 18
  | l2Lsp => 20
  | l1Csnp => 24
  | l2Csnp => 25
  | l1Psnp => 26
  | l2Psnp => 27

theorem fromU8_asU8 (t : PduType) : fromU8 (t.asU8 &&& 0x1f) = some t := by
  cases t <;> rfl

/-- Where the TLVs begin. -/
def fixedHeaderLen : PduType → ℕ
  | l1LanHello | l2LanHello => 27
  | p2pHello => 20
  | l1Lsp | l2Lsp => 27
  | l1Csnp | l2Csnp => 33
  | l1Psnp | l2Psnp => 17

/-- Where the length of the PDU stands. -/
def lenOff : PduType → ℕ
  | l1LanHello | l2LanHello | p2pHello => 17
  | _ => commonHeaderLen

end PduType

structure LanHello where
  level : IsLevel
  circuitType : IsLevel
  sourceId : SystemId
  holdingTime : UInt16
  priority : UInt8
  lanId : SystemId × UInt8
  tlvs : List Tlv
deriving DecidableEq

structure P2pHello where
  circuitType : IsLevel
  sourceId : SystemId
  holdingTime : UInt16
  localCircuitId : UInt8
  tlvs : List Tlv
deriving DecidableEq

structure Lsp where
  level : IsLevel
  remainingLifetime : UInt16
  lspId : LspId
  sequenceNumber : UInt32
  checksum : UInt16
  partition : Bool
  attached : UInt8
  overload : Bool
  isType : IsLevel
  tlvs : List Tlv
deriving DecidableEq

structure Csnp where
  level : IsLevel
  sourceId : SystemId × UInt8
  startLspId : LspId
  endLspId : LspId
  tlvs : List Tlv
deriving DecidableEq

structure Psnp where
  level : IsLevel
  sourceId : SystemId × UInt8
  tlvs : List Tlv
deriving DecidableEq

inductive PduBody where
  | lanHello (h : LanHello)
  | p2pHello (h : P2pHello)
  | lsp (l : Lsp)
  | csnp (c : Csnp)
  | psnp (p : Psnp)
deriving DecidableEq

def PduBody.tlvs : PduBody → List Tlv
  | lanHello h => h.tlvs
  | p2pHello h => h.tlvs
  | lsp l => l.tlvs
  | csnp c => c.tlvs
  | psnp p => p.tlvs

structure Pdu where
  maxAreaAddresses : UInt8
  body : PduBody
deriving DecidableEq

inductive DecodeError where
  | tooShort
  | badDiscriminator (d : UInt8)
  | badVersion (v : UInt8)
  | badIdLength (l : UInt8)
  | unknownType (t : UInt8)
  | badLength (stated actual : ℕ)
  | badChecksum
  | badTlv
deriving DecidableEq

/-- One of two types by level. Both levels at once is not a level of a PDU and counts as Level 1. -/
def levelType (level : IsLevel) (l1 l2 : PduType) : PduType :=
  if level.hasL2 && !level.hasL1 then l2 else l1

def lspFlags (l : Lsp) : UInt8 :=
  (if l.partition then (0x80 : UInt8) else 0) ||| ((l.attached &&& 0x0f) <<< 3) ||| (if l.overload then 0x04 else 0) |||
    l.isType.isTypeBits

namespace Pdu

def pduType (p : Pdu) : PduType :=
  match p.body with
  | .lanHello h => levelType h.level .l1LanHello .l2LanHello
  | .p2pHello _ => .p2pHello
  | .lsp l => levelType l.level .l1Lsp .l2Lsp
  | .csnp c => levelType c.level .l1Csnp .l2Csnp
  | .psnp s => levelType s.level .l1Psnp .l2Psnp

def commonHeader (p : Pdu) : List UInt8 :=
  [intradomainDiscriminator, UInt8.ofNat p.pduType.fixedHeaderLen, protocolIdExtension, 0, p.pduType.asU8, version,
    0, p.maxAreaAddresses]

/-- The fixed fields of one type of PDU, with the length of the whole PDU written in. -/
def fixedFields (b : PduBody) (total : ℕ) : List UInt8 :=
  match b with
  | .lanHello h => h.circuitType.bits :: digits 6 h.sourceId.toNat ++ digits 2 h.holdingTime.toNat ++
      digits 2 total ++ (h.priority &&& 0x7f) :: digits 6 h.lanId.1.toNat ++ [h.lanId.2]
  | .p2pHello h => h.circuitType.bits :: digits 6 h.sourceId.toNat ++ digits 2 h.holdingTime.toNat ++
      digits 2 total ++ [h.localCircuitId]
  | .lsp l => digits 2 total ++ digits 2 l.remainingLifetime.toNat ++ l.lspId.encode ++
      digits 4 l.sequenceNumber.toNat ++ [0, 0] ++ [lspFlags l]
  | .csnp c => digits 2 total ++ digits 6 c.sourceId.1.toNat ++ [c.sourceId.2] ++ c.startLspId.encode ++
      c.endLspId.encode
  | .psnp s => digits 2 total ++ digits 6 s.sourceId.1.toNat ++ [s.sourceId.2]

/-- The PDU with its length, before the checksum of an LSP. -/
def octets (p : Pdu) : List UInt8 :=
  let tlvs := encodeAll p.body.tlvs
  p.commonHeader ++ fixedFields p.body (p.pduType.fixedHeaderLen + tlvs.length) ++ tlvs

/-- The checksum of an LSP covers what follows its lifetime. -/
def encode (p : Pdu) : List UInt8 :=
  match p.body with
  | .lsp _ => p.octets.take 12 ++ fletcher16 (p.octets.drop 12) 12
  | _ => p.octets

def sysId (b : List UInt8) (start : ℕ) : SystemId := BitVec.ofNat 48 (value ((b.drop start).take 6))

def u16At (b : List UInt8) (start : ℕ) : UInt16 := UInt16.ofNat (value ((b.drop start).take 2))

/-- The level of a PDU whose type comes for each level. -/
def levelOf (pt l1 : PduType) : IsLevel := if pt = l1 then .l1 else .l2

def decodeBody (buf : List UInt8) (pt : PduType) (stated : ℕ) (tlvs : List Tlv) : Except DecodeError PduBody :=
  match pt with
  | .l1LanHello | .l2LanHello => .ok (.lanHello
      { level := levelOf pt .l1LanHello, circuitType := .fromBits (buf.getD 8 0), sourceId := sysId buf 9
        holdingTime := u16At buf 15, priority := buf.getD 19 0 &&& 0x7f, lanId := (sysId buf 20, buf.getD 26 0), tlvs })
  | .p2pHello => .ok (.p2pHello
      { circuitType := .fromBits (buf.getD 8 0), sourceId := sysId buf 9, holdingTime := u16At buf 15
        localCircuitId := buf.getD 19 0, tlvs })
  | .l1Lsp | .l2Lsp =>
    let remainingLifetime := u16At buf 10
    -- a purge comes with its checksum zeroed
    if remainingLifetime ≠ 0 ∧ fletcher16Valid ((buf.take stated).drop 12) = false then .error .badChecksum
    else do
      let lspId ← (LspId.decode ((buf.drop 12).take 8)).elim (.error .tooShort) .ok
      let flags := buf.getD 26 0
      return .lsp
        { level := levelOf pt .l1Lsp, remainingLifetime, lspId
          sequenceNumber := UInt32.ofNat (value ((buf.drop 20).take 4)), checksum := u16At buf 24
          partition := flags &&& 0x80 ≠ 0, attached := (flags >>> 3) &&& 0x0f, overload := flags &&& 0x04 ≠ 0
          isType := .isTypeFromBits flags, tlvs }
  | .l1Csnp | .l2Csnp => do
    let startLspId ← (LspId.decode ((buf.drop 17).take 8)).elim (.error .tooShort) .ok
    let endLspId ← (LspId.decode ((buf.drop 25).take 8)).elim (.error .tooShort) .ok
    return .csnp { level := levelOf pt .l1Csnp, sourceId := (sysId buf 10, buf.getD 16 0), startLspId, endLspId, tlvs }
  | .l1Psnp | .l2Psnp =>
    .ok (.psnp { level := levelOf pt .l1Psnp, sourceId := (sysId buf 10, buf.getD 16 0), tlvs })

def decode (buf : List UInt8) : Except DecodeError Pdu :=
  if buf.length < commonHeaderLen then .error .tooShort
  else if buf.getD 0 0 ≠ intradomainDiscriminator then .error (.badDiscriminator (buf.getD 0 0))
  else if buf.getD 2 0 ≠ protocolIdExtension then .error (.badVersion (buf.getD 2 0))
  else if buf.getD 3 0 ≠ 0 ∧ (buf.getD 3 0).toNat ≠ systemIdLen then .error (.badIdLength (buf.getD 3 0))
  else
    match PduType.fromU8 (buf.getD 4 0 &&& 0x1f) with
    | none => .error (.unknownType (buf.getD 4 0 &&& 0x1f))
    | some pt =>
      if buf.getD 5 0 ≠ version then .error (.badVersion (buf.getD 5 0))
      else if buf.length < pt.fixedHeaderLen then .error .tooShort
      else
        let stated := (u16At buf pt.lenOff).toNat
        if stated < pt.fixedHeaderLen ∨ buf.length < stated then .error (.badLength stated buf.length)
        else
          match decodeAll ((buf.take stated).drop pt.fixedHeaderLen) with
          | none => .error .badTlv
          | some tlvs => (decodeBody buf pt stated tlvs).map fun body => ⟨buf.getD 7 0, body⟩

/-- What a PDU that is accepted was read from. -/
theorem exists_read_of_decode {buf : List UInt8} {p : Pdu} (h : decode buf = .ok p) :
    ∃ pt tlvs, PduType.fromU8 (buf.getD 4 0 &&& 0x1f) = some pt ∧ pt.fixedHeaderLen ≤ (u16At buf pt.lenOff).toNat ∧
      (u16At buf pt.lenOff).toNat ≤ buf.length ∧
      decodeAll ((buf.take (u16At buf pt.lenOff).toNat).drop pt.fixedHeaderLen) = some tlvs ∧
      decodeBody buf pt (u16At buf pt.lenOff).toNat tlvs = .ok p.body := by
  unfold decode at h
  cases hpt : PduType.fromU8 (buf.getD 4 0 &&& 0x1f) with
  | none =>
    rw [hpt] at h
    split_ifs at h
  | some pt =>
    rw [hpt] at h
    refine ⟨pt, ?_⟩
    dsimp only at h
    generalize (u16At buf pt.lenOff).toNat = stated at h ⊢
    split_ifs at h with _ _ _ _ _ _ hlen
    obtain ⟨hfixed, hall⟩ := not_or.mp hlen
    cases htlvs : decodeAll ((buf.take stated).drop pt.fixedHeaderLen) with
    | none =>
      rw [htlvs] at h
      cases h
    | some tlvs =>
      rw [htlvs] at h
      cases hbody : decodeBody buf pt stated tlvs with
      | error e =>
        simp only [hbody] at h
        cases h
      | ok body =>
        simp only [hbody] at h
        cases h
        exact ⟨tlvs, rfl, by omega, by omega, rfl, hbody⟩

theorem decodeBody_of_decode {buf : List UInt8} {p : Pdu} (h : decode buf = .ok p) :
    ∃ pt stated tlvs, PduType.fromU8 (buf.getD 4 0 &&& 0x1f) = some pt ∧ pt.fixedHeaderLen ≤ stated ∧
      stated ≤ buf.length ∧ decodeAll ((buf.take stated).drop pt.fixedHeaderLen) = some tlvs ∧
      decodeBody buf pt stated tlvs = .ok p.body := by
  obtain ⟨pt, tlvs, hread⟩ := exists_read_of_decode h
  exact ⟨pt, _, tlvs, hread⟩

/-- The part of an LSP that decides its body: what comes before its TLVs, read field by field. -/
theorem lsp_of_decodeBody {buf : List UInt8} {pt : PduType} {n : ℕ} {ts : List Tlv} {l : Lsp}
    (h : decodeBody buf pt n ts = .ok (.lsp l)) :
    (pt = .l1Lsp ∨ pt = .l2Lsp) ∧ ¬ (u16At buf 10 ≠ 0 ∧ fletcher16Valid ((buf.take n).drop 12) = false) ∧
      ∃ i, LspId.decode ((buf.drop 12).take 8) = some i ∧
      l = { level := levelOf pt .l1Lsp, remainingLifetime := u16At buf 10, lspId := i
            sequenceNumber := UInt32.ofNat (value ((buf.drop 20).take 4)), checksum := u16At buf 24
            partition := buf.getD 26 0 &&& 0x80 ≠ 0, attached := (buf.getD 26 0 >>> 3) &&& 0x0f
            overload := buf.getD 26 0 &&& 0x04 ≠ 0, isType := .isTypeFromBits (buf.getD 26 0), tlvs := ts } := by
  cases pt
  case l1Lsp | l2Lsp =>
    simp only [decodeBody] at h
    split_ifs at h with hcheck
    refine ⟨by decide, hcheck, ?_⟩
    cases hi : LspId.decode ((buf.drop 12).take 8) with
    | none =>
      rw [hi] at h
      cases h
    | some i =>
      rw [hi] at h
      cases h
      exact ⟨i, rfl, rfl⟩
  case l1Csnp | l2Csnp =>
    exfalso
    simp only [decodeBody] at h
    cases h1 : LspId.decode ((buf.drop 17).take 8) with
    | none =>
      rw [h1] at h
      cases h
    | some first =>
      cases h2 : LspId.decode ((buf.drop 25).take 8) with
      | none =>
        rw [h1, h2] at h
        cases h
      | some last =>
        rw [h1, h2] at h
        cases h
  all_goals cases h

end Pdu
end Wren.Isis
