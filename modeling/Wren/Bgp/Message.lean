import Wren.Bgp.AttrCodec

/-! BGP messages: the common header and the five message types. -/

namespace Wren.Bgp
open Wren.Core Octets

def headerLen : ℕ := 19
def maxMessageLen : ℕ := 4096
def marker : List UInt8 := List.replicate 16 0xff
def version : UInt8 := 4

inductive MessageType where
  | openMessage
  | update
  | notification
  | keepalive
  | routeRefresh
deriving DecidableEq

namespace MessageType

def fromU8 (v : UInt8) : Option MessageType :=
  if v = 1 then some openMessage
  else if v = 2 then some update
  else if v = 3 then some notification
  else if v = 4 then some keepalive
  else if v = 5 then some routeRefresh
  else none

def asU8 : MessageType → UInt8
  | openMessage => 1
  | update => 2
  | notification => 3
  | keepalive => 4
  | routeRefresh => 5

end MessageType

/-- The capabilities are kept as the octets of the Optional Parameters. -/
structure Open where
  version : UInt8
  myAs : UInt16
  holdTime : UInt16
  identifier : Ipv4Addr
  parameters : List UInt8
deriving DecidableEq

/-- The families whose routes carry path identifiers. -/
structure AddPath where
  ipv4Unicast : Bool
deriving DecidableEq

structure Notification where
  code : UInt8
  subcode : UInt8
  data : List UInt8
deriving DecidableEq

inductive Message where
  | openMessage (o : Open)
  | update (u : Update)
  | notification (n : Notification)
  | keepalive
  | routeRefresh (afi : UInt16) (safi : UInt8)
deriving DecidableEq

inductive DecodeError where
  | tooShort
  | badMarker
  | badLength (stated : UInt16) (actual : ℕ)
  | badType (t : UInt8)
  | badVersion (v : UInt8)
  | malformed
deriving DecidableEq

namespace Update

/-- The family whose initial routes this UPDATE says are complete. -/
def endOfRib (u : Update) : Option (UInt16 × UInt8) :=
  if u.withdrawn ≠ [] ∨ u.nlri ≠ [] then none
  else
    match u.attributes with
    | [] => some (afiIpv4, safiUnicast)
    | [.mpUnreachNlri afi safi []] => some (afi, safi)
    | [.mpUnreachFamily .evpn _ []] => some (afiL2vpn, safiEvpn)
    | [.mpUnreachFamily .flowSpec afi []] => some (afi, safiFlowSpec)
    | _ => none

end Update

/-- Networks one after the other. With ADD-PATH each has its identifier before it, 0 where the list of
identifiers is too short. -/
def encodeRoutes (ap : Bool) : List Prefix → List UInt32 → List UInt8
  | [], _ => []
  | p :: ps, ids =>
    (if ap then u32Octets (ids.headD 0) else []) ++ encodePrefix p ++ encodeRoutes ap ps ids.tail

def encodeUpdate (four : Bool) (addPath : AddPath) (u : Update) : List UInt8 :=
  let ap := addPath.ipv4Unicast
  let withdrawn := encodeRoutes ap u.withdrawn u.withdrawnPathIds
  let attrs := u.attributes.flatMap (PathAttribute.encode four)
  digits 2 withdrawn.length ++ withdrawn ++ digits 2 attrs.length ++ attrs ++
    encodeRoutes ap u.nlri u.nlriPathIds

/-- A path identifier and the network it stands before. -/
def decodeIdentified (buf : List UInt8) : Option ((UInt32 × Prefix) × ℕ) :=
  if buf.length < 4 then none
  else (decodePrefix (buf.drop 4)).map fun (p, used) => ((u32OfOctets (buf.take 4), p), 4 + used)

def decodePrefixes (ap : Bool) (buf : List UInt8) : Except DecodeError (List Prefix × List UInt32) :=
  if ap then
    match readAll decodeIdentified buf with
    | some routes => .ok (routes.map Prod.snd, routes.map Prod.fst)
    | none => .error .malformed
  else
    match readAll decodePrefix buf with
    | some routes => .ok (routes, [])
    | none => .error .malformed

/-- A malformed attribute and a repeated one are the same error. A discarded attribute counts as seen. -/
def decodeAttributes (fmt : FamilyFormats) (four : Bool) (buf : List UInt8) :
    Except DecodeError (List PathAttribute) :=
  match readAll (PathAttribute.decode fmt four) buf with
  | none => .error .malformed
  | some outcomes =>
    if (outcomes.map AttrOutcome.typeCode).Nodup then
      .ok (outcomes.filterMap fun
        | .keep a => some a
        | .discard _ => none)
    else .error .malformed

def advertisesMultiprotocol (attrs : List PathAttribute) : Bool :=
  attrs.any fun
    | .mpReachNlri .. | .mpReachFamily .. => true
    | _ => false

/-- ORIGIN, AS_PATH and, for IPv4 routes, NEXT_HOP. -/
def mandatoryAttributesPresent (attrs : List PathAttribute) (hasIpv4Nlri : Bool) : Bool :=
  if !hasIpv4Nlri && !advertisesMultiprotocol attrs then true
  else
    attrs.any (fun | .origin _ => true | _ => false) && attrs.any (fun | .asPath _ => true | _ => false) &&
      (!hasIpv4Nlri || attrs.any (fun | .nextHop _ => true | _ => false))

/-! The three sections of an UPDATE body. -/

def withdrawnLen (body : List UInt8) : ℕ := value (body.take 2)

def withdrawnOctets (body : List UInt8) : List UInt8 := (body.drop 2).take (withdrawnLen body)

/-- What follows the withdrawn routes: the length of the attributes, the attributes and the NLRI. -/
def afterWithdrawn (body : List UInt8) : List UInt8 := body.drop (2 + withdrawnLen body)

def attributeLen (body : List UInt8) : ℕ := value ((afterWithdrawn body).take 2)

def attributeOctets (body : List UInt8) : List UInt8 :=
  ((afterWithdrawn body).drop 2).take (attributeLen body)

def nlriOctets (body : List UInt8) : List UInt8 := (afterWithdrawn body).drop (2 + attributeLen body)

/-- The UPDATE made of decoded routes and an attribute block. A broken block does not end the session:
the networks beside it are withdrawn. -/
def applyAttributes (fmt : FamilyFormats) (four : Bool) (octets : List UInt8)
    (withdrawn nlri : List Prefix × List UInt32) : Update :=
  let asWithdraw : Update :=
    { withdrawn := withdrawn.1 ++ nlri.1, withdrawnPathIds := withdrawn.2 ++ nlri.2 }
  match decodeAttributes fmt four octets with
  | .ok attributes =>
    if mandatoryAttributesPresent attributes (!nlri.1.isEmpty) then
      { withdrawn := withdrawn.1, attributes, nlri := nlri.1, nlriPathIds := nlri.2,
        withdrawnPathIds := withdrawn.2 }
    else asWithdraw
  | .error _ => asWithdraw

def decodeUpdate (fmt : FamilyFormats) (four : Bool) (addPath : AddPath) (body : List UInt8) :
    Except DecodeError Update := do
  let ap := addPath.ipv4Unicast
  if body.length < 4 then throw .tooShort
  if body.length < 2 + withdrawnLen body then throw .malformed
  let withdrawn ← decodePrefixes ap (withdrawnOctets body)
  if (afterWithdrawn body).length < 2 then throw .tooShort
  if (afterWithdrawn body).length < 2 + attributeLen body then throw .malformed
  let nlri ← decodePrefixes ap (nlriOctets body)
  return applyAttributes fmt four (attributeOctets body) withdrawn nlri

/-- The lengths of the sections stay within the body. -/
structure Framed (body : List UInt8) : Prop where
  header : 4 ≤ body.length
  withdrawn : 2 + withdrawnLen body ≤ body.length
  lengthField : 2 ≤ (afterWithdrawn body).length
  attributes : 2 + attributeLen body ≤ (afterWithdrawn body).length

/-- An UPDATE is accepted when its sections are framed and its two lists of networks decode. -/
theorem decodeUpdate_eq_ok_iff {fmt : FamilyFormats} {four : Bool} {addPath : AddPath} {body : List UInt8}
    {u : Update} :
    decodeUpdate fmt four addPath body = .ok u ↔ Framed body ∧ ∃ w n,
      decodePrefixes addPath.ipv4Unicast (withdrawnOctets body) = .ok w ∧
      decodePrefixes addPath.ipv4Unicast (nlriOctets body) = .ok n ∧
      applyAttributes fmt four (attributeOctets body) w n = u := by
  unfold decodeUpdate
  constructor
  · intro h
    by_cases h₁ : body.length < 4
    · simp only [if_pos h₁] at h
      cases h
    by_cases h₂ : body.length < 2 + withdrawnLen body
    · simp only [if_neg h₁, if_pos h₂] at h
      cases h
    simp only [if_neg h₁, if_neg h₂] at h
    cases hw : decodePrefixes addPath.ipv4Unicast (withdrawnOctets body) with
    | error e =>
      rw [hw] at h
      cases h
    | ok w =>
      rw [hw] at h
      by_cases h₃ : (afterWithdrawn body).length < 2
      · simp only [if_pos h₃] at h
        cases h
      by_cases h₄ : (afterWithdrawn body).length < 2 + attributeLen body
      · simp only [if_neg h₃, if_pos h₄] at h
        cases h
      simp only [if_neg h₃, if_neg h₄] at h
      cases hn : decodePrefixes addPath.ipv4Unicast (nlriOctets body) with
      | error e =>
        rw [hn] at h
        cases h
      | ok n =>
        rw [hn] at h
        exact ⟨⟨by omega, by omega, by omega, by omega⟩, w, n, rfl, rfl, Except.ok.inj h⟩
  · rintro ⟨hf, w, n, hw, hn, rfl⟩
    rw [if_neg (by have := hf.header; omega), if_neg (by have := hf.withdrawn; omega), hw, hn]
    have h₃ : ¬ (afterWithdrawn body).length < 2 := by have := hf.lengthField; omega
    have h₄ : ¬ (afterWithdrawn body).length < 2 + attributeLen body := by have := hf.attributes; omega
    simp only [if_neg h₃, if_neg h₄]
    rfl

def encodeOpen (o : Open) : List UInt8 :=
  [o.version] ++ u16Octets o.myAs ++ u16Octets o.holdTime ++ ipv4Octets o.identifier ++
    [UInt8.ofNat o.parameters.length] ++ o.parameters

def decodeOpen (body : List UInt8) : Except DecodeError Open :=
  match body with
  | v :: a₁ :: a₀ :: h₁ :: h₀ :: i₃ :: i₂ :: i₁ :: i₀ :: optLen :: rest =>
    let myAs := UInt16.ofNat (value [a₁, a₀])
    let identifier := ipv4OfOctets [i₃, i₂, i₁, i₀]
    if v ≠ version then .error (.badVersion v)
    else if rest.length < optLen.toNat then .error .tooShort
    else if myAs = 0 then .error .malformed
    else if identifier = 0 then .error .malformed
    else .ok ⟨v, myAs, UInt16.ofNat (value [h₁, h₀]), identifier, rest.take optLen.toNat⟩
  | _ => .error .tooShort

def encodeNotification (n : Notification) : List UInt8 := [n.code, n.subcode] ++ n.data

def decodeNotification : List UInt8 → Except DecodeError Notification
  | code :: subcode :: data => .ok ⟨code, subcode, data⟩
  | _ => .error .tooShort

namespace Message

def messageType : Message → MessageType
  | openMessage _ => .openMessage
  | update _ => .update
  | notification _ => .notification
  | keepalive => .keepalive
  | routeRefresh .. => .routeRefresh

def encodeBody (four : Bool) (addPath : AddPath) : Message → List UInt8
  | openMessage o => encodeOpen o
  | update u => encodeUpdate four addPath u
  | notification n => encodeNotification n
  | keepalive => []
  | routeRefresh afi safi => u16Octets afi ++ [0, safi]

/-- The length field counts the header. -/
def encode (four : Bool) (addPath : AddPath) (m : Message) : List UInt8 :=
  let body := m.encodeBody four addPath
  marker ++ digits 2 (headerLen + body.length) ++ [m.messageType.asU8] ++ body

def decode (fmt : FamilyFormats) (four : Bool) (addPath : AddPath) (buf : List UInt8) :
    Except DecodeError Message := do
  if buf.length < headerLen then throw .tooShort
  if buf.take 16 ≠ marker then throw .badMarker
  let stated := value ((buf.drop 16).take 2)
  if stated ≠ buf.length ∨ stated < headerLen ∨ stated > maxMessageLen then
    throw (.badLength (UInt16.ofNat stated) buf.length)
  let t := buf.getD 18 0
  let body := buf.drop headerLen
  match MessageType.fromU8 t with
  | none => throw (.badType t)
  | some .openMessage => return openMessage (← decodeOpen body)
  | some .update => return update (← decodeUpdate fmt four addPath body)
  | some .notification => return notification (← decodeNotification body)
  | some .keepalive => if body = [] then return keepalive else throw .malformed
  | some .routeRefresh =>
    match body with
    | [a₁, a₀, _, safi] => return routeRefresh (UInt16.ofNat (value [a₁, a₀])) safi
    | _ => throw .malformed

end Message

end Wren.Bgp
