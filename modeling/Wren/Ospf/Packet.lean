import Wren.Ospf.Lsa

/-! OSPFv2 packets, as they are received and as they are sent, and their authentication. The digest function is a
parameter. -/

namespace Wren.Ospf
open Octets

def version : UInt8 := 2

inductive PacketType where
  | hello
  | databaseDescription
  | linkStateRequest
  | linkStateUpdate
  | linkStateAck
deriving DecidableEq

def PacketType.fromU8 (v : UInt8) : Option PacketType :=
  if v = 1 then some hello
  else if v = 2 then some databaseDescription
  else if v = 3 then some linkStateRequest
  else if v = 4 then some linkStateUpdate
  else if v = 5 then some linkStateAck
  else none

def headerLen : ℕ := 24

structure Header where
  routerId : Ipv4Addr
  areaId : Ipv4Addr
deriving DecidableEq

def auNull : ℕ := 0

structure Hello where
  networkMask : Ipv4Addr
  helloInterval : UInt16
  options : UInt8
  routerPriority : UInt8
  deadInterval : UInt32
  designatedRouter : Ipv4Addr
  backupDesignatedRouter : Ipv4Addr
  neighbors : List Ipv4Addr
deriving DecidableEq

def helloFixedLen : ℕ := 20

structure DatabaseDescription where
  interfaceMtu : UInt16
  options : UInt8
  flags : UInt8
  ddSequence : UInt32
  lsaHeaders : List LsaHeader
deriving DecidableEq

def ddFixedLen : ℕ := 8

structure LsRequest where
  lsType : LsType
  linkStateId : Ipv4Addr
  advertisingRouter : Ipv4Addr
deriving DecidableEq

def lsRequestLen : ℕ := 12

inductive Body where
  | hello (h : Hello)
  | databaseDescription (d : DatabaseDescription)
  | linkStateRequest (entries : List LsRequest)
  | linkStateUpdate (lsas : List Lsa)
  | linkStateAck (lsaHeaders : List LsaHeader)
deriving DecidableEq

structure Packet where
  header : Header
  body : Body
deriving DecidableEq

inductive DecodeError where
  | tooShort
  | badVersion (v : UInt8)
  | unknownType (t : UInt8)
  | badLength (stated actual : ℕ)
  | badChecksum
  | badLsa
  | badAuth
deriving DecidableEq

/-- Carries are added back until there are none. -/
def foldCarries : ℕ → ℕ → ℕ
  | 0, sum => sum
  | n + 1, sum => if sum / 65536 = 0 then sum else foldCarries n (sum % 65536 + sum / 65536)

/-- A trailing octet counts as the high one of its word. Each fold makes the sum smaller. -/
def ipChecksum (data : List UInt8) : ℕ :=
  let words := ((chunksExact 2 data).map value).sum
  let sum := if data.length % 2 = 1 then words + (data.getLastD 0).toNat * 256 else words
  65535 - foldCarries sum sum

/-- The authentication field is left out. -/
def packetChecksum (pkt : List UInt8) : ℕ := ipChecksum (pkt.take 16 ++ pkt.drop headerLen)

def verifyChecksum (buf : List UInt8) : Except DecodeError Unit :=
  if packetChecksum ((buf.set 12 0).set 13 0) ≠ field buf 12 2 then .error .badChecksum else .ok ()

def decodeHello (body : List UInt8) : Except DecodeError Hello :=
  if body.length < helloFixedLen then .error .tooShort
  else if (body.length - helloFixedLen) % 4 ≠ 0 then .error .tooShort
  else .ok
    { networkMask := ipv4At body 0
      helloInterval := UInt16.ofNat (field body 4 2)
      options := body.getD 6 0
      routerPriority := body.getD 7 0
      deadInterval := UInt32.ofNat (field body 8 4)
      designatedRouter := ipv4At body 12
      backupDesignatedRouter := ipv4At body 16
      neighbors := (chunksExact 4 (body.drop helloFixedLen)).map (ipv4At · 0) }

def decodeHeaders (octets : List UInt8) : Except DecodeError (List LsaHeader) :=
  if octets.length % lsaHeaderLen ≠ 0 then .error .tooShort
  else (chunksExact lsaHeaderLen octets).mapM fun c =>
    match LsaHeader.decode c with
    | some h => .ok h
    | none => .error .badLsa

def decodeDd (body : List UInt8) : Except DecodeError DatabaseDescription :=
  if body.length < ddFixedLen then .error .tooShort
  else do
    let lsaHeaders ← decodeHeaders (body.drop ddFixedLen)
    return {
      interfaceMtu := UInt16.ofNat (field body 0 2)
      options := body.getD 2 0
      flags := body.getD 3 0
      ddSequence := UInt32.ofNat (field body 4 4)
      lsaHeaders }

def decodeLsr (body : List UInt8) : Except DecodeError (List LsRequest) :=
  if body.length % lsRequestLen ≠ 0 then .error .tooShort
  else (chunksExact lsRequestLen body).mapM fun c =>
    match LsType.fromU8 (c.getD 3 0) with
    | some lsType => .ok ⟨lsType, ipv4At c 4, ipv4At c 8⟩
    | none => .error (.unknownType (c.getD 3 0))

/-- As many LSAs as stated, which take all octets. One with a wrong checksum is left out. -/
def decodeLsas : ℕ → List UInt8 → Except DecodeError (List Lsa)
  | 0, octets => if octets = [] then .ok [] else .error .badLsa
  | n + 1, octets =>
    match Lsa.decode octets with
    | none => .error .badLsa
    | some (lsa, used) => do
      let lsas ← decodeLsas n (octets.drop used)
      return if checksumValid (octets.take used) then lsa :: lsas else lsas

def decodeLsu (body : List UInt8) : Except DecodeError (List Lsa) :=
  if body.length < 4 then .error .tooShort
  else decodeLsas (field body 0 4) (body.drop 4)

/-- The body of a packet of a given type. -/
def Body.decode (t : PacketType) (body : List UInt8) : Except DecodeError Body :=
  match t with
  | .hello => (decodeHello body).map .hello
  | .databaseDescription => (decodeDd body).map .databaseDescription
  | .linkStateRequest => (decodeLsr body).map .linkStateRequest
  | .linkStateUpdate => (decodeLsu body).map .linkStateUpdate
  | .linkStateAck => (decodeHeaders body).map .linkStateAck

namespace Packet

/-- A packet with Null authentication. -/
def decode (buf : List UInt8) : Except DecodeError Packet :=
  if buf.length < headerLen then .error .tooShort
  else if buf.getD 0 0 ≠ version then .error (.badVersion (buf.getD 0 0))
  else
    match PacketType.fromU8 (buf.getD 1 0) with
    | none => .error (.unknownType (buf.getD 1 0))
    | some ptype =>
      let stated := field buf 2 2
      if field buf 14 2 ≠ auNull then .error .badAuth
      else if stated ≠ buf.length then .error (.badLength stated buf.length)
      else do
        verifyChecksum buf
        let body ← Body.decode ptype (buf.drop headerLen)
        return ⟨⟨ipv4At buf 4, ipv4At buf 8⟩, body⟩

end Packet

/-! ### Authentication -/

def PacketType.asU8 : PacketType → UInt8
  | hello => 1
  | databaseDescription => 2
  | linkStateRequest => 3
  | linkStateUpdate => 4
  | linkStateAck => 5

def Body.packetType : Body → PacketType
  | hello _ => .hello
  | databaseDescription _ => .databaseDescription
  | linkStateRequest _ => .linkStateRequest
  | linkStateUpdate _ => .linkStateUpdate
  | linkStateAck _ => .linkStateAck

def auSimple : ℕ := 1
def auCrypto : ℕ := 2
def md5Len : ℕ := 16

/-- The authentication scheme of an interface. -/
inductive Auth where
  | null
  | simple (password : List UInt8)
  | md5 (keyId : UInt8) (key : List UInt8) (seq : UInt32)
deriving DecidableEq

/-- The first `n` octets, filled up with zeros. -/
def padded (n : ℕ) (octets : List UInt8) : List UInt8 := octets.take n ++ List.replicate (n - octets.length) 0

namespace Auth

def auType : Auth → ℕ
  | null => auNull
  | simple _ => auSimple
  | md5 .. => auCrypto

def authField : Auth → List UInt8
  | null => List.replicate 8 0
  | simple password => padded 8 password
  | md5 keyId _ seq => [0, 0, keyId, UInt8.ofNat md5Len] ++ digits 4 seq.toNat

end Auth

def md5Key16 (key : List UInt8) : List UInt8 := padded 16 key

section Digest
variable (md5 : List UInt8 → Vector UInt8 16)

def md5AuthDigest (packet key : List UInt8) : List UInt8 := (md5 (packet ++ md5Key16 key)).toList

/-- All octets are compared, whether or not one differs. -/
def ctEq (a b : List UInt8) : Bool :=
  if a.length ≠ b.length then false
  else (a.zip b).foldl (fun diff p => diff ||| (p.1 ^^^ p.2)) 0 == 0

/-! ### Encoding -/

def encodeHello (h : Hello) : List UInt8 :=
  ipv4Octets h.networkMask ++ digits 2 h.helloInterval.toNat ++ [h.options, h.routerPriority] ++
    digits 4 h.deadInterval.toNat ++ ipv4Octets h.designatedRouter ++ ipv4Octets h.backupDesignatedRouter ++
    h.neighbors.flatMap ipv4Octets

def encodeDd (d : DatabaseDescription) : List UInt8 :=
  digits 2 d.interfaceMtu.toNat ++ [d.options, d.flags] ++ digits 4 d.ddSequence.toNat ++
    d.lsaHeaders.flatMap LsaHeader.encode

/-- The type takes 32 bits, of which the low octet is used. -/
def LsRequest.encode (e : LsRequest) : List UInt8 :=
  [0, 0, 0, e.lsType.asU8] ++ ipv4Octets e.linkStateId ++ ipv4Octets e.advertisingRouter

def encodeLsr (entries : List LsRequest) : List UInt8 := entries.flatMap LsRequest.encode

def encodeLsu (lsas : List Lsa) : List UInt8 := digits 4 lsas.length ++ lsas.flatMap Lsa.encode

def encodeLsack (lsaHeaders : List LsaHeader) : List UInt8 := lsaHeaders.flatMap LsaHeader.encode

def Body.encode : Body → List UInt8
  | hello h => encodeHello h
  | databaseDescription d => encodeDd d
  | linkStateRequest entries => encodeLsr entries
  | linkStateUpdate lsas => encodeLsu lsas
  | linkStateAck lsaHeaders => encodeLsack lsaHeaders

namespace Packet

/-- The packet with its length, and zeros for the checksum. -/
def frame (p : Packet) (auth : Auth) : List UInt8 :=
  let out := [version, p.body.packetType.asU8] ++ [0, 0] ++ ipv4Octets p.header.routerId ++
    ipv4Octets p.header.areaId ++ [0, 0] ++ digits 2 auth.auType ++ auth.authField ++ p.body.encode
  out.take 2 ++ digits 2 out.length ++ out.drop 4

/-- Either the checksum is filled in, or a digest follows that the length does not count. -/
def encodeAuth (p : Packet) (auth : Auth) : List UInt8 :=
  let out := p.frame auth
  match auth with
  | .md5 _ key _ => out ++ md5AuthDigest md5 out key
  | .null | .simple _ => out.take 12 ++ digits 2 (packetChecksum out) ++ out.drop 14

/-! ### Decoding -/

/-- What is checked on the authentication of a packet that ends at `bodyEnd`. -/
def authenticate (buf : List UInt8) (bodyEnd : ℕ) : Auth → Except DecodeError Unit
  | .null => verifyChecksum buf
  | .simple password => do
    verifyChecksum buf
    if (buf.drop 16).take 8 ≠ padded 8 password then .error .badAuth else .ok ()
  | .md5 keyId key _ =>
    if buf.getD 18 0 ≠ keyId then .error .badAuth
    else if !ctEq ((buf.drop bodyEnd).take md5Len) (md5AuthDigest md5 (buf.take bodyEnd) key) then .error .badAuth
    else .ok ()

/-- Whether the stated length is that of the packet under this scheme. -/
def lengthFits (buf : List UInt8) (stated : ℕ) : Auth → Bool
  | .md5 .. => stated + md5Len = buf.length ∧ headerLen ≤ stated
  | .null | .simple _ => stated = buf.length

def decodeAuth (buf : List UInt8) (auth : Auth) : Except DecodeError Packet :=
  if buf.length < headerLen then .error .tooShort
  else if buf.getD 0 0 ≠ version then .error (.badVersion (buf.getD 0 0))
  else
    match PacketType.fromU8 (buf.getD 1 0) with
    | none => .error (.unknownType (buf.getD 1 0))
    | some ptype =>
      let stated := field buf 2 2
      if field buf 14 2 ≠ auth.auType then .error .badAuth
      else if !lengthFits buf stated auth then .error (.badLength stated buf.length)
      else do
        authenticate md5 buf stated auth
        let body ← Body.decode ptype ((buf.take stated).drop headerLen)
        return ⟨⟨ipv4At buf 4, ipv4At buf 8⟩, body⟩

end Packet
end Digest

end Wren.Ospf
