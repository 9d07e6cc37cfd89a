import Wren.Ospf.Packet
import Wren.Ospfv3.Codec

/-! OSPFv3 packets, their checksum over the addresses, and the authentication trailer behind them. The digest function
is a parameter. -/

namespace Wren.Ospfv3
open Octets
open Wren.Ospf (Ipv4Addr PacketType DecodeError lsaHeaderLen field checksumValid ipv4Octets ipv4At foldCarries ctEq)

def version : UInt8 := 3
def ipProtocol : ℕ := 89
def headerLen : ℕ := 16
def authTypeHmac : ℕ := 1
def atFixedLen : ℕ := 16
def digestLen : ℕ := 32

inductive Auth where
  | none
  | hmac (saId : UInt16) (key : List UInt8) (seq : UInt64)
deriving DecidableEq

/-- The digest counts its own place as the sender's address and a constant. -/
def apad (src : Ipv6Addr) : List UInt8 := ipv6Octets src ++ (List.replicate 4 (digits 4 0x878fe1f3)).flatten

structure Header where
  routerId : Ipv4Addr
  areaId : Ipv4Addr
  instanceId : UInt8
deriving DecidableEq

structure Hello where
  interfaceId : UInt32
  routerPriority : UInt8
  options : UInt32
  helloInterval : UInt16
  deadInterval : UInt16
  designatedRouter : Ipv4Addr
  backupDesignatedRouter : Ipv4Addr
  neighbors : List Ipv4Addr
deriving DecidableEq

def helloFixedLen : ℕ := 20

structure DatabaseDescription where
  options : UInt32
  interfaceMtu : UInt16
  flags : UInt8
  ddSequence : UInt32
  lsaHeaders : List LsaHeader
deriving DecidableEq

def ddFixedLen : ℕ := 12

structure LsRequest where
  lsType : LsType
  linkStateId : Ipv4Addr
  advertisingRouter : Ipv4Addr
deriving DecidableEq

def lsRequestLen : ℕ := 12

inductive Body where
  | hello (h : Hello)
  | databaseDescription (d : DatabaseDescription)
  | linkStateRequest (entries : List LsRequest)
  | linkStateUpdate (lsas : List Lsa)
  | linkStateAck (lsaHeaders : List LsaHeader)
deriving DecidableEq

def Body.packetType : Body → PacketType
  | hello _ => .hello
  | databaseDescription _ => .databaseDescription
  | linkStateRequest _ => .linkStateRequest
  | linkStateUpdate _ => .linkStateUpdate
  | linkStateAck _ => .linkStateAck

structure Packet where
  header : Header
  body : Body
deriving DecidableEq

/-- The addresses, the length and the protocol come before the octets of the packet. -/
def packetChecksum (src dst : Ipv6Addr) (pkt : List UInt8) : ℕ :=
  let words octets := ((chunksExact 2 octets).map value).sum
  let sum := words (ipv6Octets src) + words (ipv6Octets dst)
  let sum := sum + pkt.length / 65536 + pkt.length % 65536 + ipProtocol
  let sum := sum + words pkt
  let sum := if pkt.length % 2 = 1 then sum + (pkt.getLastD 0).toNat * 256 else sum
  65535 - foldCarries sum sum

/-! ### Bodies -/

def encodeHello (h : Hello) : List UInt8 :=
  digits 4 h.interfaceId.toNat ++ h.routerPriority :: putU24 h.options ++ digits 2 h.helloInterval.toNat ++
    digits 2 h.deadInterval.toNat ++ ipv4Octets h.designatedRouter ++ ipv4Octets h.backupDesignatedRouter ++
    h.neighbors.flatMap ipv4Octets

def decodeHello (body : List UInt8) : Except DecodeError Hello :=
  if body.length < helloFixedLen then .error .tooShort
  else if (body.length - helloFixedLen) % 4 ≠ 0 then .error .tooShort
  else .ok
    { interfaceId := UInt32.ofNat (field body 0 4)
      routerPriority := body.getD 4 0
      options := getU24 body 5
      helloInterval := UInt16.ofNat (field body 8 2)
      deadInterval := UInt16.ofNat (field body 10 2)
      designatedRouter := ipv4At body 12
      backupDesignatedRouter := ipv4At body 16
      neighbors := (chunksExact 4 (body.drop helloFixedLen)).map (ipv4At · 0) }

/-- Headers as descriptions and acknowledgments carry them. -/
def decodeHeaders (octets : List UInt8) : Except DecodeError (List LsaHeader) :=
  if octets.length % lsaHeaderLen ≠ 0 then .error .tooShort
  else (chunksExact lsaHeaderLen octets).mapM fun c =>
    match LsaHeader.decode c with
    | some h => .ok h
    | none => .error .badLsa

def encodeDd (d : DatabaseDescription) : List UInt8 :=
  0 :: putU24 d.options ++ digits 2 d.interfaceMtu.toNat ++ [0, d.flags] ++ digits 4 d.ddSequence.toNat ++
    d.lsaHeaders.flatMap LsaHeader.encode

def decodeDd (body : List UInt8) : Except DecodeError DatabaseDescription :=
  if body.length < ddFixedLen then .error .tooShort
  else do
    let lsaHeaders ← decodeHeaders (body.drop ddFixedLen)
    return {
      options := getU24 body 1
      interfaceMtu := UInt16.ofNat (field body 4 2)
      flags := body.getD 7 0
      ddSequence := UInt32.ofNat (field body 8 4)
      lsaHeaders }

def LsRequest.encode (e : LsRequest) : List UInt8 :=
  [0, 0] ++ digits 2 e.lsType.asU16.toNat ++ ipv4Octets e.linkStateId ++ ipv4Octets e.advertisingRouter

def LsRequest.decode (c : List UInt8) : LsRequest where
  lsType := .fromU16 (UInt16.ofNat (field c 2 2))
  linkStateId := ipv4At c 4
  advertisingRouter := ipv4At c 8

def encodeLsr (entries : List LsRequest) : List UInt8 := entries.flatMap LsRequest.encode

def decodeLsr (body : List UInt8) : Except DecodeError (List LsRequest) :=
  if body.length % lsRequestLen ≠ 0 then .error .tooShort
  else .ok ((chunksExact lsRequestLen body).map LsRequest.decode)

def encodeLsu (lsas : List Lsa) : List UInt8 := digits 4 lsas.length ++ lsas.flatMap Lsa.encode

/-- As many LSAs as stated, which take all octets. One with a wrong checksum is left out. -/
def decodeLsas : ℕ → List UInt8 → Except DecodeError (List Lsa)
  | 0, octets => if octets = [] then .ok [] else .error .badLsa
  | n + 1, octets =>
    match Lsa.decode octets with
    | none => .error .badLsa
    | some (lsa, used) => do
      let lsas ← decodeLsas n (octets.drop used)
      return if checksumValid (octets.take used) then lsa :: lsas else lsas

def decodeLsu (body : List UInt8) : Except DecodeError (List Lsa) :=
  if body.length < 4 then .error .tooShort
  else decodeLsas (field body 0 4) (body.drop 4)

def encodeLsack (lsaHeaders : List LsaHeader) : List UInt8 := lsaHeaders.flatMap LsaHeader.encode

def decodeLsack (body : List UInt8) : Except DecodeError (List LsaHeader) := decodeHeaders body

namespace Body

def encode : Body → List UInt8
  | hello h => encodeHello h
  | databaseDescription d => encodeDd d
  | linkStateRequest entries => encodeLsr entries
  | linkStateUpdate lsas => encodeLsu lsas
  | linkStateAck lsaHeaders => encodeLsack lsaHeaders

def decode (t : PacketType) (body : List UInt8) : Except DecodeError Body :=
  match t with
  | .hello => (decodeHello body).map hello
  | .databaseDescription => (decodeDd body).map databaseDescription
  | .linkStateRequest => (decodeLsr body).map linkStateRequest
  | .linkStateUpdate => (decodeLsu body).map linkStateUpdate
  | .linkStateAck => (decodeLsack body).map linkStateAck

end Body

/-! ### Packets -/

namespace Packet

def encode (p : Packet) (src dst : Ipv6Addr) : List UInt8 :=
  let out := [version, p.body.packetType.asU8, 0, 0] ++ ipv4Octets p.header.routerId ++ ipv4Octets p.header.areaId ++
    [0, 0, p.header.instanceId, 0] ++ p.body.encode
  let out := out.take 2 ++ digits 2 out.length ++ out.drop 4
  out.take 12 ++ digits 2 (packetChecksum src dst out) ++ out.drop 14

/-- The checksum is not looked at. -/
def parseUnchecked (buf : List UInt8) : Except DecodeError Packet :=
  if buf.length < headerLen then .error .tooShort
  else if buf.getD 0 0 ≠ version then .error (.badVersion (buf.getD 0 0))
  else
    match PacketType.fromU8 (buf.getD 1 0) with
    | none => .error (.unknownType (buf.getD 1 0))
    | some ptype =>
      let stated := field buf 2 2
      if stated ≠ buf.length then .error (.badLength stated buf.length)
      else do
        let body ← Body.decode ptype (buf.drop headerLen)
        return ⟨⟨ipv4At buf 4, ipv4At buf 8, buf.getD 14 0⟩, body⟩

def decode (buf : List UInt8) (src dst : Ipv6Addr) : Except DecodeError Packet :=
  if buf.length < headerLen then .error .tooShort
  else if buf.getD 0 0 ≠ version then .error (.badVersion (buf.getD 0 0))
  else
    match PacketType.fromU8 (buf.getD 1 0) with
    | none => .error (.unknownType (buf.getD 1 0))
    | some _ =>
      let stated := field buf 2 2
      if stated ≠ buf.length then .error (.badLength stated buf.length)
      else if packetChecksum src dst ((buf.set 12 0).set 13 0) ≠ field buf 12 2 then .error .badChecksum
      else parseUnchecked buf

section Trailer
variable (hmac : List UInt8 → List UInt8 → Vector UInt8 32)

/-- With a trailer there is no checksum, and the length in the packet does not count the trailer. -/
def encodeAuth (p : Packet) (src dst : Ipv6Addr) : Auth → List UInt8
  | .none => p.encode src dst
  | .hmac saId key seq =>
    let out := ((p.encode src dst).set 12 0).set 13 0 ++ digits 2 authTypeHmac ++ digits 2 (atFixedLen + digestLen) ++
      [0, 0] ++ digits 2 saId.toNat ++ digits 8 seq.toNat
    out ++ (hmac key (out ++ apad src)).toList

def decodeAuth (buf : List UInt8) (src dst : Ipv6Addr) : Auth → Except DecodeError Packet
  | .none => decode buf src dst
  | .hmac saId key _ =>
    if buf.length < headerLen then .error .tooShort
    else
      let stated := field buf 2 2
      if stated < headerLen ∨ buf.length ≠ stated + atFixedLen + digestLen then .error .badAuth
      else
        let trailer := buf.drop stated
        if field trailer 0 2 ≠ authTypeHmac ∨ field trailer 2 2 ≠ trailer.length ∨
            UInt16.ofNat (field trailer 6 2) ≠ saId then .error .badAuth
        else
          let scratch := ((buf.take stated).set 12 0).set 13 0 ++ trailer.take atFixedLen ++ apad src
          if !ctEq (hmac key scratch).toList (trailer.drop atFixedLen) then .error .badAuth
          else parseUnchecked (buf.take stated)

end Trailer
end Packet
end Wren.Ospfv3
