import Wren.Daemon.Ospf.Process
import Wren.Ospf.RoundTrip

/-! The packets of the OSPFv2 task as datagrams. Each is built in one piece, whatever it carries, and the receiver of a peer
has a buffer of a fixed size. -/

namespace Wren.Daemon
open Wren.Core Wren.Ospf OrdMap Octets

namespace Ospf

def recvBuf : ℕ := 9000

/-- The header that the kernel puts in front of a packet. -/
structure IpHeader where
  octets : List UInt8
  length_octets : octets.length = 20
  version_ihl : octets.getD 0 0 = 0x45

def stripIpHeader (data : List UInt8) : Option (List UInt8) :=
  if data.length < 20 ∨ data.getD 0 0 >>> 4 ≠ 4 then none
  else
    let ihl := (data.getD 0 0 &&& 0x0f).toNat * 4
    if ihl < 20 ∨ data.length < ihl then none else some (data.drop ihl)

/-- The configured authentication, with the time for the sequence number of a digest. -/
def sendAuth (secs : UInt32) : Auth → Auth
  | .md5 keyId key _ => .md5 keyId key secs
  | .null => .null
  | .simple password => .simple password

section Receive
variable (md5 : List UInt8 → Vector UInt8 16) (auth : Auth) (secs : UInt32) (ip : IpHeader)

/-- The octets of a packet that goes out. -/
def datagram (p : Packet) : List UInt8 := p.encodeAuth md5 (sendAuth secs auth)

/-- What a peer with the same authentication reads. A datagram that is longer than its own length can say is not sent. -/
def receive (octets : List UInt8) : Option Packet :=
  if 65535 < (ip.octets ++ octets).length then none
  else (stripIpHeader ((ip.octets ++ octets).take recvBuf)).bind fun data => (Packet.decodeAuth md5 data auth).toOption

/-- A packet fits the buffer of the peer and its own length field, and is read as it was built. -/
structure Arrives (p : Packet) : Prop where
  fits : ip.octets.length + (datagram md5 auth secs p).length ≤ recvBuf
  stated : headerLen + p.body.encode.length ≤ 65535
  read : receive md5 auth ip (datagram md5 auth secs p) = some p

variable {md5 auth secs ip} {p : Packet}

theorem length_datagram : (datagram md5 auth secs p).length = headerLen + p.body.encode.length + auth.digestLen := by
  rw [datagram, Packet.length_encodeAuth]
  cases auth <;> rfl

/-- The sequence number is not compared. -/
theorem decodeAuth_sendAuth (buf : List UInt8) :
    Packet.decodeAuth md5 buf (sendAuth secs auth) = Packet.decodeAuth md5 buf auth := by
  cases auth <;> rfl

theorem stripIpHeader_append (n : ℕ) (octets : List UInt8) (hn : 20 ≤ n) :
    stripIpHeader ((ip.octets ++ octets).take n) = some (octets.take (n - 20)) := by
  have hlen := ip.length_octets
  have htake : (ip.octets ++ octets).take n = ip.octets ++ octets.take (n - 20) := by
    rw [List.take_append, hlen, List.take_of_length_le (hlen ▸ hn)]
  have hfirst : (ip.octets ++ octets.take (n - 20)).getD 0 0 = 0x45 := by
    rw [List.getD_append _ _ _ _ (by omega), ip.version_ihl]
  have hversion : (0x45 : UInt8) >>> 4 = 4 := by decide
  have hihl : ((0x45 : UInt8) &&& 0x0f).toNat * 4 = 20 := by decide
  rw [htake, stripIpHeader, hfirst, if_neg (by simp [hlen, hversion])]
  dsimp only
  rw [hihl, if_neg (by simp [hlen]), List.drop_left' hlen]

theorem arrives_iff : Arrives md5 auth secs ip p ↔
    ip.octets.length + headerLen + p.body.encode.length + auth.digestLen ≤ recvBuf ∧ p.body.WellFormed := by
  have hip := ip.length_octets
  have hbuf : recvBuf = 9000 := rfl
  have hread : ip.octets.length + headerLen + p.body.encode.length + auth.digestLen ≤ recvBuf →
      (receive md5 auth ip (datagram md5 auth secs p) = some p ↔ p.body.WellFormed) := by
    intro hlen
    have hsize := @length_datagram md5 auth secs p
    have hcodec := @Packet.decodeAuth_encodeAuth_iff md5 p (sendAuth secs auth) (by
      change (datagram md5 auth secs p).length ≤ 65535
      omega)
    rw [decodeAuth_sendAuth] at hcodec
    rw [receive, if_neg (by rw [List.length_append]; omega), stripIpHeader_append recvBuf _ (by decide), Option.bind_some,
      List.take_of_length_le (by omega), ← hcodec]
    change (Packet.decodeAuth md5 (p.encodeAuth md5 (sendAuth secs auth)) auth).toOption = some p ↔ _
    cases Packet.decodeAuth md5 (p.encodeAuth md5 (sendAuth secs auth)) auth with
    | error e => simp [Except.toOption]
    | ok q => simp [Except.toOption]
  constructor
  · rintro ⟨hfits, -, hrecv⟩
    rw [length_datagram] at hfits
    have hlen : ip.octets.length + headerLen + p.body.encode.length + auth.digestLen ≤ recvBuf := by omega
    exact ⟨hlen, (hread hlen).mp hrecv⟩
  · rintro ⟨hlen, hwell⟩
    refine ⟨?_, by omega, (hread hlen).mpr hwell⟩
    rw [length_datagram]
    omega

/-- How much of a body the buffer of a peer has room for. -/
def room (auth : Auth) : ℕ := recvBuf - 20 - headerLen - auth.digestLen

theorem digestLen_le (auth : Auth) : auth.digestLen ≤ md5Len := by
  cases auth with
  | null => exact Nat.zero_le _
  | simple password => exact Nat.zero_le _
  | md5 keyId key seq => exact le_rfl

theorem le_room {n : ℕ} (h : n + md5Len ≤ recvBuf - 20 - headerLen) : n ≤ room auth := by
  have hdigest := digestLen_le auth
  rw [room]
  omega

theorem arrives_packet_iff (s : Ospf) (area : Ipv4Addr) (body : Body) :
    Arrives md5 auth secs ip (s.packet area body) ↔ body.encode.length ≤ room auth ∧ body.WellFormed := by
  have hip := ip.length_octets
  have hdigest := digestLen_le auth
  have hroom : ip.octets.length + headerLen + body.encode.length + auth.digestLen ≤ recvBuf ↔
      body.encode.length ≤ room auth := by
    rw [room, recvBuf, headerLen]
    rw [md5Len] at hdigest
    omega
  rw [arrives_iff, ← hroom]
  exact Iff.rfl

end Receive

/-! ### Bodies -/

theorem length_encodeDd (d : DatabaseDescription) :
    (encodeDd d).length = ddFixedLen + lsaHeaderLen * d.lsaHeaders.length := by
  rw [encodeDd, List.length_append, length_flatMap_of_forall LsaHeader.length_encode, Nat.mul_comm]
  simp [ddFixedLen]

theorem length_encodeLsr (entries : List LsRequest) : (encodeLsr entries).length = lsRequestLen * entries.length := by
  rw [encodeLsr, length_flatMap_of_forall LsRequest.length_encode, Nat.mul_comm]

theorem length_encodeLsu (lsas : List Lsa) :
    (encodeLsu lsas).length = 4 + (lsas.map fun l => l.encode.length).sum := by
  rw [encodeLsu, List.length_append, length_digits, List.length_flatMap]

theorem length_encodeLsack (headers : List LsaHeader) : (encodeLsack headers).length = lsaHeaderLen * headers.length := by
  rw [encodeLsack, length_flatMap_of_forall LsaHeader.length_encode, Nat.mul_comm]

/-! ### What is built in one piece -/

/-- The functions that put into one packet whatever there is. -/
inductive Builder where
  | sendExchangeDd (i : Iface) (n : OspfNeighbor)
  | sendLsr (i : Iface) (n : OspfNeighbor)
  | handleLsr (idx : ℕ) (nbrId : Ipv4Addr) (entries : List LsRequest)
  | handleLsu (i : Iface) (idx : ℕ) (nbrId src : Ipv4Addr) (sendBack : List LsaKey) (ackHeaders impliedAcks : List LsaHeader)
  | retransmitPending

/-- What the databases have of some LSAs. -/
def lookups (s : Ospf) (area : Ipv4Addr) (keys : List LsaKey) : List Lsa := keys.filterMap fun k => (s.lsdbFor area k.1).get k

/-- The LSAs that are asked for. -/
def asked (entries : List LsRequest) : List LsaKey :=
  entries.map fun e => (e.lsType, e.linkStateId, e.advertisingRouter)

/-- LSAs that there is room for, each as its encoding has it. -/
def CanCarry (room : ℕ) (lsas : List Lsa) : Prop :=
  4 + (lsas.map fun l => l.encode.length).sum ≤ room ∧ ∀ l ∈ lsas, l.WellFormed

namespace Builder

def run (s : Ospf) : Builder → Ospf
  | sendExchangeDd i n =>
    s.send i n.addr (s.exchangeBody i.area (DbExchange.sendExchangeDd (s.databases i.area) n.toAdjacency).2)
  | sendLsr i n =>
    (DbExchange.sendLsr n.toAdjacency).foldl (fun s m => s.send i n.addr (s.exchangeBody i.area m)) s
  | handleLsr idx nbrId entries => s.handleLsr idx nbrId entries
  | handleLsu i idx nbrId src sendBack ackHeaders impliedAcks =>
    Update.answer { Update.new s with sendBack, ackHeaders, impliedAcks } i idx nbrId src
  | retransmitPending => s.retransmitPending

/-- The packets that go out. -/
def packets (s : Ospf) (b : Builder) : List Packet := ((b.run s).sent.drop s.sent.length).map Sent.packet

/-- What there is to put into one packet does not take more than the room. -/
def Fits (s : Ospf) (room : ℕ) : Builder → Prop
  | sendExchangeDd i n => n.summarySent = true ∨ ddFixedLen + lsaHeaderLen * (s.dbHeaders i.area).length ≤ room
  | sendLsr _ n => lsRequestLen * n.requestList.length ≤ room
  | handleLsr idx nbrId entries => ∀ i ∈ s.iface? idx, (s.neighbor? idx nbrId).isSome →
      CanCarry room (s.lookups i.area (asked entries))
  | handleLsu i _ _ _ sendBack ackHeaders _ =>
    CanCarry room (s.lookups i.area sendBack) ∧ lsaHeaderLen * ackHeaders.length ≤ room
  | retransmitPending => ∀ i ∈ s.ifaces, ∀ n ∈ i.values,
      (n.isFull = true → CanCarry room (n.retransmitList.toList.map Prod.snd)) ∧
      (n.state = .exchange ∨ n.state = .loading → lsRequestLen * n.requestList.length ≤ room)

theorem packets_of_sent {s : Ospf} {b : Builder} {l : List Sent} (h : (b.run s).sent = s.sent ++ l) :
    b.packets s = l.map Sent.packet := by
  rw [packets, h, List.drop_left]

end Builder

section Builder
variable {md5 : List UInt8 → Vector UInt8 16} {auth : Auth} {secs : UInt32} {ip : IpHeader} (s : Ospf) (area : Ipv4Addr)

theorem arrives_exchangeDd (n : DbExchange.Adjacency LsaKey) :
    Arrives md5 auth secs ip (s.packet area (s.exchangeBody area (DbExchange.sendExchangeDd (s.databases area) n).2)) ↔
      n.summarySent = true ∨ ddFixedLen + lsaHeaderLen * (s.dbHeaders area).length ≤ room auth := by
  have hempty : ddFixedLen ≤ room auth := le_room (by decide)
  rw [arrives_packet_iff]
  cases hsent : n.summarySent with
  | true =>
    simp only [DbExchange.sendExchangeDd, exchangeBody, Body.encode, length_encodeDd, hsent, Body.WellFormed]
    simpa using hempty
  | false =>
    simp only [DbExchange.sendExchangeDd, exchangeBody, Body.encode, length_encodeDd, hsent, Body.WellFormed, databases]
    simp

theorem arrives_lsr (keys : List LsaKey) :
    Arrives md5 auth secs ip (s.packet area (s.exchangeBody area (.lsr keys))) ↔ lsRequestLen * keys.length ≤ room auth := by
  rw [arrives_packet_iff]
  simp only [exchangeBody, Body.encode, length_encodeLsr, List.length_map, Body.WellFormed, and_true]

theorem arrives_lsu (lsas : List Lsa) :
    Arrives md5 auth secs ip (s.packet area (.linkStateUpdate lsas)) ↔ CanCarry (room auth) lsas := by
  rw [arrives_packet_iff, Body.encode, length_encodeLsu]
  exact Iff.rfl

theorem arrives_lsack (headers : List LsaHeader) :
    Arrives md5 auth secs ip (s.packet area (.linkStateAck headers)) ↔ lsaHeaderLen * headers.length ≤ room auth := by
  rw [arrives_packet_iff, Body.encode, length_encodeLsack]
  exact and_iff_left trivial

theorem canCarry_nil : CanCarry (room auth) [] := ⟨le_room (by decide), fun l hl => by cases hl⟩

/-- An update goes out only if there is something in it. -/
theorem arrives_update (ifindex : UInt32) (dst : Ipv4Addr) (lsas : List Lsa) :
    (∀ p ∈ (if lsas.isEmpty then [] else [(⟨ifindex, dst, s.packet area (.linkStateUpdate lsas)⟩ : Sent)]).map Sent.packet,
      Arrives md5 auth secs ip p) ↔ CanCarry (room auth) lsas := by
  cases lsas with
  | nil => exact iff_of_true (by simp) canCarry_nil
  | cons l lsas => simpa using arrives_lsu s area (l :: lsas)

theorem arrives_acks (ifindex : UInt32) (dst : Ipv4Addr) (headers : List LsaHeader) :
    (∀ p ∈ (if headers.isEmpty then [] else [(⟨ifindex, dst, s.packet area (.linkStateAck headers)⟩ : Sent)]).map
      Sent.packet, Arrives md5 auth secs ip p) ↔ lsaHeaderLen * headers.length ≤ room auth := by
  cases headers with
  | nil => exact iff_of_true (by simp) (Nat.zero_le _)
  | cons h headers => simpa using arrives_lsack s area (h :: headers)

theorem arrives_requests (i : Iface) (n : OspfNeighbor) :
    (∀ p ∈ (DbExchange.sendLsr (H := LsaHeader) n.toAdjacency).map fun m => s.packet i.area (s.exchangeBody i.area m),
      Arrives md5 auth secs ip p) ↔ lsRequestLen * n.requestList.length ≤ room auth := by
  by_cases hempty : n.requestList = []
  · simp [DbExchange.sendLsr, hempty]
  · simpa [DbExchange.sendLsr, hempty] using arrives_lsr s i.area n.requestList

/-! ### What the functions send -/

theorem sent_sendLsr (i : Iface) (n : OspfNeighbor) : (Builder.run s (.sendLsr i n)).sent = s.sent ++
    (DbExchange.sendLsr n.toAdjacency).map fun m => ⟨i.ifindex, n.addr, s.packet i.area (s.exchangeBody i.area m)⟩ := by
  by_cases hempty : n.requestList.isEmpty = true
  · simp [Builder.run, DbExchange.sendLsr, hempty]
  · simp [Builder.run, DbExchange.sendLsr, hempty, send]

theorem sent_handleLsr {idx : ℕ} {nbrId : Ipv4Addr} {entries : List LsRequest} {i : Iface} {n : OspfNeighbor}
    (hi : s.iface? idx = some i) (hn : s.neighbor? idx nbrId = some n) :
    (Builder.run s (.handleLsr idx nbrId entries)).sent = s.sent ++
      if (s.lookups i.area (asked entries)).isEmpty then []
      else [⟨i.ifindex, n.addr, s.packet i.area (.linkStateUpdate (s.lookups i.area (asked entries)))⟩] := by
  have hlsas : (entries.filterMap fun e =>
      (s.lsdbFor i.area e.lsType).get (e.lsType, e.linkStateId, e.advertisingRouter)) = s.lookups i.area (asked entries) := by
    simp only [asked, lookups, List.filterMap_map]
    rfl
  rw [Builder.run, handleLsr, hi, hn]
  dsimp only
  rw [hlsas]
  split_ifs <;> simp [send]

theorem sent_handleLsu (i : Iface) (idx : ℕ) (nbrId src : Ipv4Addr) (sendBack : List LsaKey)
    (ackHeaders impliedAcks : List LsaHeader) :
    (Builder.run s (.handleLsu i idx nbrId src sendBack ackHeaders impliedAcks)).sent = s.sent ++
      ((if (s.lookups i.area sendBack).isEmpty then []
        else [⟨i.ifindex, src, s.packet i.area (.linkStateUpdate (s.lookups i.area sendBack))⟩]) ++
      if ackHeaders.isEmpty then [] else [⟨i.ifindex, src, s.packet i.area (.linkStateAck ackHeaders)⟩]) := by
  have hheld : (sendBack.filterMap fun k => (s.lsdbFor i.area k.1).get k) = s.lookups i.area sendBack := rfl
  rw [Builder.run, Update.answer]
  simp only [Update.new, hheld]
  by_cases hback : (s.lookups i.area sendBack).isEmpty = true <;> by_cases hacks : ackHeaders.isEmpty = true <;>
    simp [hback, hacks, send, modifyNeighbor, modifyIface, packet]

theorem sent_retransmitPending : (Builder.run s .retransmitPending).sent = s.sent ++
    s.ifaces.flatMap fun i => i.values.flatMap fun n =>
      (if n.isFull ∧ ¬ n.retransmitList.isEmpty then
        [⟨i.ifindex, n.addr, s.packet i.area (.linkStateUpdate (n.retransmitList.toList.map Prod.snd))⟩] else []) ++
      if n.state = .exchange ∨ n.state = .loading then
        (DbExchange.sendLsr n.toAdjacency).map fun m => ⟨i.ifindex, n.addr, s.packet i.area (s.exchangeBody i.area m)⟩
      else [] := by
  rw [Builder.run, retransmitPending, sendAll]
  simp only [List.map_append, apply_ite (List.map _), List.map_cons, List.map_nil, List.map_map]
  rfl

end Builder

/-- **What is built reaches the peer.** Every packet of these functions is read by a peer as it was built exactly when what
it carries fits the buffer, and each LSA in it has the length and checksum that it is encoded with. -/
theorem packets_arrive_iff (md5 : List UInt8 → Vector UInt8 16) (auth : Auth) (secs : UInt32) (ip : IpHeader) (s : Ospf)
    (b : Builder) : (∀ p ∈ b.packets s, Arrives md5 auth secs ip p) ↔ b.Fits s (room auth) := by
  cases b with
  | sendExchangeDd i n =>
    rw [Builder.packets_of_sent rfl, List.map_singleton, List.forall_mem_singleton]
    exact arrives_exchangeDd s i.area n.toAdjacency
  | sendLsr i n =>
    rw [Builder.packets_of_sent (sent_sendLsr s i n), List.map_map]
    exact arrives_requests s i n
  | handleLsr idx nbrId entries =>
    cases hi : s.iface? idx with
    | none =>
      have hsent : (Builder.run s (.handleLsr idx nbrId entries)).sent = s.sent ++ [] := by
        simp [Builder.run, handleLsr, hi]
      rw [Builder.packets_of_sent hsent]
      simp [Builder.Fits, hi]
    | some i =>
      cases hn : s.neighbor? idx nbrId with
      | none =>
        have hsent : (Builder.run s (.handleLsr idx nbrId entries)).sent = s.sent ++ [] := by
          simp [Builder.run, handleLsr, hi, hn]
        rw [Builder.packets_of_sent hsent]
        simp [Builder.Fits, hi, hn]
      | some n =>
        rw [Builder.packets_of_sent (sent_handleLsr s hi hn), arrives_update]
        simp [Builder.Fits, hi, hn]
  | handleLsu i idx nbrId src sendBack ackHeaders impliedAcks =>
    rw [Builder.packets_of_sent (sent_handleLsu s i idx nbrId src sendBack ackHeaders impliedAcks), List.map_append,
      List.forall_mem_append]
    exact and_congr (arrives_update s i.area _ _ _) (arrives_acks s i.area _ _ _)
  | retransmitPending =>
    rw [Builder.packets_of_sent (sent_retransmitPending s)]
    simp only [List.map_flatMap, List.forall_mem_flatMap, List.map_append, List.forall_mem_append]
    refine forall₂_congr fun i _ => forall₂_congr fun n _ => and_congr ?_ ?_
    · by_cases hfull : n.isFull = true
      · have hupdate := @arrives_update md5 auth secs ip s i.area i.ifindex n.addr (n.retransmitList.toList.map Prod.snd)
        have hempty : (n.retransmitList.toList.map Prod.snd).isEmpty = n.retransmitList.isEmpty := by
          rw [List.isEmpty_map, Std.ExtTreeMap.isEmpty_toList]
        rw [hempty] at hupdate
        simp only [hfull, true_and, forall_const, ← hupdate, ite_not]
      · simp [hfull]
    · by_cases hwaits : n.state = .exchange ∨ n.state = .loading
      · rw [if_pos hwaits, List.map_map]
        exact (arrives_requests s i n).trans ⟨fun h _ => h, fun h => h hwaits⟩
      · simp [hwaits]

/-- A neighbour of which 747 LSAs are requested, with as many link state ids. -/
def behind : OspfNeighbor :=
  { OspfNeighbor.new 2 0xc0000202 0 with
    state := .loading
    requestList := (List.range 747).map fun k => (.asExternal, BitVec.ofNat 32 k, 3) }

def edge : Link := ⟨1, 0xc0000201, 24, 0, false⟩

def plainHeader : IpHeader := ⟨0x45 :: List.replicate 19 0, rfl, rfl⟩

/-- A request for 747 LSAs is 20 + 24 + 747 * 12 = 9008 octets long. -/
theorem request_overflows : ¬ ∀ p ∈ Builder.packets (start (.default 1 .broadcast) [edge] ∅)
    (.sendLsr (startIface (.default 1 .broadcast) edge) behind),
    Arrives (fun _ => Vector.replicate 16 0) .null 0 plainHeader p := by
  intro h
  rw [Builder.packets_of_sent (sent_sendLsr _ _ behind), List.map_map] at h
  have hlen := (arrives_requests _ _ behind).mp h
  have hcount : behind.requestList.length = 747 := by simp [behind]
  rw [hcount] at hlen
  exact absurd hlen (by decide)

end Ospf
end Wren.Daemon
