import Wren.Bfd.Auth
import Wren.Bfd.Session
import Wren.Core.Prefix

/-! The engine that drives the BFD sessions. Instants are in nanoseconds. -/

namespace Wren.Daemon.Bfd
open Std Octets OrdMap Wren.Core Wren.Bfd

def micros (us : ℕ) : ℕ := us * 1000

/-- The peer's address, and the interface of a link-local one. -/
abbrev PeerKey := IpAddr × UInt32

abbrev Mac := BitVec 48

inductive BfdConsumer where
  | bgp
  | ospf
  | ospf3
  | isis
  | rip
  | babel
deriving DecidableEq

namespace BfdConsumer

def index : BfdConsumer → ℕ
  | bgp => 0
  | ospf => 1
  | ospf3 => 2
  | isis => 3
  | rip => 4
  | babel => 5

theorem index_injective : Function.Injective index := by
  intro a b h
  cases a <;> cases b <;> first | rfl | exact absurd h (by decide)

instance : Ord BfdConsumer := ⟨compareOn index⟩

instance : TransOrd BfdConsumer := inferInstanceAs (TransCmp (compareOn index))

instance : LawfulEqOrd BfdConsumer where
  eq_of_compare h := index_injective (LawfulEqOrd.eq_of_compare h)

end BfdConsumer

structure EchoParams where
  intervalUs : ℕ
  detectMult : UInt8

structure BfdConfig where
  session : SessionConfig
  auth : Option AuthConfig
  echo : Option EchoParams

structure Egress where
  ifindex : UInt32
  ifname : String
  ourIp : IpAddr

structure EchoState extends Egress where
  dstMac : Option Mac
  seq : UInt64
  nextTx : ℕ
  /-- When an Echo returned last, if one did since the session came up. -/
  lastRx : Option ℕ
  params : EchoParams

def EchoState.detectUs (e : EchoState) : ℕ := e.params.intervalUs * e.params.detectMult.toNat

structure PeerSession where
  peer : IpAddr
  sess : Session
  auth : Option AuthState
  nextTx : ℕ
  /-- Not armed before the neighbour is heard. -/
  detectDeadline : Option ℕ
  /-- The channels on which the subscribers hear of a session that goes down. -/
  subscribers : BTreeMap BfdConsumer ℕ
  echo : Option EchoState

/-- What the engine gives to sockets and channels. -/
inductive Output where
  | control (peer : IpAddr) (octets : List UInt8)
  | echo (ourIp : IpAddr) (discr : UInt32) (seq : UInt64) (dst : Mac) (ifindex : UInt32)
  | down (channel : ℕ) (peer : IpAddr)

/-- Which families have a socket for Echo packets. -/
structure EchoSocks where
  v4 : Bool
  v6 : Bool

def EchoSocks.any (socks : EchoSocks) : Bool := socks.v4 || socks.v6

def EchoSocks.of (socks : EchoSocks) : IpAddr → Bool
  | .v4 _ => socks.v4
  | .v6 _ => socks.v6

namespace PeerSession

/-- A new session begins its handshake at once. A key of its own wins over that of the engine. -/
def new (cfg : BfdConfig) (now : ℕ) (peer : IpAddr) (discr : UInt32) (consumer : BfdConsumer) (notify : ℕ)
    (auth : Option AuthConfig) (egress : Option Egress) : PeerSession where
  peer
  sess := Session.new discr cfg.session
  auth := (auth <|> cfg.auth).map fun a => a.newState cfg.session.detectMult
  nextTx := now
  detectDeadline := none
  subscribers := (∅ : BTreeMap BfdConsumer ℕ).insert consumer notify
  echo := cfg.echo.bind fun params => egress.map fun e =>
    { toEgress := e, dstMac := none, seq := 0, nextTx := now, lastRx := none, params }

def notifyDown (s : PeerSession) : List Output := s.subscribers.toList.map fun e => .down e.2 s.peer

/-- A packet of an authenticated session has to pass, one of another session must not carry authentication. -/
def authenticate (s : PeerSession) (buf : List UInt8) (pkt : ControlPacket) : Option AuthState × Bool :=
  match s.auth with
  | some st =>
    if !pkt.authPresent then (some st, false)
    else
      let verified := st.verify buf
      (some verified.1, verified.2)
  | none => (none, !pkt.authPresent)

def onReceive (now : ℕ) (buf : List UInt8) (s : PeerSession) : PeerSession × List Output :=
  match ControlPacket.decode buf with
  | none => (s, [])
  | some pkt =>
    let authentic := s.authenticate buf pkt
    let s := { s with auth := authentic.1 }
    if !authentic.2 then (s, [])
    else
      let folded := s.sess.onPacket pkt
      let s := { s with sess := folded.1 }
      let deadline := now + micros s.sess.detectionTimeUs
      match folded.2 with
      | some t =>
        ({ s with nextTx := now, detectDeadline := some deadline },
          if t.src = .up ∧ t.dst = .down then s.notifyDown else [])
      | none => ({ s with detectDeadline := some deadline }, [])

/-- Fire the detection timer. It is disarmed where that brings the session down. -/
def expire (now : ℕ) (s : PeerSession) : PeerSession × List Output :=
  match s.detectDeadline with
  | some d =>
    if d ≤ now then
      match s.sess.onDetectTimeout with
      | (sess, some t) =>
        ({ s with sess, detectDeadline := none, nextTx := now }, if t.src = .up then s.notifyDown else [])
      | (sess, none) => ({ s with sess }, [])
    else (s, [])
  | none => (s, [])

def transmit (now : ℕ) (s : PeerSession) : PeerSession × List Output :=
  if s.nextTx ≤ now then
    let built := s.sess.buildControl
    let signed := match s.auth with
      | some st =>
        let appended := st.append built.2.encode
        (some appended.1, appended.2)
      | none => (none, built.2.encode)
    ({ s with
        sess := built.1
        auth := signed.1
        nextTx := now + micros built.1.transmitIntervalUs }, [.control s.peer signed.2])
  else (s, [])

def service (now : ℕ) (s : PeerSession) : PeerSession × List Output :=
  let expired := s.expire now
  let sent := expired.1.transmit now
  (sent.1, expired.2 ++ sent.2)

/-- Send an Echo that is due, if its family has a socket and the neighbour's link address is known. -/
def transmitEcho (socks : EchoSocks) (mac : Option Mac) (now : ℕ) (s : PeerSession) (echo : EchoState) :
    PeerSession × List Output :=
  if now < echo.nextTx then (s, [])
  else if !socks.of s.peer then (s, [])
  else
    let echo := { echo with dstMac := echo.dstMac <|> mac, nextTx := now + micros echo.params.intervalUs }
    match echo.dstMac with
    | none => ({ s with echo := some echo }, [])
    | some dst =>
      ({ s with echo := some { echo with seq := echo.seq + 1 } },
        [.echo echo.ourIp s.sess.localDiscr echo.seq dst echo.ifindex])

/-- A session that is up fails where its Echo stopped returning. -/
def failEcho (now : ℕ) (s : PeerSession) (echo : EchoState) : PeerSession × List Output :=
  let s := { s with echo := some { echo with lastRx := none } }
  match s.sess.onEchoTimeout with
  | (sess, some t) =>
    ({ s with sess, detectDeadline := none, nextTx := now }, if t.src = .up then s.notifyDown else [])
  | (sess, none) => ({ s with sess }, [])

def serviceEcho (socks : EchoSocks) (mac : Option Mac) (now : ℕ) (s : PeerSession) : PeerSession × List Output :=
  match s.echo with
  | none => (s, [])
  | some echo =>
    if s.sess.state ≠ .up then ({ s with echo := some { echo with lastRx := none } }, [])
    else
      match echo.lastRx with
      | some last =>
        if micros echo.detectUs < now - last then s.failEcho now echo else s.transmitEcho socks mac now echo
      | none => s.transmitEcho socks mac now echo

/-- The instants at which there is something to do for the session. -/
def deadlines (s : PeerSession) : List ℕ :=
  s.nextTx :: s.detectDeadline.toList ++
    match s.echo with
    | some echo =>
      if s.sess.state = .up then echo.nextTx :: (echo.lastRx.map (· + micros echo.detectUs)).toList else []
    | none => []

end PeerSession

structure Engine where
  sessions : BTreeMap PeerKey PeerSession
  nextDiscr : UInt32

namespace Engine

def start : Engine where
  sessions := ∅
  nextDiscr := 1

/-- `txOk` is whether the transmit socket opens, `egress` the way to the peer if there is one. -/
def register (cfg : BfdConfig) (now : ℕ) (key : PeerKey) (consumer : BfdConsumer) (notify : ℕ) (auth : Option AuthConfig)
    (txOk : Bool) (egress : Option Egress) (w : Engine) : Engine :=
  match w.sessions[key]? with
  | some s => { w with sessions := w.sessions.insert key { s with subscribers := s.subscribers.insert consumer notify } }
  | none =>
    if !txOk then w
    else
      { sessions := w.sessions.insert key (.new cfg now key.1 w.nextDiscr consumer notify auth egress)
        nextDiscr := w.nextDiscr + 1 }

def deregister (key : PeerKey) (consumer : BfdConsumer) (w : Engine) : Engine :=
  match w.sessions[key]? with
  | none => w
  | some s =>
    let subscribers := s.subscribers.erase consumer
    if subscribers.isEmpty then { w with sessions := w.sessions.erase key }
    else { w with sessions := w.sessions.insert key { s with subscribers } }

def onReceive (now : ℕ) (buf : List UInt8) (key : PeerKey) (w : Engine) : Engine × List Output :=
  match w.sessions[key]? with
  | none => (w, [])
  | some s =>
    let received := s.onReceive now buf
    ({ w with sessions := w.sessions.insert key received.1 }, received.2)

/-- An Echo that returns is told by the discriminator in it. -/
def onEchoReceive (now : ℕ) (discr : UInt32) (w : Engine) : Engine :=
  match w.sessions.toList.find? fun e => e.2.sess.localDiscr = discr with
  | none => w
  | some (key, s) =>
    match s.echo with
    | none => w
    | some echo => { w with sessions := w.sessions.insert key { s with echo := some { echo with lastRx := some now } } }

/-- One of the passes over all sessions. -/
def each (f : PeerKey → PeerSession → PeerSession × List Output) (w : Engine) : Engine × List Output :=
  ({ w with sessions := w.sessions.map fun key s => (f key s).1 }, w.sessions.toList.flatMap fun e => (f e.1 e.2).2)

def service (now : ℕ) (w : Engine) : Engine × List Output := w.each fun _ s => s.service now

/-- `macs` is the kernel's neighbour cache. Without any socket there is nothing to do. -/
def serviceEcho (socks : EchoSocks) (macs : PeerKey → Option Mac) (now : ℕ) (w : Engine) : Engine × List Output :=
  if !socks.any then (w, []) else w.each fun key s => s.serviceEcho socks (macs key) now

/-- Both passes, which follow every event. -/
def pass (socks : EchoSocks) (macs : PeerKey → Option Mac) (now : ℕ) (w : Engine) : Engine × List Output :=
  let served := w.service now
  let echoed := served.1.serviceEcho socks macs now
  (echoed.1, served.2 ++ echoed.2)

def earliest (wake : Option ℕ) (t : ℕ) : Option ℕ := some (wake.elim t (min · t))

def nextWakeup (w : Engine) : Option ℕ :=
  w.sessions.toList.foldl (fun wake e => e.2.deadlines.foldl earliest wake) none

end Engine

inductive Event where
  | register (now : ℕ) (key : PeerKey) (consumer : BfdConsumer) (notify : ℕ) (auth : Option AuthConfig) (txOk : Bool)
      (egress : Option Egress)
  | deregister (key : PeerKey) (consumer : BfdConsumer)
  | receive (now : ℕ) (buf : List UInt8) (key : PeerKey)
  | echoReceive (now : ℕ) (discr : UInt32)
  | pass (macs : PeerKey → Option Mac) (now : ℕ)

def step (cfg : BfdConfig) (socks : EchoSocks) (w : Engine) : Event → Engine
  | .register now key consumer notify auth txOk egress => w.register cfg now key consumer notify auth txOk egress
  | .deregister key consumer => w.deregister key consumer
  | .receive now buf key => (w.onReceive now buf key).1
  | .echoReceive now discr => w.onEchoReceive now discr
  | .pass macs now => (w.pass socks macs now).1

end Wren.Daemon.Bfd
