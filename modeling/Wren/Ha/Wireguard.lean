import Wren.Filter.Grammar
import Wren.Ha.Witness
import Wren.Lib.Lines

/-! Data VPNs on promotion. The sessions of a standby are dropped and begun anew, from its own configuration and the
endpoints at which the peers were last seen. -/

namespace Wren.Ha.Wireguard
open Text
open Wren.Filter (trim)

inductive Error where
  | message (text : String)
  | decode
  | utf8
deriving DecidableEq

structure Endpoint where
  interface : Vector UInt8 16
  publicKey : Vector UInt8 32
  ip : Vector UInt8 16
  port : UInt16
  family : UInt8

structure Cache where
  cluster : String
  node : ℕ
  policy : String
  authority : Authority
  endpoints : List Endpoint

structure Config where
  cluster : String
  node : ℕ
  wireguard : List (List Char)
  wireguardPolicy : String

structure Role where
  authority : Authority
  claimedReadyTerm : ℕ

def Cache.validate (c : Cache) (config : Config) (role : Role) : Except Error Unit :=
  if c.cluster = config.cluster ∧ c.node = config.node ∧ c.policy = config.wireguardPolicy ∧
      c.authority.term ≤ role.authority.term ∧ c.endpoints.length ≤ 4096 then .ok ()
  else .error (.message "incompatible WireGuard HA snapshot")

/-- What is kept across attempts. -/
structure Recovery where
  policy : String
  interface : List Char
  config : List Char

/-! ### Socket addresses in writing -/

def digitsText (base n : ℕ) : List Char := if n = 0 then ['0'] else (Nat.digits base n).reverse.map Nat.digitChar

def ipv4Text (octets : List UInt8) : List Char := ['.'].intercalate (octets.map fun o => digitsText 10 o.toNat)

def groupsText (groups : List ℕ) : List Char := [':'].intercalate (groups.map (digitsText 16))

/-- The first of the longest runs of zeros: where it starts and how long it is. -/
def longestZeros (groups : List ℕ) : ℕ × ℕ :=
  (groups.zipIdx.foldl (fun (s : (ℕ × ℕ) × (ℕ × ℕ)) (g : ℕ × ℕ) =>
    if g.1 = 0 then
      let current := (if s.1.2 = 0 then g.2 else s.1.1, s.1.2 + 1)
      (current, if s.2.2 < current.2 then current else s.2)
    else ((0, 0), s.2)) ((0, 0), (0, 0))).2

def ipv6Text (octets : List UInt8) : List Char :=
  let groups := (List.range 8).map fun i => (octets.getD (2 * i) 0).toNat * 256 + (octets.getD (2 * i + 1) 0).toNat
  if groups.take 6 = [0, 0, 0, 0, 0, 0xffff] then "::ffff:".toList ++ ipv4Text (octets.drop 12)
  else
    let (start, len) := longestZeros groups
    if 1 < len then groupsText (groups.take start) ++ "::".toList ++ groupsText (groups.drop (start + len))
    else groupsText groups

inductive IpAddr where
  | v4 (octets : List UInt8)
  | v6 (octets : List UInt8)

namespace IpAddr

def isUnspecified : IpAddr → Bool
  | v4 octets | v6 octets => octets.all (· = 0)

def isMulticast : IpAddr → Bool
  | v4 octets => octets.getD 0 0 &&& 0xf0 = 0xe0
  | v6 octets => octets.getD 0 0 = 0xff

end IpAddr

def socketAddrText (port : UInt16) : IpAddr → List Char
  | .v4 octets => ipv4Text octets ++ ':' :: digitsText 10 port.toNat
  | .v6 octets => '[' :: ipv6Text octets ++ ']' :: ':' :: digitsText 10 port.toNat

/-! ### Endpoints -/

def Endpoint.name (e : Endpoint) (last : ℕ) : Except Error (List Char) :=
  match String.fromUTF8? ⟨(e.interface.toList.take last).toArray⟩ with
  | some name => .ok name.toList
  | none => .error .utf8

def Endpoint.addr (e : Endpoint) : Except Error IpAddr :=
  if e.family = 4 then
    if (e.ip.toList.drop 4).all (· = 0) then .ok (.v4 (e.ip.toList.take 4))
    else .error (.message "invalid replicated IPv4 padding")
  else if e.family = 6 then .ok (.v6 e.ip.toList)
  else .error (.message "invalid replicated endpoint family")

/-- The first entry for a peer of an interface. -/
def endpointFrom (interface : List Char) (publicKey : List UInt8) : List Endpoint → Except Error (Option (List Char))
  | [] => .ok none
  | e :: es =>
    match e.interface.toList.findIdx? (· = 0) with
    | none => .error (.message "invalid replicated WireGuard interface")
    | some last => do
      let name ← e.name last
      if ¬ (e.interface.toList.drop last).all (· = 0) then .error (.message "invalid replicated WireGuard padding")
      else if name = interface ∧ e.publicKey.toList = publicKey then
        if e.port = 0 then .error (.message "invalid replicated WireGuard port")
        else do
          let ip ← e.addr
          if ip.isUnspecified || ip.isMulticast then .error (.message "invalid replicated endpoint IP")
          else .ok (some (socketAddrText e.port ip))
      else endpointFrom interface publicKey es

/-- `decode` reads base 64. -/
def endpoint (decode : List Char → Option (List UInt8)) (cache : Cache) (interface key : List Char) :
    Except Error (Option (List Char)) :=
  match decode key with
  | none => .error .decode
  | some publicKey =>
    if publicKey.length = 32 then endpointFrom interface publicKey cache.endpoints
    else .error (.message "invalid configured WireGuard peer key")

/-! ### Configurations -/

def peerMark : List Char := "[Peer]".toList

def isKeepalive (line : List Char) : Bool := "PersistentKeepalive = ".toList.isPrefixOf (trim line)

def isEndpoint (line : List Char) : Bool := "Endpoint = ".toList.isPrefixOf (trim line)

def isBlank (line : List Char) : Bool := trim line = []

def endpointLine (endpoint : List Char) : List Char := "Endpoint = ".toList ++ endpoint

def keyOf (line : List Char) : Option (List Char) :=
  if "PublicKey = ".toList.isPrefixOf (trim line) then some ((trim line).drop "PublicKey = ".toList.length) else none

def publicKey (peer : List Char) : Option (List Char) := (lines peer).findSome? keyOf

/-- What follows the mark of a peer that is to call at once. -/
def promotedPeer (learned : Option (List Char)) (peer : List Char) : List Char :=
  '\n' :: (unlines (((lines peer).filter fun l => !isBlank l).filter fun l =>
      !(isKeepalive l || learned.isSome && isEndpoint l)) ++
    (match learned with
      | some e => endpointLine e ++ ['\n']
      | none => []) ++ "PersistentKeepalive = 1\n".toList)

def promotionConfig (decode : List Char → Option (List UInt8)) (original interface : List Char) (cache : Option Cache) :
    Except Error (List Char) :=
  match split peerMark original with
  | [] => .error (.message "missing WireGuard interface")
  | output :: parts =>
    if ¬ "[Interface]".toList <:+: output then .error (.message "invalid WireGuard interface configuration")
    else parts.foldlM (fun output peer => do
      let key ← (publicKey peer).elim (.error (.message "WireGuard peer has no public key")) .ok
      let learned ← cache.elim (.ok none) fun c => endpoint decode c interface key
      return output ++ peerMark ++ promotedPeer learned peer) output

/-- What follows the mark of a peer once it is to call as it did before. -/
def restoredPeer (old peer : List Char) : List Char :=
  '\n' :: (unlines ((lines peer).filter fun l => !isBlank l && !isKeepalive l) ++
    (match (lines old).find? isKeepalive with
      | some line => line ++ ['\n']
      | none => []))

def restoreKeepalive (original promoted : List Char) : Except Error (List Char) :=
  let originals := (split peerMark original).drop 1
  let sections := split peerMark promoted
  (sections.drop 1).zipIdx.foldlM (fun result (peer, index) =>
    match originals[index]? with
    | none => .error (.message "WireGuard peer count changed")
    | some old => .ok (result ++ peerMark ++ restoredPeer old peer)) (sections.headD [])

/-! ### Promotion -/

/-- The configuration that each interface has, and its recovery file. -/
structure Host where
  installed : List Char → List Char
  recovery : List Char → Option Recovery

inductive Effect where
  | writeRecovery (interface : List Char) (r : Recovery)
  | setconf (interface config : List Char)
  | syncconf (interface config : List Char)
  | removeRecovery (interface : List Char)

def Effect.apply (h : Host) : Effect → Host
  | writeRecovery interface r => { h with recovery := Function.update h.recovery interface (some r) }
  | setconf interface config | syncconf interface config =>
    { h with installed := Function.update h.installed interface config }
  | removeRecovery interface => { h with recovery := Function.update h.recovery interface none }

/-- What an attempt takes for the configuration of an interface. -/
def Host.original (h : Host) (config : Config) (interface : List Char) : List Char :=
  match h.recovery interface with
  | some saved =>
    if saved.policy = config.wireguardPolicy ∧ saved.interface = interface then saved.config else h.installed interface
  | none => h.installed interface

def validInterface (interface : List Char) : Bool :=
  interface ≠ [] ∧ interface.length < 16 ∧
    interface.all fun c => (c.isAlphanum : Bool) ∨ c = '-' ∨ c = '_' ∨ c = '.'

/-- What promotion does to one interface, one step after the other. -/
def effects (decode : List Char → Option (List UInt8)) (config : Config) (cache : Option Cache) (interface : List Char)
    (h : Host) : Except Error (List Effect) := do
  if ¬ validInterface interface then .error (.message "invalid HA WireGuard interface")
  let original := h.original config interface
  let promoted ← promotionConfig decode original interface cache
  let restored ← restoreKeepalive original promoted
  return [.writeRecovery interface ⟨config.wireguardPolicy, interface, restored⟩,
    .setconf interface ((split peerMark original).headD []), .setconf interface promoted, .syncconf interface restored,
    .removeRecovery interface]

/-- One attempt: the endpoint snapshot if it can be read, the role, and after how many steps it is interrupted. A step that
fails is an interruption too. -/
structure Attempt where
  cacheFile : Option Cache
  role : Role
  steps : ℕ

/-- The snapshot that promotion goes by. -/
def Attempt.cache (a : Attempt) (config : Config) : Except Error (Option Cache) :=
  match a.cacheFile with
  | some c => do
    c.validate config a.role
    return some c
  | none =>
    if 0 < a.role.claimedReadyTerm then .error (.message "complete WireGuard endpoint snapshot is required") else .ok none

/-- The interfaces one after the other, and whether all were done. -/
def promoteFrom (decode : List Char → Option (List UInt8)) (config : Config) (cache : Option Cache) :
    List (List Char) → ℕ → Host → Host × Bool
  | [], _, h => (h, true)
  | interface :: rest, steps, h =>
    match effects decode config cache interface h with
    | .error _ => (h, false)
    | .ok es =>
      if steps < es.length then ((es.take steps).foldl Effect.apply h, false)
      else promoteFrom decode config cache rest (steps - es.length) (es.foldl Effect.apply h)

def promote (decode : List Char → Option (List UInt8)) (config : Config) (a : Attempt) (h : Host) : Host × Bool :=
  if config.wireguard = [] then (h, true)
  else
    match a.cache config with
    | .error _ => (h, false)
    | .ok cache => promoteFrom decode config cache config.wireguard a.steps h

/-- Attempts one after the other. -/
def run (decode : List Char → Option (List UInt8)) (config : Config) (h : Host) (attempts : List Attempt) : Host :=
  attempts.foldl (fun h a => (promote decode config a h).1) h

end Wren.Ha.Wireguard
