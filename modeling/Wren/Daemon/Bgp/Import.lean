import Wren.Bgp.Rib
import Wren.Daemon.Bgp.Policy

/-! How the unicast part of a received UPDATE enters the Adj-RIB-In, and when an entry fails to
follow what the peer last said about it. -/

namespace Wren.Daemon.Bgp
open Wren.Core Wren.Bgp Replica

/-- A destination and the path identifier it is named under. -/
abbrev NlriKey := Prefix × UInt32

instance : LawfulBEq NlriKey := inferInstance

/-- What the central task applies to the UPDATEs of one peer. -/
structure ImportPolicy where
  loc : Local
  importFilter : Option Filter
  requirePolicy : Bool
  role : Option BgpRole
  roa : RoaTable
  rpkiReject : Bool

/-- An UPDATE and the session it came over. -/
structure UpdateMsg where
  facts : PeerFacts
  ingressIface : Option String
  update : Update

/-- Prefixes with the path identifiers beside them, zero where there is none. -/
def withIds : List Prefix → List UInt32 → List NlriKey
  | [], _ => []
  | p :: ps, [] => (p, 0) :: withIds ps []
  | p :: ps, i :: ids => (p, i) :: withIds ps ids

/-- The withdrawals that are acted on: the base field, and MP_UNREACH_NLRI for IPv6. -/
def withdrawals (u : Update) : List NlriKey :=
  withIds u.withdrawn u.withdrawnPathIds ++ (mpUnreachV6 u).map fun p => (p, 0)

/-- The loop checks, each of which ends the handling of an UPDATE. -/
def isLoop (loc : Local) (u : Update) : Bool :=
  isAsPathLoop u loc.localAs || isConfedLoop u loc.localAs ||
    isReflectionLoop u loc.routerId loc.clusterId

def UpdateMsg.withdrawOps (m : UpdateMsg) : List BgpRib.Op :=
  (withdrawals m.update).map fun k => .withdraw m.facts.addr k.2 k.1

namespace ImportPolicy
variable (pol : ImportPolicy)

def otc (m : UpdateMsg) : Bool × Option UInt32 :=
  otcIngress (pol.role.map BgpRole.complement) (otcFromUpdate m.update) m.facts.asn

/-- Default-deny or a route leak: the unicast reachability is dropped. -/
def rejectReach (m : UpdateMsg) : Bool :=
  rfc8212Deny pol.requirePolicy m.facts.fromEbgp pol.importFilter.isSome || (pol.otc m).1

/-- The path of an UPDATE for one of its next hops, with the OTC value to stamp on it. -/
def stampedPath (m : UpdateMsg) (nextHop : IpAddr) (iface : Option String) : Path :=
  let path := buildPath m.update nextHop iface m.facts
  { path with otc := path.otc <|> (pol.otc m).2 }

/-- A link-local next hop is pinned to the interface of the session. -/
def v6Path (m : UpdateMsg) (nh : Ipv6Addr) (linkLocal : Bool) : Path :=
  pol.stampedPath m (.v6 nh) (if linkLocal then m.ingressIface else none)

/-- IPv4 networks with the base next hop. Without one they are ignored. -/
def baseReach (m : UpdateMsg) : List (NlriKey × Path) :=
  (baseNextHop m.update).elim [] fun nh =>
    (withIds m.update.nlri m.update.nlriPathIds).map fun k => (k, pol.stampedPath m (.v4 nh) none)

def mpReach (m : UpdateMsg) (reach : Option (Ipv6Addr × List Prefix × Bool)) :
    List (NlriKey × Path) :=
  reach.elim [] fun (nh, nlri, ll) => nlri.map fun p => ((p, 0), pol.v6Path m nh ll)

/-- The reachable networks and their paths, in the order in which they are installed. -/
def reachability (m : UpdateMsg) : List (NlriKey × Path) :=
  pol.baseReach m ++ pol.mpReach m (mpReachV6 m.update) ++ pol.mpReach m (mpReachV4OverV6 m.update)

theorem stampedPath_of_mem_reachability {pol : ImportPolicy} {m : UpdateMsg} {k : NlriKey} {path : Path}
    (h : (k, path) ∈ pol.reachability m) : ∃ nextHop iface, path = pol.stampedPath m nextHop iface := by
  have hmp : ∀ reach, (k, path) ∈ pol.mpReach m reach → ∃ nextHop iface, path = pol.stampedPath m nextHop iface := by
    intro reach hmem
    cases reach with
    | none => cases hmem
    | some r =>
      obtain ⟨p, -, heq⟩ := List.mem_map.mp hmem
      cases heq
      exact ⟨_, _, rfl⟩
  rcases List.mem_append.mp h with h | h
  · rcases List.mem_append.mp h with h | h
    · unfold baseReach at h
      cases hnh : baseNextHop m.update with
      | none => simp [hnh] at h
      | some nh =>
        rw [hnh] at h
        obtain ⟨k', -, heq⟩ := List.mem_map.mp h
        cases heq
        exact ⟨_, _, rfl⟩
    · exact hmp _ h
  · exact hmp _ h

def rpkiInvalid (p : Prefix) (path : Path) : Bool :=
  pol.rpkiReject && !pol.roa.isEmpty &&
    pol.roa.validate p ((originAs path.asPath).getD path.peerAs) == .invalid

/-- What is left of a path after origin validation and the import filter. -/
def accepted (p : Prefix) (path : Path) : Option Path :=
  if pol.rpkiInvalid p path then none else filterPath pol.importFilter p path

/-- A network that is not accepted is withdrawn. -/
def importAndInstall (peer : IpAddr) (e : NlriKey × Path) : BgpRib.Op :=
  match pol.accepted e.1.1 e.2 with
  | some path => .update peer e.1.2 e.1.1 path
  | none => .withdraw peer e.1.2 e.1.1

def installOps (m : UpdateMsg) : List BgpRib.Op :=
  if pol.rejectReach m then [] else (pol.reachability m).map (pol.importAndInstall m.facts.addr)

/-- The unicast part of an UPDATE of a peer without a prefix limit. -/
def handleUpdate (rib : BgpRib) (m : UpdateMsg) : BgpRib :=
  let rib := m.withdrawOps.foldl BgpRib.step rib
  if isLoop pol.loc m.update then rib else (pol.installOps m).foldl BgpRib.step rib

end ImportPolicy

/-! What the peer said, without regard to how the UPDATE is handled. -/

/-- MP_UNREACH_NLRI for IPv4. -/
def mpUnreachV4 (u : Update) : List Prefix :=
  (u.attributes.findSome? fun
    | .mpUnreachNlri afi safi withdrawn =>
      if afi = afiIpv4 ∧ safi = safiUnicast then some withdrawn else none
    | _ => none).getD []

/-- The networks of a multiprotocol attribute. -/
def mpKeys (reach : Option (Ipv6Addr × List Prefix × Bool)) : List NlriKey :=
  reach.elim [] fun (_, nlri, _) => nlri.map fun p => (p, 0)

def baseKeys (u : Update) : List NlriKey := withIds u.nlri u.nlriPathIds

def reachKeys (u : Update) : List NlriKey :=
  baseKeys u ++ mpKeys (mpReachV6 u) ++ mpKeys (mpReachV4OverV6 u)

/-- Everything an UPDATE names, whether to withdraw it or to make it reachable. -/
def named (u : Update) : List NlriKey :=
  withdrawals u ++ (mpUnreachV4 u).map (fun p => (p, 0)) ++ reachKeys u

namespace ImportPolicy
variable (pol : ImportPolicy)

/-- Reachability that is refused as a whole. -/
def refused (m : UpdateMsg) : Bool := isLoop pol.loc m.update || pol.rejectReach m

def clear (keys : List NlriKey) : List (Delta NlriKey Path) := keys.map fun k => ⟨k, none⟩

def reachDeltas (entries : List (NlriKey × Path)) : List (Delta NlriKey Path) :=
  entries.map fun e => ⟨e.1, pol.accepted e.1.1 e.2⟩

/-- The message of an UPDATE for each network it names, in the order in which RFC 4271 takes them:
first what it withdraws, then what it makes reachable, unless that is refused. -/
def said (m : UpdateMsg) : List (Delta NlriKey Path) :=
  clear (withdrawals m.update) ++ clear ((mpUnreachV4 m.update).map fun p => (p, 0)) ++
    if pol.refused m then clear (reachKeys m.update)
    else (if (baseNextHop m.update).isSome then [] else clear (baseKeys m.update)) ++
      pol.reachDeltas (pol.reachability m)

/-- What an UPDATE leaves of the peer's path for a network it names. -/
def outcome (m : UpdateMsg) (k : NlriKey) : Option Path := replay (fun _ => none) (pol.said m) k

/-- The messages that are acted on. -/
def done (m : UpdateMsg) : List (Delta NlriKey Path) :=
  clear (withdrawals m.update) ++ if pol.refused m then [] else pol.reachDeltas (pol.reachability m)

/-- The networks an UPDATE names without effect. -/
def silent (m : UpdateMsg) : List NlriKey :=
  (mpUnreachV4 m.update).map (fun p => (p, 0)) ++
    if pol.refused m then reachKeys m.update
    else if (baseNextHop m.update).isSome then [] else baseKeys m.update

/-- The networks an UPDATE has an effect on. -/
def acted (m : UpdateMsg) : List NlriKey :=
  withdrawals m.update ++ if pol.refused m then [] else (pol.reachability m).map Prod.fst

end ImportPolicy

/-- The peer's path for a network and path identifier. -/
def held (peer : IpAddr) (rib : BgpRib) (k : NlriKey) : Option Path := rib.offer k.1 (peer, k.2)

theorem held_foldl_withdraw (peer : IpAddr) (rib : BgpRib) (keys : List NlriKey) :
    held peer ((keys.map fun k => BgpRib.Op.withdraw peer k.2 k.1).foldl BgpRib.step rib) =
      replay (held peer rib) (ImportPolicy.clear keys) := by
  induction keys generalizing rib with
  | nil => rfl
  | cons k keys ih =>
    have hstep : held peer (rib.step (.withdraw peer k.2 k.1)) =
        Delta.apply (held peer rib) ⟨k, none⟩ := by
      funext y
      simp [held, BgpRib.offer_withdraw, Delta.apply, Function.update_apply, Prod.ext_iff]
    rw [List.map_cons, List.foldl_cons, ih, hstep]
    rfl

namespace ImportPolicy
variable (pol : ImportPolicy)

theorem held_foldl_install (peer : IpAddr) (rib : BgpRib) (entries : List (NlriKey × Path)) :
    held peer ((entries.map (pol.importAndInstall peer)).foldl BgpRib.step rib) =
      replay (held peer rib) (pol.reachDeltas entries) := by
  induction entries generalizing rib with
  | nil => rfl
  | cons e entries ih =>
    have hstep : held peer (rib.step (pol.importAndInstall peer e)) =
        Delta.apply (held peer rib) ⟨e.1, pol.accepted e.1.1 e.2⟩ := by
      funext y
      cases hacc : pol.accepted e.1.1 e.2 with
      | none =>
        simp [held, importAndInstall, hacc, BgpRib.offer_withdraw, Delta.apply, Function.update_apply,
          Prod.ext_iff]
      | some path =>
        simp [held, importAndInstall, hacc, BgpRib.offer_update, Delta.apply, Function.update_apply,
          Prod.ext_iff]
    rw [List.map_cons, List.foldl_cons, ih, hstep]
    rfl

theorem held_handleUpdate (rib : BgpRib) (m : UpdateMsg) :
    held m.facts.addr (pol.handleUpdate rib m) = replay (held m.facts.addr rib) (pol.done m) := by
  have hw := held_foldl_withdraw m.facts.addr rib (withdrawals m.update)
  rw [done, replay_append, ← hw]
  unfold handleUpdate refused installOps UpdateMsg.withdrawOps
  cases hloop : isLoop pol.loc m.update with
  | true => rfl
  | false =>
    cases hrej : pol.rejectReach m with
    | true => rfl
    | false => exact held_foldl_install pol m.facts.addr _ (pol.reachability m)

theorem map_fst_mpReach (m : UpdateMsg) (reach : Option (Ipv6Addr × List Prefix × Bool)) :
    (pol.mpReach m reach).map Prod.fst = mpKeys reach := by
  cases reach with
  | none => rfl
  | some r => simp [mpReach, mpKeys]

theorem map_fst_baseReach (m : UpdateMsg) :
    (pol.baseReach m).map Prod.fst = if (baseNextHop m.update).isSome then baseKeys m.update else [] := by
  cases h : baseNextHop m.update with
  | none => simp [baseReach, h]
  | some nh =>
    simp only [baseReach, baseKeys, h, Option.elim_some, List.map_map, Option.isSome_some, if_true]
    exact List.map_id _

theorem map_key_reachDeltas (entries : List (NlriKey × Path)) :
    (pol.reachDeltas entries).map Delta.key = entries.map Prod.fst := by
  simp [reachDeltas]

theorem map_fst_reachability (m : UpdateMsg) :
    (pol.reachability m).map Prod.fst =
      (if (baseNextHop m.update).isSome then baseKeys m.update else []) ++
        mpKeys (mpReachV6 m.update) ++ mpKeys (mpReachV4OverV6 m.update) := by
  simp only [reachability, List.map_append, map_fst_baseReach, map_fst_mpReach]

theorem mem_named_of_mem_acted {m : UpdateMsg} {k : NlriKey} (hk : k ∈ pol.acted m) :
    k ∈ named m.update := by
  unfold acted at hk
  rw [map_fst_reachability] at hk
  unfold named reachKeys
  cases href : pol.refused m <;> cases hnh : (baseNextHop m.update).isSome <;>
    simp only [href, hnh, if_true, Bool.false_eq_true, if_false, List.mem_append, List.append_nil,
      List.not_mem_nil, false_or] at hk ⊢ <;> tauto

/-- Where an UPDATE has no effect although it names the network, it was to leave nothing. -/
theorem mem_silent_iff {m : UpdateMsg} {k : NlriKey} (hk : k ∉ pol.acted m) :
    k ∈ pol.silent m ↔ k ∈ named m.update := by
  unfold silent named reachKeys
  unfold acted at hk
  rw [map_fst_reachability] at hk
  cases href : pol.refused m with
  | true =>
    simp only [href, if_true, List.append_nil] at hk
    simp [hk]
  | false =>
    cases hnh : (baseNextHop m.update).isSome with
    | true =>
      simp only [href, hnh, if_true, Bool.false_eq_true, if_false, List.mem_append, not_or] at hk
      simp [hk]
    | false =>
      simp only [href, hnh, Bool.false_eq_true, if_false, List.mem_append, not_or] at hk
      simp [hk]

/-- The reachability that is acted on. -/
def installed (m : UpdateMsg) : List (Delta NlriKey Path) :=
  if pol.refused m then [] else pol.reachDeltas (pol.reachability m)

theorem said_eq (m : UpdateMsg) :
    pol.said m = clear (withdrawals m.update ++ pol.silent m) ++ pol.installed m := by
  unfold said silent installed clear
  cases pol.refused m with
  | true => simp
  | false => cases (baseNextHop m.update).isSome <;> simp

theorem mem_acted {m : UpdateMsg} {k : NlriKey} :
    k ∈ pol.acted m ↔ k ∈ withdrawals m.update ∨ k ∈ (pol.installed m).map Delta.key := by
  unfold acted installed
  cases pol.refused m <;> simp [map_key_reachDeltas]

theorem mem_reachKeys_of_mem_installed {m : UpdateMsg} {k : NlriKey}
    (hk : k ∈ (pol.installed m).map Delta.key) : k ∈ reachKeys m.update := by
  unfold installed at hk
  split_ifs at hk
  · cases hk
  · rw [map_key_reachDeltas, map_fst_reachability] at hk
    unfold reachKeys
    split_ifs at hk
    · exact hk
    · simp only [List.nil_append, List.mem_append] at hk ⊢
      tauto

theorem replay_done_of_notMem (offer : NlriKey → Option Path) {m : UpdateMsg} {k : NlriKey}
    (hk : k ∉ (pol.installed m).map Delta.key) :
    replay offer (pol.done m) k = replay offer (clear (withdrawals m.update)) k := by
  have hdone : pol.done m = clear (withdrawals m.update) ++ pol.installed m := rfl
  rw [hdone, replay_append, replay_of_notMem _ _ _ hk]

/-- A path that an UPDATE installed was accepted, and its reachability not refused as a whole. -/
theorem accepted_of_replay_done {offer : NlriKey → Option Path} {m : UpdateMsg} {k : NlriKey} {path : Path}
    (hk : k ∈ (pol.installed m).map Delta.key) (h : replay offer (pol.done m) k = some path) :
    pol.refused m = false ∧ ∃ raw, pol.accepted k.1 raw = some path := by
  have hdone : pol.done m = clear (withdrawals m.update) ++ pol.installed m := rfl
  have href : pol.refused m = false := by
    cases href : pol.refused m with
    | true => simp [installed, href] at hk
    | false => rfl
  refine ⟨href, ?_⟩
  rcases exists_last Delta.key (pol.installed m) k with hnot | ⟨l, d, r, heq, hkey, hlast⟩
  · exact absurd hk hnot
  · have hmem : d ∈ pol.reachDeltas (pol.reachability m) := by
      have hd : d ∈ pol.installed m := by simp [heq]
      simpa [installed, href] using hd
    obtain ⟨e, -, rfl⟩ := List.mem_map.mp hmem
    rw [hdone, heq, ← List.append_assoc, ← hkey, replay_of_last _ _ _ _ (hkey ▸ hlast)] at h
    exact ⟨e.2, hkey ▸ h⟩

/-- What an import filter is there for. -/
theorem filter_of_accepted {x : Prefix} {raw path : Path} (h : pol.accepted x raw = some path) :
    filterPath pol.importFilter x raw = some path := by
  unfold accepted at h
  split_ifs at h
  exact h

/-- What a peer said and what was done about it, network by network. -/
theorem replay_said (s : NlriKey → Option Path) (m : UpdateMsg) (k : NlriKey) :
    replay s (pol.said m) k =
      if k ∈ named m.update ∧ k ∉ pol.acted m then none else replay s (pol.done m) k := by
  have hdone : pol.done m = clear (withdrawals m.update) ++ pol.installed m := rfl
  have hclear : ∀ keys : List NlriKey, replay s (clear keys) k = if k ∈ keys then none else s k := by
    intro keys
    rw [clear, replay_clear]
    split_ifs <;> rfl
  rw [said_eq, hdone, replay_append, replay_append]
  by_cases hin : k ∈ (pol.installed m).map Delta.key
  · rw [if_neg (fun h => h.2 (pol.mem_acted.mpr (Or.inr hin)))]
    exact replay_eq_of_mem _ _ hin
  · rw [replay_of_notMem _ _ _ hin, replay_of_notMem _ _ _ hin, hclear, hclear]
    by_cases hw : k ∈ withdrawals m.update
    · simp [hw]
    · have hact : k ∉ pol.acted m := by
        rw [mem_acted]
        exact not_or.mpr ⟨hw, hin⟩
      simp [hw, hact, pol.mem_silent_iff hact]

/-- The peer holds a path for a network that the UPDATE names and that it has no effect on. -/
def Survives (rib : BgpRib) (m : UpdateMsg) (k : NlriKey) : Prop :=
  held m.facts.addr rib k ≠ none ∧ k ∈ named m.update ∧ k ∉ pol.acted m

/-- An UPDATE is followed exactly where no older path survives it. -/
theorem held_eq_said_iff (rib : BgpRib) (m : UpdateMsg) :
    held m.facts.addr (pol.handleUpdate rib m) = replay (held m.facts.addr rib) (pol.said m) ↔
      ∀ k, ¬ pol.Survives rib m k := by
  rw [held_handleUpdate, funext_iff]
  refine forall_congr' fun k => ?_
  rw [replay_said, Survives]
  by_cases hk : k ∈ named m.update ∧ k ∉ pol.acted m
  · have hdone : k ∉ (pol.done m).map Delta.key := by
      intro hmem
      apply hk.2
      rw [mem_acted]
      simpa [done, installed, clear] using hmem
    rw [if_pos hk, replay_of_notMem _ _ _ hdone]
    simp [hk]
  · rw [if_neg hk]
    simp [hk]

theorem map_key_said (m : UpdateMsg) (k : NlriKey) :
    k ∈ (pol.said m).map Delta.key ↔ k ∈ named m.update := by
  have hclear : ∀ keys : List NlriKey, (clear keys).map Delta.key = keys := by
    intro keys
    rw [clear, List.map_map]
    exact List.map_id keys
  rw [said_eq, List.map_append, hclear]
  by_cases hact : k ∈ pol.acted m
  · have hnamed := pol.mem_named_of_mem_acted hact
    have hmem := pol.mem_acted.mp hact
    simp only [List.mem_append, hnamed, iff_true]
    tauto
  · have hmem := hact
    rw [mem_acted, not_or] at hmem
    simp [hmem, pol.mem_silent_iff hact]

end ImportPolicy

/-- The session of one peer: what its UPDATEs are tagged with, and the policy they meet. -/
structure ReceiveSession where
  pol : ImportPolicy
  facts : PeerFacts
  ingressIface : Option String

/-- The UPDATE that last named a network. -/
def lastNaming (us : List Update) (k : NlriKey) : Option Update :=
  us.reverse.find? fun u => k ∈ named u

namespace ReceiveSession
variable (sess : ReceiveSession)

def msg (u : Update) : UpdateMsg := ⟨sess.facts, sess.ingressIface, u⟩

def receive (rib : BgpRib) (u : Update) : BgpRib := sess.pol.handleUpdate rib (sess.msg u)

/-- For each network the peer's path is what the last UPDATE that named it left, and the one it was
at the start if there is none. -/
def Follows (rib : BgpRib) (us : List Update) : Prop :=
  ∀ k, held sess.facts.addr (us.foldl sess.receive rib) k =
    (lastNaming us k).elim (held sess.facts.addr rib k) fun u => sess.pol.outcome (sess.msg u) k

def tell (s : NlriKey → Option Path) (u : Update) : NlriKey → Option Path :=
  replay s (sess.pol.said (sess.msg u))

/-- The last word of the peer is all of its words, one after the other. -/
theorem foldl_tell (s : NlriKey → Option Path) (us : List Update) (k : NlriKey) :
    us.foldl sess.tell s k = (lastNaming us k).elim (s k) fun u => sess.pol.outcome (sess.msg u) k := by
  induction us using List.reverseRecOn with
  | nil => rfl
  | append_singleton us u ih =>
    have hkeys := sess.pol.map_key_said (sess.msg u) k
    rw [List.foldl_append, List.foldl_cons, List.foldl_nil, tell, lastNaming, List.reverse_append]
    by_cases hk : k ∈ named u
    · simp only [List.reverse_singleton, List.singleton_append, List.find?_cons, hk, decide_true]
      exact replay_eq_of_mem _ _ (hkeys.mpr hk)
    · simp only [List.reverse_singleton, List.singleton_append, List.find?_cons, hk, decide_false]
      rw [replay_of_notMem _ _ _ (fun h => hk (hkeys.mp h)), ih]
      rfl

/-- A path of the peer outlives an UPDATE that names it, and only that, wherever the Adj-RIB-In
fails to follow the peer. -/
theorem follows_iff (rib : BgpRib) (us : List Update) :
    (∀ vs, vs <+: us → sess.Follows rib vs) ↔
      Run.Every sess.receive (fun rib u => ∀ k, ¬ sess.pol.Survives rib (sess.msg u) k) rib us := by
  have hspec : ∀ vs, sess.Follows rib vs ↔
      held sess.facts.addr (vs.foldl sess.receive rib) = vs.foldl sess.tell (held sess.facts.addr rib) := by
    intro vs
    rw [funext_iff]
    exact forall_congr' fun k => by rw [foldl_tell]
  simp only [hspec]
  rw [Run.forall_prefix_iff_every (held sess.facts.addr) sess.tell rib us]
  exact Run.every_congr (fun _ => True) (fun _ _ h => h)
    (fun rib u _ => sess.pol.held_eq_said_iff rib (sess.msg u)) trivial us

end ReceiveSession

namespace Sample

def net10 : Prefix := ⟨.v4 0x0a000000, 8, Prefix.net10_len_le, Prefix.net10_masked⟩

/-- The neighbour `192.0.2.o`. -/
def addr (o : UInt8) : IpAddr := .v4 (0xc0000200 + o.toBitVec.setWidth 32)

/-- The speaker in AS 65000. -/
def loc : Local := ⟨65000, 1, 1, none, none⟩

/-- An external session with the neighbour `192.0.2.o` in AS `65000 + o`. -/
def facts (o : UInt8) : PeerFacts := ⟨addr o, 65000 + o.toUInt32, o.toBitVec.setWidth 32, true, false, false⟩

/-- `10.0.0.0/8` with the given AS path and communities. -/
def announceTen (asns communities : List UInt32) : Update where
  attributes :=
    [.origin .igp, .asPath [.sequence asns], .nextHop 0xc0000201, .communities communities]
  nlri := [net10]

end Sample

namespace ReceiveSession

/-- A session without any policy. -/
def sample : ReceiveSession where
  pol :=
    { loc := Sample.loc, importFilter := none, requirePolicy := false, role := none,
      roa := ⟨[]⟩, rpkiReject := false }
  facts := Sample.facts 1
  ingressIface := none

/-- A network that the peer takes back by announcing it with the speaker's own AS in its path. -/
theorem not_forall_follows : ¬ ∀ (sess : ReceiveSession) (rib : BgpRib) (us : List Update),
    sess.Follows rib us := by
  intro h
  have hk := h sample .new [Sample.announceTen [65001] [], Sample.announceTen [65001, 65000] []]
    (Sample.net10, 0)
  revert hk
  decide +kernel

end ReceiveSession
end Wren.Daemon.Bgp
