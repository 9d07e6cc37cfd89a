import Wren.Daemon.Bgp.AddPathAgreement

/-! Route-leak prevention with BGP roles: where the Only-To-Customer attribute is added, and where a
route that carries it is held back. -/

namespace Wren.Daemon.Bgp
open Wren.Core Wren.Bgp OrdMap Replica

/-- A peer that a route with OTC must not be sent to. -/
def Upstream (role : Option BgpRole) : Prop :=
  role = some .provider ∨ role = some .peer ∨ role = some .routeServer

/-- A peer that every route must be sent with OTC. -/
def Downstream (role : Option BgpRole) : Prop :=
  role = some .customer ∨ role = some .peer ∨ role = some .routeServerClient

/-- The UPDATE carries OTC with this value and no other. -/
def CarriesOtc (u : Update) (v : UInt32) : Prop := ∀ w, .onlyToCustomer w ∈ u.attributes ↔ w = v

/-- No attribute of the list is OTC. -/
def Untagged (attrs : List PathAttribute) : Prop := ∀ v, .onlyToCustomer v ∉ attrs

theorem untagged_communityAttrs (c : List UInt32) (large : List (UInt32 × UInt32 × UInt32)) (ext : List (Vector UInt8 8)) :
    Untagged (communityAttrs c large ext) := by
  intro v
  unfold communityAttrs
  split_ifs <;> simp

theorem untagged_reflagPassThrough (l : List PathAttribute) : Untagged (reflagPassThrough l) := by
  intro v h
  obtain ⟨a, -, ha⟩ := List.mem_filterMap.mp h
  cases a <;> simp at ha

namespace Session
variable {s : Session}

theorem upstream_iff : s.otcEgressBlock = true ↔ Upstream s.remoteRole := by
  simp [otcEgressBlock, Upstream, or_assoc]

theorem downstream_iff : s.otcEgressAdd = true ↔ Downstream s.remoteRole := by
  simp [otcEgressAdd, Downstream, or_assoc]

theorem untagged_propagatedBaseAttrs (path : Path) : Untagged (s.propagatedBaseAttrs path) := by
  intro v h
  have hcomm := untagged_communityAttrs path.communities path.largeCommunities path.extCommunities v
  have hpass := untagged_reflagPassThrough path.passThrough v
  unfold propagatedBaseAttrs at h
  simp only [List.mem_cons, List.mem_append, hcomm, hpass, reduceCtorEq, or_false, false_or] at h
  cases htype : s.peerType
  all_goals
    rw [htype] at h
    simp only [List.mem_cons, List.mem_append, List.not_mem_nil, reduceCtorEq, or_false, false_or] at h
  all_goals
    split_ifs at h
    all_goals simp at h

/-- Every originated route carries OTC toward a peer that it must be sent with it. -/
theorem otc_basePathAttrs (h : s.otcEgressAdd = true) (w : UInt32) :
    .onlyToCustomer w ∈ s.basePathAttrs ↔ w = s.effExternalAs := by
  unfold basePathAttrs
  simp only [h, if_true, List.mem_cons, List.mem_append, reduceCtorEq, false_or, List.not_mem_nil, or_false,
    PathAttribute.onlyToCustomer.injEq]
  cases s.peerType <;> simp

theorem untagged_aggregateAttrs : Untagged s.aggregateAttrs := by
  intro v
  unfold aggregateAttrs
  dsimp only
  split_ifs <;> simp

/-- What a session sends for an originated route adds no attribute of its own but the next hop. -/
theorem attributes_of_sendOriginatedUpdate {attrs : List PathAttribute} {p : Prefix} {u : Update}
    (h : s.sendOriginatedUpdate attrs p = some u) (v : UInt32) :
    .onlyToCustomer v ∈ u.attributes ↔ .onlyToCustomer v ∈ attrs := by
  unfold sendOriginatedUpdate at h
  split_ifs at h
  all_goals
    split at h
    all_goals
      cases h
      try simp

theorem attributes_of_sendPropagated {attrs : List PathAttribute} {p : Prefix} {nextHop : IpAddr} {u : Update}
    (h : s.sendPropagated attrs p nextHop = some u) (v : UInt32) :
    .onlyToCustomer v ∈ u.attributes ↔ .onlyToCustomer v ∈ attrs := by
  unfold sendPropagated at h
  split_ifs at h with hv4 hebgp hmp hebgp
  · cases h
    simp
  · split at h
    all_goals
      cases h
      try simp
  all_goals
    obtain ⟨nh, -, rfl⟩ := Option.map_eq_some_iff.mp h
    simp

theorem advertiseOne_otc {r : OriginRoute} {u : Update} (h : s.advertiseOne r = some u) (hadd : s.otcEgressAdd = true) :
    CarriesOtc u s.effExternalAs := by
  unfold advertiseOne at h
  obtain ⟨r', -, h⟩ := Option.bind_eq_some_iff.mp h
  split_ifs at h
  all_goals
    intro w
    rw [attributes_of_sendOriginatedUpdate h]
    have hcomm := untagged_communityAttrs r'.communities r'.largeCommunities r'.extCommunities w
    have hagg := untagged_aggregateAttrs (s := s) w
    simp [otc_basePathAttrs hadd, hcomm, hagg]

/-- A learned route keeps its OTC, and gets one toward a peer that it must be sent with it. -/
theorem propagateOne_otc {p : Prefix} {path : Path} {u : Update} (h : s.propagateOne p path = some u) :
    (path.otc.isSome = true → s.otcEgressBlock = false) ∧ (∀ v, path.otc = some v → CarriesOtc u v) ∧
      (path.otc = none → s.otcEgressAdd = true → CarriesOtc u s.effExternalAs) := by
  unfold propagateOne at h
  rw [ite_eq_iff] at h
  obtain ⟨-, h⟩ | ⟨-, h⟩ := h
  · cases h
  rw [ite_eq_iff] at h
  obtain ⟨-, h⟩ | ⟨hblock, h⟩ := h
  · cases h
  obtain ⟨q, hq, hsend⟩ := Option.bind_eq_some_iff.mp h
  obtain ⟨-, -, -, hotc⟩ := filterPath_frame hq
  have hbase := untagged_propagatedBaseAttrs (s := s) q
  refine ⟨?_, ?_, ?_⟩
  · intro hsome
    simpa [hsome] using hblock
  · intro v hv w
    rw [attributes_of_sendPropagated hsend]
    simp [hotc, hv, hbase w]
  · intro hnone hadd w
    rw [attributes_of_sendPropagated hsend]
    simp [hotc, hnone, hadd, hbase w]

/-- The UPDATEs that make a network reachable, each with the path it was learned as if it is not
originated here. The paths offered with ADD-PATH have been through the export filter, which leaves OTC
as it is. -/
def announced (s : Session) : SessionCmd → List (Prefix × Option Path × Update)
  | .advertise routes =>
    if s.exportDenyAll then [] else routes.filterMap fun r => (s.advertiseOne r).map fun u => (r.pfx, none, u)
  | .propagate routes =>
    if s.addPathSend || s.exportDenyAll then []
    else routes.filterMap fun r => (s.propagateOne r.pfx r.path).map fun u => (r.pfx, some r.path, u)
  | .advertiseAddPath routes => routes.filterMap fun r => (s.advertiseAddPathOne r).map fun u => (r.pfx, some r.path, u)
  | _ => []

/-- No route with OTC goes up, and every route that goes down carries it, with its own value if it has one. -/
def Contained (s : Session) (o : Option Path) (u : Update) : Prop :=
  (∀ path, o = some path → path.otc.isSome = true → ¬ Upstream s.remoteRole) ∧
    (Downstream s.remoteRole → ∃ v, CarriesOtc u v ∧ ∀ path w, o = some path → path.otc = some w → v = w)

theorem contained_advertise {r : OriginRoute} {u : Update} (h : s.advertiseOne r = some u) : s.Contained none u := by
  constructor
  · intro path hpath
    cases hpath
  · intro hdown
    refine ⟨s.effExternalAs, advertiseOne_otc h (downstream_iff.mpr hdown), ?_⟩
    intro path w hpath
    cases hpath

theorem contained_propagate {p : Prefix} {path : Path} {u : Update} (h : s.propagateOne p path = some u) :
    s.Contained (some path) u := by
  obtain ⟨hblock, hkeep, hadd⟩ := propagateOne_otc h
  constructor
  · rintro q ⟨⟩ hsome hup
    rw [← upstream_iff, hblock hsome] at hup
    cases hup
  · intro hdown
    cases hotc : path.otc with
    | none =>
      refine ⟨s.effExternalAs, hadd hotc (downstream_iff.mpr hdown), ?_⟩
      rintro q w ⟨⟩ hw
      rw [hotc] at hw
      cases hw
    | some v =>
      refine ⟨v, hkeep v hotc, ?_⟩
      rintro q w ⟨⟩ hw
      rw [hotc] at hw
      exact Option.some.inj hw

/-- A path that an ADD-PATH session with this configuration may be offered. -/
def Harmless (s : Session) (path : Path) : Prop := s.role = none ∨ ¬ Downstream s.remoteRole ∧ path.otc = none

/-- ADD-PATH neither adds OTC nor looks at it. -/
theorem contained_addPath {path : Path} (h : s.Harmless path) (u : Update) : s.Contained (some path) u := by
  rcases h with hrole | ⟨hdown, hotc⟩
  · have hnone : s.remoteRole = none := by rw [remoteRole, hrole, Option.map_none]
    constructor
    · intro q _ _ hup
      simp [Upstream, hnone] at hup
    · intro hdown
      simp [Downstream, hnone] at hdown
  · constructor
    · rintro q ⟨⟩ hsome
      rw [hotc] at hsome
      cases hsome
    · exact fun h => absurd h hdown

/-- Everything that the session announces for a command is contained. -/
def Contains (s : Session) (cmd : SessionCmd) : Prop := ∀ x o u, (x, o, u) ∈ s.announced cmd → s.Contained o u

theorem contains_addPath {routes : List AddPathRoute} (h : ∀ r ∈ routes, s.Harmless r.path) : s.Contains (.advertiseAddPath routes) := by
  intro x o u hmem
  obtain ⟨r, hr, hu⟩ := List.mem_filterMap.mp hmem
  obtain ⟨u', -, heq⟩ := Option.map_eq_some_iff.mp hu
  cases heq
  exact contained_addPath (h r hr) u

/-- Plain commands keep to the rules on any session. -/
theorem contains_of_addPathDeltas {cmd : SessionCmd} (h : addPathDeltas cmd = []) : s.Contains cmd := by
  cases cmd with
  | advertise routes =>
    intro x o u hmem
    simp only [announced] at hmem
    split_ifs at hmem
    · cases hmem
    · obtain ⟨r, -, hu⟩ := List.mem_filterMap.mp hmem
      obtain ⟨u', hu', heq⟩ := Option.map_eq_some_iff.mp hu
      cases heq
      exact contained_advertise hu'
  | propagate routes =>
    intro x o u hmem
    simp only [announced] at hmem
    split_ifs at hmem
    · cases hmem
    · obtain ⟨r, -, hu⟩ := List.mem_filterMap.mp hmem
      obtain ⟨u', hu', heq⟩ := Option.map_eq_some_iff.mp hu
      cases heq
      exact contained_propagate hu'
  | advertiseAddPath routes =>
    rw [addPathDeltas, List.map_eq_nil_iff] at h
    subst h
    exact contains_addPath (by simp)
  | _ =>
    intro x o u hmem
    cases hmem

end Session

/-! A route on its way through several speakers. -/

/-- A speaker on the way: how it takes the UPDATEs of the one before it, and its session with the next. -/
structure Speaker where
  pol : ImportPolicy
  facts : PeerFacts
  ingressIface : Option String
  session : Session

namespace Speaker

/-- The speaker stores the path that an UPDATE gives a network, and writes another UPDATE for it. -/
def Relays (sp : Speaker) (x : Prefix) (u u' : Update) : Prop :=
  let m : UpdateMsg := ⟨sp.facts, sp.ingressIface, u⟩
  isLoop sp.pol.loc u = false ∧ sp.pol.rejectReach m = false ∧
  ∃ id base path, ((x, id), base) ∈ sp.pol.reachability m ∧ sp.pol.accepted x base = some path ∧
    if sp.session.addPathSend then
      ∃ id' q, filterPath sp.session.exportFilter x path = some q ∧
        (x, some q, u') ∈ sp.session.announced (.advertiseAddPath [⟨x, id', q⟩])
    else (x, some path, u') ∈ sp.session.announced (.propagate [⟨x, path⟩])

/-- The route in the UPDATE goes from speaker to speaker. -/
def Relayed (x : Prefix) : Update → List Speaker → Prop
  | _, [] => True
  | u, sp :: sps => ∃ u', sp.Relays x u u' ∧ Relayed x u' sps

end Speaker

theorem foldl_readAttribute_otc (l : List PathAttribute) (s : Path × Option (List AsPathSegment))
    (h : s.1.otc.isSome = true ∨ ∃ v, .onlyToCustomer v ∈ l) : (l.foldl readAttribute s).1.otc.isSome = true := by
  induction l generalizing s with
  | nil =>
    rcases h with h | ⟨v, hv⟩
    · exact h
    · cases hv
  | cons a l ih =>
    refine ih (readAttribute s a) ?_
    cases a with
    | onlyToCustomer asn => exact .inl rfl
    | unknown flags code value =>
      refine h.imp ?_ ?_
      · intro hs
        simp only [readAttribute]
        split_ifs <;> exact hs
      · rintro ⟨v, hv⟩
        exact ⟨v, by simpa using hv⟩
    | _ =>
      refine h.imp (fun hs => hs) ?_
      rintro ⟨v, hv⟩
      exact ⟨v, by simpa using hv⟩

/-- A path that was received with OTC is stored with it. -/
theorem otc_stampedPath {pol : ImportPolicy} {m : UpdateMsg} {v : UInt32} (h : .onlyToCustomer v ∈ m.update.attributes)
    (nextHop : IpAddr) (iface : Option String) : (pol.stampedPath m nextHop iface).otc.isSome = true := by
  have hread := foldl_readAttribute_otc m.update.attributes
  have hbuilt : (buildPath m.update nextHop iface m.facts).otc.isSome = true := hread _ (.inr ⟨v, h⟩)
  obtain ⟨w, hw⟩ := Option.isSome_iff_exists.mp hbuilt
  simp [ImportPolicy.stampedPath, hw]

theorem otc_accepted {pol : ImportPolicy} {x : Prefix} {base path : Path} (h : pol.accepted x base = some path) :
    path.otc = base.otc := by
  unfold ImportPolicy.accepted at h
  split_ifs at h
  exact (filterPath_frame h).2.2.2

/-- A speaker that does not use ADD-PATH relays a route with OTC to no provider, peer or route server, and
with its OTC. -/
theorem relays_otc {sp : Speaker} {x : Prefix} {u u' : Update} (h : sp.Relays x u u') (hplain : sp.session.addPathSend = false)
    {v : UInt32} (hv : .onlyToCustomer v ∈ u.attributes) :
    ¬ Upstream sp.session.remoteRole ∧ ∃ w, .onlyToCustomer w ∈ u'.attributes := by
  obtain ⟨-, -, id, base, path, hbase, hacc, hsent⟩ := h
  rw [if_neg (by simp [hplain])] at hsent
  obtain ⟨nextHop, iface, rfl⟩ := ImportPolicy.stampedPath_of_mem_reachability hbase
  have hotc : path.otc.isSome = true := by
    rw [otc_accepted hacc]
    exact otc_stampedPath hv nextHop iface
  obtain ⟨w, hw⟩ := Option.isSome_iff_exists.mp hotc
  simp only [Session.announced] at hsent
  split_ifs at hsent
  · cases hsent
  · obtain ⟨r, hr, hu⟩ := List.mem_filterMap.mp hsent
    obtain ⟨u₁, hu₁, heq⟩ := Option.map_eq_some_iff.mp hu
    rw [List.mem_singleton] at hr
    subst hr
    cases heq
    obtain ⟨hblock, hkeep, -⟩ := Session.propagateOne_otc hu₁
    refine ⟨?_, w, (hkeep w hw w).mpr rfl⟩
    rw [← Session.upstream_iff, hblock hotc]
    exact Bool.false_ne_true

/-- Once a route carries OTC, none of the speakers after that sends it up. -/
theorem relayed_otc {x : Prefix} {u : Update} {sps : List Speaker} (h : Speaker.Relayed x u sps)
    (hplain : ∀ sp ∈ sps, sp.session.addPathSend = false) {v : UInt32} (hv : .onlyToCustomer v ∈ u.attributes) :
    ∀ sp ∈ sps, ¬ Upstream sp.session.remoteRole := by
  induction sps generalizing u v with
  | nil => simp
  | cons sp sps ih =>
    obtain ⟨u', hrelay, hrest⟩ := h
    obtain ⟨hup, w, hw⟩ := relays_otc hrelay (hplain sp (by simp)) hv
    intro sp' hsp'
    rcases List.mem_cons.mp hsp' with rfl | hsp'
    · exact hup
    · exact ih hrest (fun sp hsp => hplain sp (by simp [hsp])) hw sp' hsp'

namespace Central
variable {s : Central}

/-- The role of a neighbour toward this speaker, as it is configured. -/
def remoteRole (s : Central) (p : IpAddr) : Option BgpRole := ((s.peers[p]?).bind PeerProps.role).map BgpRole.complement

/-- No session leaks a route, and what is stored from a provider, peer or route server carries OTC. -/
structure Leakproof (s : Central) : Prop where
  sent : ∀ (a : IpAddr) (h : SessionHandle), s.sessions[a]? = some h → ∀ cmd ∈ h.log, ∀ x o u, (x, o, u) ∈ h.sess.announced cmd →
    h.sess.Contained o u
  stored : ∀ x src path, s.rib.offer x src = some path → Upstream (s.remoteRole src.1) → path.otc.isSome = true

/-- The peer is served with ADD-PATH on a session that has a role. -/
def RoleServed (s : Central) : Prop :=
  ∃ (a : IpAddr) (h : SessionHandle), a ∈ s.addpathSend ∧ s.sessions[a]? = some h ∧ h.sess.role ≠ none

/-- A session with a role is only served with ADD-PATH where there is nothing to add and nothing to hold
back, and a neighbour that is added has no path stored. -/
def RolesKept (s : Central) : Event → Prop
  | .established m =>
    m.sess.addPathSend = true ∨ m.sess.addr ∈ s.addpathSend → m.sess.role ≠ none →
      ¬ Downstream m.sess.remoteRole ∧ ∀ x src path, s.rib.offer x src = some path → path.otc = none
  | .update _ m =>
    s.RoleServed → ∀ nextHop iface, ((s.policyFor m.facts.addr).stampedPath m nextHop iface).otc = none
  | .reconfig remove add =>
    ∀ n ∈ add, n.addr ∉ s.neighbors → n.addr ∉ remove → ∀ x id, s.rib.offer x (n.addr, id) = none
  | _ => True

/-- What the commands so far and the stored paths leave to the ADD-PATH sessions. -/
structure Careful (s : Central) : Prop where
  logs : ∀ (a : IpAddr) (h : SessionHandle), s.sessions[a]? = some h → ∀ cmd ∈ h.log, h.sess.Contains cmd
  served : ∀ (a : IpAddr) (h : SessionHandle), a ∈ s.addpathSend → s.sessions[a]? = some h →
    ∀ x src path, s.rib.offer x src = some path → h.sess.Harmless path
  roles : ∀ (a : IpAddr) (h : SessionHandle), a ∈ s.addpathSend → s.sessions[a]? = some h → h.sess.role ≠ none →
    ¬ Downstream h.sess.remoteRole

/-- Sessions may only go, and be given commands that keep to the rules. -/
theorem Careful.frame {t : Central} (h : s.Careful) (hrib : t.rib = s.rib) (hsend : ∀ a ∈ t.addpathSend, a ∈ s.addpathSend)
    (hsessions : ∀ (a : IpAddr) (hd' : SessionHandle), t.sessions[a]? = some hd' → ∃ hd : SessionHandle, s.sessions[a]? = some hd ∧
      hd'.sess = hd.sess ∧ ∀ cmd ∈ hd'.log, cmd ∈ hd.log ∨ addPathDeltas cmd = []) : t.Careful := by
  refine ⟨?_, ?_, ?_⟩
  · intro a hd' hget cmd hcmd
    obtain ⟨hd, hold, hsess, hlog⟩ := hsessions a hd' hget
    rw [hsess]
    rcases hlog cmd hcmd with hin | hplain
    · exact h.logs a hd hold cmd hin
    · exact Session.contains_of_addPathDeltas hplain
  · intro a hd' ha hget
    obtain ⟨hd, hold, hsess, -⟩ := hsessions a hd' hget
    rw [hsess, hrib]
    exact h.served a hd (hsend a ha) hold
  · intro a hd' ha hget
    obtain ⟨hd, hold, hsess, -⟩ := hsessions a hd' hget
    rw [hsess]
    exact h.roles a hd (hsend a ha) hold

theorem Careful.applyOps (h : s.Careful) {ops : List BgpRib.Op}
    (hops : s.RoleServed → ∀ peer id x path, .update peer id x path ∈ ops → path.otc = none) : (s.applyOps ops).Careful := by
  have hsend : (s.applyOps ops).addpathSend = s.addpathSend := by
    rw [applyOps_eq]
    rfl
  have hget : ∀ (a : IpAddr) (hd' : SessionHandle), (s.applyOps ops).sessions[a]? = some hd' → ∃ hd : SessionHandle,
      s.sessions[a]? = some hd ∧ hd' = hd.push (fanoutCmds s.rib ops) := by
    intro a hd' hget
    rw [applyOps_sessions] at hget
    obtain ⟨hd, hold, rfl⟩ := Option.map_eq_some_iff.mp hget
    exact ⟨hd, hold, rfl⟩
  refine ⟨?_, ?_, ?_⟩
  · intro a hd' hget' cmd hcmd
    obtain ⟨hd, hold, rfl⟩ := hget a hd' hget'
    rcases List.mem_append.mp hcmd with hin | hin
    · exact h.logs a hd hold cmd hin
    · exact Session.contains_of_addPathDeltas (addPathDeltas_fanoutCmds hin)
  · intro a hd' ha hget' x src path hoffer
    obtain ⟨hd, hold, rfl⟩ := hget a hd' hget'
    rw [hsend] at ha
    rw [applyOps_rib] at hoffer
    rcases BgpRib.offer_of_foldl_step hoffer with hbefore | hnew
    · exact h.served a hd ha hold x src path hbefore
    · by_cases hrole : hd.sess.role = none
      · exact .inl hrole
      · exact .inr ⟨h.roles a hd ha hold hrole, hops ⟨a, hd, ha, hold, hrole⟩ _ _ _ _ hnew⟩
  · intro a hd' ha hget'
    obtain ⟨hd, hold, rfl⟩ := hget a hd' hget'
    rw [hsend] at ha
    exact h.roles a hd ha hold

/-- Every path offered with ADD-PATH is a stored one, as the export filter lets it through. -/
theorem otc_of_mem_assign {peer : IpAddr} {pfx : Prefix} {id : UInt32} {q : Path}
    (h : (s.addpath.assign (s.offered peer pfx)).1[id]? = some q) :
    ∃ src path, s.rib.offer pfx src = some path ∧ q.otc = path.otc := by
  have hvalues : ∀ (l : List ((IpAddr × UInt32) × Path)) (st : BTreeMap UInt32 Path × AddPathState) (id : UInt32) (q : Path),
      (l.foldl AddPathState.assignOne st).1[id]? = some q → st.1[id]? = some q ∨ ∃ src, (src, q) ∈ l := by
    intro l
    induction l with
    | nil => exact fun _ _ _ h => .inl h
    | cons e l ih =>
      intro st id q h
      rcases ih _ id q h with hold | ⟨src, hsrc⟩
      · simp only [AddPathState.assignOne, getElem?_insert] at hold
        split_ifs at hold
        · cases hold
          exact .inr ⟨e.1, by simp⟩
        · exact .inl hold
      · exact .inr ⟨src, by simp [hsrc]⟩
  rcases hvalues _ _ id q h with hold | ⟨src, hsrc⟩
  · simp at hold
  · rw [mem_offered] at hsrc
    obtain ⟨path, hoffer, helig⟩ := Option.bind_eq_some_iff.mp hsrc
    refine ⟨src, path, hoffer, ?_⟩
    unfold eligible at helig
    obtain ⟨pp, -, helig⟩ := Option.bind_eq_some_iff.mp helig
    split_ifs at helig
    exact (filterPath_frame helig).2.2.2

theorem eq_of_mem_ite {c d : SessionCmd} {P : Prop} [Decidable P] (h : c ∈ if P then [] else [d]) : c = d := by
  split_ifs at h
  · cases h
  · exact List.mem_singleton.mp h

theorem Careful.propagateAddPathTo (h : s.Careful) {peer : IpAddr} (hpeer : peer ∈ s.addpathSend) (pfx : Prefix) :
    (propagateAddPathTo pfx s peer).Careful := by
  have hcore := core_propagateAddPathTo pfx s peer
  have hrib : (Central.propagateAddPathTo pfx s peer).rib = s.rib := eq_of_core rib (fun _ => rfl) hcore
  have hsend : (Central.propagateAddPathTo pfx s peer).addpathSend = s.addpathSend := eq_of_core addpathSend (fun _ => rfl) hcore
  have hget : ∀ (a : IpAddr) (hd' : SessionHandle), (Central.propagateAddPathTo pfx s peer).sessions[a]? = some hd' →
      ∃ hd : SessionHandle, s.sessions[a]? = some hd ∧ hd'.sess = hd.sess ∧ ∀ cmd ∈ hd'.log, cmd ∈ hd.log ∨ hd.sess.Contains cmd := by
    intro a hd' hget
    unfold Central.propagateAddPathTo at hget
    split_ifs at hget with hoffers
    · simp only [sendTo, getElem?_modify] at hget
      by_cases ha : a = peer
      · rw [if_pos ha] at hget
        obtain ⟨hd, hold, rfl⟩ := Option.map_eq_some_iff.mp hget
        refine ⟨hd, hold, rfl, ?_⟩
        intro cmd hcmd
        rcases List.mem_append.mp hcmd with hin | hin
        · exact .inl hin
        right
        rcases List.mem_append.mp hin with hin | hin
        · rw [eq_of_mem_ite hin]
          intro x o u hmem
          cases hmem
        · rw [eq_of_mem_ite hin]
          refine Session.contains_addPath ?_
          intro r hr
          obtain ⟨e, he, rfl⟩ := List.mem_map.mp hr
          obtain ⟨src, path, hoffer, hotc⟩ := otc_of_mem_assign (Std.ExtTreeMap.mem_toList_iff_getElem?_eq_some.mp he)
          have hharm := h.served a hd (ha ▸ hpeer) hold pfx src path hoffer
          rw [Session.Harmless] at hharm ⊢
          rw [hotc]
          exact hharm
      · rw [if_neg ha] at hget
        exact ⟨hd', hget, rfl, fun cmd hcmd => .inl hcmd⟩
    · exact ⟨hd', hget, rfl, fun cmd hcmd => .inl hcmd⟩
  refine ⟨?_, ?_, ?_⟩
  · intro a hd' hget' cmd hcmd
    obtain ⟨hd, hold, hsess, hlog⟩ := hget a hd' hget'
    rw [hsess]
    rcases hlog cmd hcmd with hin | hkeeps
    · exact h.logs a hd hold cmd hin
    · exact hkeeps
  · intro a hd' ha hget'
    obtain ⟨hd, hold, hsess, -⟩ := hget a hd' hget'
    rw [hsess, hrib]
    exact h.served a hd (hsend ▸ ha) hold
  · intro a hd' ha hget'
    obtain ⟨hd, hold, hsess, -⟩ := hget a hd' hget'
    rw [hsess]
    exact h.roles a hd (hsend ▸ ha) hold

theorem Careful.propagateAddPath (h : s.Careful) (pfx : Prefix) : (s.propagateAddPath pfx).Careful := by
  unfold Central.propagateAddPath
  split_ifs
  · have hboth : ((s.addpathSend.foldl (Central.propagateAddPathTo pfx) s).Careful ∧
        (s.addpathSend.foldl (Central.propagateAddPathTo pfx) s).addpathSend = s.addpathSend) := by
      refine List.foldlRecOn (motive := fun t : Central => t.Careful ∧ t.addpathSend = s.addpathSend) s.addpathSend _ ⟨h, rfl⟩ ?_
      intro t ht peer hpeer
      refine ⟨ht.1.propagateAddPathTo (ht.2 ▸ hpeer) pfx, ?_⟩
      rw [← ht.2]
      exact eq_of_core addpathSend (fun _ => rfl) (core_propagateAddPathTo pfx t peer)
    exact hboth.1
  · exact h

theorem Careful.foldl_propagateAddPath (h : s.Careful) (l : List Prefix) : (l.foldl Central.propagateAddPath s).Careful :=
  List.foldlRecOn (motive := Careful) l _ h fun _ ht x _ => ht.propagateAddPath x

/-- A change that only touches what the rules do not depend on. -/
theorem Careful.of_same {t : Central} (h : s.Careful) (hrib : t.rib = s.rib) (hsend : t.addpathSend = s.addpathSend)
    (hsessions : t.sessions = s.sessions) : t.Careful := by
  refine h.frame hrib (by simp [hsend]) ?_
  intro a hd hget
  exact ⟨hd, hsessions ▸ hget, rfl, fun cmd hcmd => .inl hcmd⟩

/-- A session goes. -/
theorem Careful.of_erase {t : Central} (h : s.Careful) {p : IpAddr} (hrib : t.rib = s.rib)
    (hsend : ∀ a ∈ t.addpathSend, a ∈ s.addpathSend) (hsessions : t.sessions = s.sessions.erase p) : t.Careful := by
  refine h.frame hrib hsend ?_
  intro a hd hget
  rw [hsessions, getElem?_erase] at hget
  split_ifs at hget
  exact ⟨hd, hget, rfl, fun cmd hcmd => .inl hcmd⟩

theorem Careful.sendTo (h : s.Careful) (p : IpAddr) {cs : List SessionCmd} (hcs : ∀ c ∈ cs, addPathDeltas c = []) :
    (s.sendTo p cs).Careful := by
  refine h.frame rfl (fun _ ha => ha) ?_
  intro a hd' hget
  simp only [Central.sendTo, getElem?_modify] at hget
  split_ifs at hget
  · obtain ⟨hd, hold, rfl⟩ := Option.map_eq_some_iff.mp hget
    exact ⟨hd, hold, rfl, fun cmd hcmd => (List.mem_append.mp hcmd).imp id (hcs cmd)⟩
  · exact ⟨hd', hget, rfl, fun cmd hcmd => .inl hcmd⟩

theorem Careful.fanout (h : s.Careful) {cs : List SessionCmd} (hcs : ∀ c ∈ cs, addPathDeltas c = []) : (s.fanout cs).Careful := by
  refine h.frame rfl (fun _ ha => ha) ?_
  intro a hd' hget
  simp only [Central.fanout, Std.ExtTreeMap.getElem?_map] at hget
  obtain ⟨hd, hold, rfl⟩ := Option.map_eq_some_iff.mp hget
  exact ⟨hd, hold, rfl, fun cmd hcmd => (List.mem_append.mp hcmd).imp id (hcs cmd)⟩

theorem Careful.finalise (h : s.Careful) (p : IpAddr) : (s.finalise p).Careful := by
  rw [finalise_eq]
  have hstale : ({ s with stale := s.stale.erase p } : Central).Careful := h.of_same rfl rfl rfl
  refine hstale.applyOps ?_
  intro _ peer id x path hmem
  exact absurd hmem (update_notMem_staleOps s p)

theorem Careful.reconfig (h : s.Careful) (remove : List IpAddr) (add : List NeighborConfig) : (s.reconfig remove add).Careful := by
  have hremoved : (remove.foldl removeNeighbor s).Careful := by
    refine List.foldlRecOn (motive := Careful) remove _ h ?_
    intro t ht p _
    have hforget : (t.forget p).Careful := ht.of_erase rfl (fun a ha => List.mem_of_mem_filter ha) rfl
    have hops : ((t.forget p).applyOps [.withdrawPeer p]).Careful := hforget.applyOps (by simp)
    exact hops.of_same rfl rfl rfl
  refine List.foldlRecOn (motive := Careful) add _ hremoved ?_
  intro t ht n _
  by_cases hn : n.addr ∈ t.neighbors
  · rw [addNeighbor, if_pos hn]
    exact ht
  · rw [addNeighbor, if_neg hn]
    exact ht.of_same rfl rfl rfl

/-- A session comes up, and is served with ADD-PATH if the rules allow it. -/
theorem Careful.enter {t : Central} (h : s.Careful) {m : EstablishedMsg} {cs : List SessionCmd} (hcs : ∀ cmd ∈ cs, m.sess.Contains cmd)
    (hrib : t.rib = s.rib) (hsend : ∀ a ∈ t.addpathSend, a ∈ s.addpathSend ∨ a = m.sess.addr)
    (hsessions : t.sessions = s.sessions.insert m.sess.addr ⟨m.sess, cs⟩)
    (hm : m.sess.addr ∈ t.addpathSend → m.sess.role ≠ none →
      ¬ Downstream m.sess.remoteRole ∧ ∀ x src path, s.rib.offer x src = some path → path.otc = none) : t.Careful := by
  have hget : ∀ (a : IpAddr) (hd : SessionHandle), t.sessions[a]? = some hd →
      a = m.sess.addr ∧ hd = ⟨m.sess, cs⟩ ∨ a ≠ m.sess.addr ∧ s.sessions[a]? = some hd := by
    intro a hd hget
    rw [hsessions, getElem?_insert] at hget
    split_ifs at hget with ha
    · exact .inl ⟨ha, (Option.some.inj hget).symm⟩
    · exact .inr ⟨ha, hget⟩
  refine ⟨?_, ?_, ?_⟩
  · intro a hd hget' cmd hcmd
    rcases hget a hd hget' with ⟨-, rfl⟩ | ⟨-, hold⟩
    · exact hcs cmd hcmd
    · exact h.logs a hd hold cmd hcmd
  · intro a hd ha hget' x src path hoffer
    rw [hrib] at hoffer
    rcases hget a hd hget' with ⟨rfl, rfl⟩ | ⟨hne, hold⟩
    · by_cases hrole : m.sess.role = none
      · exact .inl hrole
      · obtain ⟨hdown, hotc⟩ := hm ha hrole
        exact .inr ⟨hdown, hotc x src path hoffer⟩
    · exact h.served a hd ((hsend a ha).resolve_right hne) hold x src path hoffer
  · intro a hd ha hget' hrole
    rcases hget a hd hget' with ⟨rfl, rfl⟩ | ⟨hne, hold⟩
    · exact (hm ha hrole).1
    · exact h.roles a hd ((hsend a ha).resolve_right hne) hold hrole

theorem Careful.established (h : s.Careful) {m : EstablishedMsg} (hm : s.RolesKept (.established m)) : (s.established m).Careful := by
  unfold Central.established
  split_ifs with hrefuses haddpath
  · exact h
  all_goals
    have hgreet : ∀ cmd ∈ s.greeting m.sess.addr, m.sess.Contains cmd := fun cmd hcmd =>
      Session.contains_of_addPathDeltas (addPathDeltas_greeting hcmd)
  · have hserved : ({ s.register m with addpathSend := (s.register m).addpathSend.insert m.sess.addr } : Central).Careful := by
      refine h.enter hgreet rfl (fun a ha => ?_) rfl (fun _ => hm (.inl haddpath))
      exact (List.mem_insert_iff.mp ha).symm
    exact hserved.foldl_propagateAddPath _
  · exact h.enter hgreet rfl (fun a ha => .inl ha) rfl fun hin => hm (.inr hin)

theorem Careful.update (h : s.Careful) {conn : UInt64} {m : UpdateMsg} (hm : s.RolesKept (.update conn m)) :
    (s.update m).Careful := by
  by_cases hdamped : m.facts.addr ∈ s.damped
  · rw [Central.update, if_pos hdamped]
    exact h
  · have hunstale : (s.unstale m).Careful := h.of_same rfl rfl rfl
    have hops : ((s.unstale m).applyOps (s.updateOps m)).Careful := by
      refine hunstale.applyOps ?_
      intro hserved peer id x path hmem
      have hmem' : .update peer id x path ∈ s.ribOps (.update conn m) := by
        rw [ribOps, if_neg hdamped]
        exact hmem
      obtain ⟨conn', m', nextHop, iface, heq, hpeer, -, hacc⟩ := update_of_mem_ribOps hmem'
      cases heq
      rw [otc_accepted hacc, hpeer]
      exact hm hserved nextHop iface
    rw [Central.update, if_neg hdamped]
    by_cases hloop : isLoop s.loc m.update = true
    · rw [if_pos hloop]
      exact hops
    · rw [if_neg hloop]
      by_cases hmany : s.tooMany m = true
      · rw [if_pos hmany]
        exact hops.of_erase rfl (fun _ ha => ha) rfl
      · rw [if_neg hmany]
        have hfamilies : (((s.unstale m).applyOps (s.updateOps m)).applyFamilyOps (familyOps m)).Careful := hops.of_same rfl rfl rfl
        exact hfamilies.foldl_propagateAddPath _

theorem Careful.step (h : s.Careful) {e : Event} (he : s.RolesKept e) : (s.step e).Careful := by
  cases e with
  | established m => exact h.established he
  | down p conn now =>
    simp only [Central.step, Central.down]
    split_ifs
    · exact h
    · have hleft : (s.leave p now).Careful := h.of_erase rfl (fun a ha => List.mem_of_mem_filter ha) rfl
      have hops : ((s.leave p now).applyOps (s.lossOps p)).Careful := by
        refine hleft.applyOps ?_
        intro _ peer id x path hmem
        unfold lossOps at hmem
        split_ifs at hmem <;> simp at hmem
      have hfamilies : (((s.leave p now).applyOps (s.lossOps p)).applyFamilyOps [.withdrawPeer p]).Careful := hops.of_same rfl rfl rfl
      exact hfamilies.foldl_propagateAddPath _
  | refreshRequest p conn =>
    simp only [Central.step, refreshRequest]
    split_ifs
    · exact h
    · exact h.sendTo p fun c hc => addPathDeltas_snapshot hc
  | endOfRib p conn v4 =>
    simp only [Central.step, endOfRib]
    split_ifs
    · exact h
    · exact h.finalise p
  | update conn m => exact h.update he
  | restartTimer now => exact List.foldlRecOn (motive := Careful) (s.expired now) _ h fun t ht p _ => ht.finalise p
  | teardown p => exact h.of_erase rfl (fun _ ha => ha) rfl
  | redistribute r =>
    simp only [Central.step, applyRedistribution]
    cases hr : s.redistributed r with
    | none => exact h
    | some originated =>
      have hnew : ({ s with originated, advertised := effectiveOrigination originated s.aggregates } : Central).Careful :=
        h.of_same rfl rfl rfl
      exact hnew.fanout fun c hc => addPathDeltas_originationCmds hc
  | rtrFeed feed =>
    have hroa : ({ s with roa := ⟨s.staticRoas ++ feed⟩ } : Central).Careful := h.of_same rfl rfl rfl
    refine hroa.applyOps ?_
    intro _ peer id x path hmem
    obtain ⟨conn, m, nextHop, iface, heq, -⟩ := update_of_mem_ribOps (e := .rtrFeed feed) hmem
    cases heq
  | bfdDown p => exact h.sendTo p (by simp [addPathDeltas])
  | refresh p => exact h.sendTo p (by simp [addPathDeltas])
  | reconfig remove add => exact h.reconfig remove add

/-! The paths that are stored. -/

/-- What is stored from a provider, peer or route server carries OTC. -/
def Tagged (s : Central) : Prop :=
  ∀ x src path, s.rib.offer x src = some path → Upstream (s.remoteRole src.1) → path.otc.isSome = true

/-- From a provider, peer or route server every path comes in with OTC, its own or a new one. -/
theorem otc_stampedPath_of_upstream {pol : ImportPolicy} (h : Upstream (pol.role.map BgpRole.complement)) (m : UpdateMsg)
    (nextHop : IpAddr) (iface : Option String) : (pol.stampedPath m nextHop iface).otc.isSome = true := by
  cases hin : otcFromUpdate m.update with
  | some v =>
    obtain ⟨a, ha, hv⟩ := List.exists_of_findSome?_eq_some hin
    have hotc : a = .onlyToCustomer v := by
      cases a <;> simp at hv
      rw [hv]
    exact otc_stampedPath (hotc ▸ ha) nextHop iface
  | none =>
    have hadd : (pol.otc m).2 = some m.facts.asn := by
      rcases h with h | h | h <;> simp [ImportPolicy.otc, otcIngress, hin, h]
    simp only [ImportPolicy.stampedPath, hadd]
    cases (buildPath m.update nextHop iface m.facts).otc <;> rfl

theorem otc_installed {e : Event} {src : IpAddr × UInt32} {x : Prefix} {path : Path} (h : .update src.1 src.2 x path ∈ s.ribOps e)
    (hup : Upstream (s.remoteRole src.1)) : path.otc.isSome = true := by
  obtain ⟨conn, m, nextHop, iface, -, -, -, hacc⟩ := update_of_mem_ribOps h
  rw [otc_accepted hacc]
  have hup' : Upstream ((s.policyFor src.1).role.map BgpRole.complement) := hup
  exact otc_stampedPath_of_upstream hup' m nextHop iface

theorem Tagged.of_peers {e : Event} (h : s.Tagged) (hpeers : (s.step e).peers = s.peers) : (s.step e).Tagged := by
  intro x src path hoffer hup
  have hrole : (s.step e).remoteRole src.1 = s.remoteRole src.1 := by rw [remoteRole, hpeers, remoteRole]
  rw [hrole] at hup
  rw [step_rib] at hoffer
  rcases BgpRib.offer_of_foldl_step hoffer with hold | hnew
  · exact h x src path hold hup
  · exact otc_installed hnew hup

theorem peers_foldl_addNeighbor (add : List NeighborConfig) (s : Central) (p : IpAddr) :
    (add.foldl addNeighbor s).peers[p]? = s.peers[p]? ∨ p ∉ s.neighbors ∧ ∃ n ∈ add, n.addr = p := by
  induction add generalizing s with
  | nil => exact .inl rfl
  | cons n add ih =>
    by_cases hn : n.addr ∈ s.neighbors
    · have hsame : s.addNeighbor n = s := by rw [addNeighbor, if_pos hn]
      rw [List.foldl_cons, hsame]
      refine (ih s).imp_right ?_
      rintro ⟨hp, m, hm, heq⟩
      exact ⟨hp, m, by simp [hm], heq⟩
    · by_cases hp : n.addr = p
      · exact .inr ⟨hp ▸ hn, n, by simp, hp⟩
      · have hone : (s.addNeighbor n).peers[p]? = s.peers[p]? := by
          rw [addNeighbor, if_neg hn, getElem?_insert, if_neg (Ne.symm hp)]
        have hin : p ∈ s.neighbors → p ∈ (s.addNeighbor n).neighbors := by
          intro hmem
          rw [addNeighbor, if_neg hn]
          exact List.mem_insert_of_mem hmem
        rcases ih (s.addNeighbor n) with hsame | ⟨hnot, m, hm, heq⟩
        · exact .inl (hsame.trans hone)
        · exact .inr ⟨fun hmem => hnot (hin hmem), m, by simp [hm], heq⟩

theorem peers_foldl_removeNeighbor (remove : List IpAddr) (s : Central) (p : IpAddr) :
    (remove.foldl removeNeighbor s).peers[p]? = (if p ∈ remove then none else s.peers[p]?) ∧
      (p ∈ (remove.foldl removeNeighbor s).neighbors ↔ p ∈ s.neighbors ∧ p ∉ remove) := by
  induction remove generalizing s with
  | nil => simp
  | cons q remove ih =>
    obtain ⟨hpeers, hneighbors⟩ := ih (s.removeNeighbor q)
    have hset : (s.removeNeighbor q).peers = s.peers.erase q ∧ (s.removeNeighbor q).neighbors = s.neighbors.filter (· ≠ q) := by
      simp only [removeNeighbor, applyFamilyOps, applyOps_eq]
      exact ⟨rfl, rfl⟩
    constructor
    · rw [List.foldl_cons, hpeers, hset.1, getElem?_erase]
      by_cases hq : p = q <;> simp [hq]
    · rw [List.foldl_cons, hneighbors, hset.2]
      simp only [List.mem_filter, List.mem_cons, not_or, decide_eq_true_eq]
      tauto

/-- A neighbour that is removed takes its paths with it, and one that is added finds none. -/
theorem Tagged.reconfig (h : s.Tagged) {remove : List IpAddr} {add : List NeighborConfig}
    (he : s.RolesKept (.reconfig remove add)) : (s.step (.reconfig remove add)).Tagged := by
  intro x src path hoffer hup
  have hrib := hoffer
  rw [step_rib] at hrib
  have hold : s.rib.offer x src = some path := by
    rcases BgpRib.offer_of_foldl_step hrib with hold | hnew
    · exact hold
    · simp [ribOps] at hnew
  have hkept : src.1 ∉ remove := by
    intro hin
    have hnone : ((s.ribOps (.reconfig remove add)).foldl BgpRib.step s.rib).offer x src = none := by
      refine BgpRib.offer_foldl_of_withdrawn (List.mem_map.mpr ⟨src.1, hin, rfl⟩) ?_ (by simp) s.rib
      intro rib
      exact (BgpRib.offer_withdrawPeer rib src.1 x src).trans (if_pos rfl)
    rw [hnone] at hrib
    cases hrib
  obtain ⟨hpeers, hneighbors⟩ := peers_foldl_removeNeighbor remove s src.1
  rw [if_neg hkept] at hpeers
  rcases peers_foldl_addNeighbor add (remove.foldl removeNeighbor s) src.1 with hsame | ⟨hnot, n, hn, haddr⟩
  · have hrole : (s.step (.reconfig remove add)).remoteRole src.1 = s.remoteRole src.1 := by
      rw [remoteRole, remoteRole, ← hpeers, ← hsame]
      rfl
    rw [hrole] at hup
    exact h x src path hold hup
  · have hnew : n.addr ∉ s.neighbors := by
      rw [haddr]
      exact fun hin => hnot (hneighbors.mpr ⟨hin, hkept⟩)
    have hnone := he n hn hnew (haddr ▸ hkept) x src.2
    rw [haddr, hold] at hnone
    cases hnone

theorem Tagged.step (h : s.Tagged) {e : Event} (he : s.RolesKept e) : (s.step e).Tagged := by
  by_cases hconfig : ∃ remove add, e = .reconfig remove add
  · obtain ⟨remove, add, rfl⟩ := hconfig
    exact h.reconfig he
  · refine h.of_peers ?_
    by_cases hfeed : ∃ feed, e = .rtrFeed feed
    · obtain ⟨feed, rfl⟩ := hfeed
      exact congrArg Prod.snd (settings_rtrFeed s feed)
    · exact congrArg Prod.snd (settings_step s (fun feed heq => hfeed ⟨feed, heq⟩) fun remove add heq => hconfig ⟨remove, add, heq⟩)

theorem start_sessions (c : BgpConfig) : (start c).sessions = ∅ ∧ (start c).addpathSend = [] := by
  refine List.foldlRecOn (motive := fun t : Central => t.sessions = ∅ ∧ t.addpathSend = []) c.neighbors _ ⟨rfl, rfl⟩ ?_
  intro t ht n _
  by_cases hn : n.addr ∈ t.neighbors
  · rw [addNeighbor, if_pos hn]
    exact ht
  · rw [addNeighbor, if_neg hn]
    exact ht

theorem careful_start (c : BgpConfig) : (start c).Careful := by
  obtain ⟨hsessions, hsend⟩ := start_sessions c
  refine ⟨?_, ?_, ?_⟩
  · intro a hd hget
    simp [hsessions] at hget
  · intro a hd ha
    simp [hsend] at ha
  · intro a hd ha
    simp [hsend] at ha

theorem tagged_start (c : BgpConfig) : (start c).Tagged := by
  intro x src path hoffer
  rw [start_rib, BgpRib.offer_eq] at hoffer
  simp [BgpRib.withMaxPaths] at hoffer

/-- In every state of a run that keeps ADD-PATH away from the roles, no session leaks a route and what is
stored from above is marked. And a route that a speaker has once sent to a customer or a peer goes to no
provider and no peer again, however many speakers relay it, if none of them relays it with ADD-PATH. -/
theorem leakproof_of_rolesKept (c : BgpConfig) (es : List Event) (h : Run.Every step RolesKept (start c) es) :
    (∀ fs, fs <+: es → (run c fs).Leakproof) ∧
    ∀ (first : Session) (cmd : SessionCmd) (x : Prefix) (o : Option Path) (u : Update) (sps : List Speaker),
      (∀ routes, cmd ≠ .advertiseAddPath routes) → (∀ sp ∈ sps, sp.session.addPathSend = false) →
      (x, o, u) ∈ first.announced cmd → first.remoteRole = some .customer ∨ first.remoteRole = some .peer →
      Speaker.Relayed x u sps →
        ∀ sp ∈ sps, sp.session.remoteRole ≠ some .provider ∧ sp.session.remoteRole ≠ some .peer := by
  constructor
  · rintro fs ⟨gs, rfl⟩
    have hinv := (Run.every_append.mp h).1.invariant (fun s => s.Careful ∧ s.Tagged) ⟨careful_start c, tagged_start c⟩
      fun s e hs he => ⟨hs.1.step he, hs.2.step he⟩
    exact ⟨fun a hd hget cmd hcmd x o u hmem => hinv.1.logs a hd hget cmd hcmd x o u hmem, hinv.2⟩
  · intro first cmd x o u sps hcmd hplain hsent hrole hrelayed sp hsp
    have hdown : Downstream first.remoteRole := hrole.elim .inl fun hpeer => .inr (.inl hpeer)
    have hdeltas : first.Contains cmd := by
      cases cmd with
      | advertiseAddPath routes => exact absurd rfl (hcmd routes)
      | withdrawAddPath p ids =>
        intro x o u hmem
        cases hmem
      | _ => exact Session.contains_of_addPathDeltas rfl
    obtain ⟨v, hv, -⟩ := (hdeltas x o u hsent).2 hdown
    have hup := relayed_otc hrelayed hplain ((hv v).mpr rfl) sp hsp
    exact ⟨fun hprovider => hup (.inl hprovider), fun hpeer => hup (.inr (.inl hpeer))⟩

end Central

namespace Sample

/-- All neighbours are providers. -/
def customerConfig : BgpConfig :=
  { config with neighbors := config.neighbors.map fun n => { n with props := { n.props with role := some .customer } } }

/-- The session with `192.0.2.o`, toward which the speaker has a role. -/
def establishedRole (o : UInt8) (conn : UInt64) (role : BgpRole) (addPathSend : Bool) : Event :=
  .established ⟨conn, o.toBitVec.setWidth 32, true, none, { session o addPathSend with role := some role }⟩

end Sample

namespace Central

/-- A route of a provider goes to a customer. -/
theorem leakproof_customer :
    let s := run Sample.customerConfig
      [Sample.establishedRole 3 3 .provider false, Sample.update 1 1 (Sample.announceTen [65001] [])]
    s.Leakproof ∧ (s.sessions[Sample.addr 3]?).any (fun h => h.log.any fun cmd => h.sess.announced cmd ≠ []) = true := by
  intro s
  have hes : Run.Every step RolesKept (start Sample.customerConfig)
      [Sample.establishedRole 3 3 .provider false, Sample.update 1 1 (Sample.announceTen [65001] [])] := by
    have hsend : (step (start Sample.customerConfig) (Sample.establishedRole 3 3 .provider false)).addpathSend = [] := by
      decide +kernel
    refine ⟨?_, ?_, trivial⟩
    · rintro (hadd | hin)
      · cases hadd
      · rw [(start_sessions Sample.customerConfig).2] at hin
        cases hin
    · rintro ⟨a, hd, ha, -⟩
      rw [hsend] at ha
      cases ha
  refine ⟨(leakproof_of_rolesKept Sample.customerConfig _ hes).1 _ (List.prefix_refl _), ?_⟩
  decide +kernel

/-- A route of one provider goes to another one, over a session that sends with ADD-PATH. -/
theorem not_forall_leakproof : ¬ ∀ (c : BgpConfig) (es : List Event), (run c es).Leakproof := by
  intro h
  let s := run Sample.customerConfig
    [Sample.establishedRole 3 3 .customer true, Sample.update 1 1 (Sample.announceTen [65001] [])]
  have hproof : s.Leakproof := h Sample.customerConfig _
  have hsent : (s.sessions[Sample.addr 3]?).any (fun h => h.sess.remoteRole = some .provider && h.log.any fun cmd =>
      (h.sess.announced cmd).any fun e => e.2.1.any fun path => path.otc.isSome) = true := by decide +kernel
  obtain ⟨hd, hget, hboth⟩ := (Option.any_eq_true _ _).mp hsent
  rw [Bool.and_eq_true, decide_eq_true_eq] at hboth
  obtain ⟨cmd, hcmd, hany⟩ := List.any_eq_true.mp hboth.2
  obtain ⟨⟨x, o, u⟩, hmem, hotc⟩ := List.any_eq_true.mp hany
  obtain ⟨path, hpath, hsome⟩ := (Option.any_eq_true _ _).mp hotc
  exact (hproof.sent _ hd hget cmd hcmd x o u hmem).1 path hpath hsome (.inl hboth.1)

end Central
end Wren.Daemon.Bgp
