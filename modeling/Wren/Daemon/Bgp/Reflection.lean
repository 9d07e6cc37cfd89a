import Wren.Daemon.Bgp.Evpn

/-! Whether the reflected EVPN routes keep the next hop and the service SID they came with. -/

namespace Wren.Daemon.Bgp
open Wren.Core Wren.Bgp OrdMap Std

theorem evpnNextHopIp_injective {a b : List UInt8} {ip : IpAddr} (ha : evpnNextHopIp a = some ip)
    (hb : evpnNextHopIp b = some ip) : a = b := by
  have hvalue : a.length = b.length → Octets.value a = Octets.value b → a = b := by
    intro hlen hval
    have hdigits := Octets.digits_value hlen
    rw [hval, Octets.digits_value rfl] at hdigits
    exact hdigits.symm
  have hlt4 : ∀ l : List UInt8, l.length = 4 → Octets.value l < 2 ^ 32 := by
    intro l hl
    have := Octets.value_lt l
    rw [hl] at this
    omega
  have hlt16 : ∀ l : List UInt8, l.length = 16 → Octets.value l < 2 ^ 128 := by
    intro l hl
    have := Octets.value_lt l
    rw [hl] at this
    omega
  unfold evpnNextHopIp at ha hb
  split_ifs at ha hb with h4 h4' h16' h16 h4' h16'
  all_goals
    cases ha
    simp only [Option.some.injEq, IpAddr.v4.injEq, IpAddr.v6.injEq, reduceCtorEq] at hb
  · have heq := congrArg BitVec.toNat hb
    simp only [BitVec.toNat_ofNat] at heq
    rw [Nat.mod_eq_of_lt (hlt4 a h4), Nat.mod_eq_of_lt (hlt4 b h4')] at heq
    exact hvalue (by omega) heq.symm
  · have heq := congrArg BitVec.toNat hb
    simp only [BitVec.toNat_ofNat] at heq
    rw [Nat.mod_eq_of_lt (hlt16 a h16), Nat.mod_eq_of_lt (hlt16 b h16')] at heq
    exact hvalue (by omega) heq.symm

/-! What an UPDATE says of its path. -/

theorem foldl_readAttribute_srv6Sid (l : List PathAttribute) (s : Path × Option (List AsPathSegment))
    (service : Option (Bool × Srv6ServiceSid)) (h : s.1.srv6Sid = service.map Prod.snd) :
    (l.foldl readAttribute s).1.srv6Sid =
      (l.foldl (fun service a =>
        match a with
        | .prefixSid srv6 _ => srv6.head?.bind fun t => t.sids.head?.map fun sid => (t.isL2, sid)
        | _ => service) service).map Prod.snd := by
  induction l generalizing s service with
  | nil => exact h
  | cons a l ih =>
    rw [List.foldl_cons, List.foldl_cons]
    refine ih _ _ ?_
    cases a with
    | prefixSid srv6 other =>
      cases srv6 with
      | nil => rfl
      | cons t srv6 => simp [readAttribute, Option.map_map, Function.comp_def]
    | unknown flags code value =>
      simp only [readAttribute]
      split_ifs <;> exact h
    | _ => exact h

theorem buildPath_srv6Sid (u : Update) (ip : IpAddr) (iface : Option String) (facts : PeerFacts) :
    (buildPath u ip iface facts).srv6Sid = (serviceOf u.attributes).map Prod.snd :=
  foldl_readAttribute_srv6Sid u.attributes _ none rfl

theorem offered_spec {facts : PeerFacts} {u : Update} {nh : List UInt8} {n : EvpnNlri} {p : Path}
    (h : offered facts u nh n = some p) :
    p.peerAddr = facts.addr ∧ evpnNextHopIp nh = some p.nextHop ∧ p.srv6Sid = (serviceOf u.attributes).map Prod.snd := by
  have hbuilt : ∃ ip, evpnNextHopIp nh = some ip ∧ buildPath u ip none facts = p := by
    cases n <;> simp only [offered, Option.map_eq_some_iff, reduceCtorEq] at h <;> exact h
  obtain ⟨ip, hip, rfl⟩ := hbuilt
  exact ⟨buildPath_peerAddr u ip none facts, hip.trans (by rw [buildPath_nextHop]), buildPath_srv6Sid u ip none facts⟩

/-! What a session writes. -/

theorem serviceOf_append_of_none {l : List PathAttribute} (h : ∀ a ∈ l, ∀ srv6 other, a ≠ .prefixSid srv6 other)
    (r : List PathAttribute) : serviceOf (l ++ r) = serviceOf r := by
  unfold serviceOf
  rw [List.foldl_append]
  congr 1
  induction l with
  | nil => rfl
  | cons a l ih =>
    have hrest := ih fun b hb => h b (by simp [hb])
    cases a with
    | prefixSid srv6 other => exact absurd rfl (h _ (by simp) srv6 other)
    | _ => exact hrest

theorem propagatedBaseAttrs_ne_prefixSid (s : Session) (p : Path) :
    ∀ a ∈ s.propagatedBaseAttrs p, ∀ srv6 other, a ≠ .prefixSid srv6 other := by
  intro a ha srv6 other heq
  subst heq
  have hpass : PathAttribute.prefixSid srv6 other ∉ reflagPassThrough p.passThrough := by
    intro hmem
    obtain ⟨b, -, hb⟩ := List.mem_filterMap.mp hmem
    cases b <;> simp at hb
  have hcomm : PathAttribute.prefixSid srv6 other ∉ communityAttrs p.communities p.largeCommunities p.extCommunities := by
    unfold communityAttrs
    split_ifs <;> simp
  unfold Session.propagatedBaseAttrs at ha
  simp only [List.mem_cons, List.mem_append, hpass, hcomm, reduceCtorEq, or_false, false_or] at ha
  cases htype : s.peerType
  all_goals
    rw [htype] at ha
    simp only [List.mem_cons, List.mem_append, List.not_mem_nil, reduceCtorEq, or_false, false_or] at ha
  all_goals
    split_ifs at ha
    all_goals simp at ha

/-- A route eligible for the peer goes out with its next hop, its SID and the L2 kind. -/
theorem propagateEvpnOne_spec {s : Session} {r : EvpnPropRoute} (h : shouldPropagate r.path s.peerType s.rrClient s.addr = true) :
    ∃ attrs, s.propagateEvpnOne r = some (.reach attrs r.nextHop [r.nlri]) ∧
      serviceOf attrs = r.path.srv6Sid.map fun sid => (true, sid) := by
  refine ⟨s.propagatedBaseAttrs r.path ++ r.path.srv6Sid.elim [] fun sid => [.prefixSid [⟨true, [sid]⟩] []], ?_, ?_⟩
  · simp only [Session.propagateEvpnOne, h, Bool.not_true, Bool.false_eq_true, if_false]
  rw [serviceOf_append_of_none (propagatedBaseAttrs_ne_prefixSid s r.path)]
  cases r.path.srv6Sid <;> rfl

theorem lastSent_append (l r : List EvpnMsg) (n : EvpnNlri) :
    lastSent (l ++ r) n = (lastSent r n).or (lastSent l n) := by
  rw [lastSent, List.filter_append, List.getLast?_append]
  rfl

theorem lastSent_of_forall {l : List EvpnMsg} {n : EvpnNlri} (h : ∀ m ∈ l, n ∉ m.nlris) : lastSent l n = none := by
  rw [lastSent, List.filter_eq_nil_iff.mpr (by simpa using h)]
  rfl

theorem nlris_of_propagateEvpnOne {s : Session} {r : EvpnPropRoute} {m : EvpnMsg} (h : s.propagateEvpnOne r = some m) :
    m.nlris = [r.nlri] := by
  unfold Session.propagateEvpnOne at h
  split_ifs at h
  cases h
  rfl

namespace EvpnSession

@[simp] theorem handle_session (w : EvpnSession) (cmd : EvpnCmd) : (w.handle cmd).session = w.session := by
  unfold handle
  split_ifs <;> rfl

@[simp] theorem handle_mpEvpn (w : EvpnSession) (cmd : EvpnCmd) : (w.handle cmd).mpEvpn = w.mpEvpn := by
  unfold handle
  split_ifs <;> rfl

theorem handle_written {w : EvpnSession} (h : w.mpEvpn = true) (cmd : EvpnCmd) :
    (w.handle cmd).written = w.written ++ w.session.writeEvpn cmd := by
  rw [handle, if_pos h]

/-- A command that does not touch an NLRI leaves the peer with what it was told about it. -/
theorem lastSent_handle {w : EvpnSession} {cmd : EvpnCmd} {n : EvpnNlri} (h : ∀ m ∈ w.session.writeEvpn cmd, n ∉ m.nlris) :
    lastSent (w.handle cmd).written n = lastSent w.written n := by
  by_cases hmp : w.mpEvpn = true
  · rw [handle_written hmp, lastSent_append, lastSent_of_forall h, Option.none_or]
  · rw [handle, if_neg hmp]

end EvpnSession

namespace EvpnCentral
variable {c : EvpnConfig}

theorem getElem?_fanout (fromPeer : IpAddr) (cmd : EvpnCmd) (sessions : BTreeMap IpAddr EvpnSession) (a : IpAddr) :
    (fanout c fromPeer cmd sessions)[a]? =
      (sessions[a]?).map fun w => if a = fromPeer ∨ c.evpn a = false then w else w.handle cmd :=
  ExtTreeMap.getElem?_map

/-- For one NLRI, neither the next hop on record changed nor what any session was told. -/
structure Keeps (n : EvpnNlri) (s s' : EvpnCentral) : Prop where
  nextHop : s'.nextHops[n]? = s.nextHops[n]?
  told : ∀ (a : IpAddr) (w' : EvpnSession), s'.sessions[a]? = some w' → ∃ w : EvpnSession, s.sessions[a]? = some w ∧
    w'.session = w.session ∧ w'.mpEvpn = w.mpEvpn ∧ lastSent w'.written n = lastSent w.written n

theorem Keeps.rfl {n : EvpnNlri} {s : EvpnCentral} : Keeps n s s := ⟨Eq.refl _, fun _ w h => ⟨w, h, Eq.refl _, Eq.refl _, Eq.refl _⟩⟩

theorem Keeps.trans {n : EvpnNlri} {s s' s'' : EvpnCentral} (h : Keeps n s s') (h' : Keeps n s' s'') : Keeps n s s'' := by
  refine ⟨h'.nextHop.trans h.nextHop, ?_⟩
  intro a w'' hw''
  obtain ⟨w', hw', hsess', hmp', hlast'⟩ := h'.told a w'' hw''
  obtain ⟨w, hw, hsess, hmp, hlast⟩ := h.told a w' hw'
  exact ⟨w, hw, hsess'.trans hsess, hmp'.trans hmp, hlast'.trans hlast⟩

theorem told_fanout {fromPeer : IpAddr} {cmd : EvpnCmd} {n : EvpnNlri} {sessions : BTreeMap IpAddr EvpnSession}
    (h : ∀ s : Session, ∀ m ∈ s.writeEvpn cmd, n ∉ m.nlris) (a : IpAddr) (w' : EvpnSession)
    (hw' : (fanout c fromPeer cmd sessions)[a]? = some w') : ∃ w : EvpnSession, sessions[a]? = some w ∧
      w'.session = w.session ∧ w'.mpEvpn = w.mpEvpn ∧ lastSent w'.written n = lastSent w.written n := by
  rw [getElem?_fanout] at hw'
  obtain ⟨w, hw, hw'⟩ := Option.map_eq_some_iff.mp hw'
  refine ⟨w, hw, ?_⟩
  split_ifs at hw'
  · subst hw'
    exact ⟨Eq.refl _, Eq.refl _, Eq.refl _⟩
  · subst hw'
    exact ⟨w.handle_session cmd, w.handle_mpEvpn cmd, EvpnSession.lastSent_handle (h w.session)⟩

theorem keeps_handleEvpnEvent (nh : List UInt8) (fromPeer : IpAddr) (s : EvpnCentral) {ev : EvpnRibEvent} {n : EvpnNlri}
    (hn : n ≠ ev.nlri) : Keeps n s (handleEvpnEvent c nh fromPeer s ev) := by
  cases ev with
  | best nlri path =>
    refine ⟨?_, ?_⟩
    · exact (getElem?_insert _ _ _ _).trans (if_neg hn)
    · refine told_fanout ?_
      intro t m hm hmem
      obtain ⟨r, hr, hone⟩ := List.mem_filterMap.mp hm
      rw [List.mem_singleton] at hr
      rw [nlris_of_propagateEvpnOne hone, List.mem_singleton, hr] at hmem
      exact hn hmem
  | withdrawn nlri =>
    refine ⟨?_, ?_⟩
    · exact (getElem?_erase _ _ _).trans (if_neg hn)
    · refine told_fanout ?_
      intro t m hm hmem
      have hm' : m = .unreach [nlri] := by simpa [Session.writeEvpn, Session.withdrawEvpn] using hm
      rw [hm', EvpnMsg.nlris, List.mem_singleton] at hmem
      exact hn hmem

@[simp] theorem handleEvpnEvent_rib (nh : List UInt8) (fromPeer : IpAddr) (s : EvpnCentral) (ev : EvpnRibEvent) :
    (handleEvpnEvent c nh fromPeer s ev).rib = s.rib := by
  cases ev <;> rfl

theorem foldl_handleEvpnEvent (nh : List UInt8) (fromPeer : IpAddr) (evs : List EvpnRibEvent) (s : EvpnCentral) :
    (evs.foldl (handleEvpnEvent c nh fromPeer) s).rib = s.rib ∧
      ∀ n, n ∉ evs.map EvpnRibEvent.nlri → Keeps n s (evs.foldl (handleEvpnEvent c nh fromPeer) s) := by
  induction evs generalizing s with
  | nil => exact ⟨rfl, fun _ _ => .rfl⟩
  | cons ev evs ih =>
    obtain ⟨hrib, hkeeps⟩ := ih (handleEvpnEvent c nh fromPeer s ev)
    refine ⟨hrib.trans (handleEvpnEvent_rib nh fromPeer s ev), ?_⟩
    intro n hn
    simp only [List.map_cons, List.mem_cons, not_or] at hn
    exact (keeps_handleEvpnEvent nh fromPeer s hn.1).trans (hkeeps n hn.2)

/-- The next hop and the service SID of the UPDATE by which a peer last offered an NLRI. -/
structure Delivery where
  nextHop : List UInt8
  service : Option (Bool × Srv6ServiceSid)

abbrev Deliveries := IpAddr → EvpnNlri → Option Delivery

def note (d : Deliveries) (_ : EvpnCentral) : EvpnChange → Deliveries
  | .offer facts update nh nlri =>
    if (offered facts update nh nlri).isSome then
      fun a n => if a = facts.addr ∧ n = nlri then some ⟨nh, serviceOf update.attributes⟩ else d a n
    else d
  | _ => d

/-- The next hop on record is the delivered one, and every session the path is eligible for was told it
with the delivered service SID. -/
def Sent (c : EvpnConfig) (s : EvpnCentral) (n : EvpnNlri) (p : Path) (dl : Delivery) : Prop :=
  s.nextHops[n]? = some dl.nextHop ∧
    ∀ (a : IpAddr) (w : EvpnSession), s.sessions[a]? = some w → c.evpn a = true → w.mpEvpn = true →
      shouldPropagate p w.session.peerType w.session.rrClient a = true →
        ∃ attrs nlris, lastSent w.written n = some (.reach attrs dl.nextHop nlris) ∧ serviceOf attrs = dl.service

/-- Every best path was reflected as it was delivered. -/
def Reflected (c : EvpnConfig) (s : EvpnCentral) (d : Deliveries) : Prop :=
  ∀ n p, s.rib.bestOf n = some p → ∃ dl, d p.peerAddr n = some dl ∧ Sent c s n p dl

/-- Once the offers for an NLRI are those of `offers`, no path is the best that was not. -/
def Stays (s : EvpnCentral) (n : EvpnNlri) (offers : Offers) : Prop :=
  EvpnRib.selectBest offers.paths = none ∨ EvpnRib.selectBest offers.paths = s.rib.bestOf n

/-- A path becomes the best one only by its own UPDATE, and then it carries no L3 service SID. -/
def SelfElected (s : EvpnCentral) : EvpnChange → Prop
  | .withdraw peer nlri => s.Stays nlri ((s.rib.offers nlri).filter fun k _ => k.1 ≠ peer)
  | .lost peer => ∀ n, s.Stays n ((s.rib.offers n).filter fun k _ => k.1 ≠ peer)
  | .offer facts update nh nlri =>
    ∀ path, offered facts update nh nlri = some path →
      let offers : Offers := (s.rib.offers nlri).insert (facts.addr, 0) path
      let selected := EvpnRib.selectBest offers.paths
      (selected ≠ some path → selected = s.rib.bestOf nlri) ∧
        (selected = some path → ∀ sid, serviceOf update.attributes ≠ some (false, sid))
  | .established .. => True

/-- What holds as long as every best path got there by its own UPDATE. -/
structure Reflecting (c : EvpnConfig) (s : EvpnCentral) (d : Deliveries) : Prop where
  selected : s.rib.Selected
  sources : ∀ (n : EvpnNlri) (src : IpAddr × UInt32) (p : Path), (s.rib.offers n)[src]? = some p → src = (p.peerAddr, 0)
  addrs : ∀ (a : IpAddr) (w : EvpnSession), s.sessions[a]? = some w → w.session.addr = a
  best : ∀ n p, s.rib.bestOf n = some p → ∃ dl, d p.peerAddr n = some dl ∧ evpnNextHopIp dl.nextHop = some p.nextHop ∧
    dl.service = p.srv6Sid.map (fun sid => (true, sid)) ∧ Sent c s n p dl

theorem Reflecting.reflected {s : EvpnCentral} {d : Deliveries} (h : Reflecting c s d) : Reflected c s d := by
  intro n p hp
  obtain ⟨dl, hd, -, -, hsent⟩ := h.best n p hp
  exact ⟨dl, hd, hsent⟩

theorem Sent.keeps {s s' : EvpnCentral} {n : EvpnNlri} {p : Path} {dl : Delivery} (h : Sent c s n p dl) (hk : Keeps n s s') :
    Sent c s' n p dl := by
  refine ⟨hk.nextHop.trans h.1, ?_⟩
  intro a w' hw' hevpn hmp helig
  obtain ⟨w, hw, hsess, hmp', hlast⟩ := hk.told a w' hw'
  rw [hsess] at helig
  rw [hlast]
  exact h.2 a w hw hevpn (hmp'.symm.trans hmp) helig

/-- A best path that is neither touched nor delivered anew is reflected as before. -/
theorem Reflecting.best_of_keeps {s s' : EvpnCentral} {d : Deliveries} (h : Reflecting c s d) {n : EvpnNlri} {p : Path}
    (hp : s.rib.bestOf n = some p) (hk : Keeps n s s') {o : Option Delivery} (ho : o = d p.peerAddr n) :
    ∃ dl, o = some dl ∧ evpnNextHopIp dl.nextHop = some p.nextHop ∧
      dl.service = p.srv6Sid.map (fun sid => (true, sid)) ∧ Sent c s' n p dl := by
  obtain ⟨dl, hdl, hnh, hservice, hsent⟩ := h.best n p hp
  exact ⟨dl, ho.trans hdl, hnh, hservice, hsent.keeps hk⟩

theorem addrs_foldl {nh : List UInt8} {fromPeer : IpAddr} (evs : List EvpnRibEvent) {s : EvpnCentral}
    (h : ∀ (a : IpAddr) (w : EvpnSession), s.sessions[a]? = some w → w.session.addr = a) (a : IpAddr) (w : EvpnSession)
    (hw : (evs.foldl (handleEvpnEvent c nh fromPeer) s).sessions[a]? = some w) : w.session.addr = a := by
  induction evs generalizing s with
  | nil => exact h a w hw
  | cons ev evs ih =>
    refine ih ?_ hw
    intro b v hv
    have hfan : ∃ cmd, (handleEvpnEvent c nh fromPeer s ev).sessions = fanout c fromPeer cmd s.sessions := by
      cases ev <;> exact ⟨_, rfl⟩
    obtain ⟨cmd, hcmd⟩ := hfan
    rw [hcmd, getElem?_fanout] at hv
    obtain ⟨v', hv', rfl⟩ := Option.map_eq_some_iff.mp hv
    have haddr := h b v' hv'
    split_ifs
    · exact haddr
    · rw [EvpnSession.handle_session]
      exact haddr

/-- A withdrawal or a lost session that promotes no path. -/
theorem reflecting_removed {s : EvpnCentral} {d : Deliveries} (h : Reflecting c s d) {rib' : EvpnRib}
    {sessions' : BTreeMap IpAddr EvpnSession} {evs : List EvpnRibEvent} (peer : IpAddr)
    (hsessions : ∀ (a : IpAddr) (w : EvpnSession), sessions'[a]? = some w → s.sessions[a]? = some w)
    (htells : EvpnRib.Tells s.rib rib' evs) (hsel : rib'.Selected)
    (hoff : ∀ (n : EvpnNlri) (src : IpAddr × UInt32) (p : Path), (rib'.offers n)[src]? = some p → (s.rib.offers n)[src]? = some p)
    (hstays : ∀ n, rib'.bestOf n = none ∨ rib'.bestOf n = s.rib.bestOf n) :
    Reflecting c (evs.foldl (handleEvpnEvent c [] peer) { s with rib := rib', sessions := sessions' }) d := by
  obtain ⟨hrib, hkeeps⟩ := foldl_handleEvpnEvent (c := c) [] peer evs { s with rib := rib', sessions := sessions' }
  refine ⟨?_, ?_, ?_, ?_⟩
  · rw [hrib]
    exact hsel
  · rw [hrib]
    intro n src p hp
    exact h.sources n src p (hoff n src p hp)
  · exact addrs_foldl evs fun a w hw => h.addrs a w (hsessions a w hw)
  · rw [hrib]
    intro n p hp
    have hsame : s.rib.bestOf n = some p := by
      rcases hstays n with hnone | hsame
      · rw [hnone] at hp
        cases hp
      · exact hsame.symm.trans hp
    have hquiet : n ∉ evs.map EvpnRibEvent.nlri := htells.quiet (by exact hp.trans hsame.symm)
    have hkept : Keeps n s { s with rib := rib', sessions := sessions' } :=
      ⟨rfl, fun a w hw => ⟨w, hsessions a w hw, rfl, rfl, rfl⟩⟩
    exact h.best_of_keeps hsame (hkept.trans (hkeeps n hquiet)) rfl

theorem reflecting_withdraw {s : EvpnCentral} {d : Deliveries} (h : Reflecting c s d) {peer : IpAddr} {nlri : EvpnNlri}
    (hstays : s.Stays nlri ((s.rib.offers nlri).filter fun k _ => k.1 ≠ peer)) :
    Reflecting c (step c s (.withdraw peer nlri)) d := by
  have hsel := EvpnRib.selected_withdraw h.selected peer nlri
  refine reflecting_removed h peer (fun _ _ hw => hw) (EvpnRib.tells_withdraw s.rib peer nlri) hsel ?_ ?_
  · intro n src p hp
    rw [EvpnRib.offers_withdraw] at hp
    split_ifs at hp with hn
    · rw [ExtTreeMap.getElem?_filter', Option.filter_eq_some_iff] at hp
      rw [hn]
      exact hp.1
    · exact hp
  · intro n
    rw [hsel n, EvpnRib.offers_withdraw]
    split_ifs with hn
    · rw [hn]
      exact hstays
    · exact .inr (h.selected n).symm

theorem reflecting_lost {s : EvpnCentral} {d : Deliveries} (h : Reflecting c s d) {peer : IpAddr}
    (hstays : ∀ n, s.Stays n ((s.rib.offers n).filter fun k _ => k.1 ≠ peer)) :
    Reflecting c (step c s (.lost peer)) d := by
  obtain ⟨hsel, hoff⟩ := EvpnRib.withdrawPeer_spec h.selected peer
  refine reflecting_removed h peer ?_ (EvpnRib.tells_withdrawPeer s.rib peer) hsel ?_ ?_
  · intro a w hw
    rw [getElem?_erase] at hw
    split_ifs at hw
    exact hw
  · intro n src p hp
    rw [hoff, ExtTreeMap.getElem?_filter', Option.filter_eq_some_iff] at hp
    exact hp.1
  · intro n
    rw [hsel n, hoff n]
    exact hstays n

/-- A new best path is told to all sessions that it is eligible for. -/
theorem sent_best {s : EvpnCentral} (haddrs : ∀ (a : IpAddr) (w : EvpnSession), s.sessions[a]? = some w → w.session.addr = a)
    (n : EvpnNlri) (p : Path) (nh : List UInt8) :
    Sent c (handleEvpnEvent c nh p.peerAddr s (.best n p)) n p ⟨nh, p.srv6Sid.map fun sid => (true, sid)⟩ := by
  refine ⟨(getElem?_insert _ _ _ _).trans (if_pos rfl), ?_⟩
  intro a w' hw' hevpn hmp helig
  have hfan := getElem?_fanout (c := c) p.peerAddr (.propagate [⟨n, p, nh⟩]) s.sessions a
  obtain ⟨w, hw, hw⟩ := Option.map_eq_some_iff.mp (hfan.symm.trans hw')
  have hother : a ≠ p.peerAddr := by
    intro ha
    rw [shouldPropagate, if_pos ha.symm] at helig
    cases helig
  rw [if_neg (by simp [hother, hevpn])] at hw
  subst hw
  rw [EvpnSession.handle_session] at helig
  rw [EvpnSession.handle_mpEvpn] at hmp
  have haddr : w.session.addr = a := haddrs a w ‹_›
  rw [← haddr] at helig
  obtain ⟨attrs, hone, hservice⟩ := propagateEvpnOne_spec (s := w.session) (r := ⟨n, p, nh⟩) helig
  refine ⟨attrs, [n], ?_, hservice⟩
  rw [EvpnSession.handle_written hmp, lastSent_append]
  simp [Session.writeEvpn, hone, lastSent, EvpnMsg.nlris]

/-- An L2 service is all that a path keeps of it. -/
theorem service_of_l2 {service : Option (Bool × Srv6ServiceSid)} (h : ∀ sid, service ≠ some (false, sid)) :
    service = (service.map Prod.snd).map fun sid => (true, sid) := by
  cases service with
  | none => rfl
  | some t =>
    obtain ⟨l2, sid⟩ := t
    cases l2 with
    | false => exact absurd rfl (h sid)
    | true => rfl

section Offer
variable {s : EvpnCentral} {d : Deliveries} {facts : PeerFacts} {u : Update} {nh : List UInt8} {n : EvpnNlri} {path : Path}

theorem sources_update (h : Reflecting c s d) (hpeer : path.peerAddr = facts.addr) (m : EvpnNlri) (src : IpAddr × UInt32) (p : Path)
    (hp : ((s.rib.update facts.addr n path).1.offers m)[src]? = some p) : src = (p.peerAddr, 0) := by
  rw [EvpnRib.offers_update] at hp
  split_ifs at hp with hm
  · rw [getElem?_insert] at hp
    split_ifs at hp with hsrc
    · cases hp
      rw [hsrc, hpeer]
    · exact h.sources n src p hp
  · exact h.sources m src p hp

/-- An offered path that is the best one now is reflected as it was delivered. -/
theorem sent_offered (h : Reflecting c s d) (hpeer : path.peerAddr = facts.addr) (hip : evpnNextHopIp nh = some path.nextHop)
    (hp : (s.rib.update facts.addr n path).1.bestOf n = some path) :
    Sent c ((s.rib.update facts.addr n path).2.toList.foldl (handleEvpnEvent c nh facts.addr)
      { s with rib := (s.rib.update facts.addr n path).1 }) n path ⟨nh, path.srv6Sid.map fun sid => (true, sid)⟩ := by
  have htells := EvpnRib.tells_update s.rib facts.addr n path
  cases hev : (s.rib.update facts.addr n path).2 with
  | none =>
    rw [hev] at htells
    have hsame : s.rib.bestOf n = some path := by
      rw [← htells.silent n (by simp)]
      exact hp
    obtain ⟨dl, -, hnh, hservice, hsent⟩ := h.best n path hsame
    rw [evpnNextHopIp_injective hip hnh, ← hservice]
    exact hsent
  | some ev =>
    rw [hev] at htells
    have hnlri : ev.nlri = n := EvpnRib.nlri_of_reselect hev
    have hpath : ev.path = some path := by
      rw [← htells.told ev (by simp), hnlri]
      exact hp
    have hbest : ev = .best n path := by
      cases ev with
      | best m p =>
        cases hnlri
        cases hpath
        rfl
      | withdrawn m => cases hpath
    rw [hbest, ← hpeer]
    exact sent_best h.addrs n path nh

theorem reflecting_offer (h : Reflecting c s d) (hself : s.SelfElected (.offer facts u nh n)) :
    Reflecting c (step c s (.offer facts u nh n)) (note d s (.offer facts u nh n)) := by
  cases hoffer : offered facts u nh n with
  | none =>
    simp only [step, note, hoffer, Option.isSome_none, Bool.false_eq_true, if_false]
    exact h
  | some path =>
    obtain ⟨hpeer, hip, hsid⟩ := offered_spec hoffer
    obtain ⟨hothers, hl2⟩ := hself path hoffer
    simp only [step, note, hoffer, Option.isSome_some, if_true]
    have hsel := EvpnRib.selected_update h.selected facts.addr n path
    have htells := EvpnRib.tells_update s.rib facts.addr n path
    have hoff := EvpnRib.offers_update s.rib facts.addr n path n
    have hsources := sources_update (n := n) h hpeer
    have hsent := sent_offered (n := n) h hpeer hip
    set rib' := (s.rib.update facts.addr n path).1
    set evs := (s.rib.update facts.addr n path).2.toList
    have hbest : rib'.bestOf n = EvpnRib.selectBest (Offers.paths ((s.rib.offers n).insert (facts.addr, 0) path)) := by
      rw [hsel n, hoff, if_pos rfl]
    obtain ⟨hrib, hkeeps⟩ := foldl_handleEvpnEvent (c := c) nh facts.addr evs { s with rib := rib' }
    have hquiet : ∀ m, rib'.bestOf m = s.rib.bestOf m →
        Keeps m s (evs.foldl (handleEvpnEvent c nh facts.addr) { s with rib := rib' }) := by
      intro m hm
      obtain ⟨hnh, htold⟩ := hkeeps m (htells.quiet hm)
      exact ⟨hnh, htold⟩
    refine ⟨?_, ?_, addrs_foldl evs h.addrs, ?_⟩
    · rw [hrib]
      exact hsel
    · rw [hrib]
      exact hsources
    rw [hrib]
    intro m p hp
    have hp' : rib'.bestOf m = some p := hp
    by_cases hm : m = n
    · subst hm
      by_cases hpath : p = path
      · subst hpath
        have hservice : serviceOf u.attributes = p.srv6Sid.map fun sid => (true, sid) := by
          rw [hsid]
          exact service_of_l2 (hl2 (hbest.symm.trans hp'))
        refine ⟨⟨nh, serviceOf u.attributes⟩, if_pos ⟨hpeer, rfl⟩, hip, hservice, ?_⟩
        rw [hservice]
        exact hsent hp'
      · -- another path is the best one, as before, and it is not of this peer
        have hsame : rib'.bestOf m = s.rib.bestOf m := by
          rw [hbest]
          refine hothers ?_
          rw [← hbest, hp']
          exact fun heq => hpath (Option.some.inj heq)
        have hother : p.peerAddr ≠ facts.addr := by
          intro heq
          obtain ⟨src, hsrc⟩ := EvpnRib.exists_offer_of_best hsel hp'
          have hkey := hsources m src p hsrc
          rw [hoff, if_pos rfl, hkey, heq, getElem?_insert, if_pos rfl] at hsrc
          exact hpath (Option.some.inj hsrc).symm
        refine h.best_of_keeps (hsame.symm.trans hp') (hquiet m hsame) ?_
        exact if_neg fun hboth => hother hboth.1
    · have hsame : rib'.bestOf m = s.rib.bestOf m := by
        refine htells.silent m ?_
        intro hmem
        obtain ⟨ev, hev, rfl⟩ := List.mem_map.mp hmem
        exact hm (EvpnRib.nlri_of_reselect (Option.mem_toList.mp hev))
      refine h.best_of_keeps (hsame.symm.trans hp') (hquiet m hsame) ?_
      exact if_neg fun hboth => hm hboth.2

end Offer

theorem exists_lastSent {l : List EvpnMsg} {n : EvpnNlri} (h : ∃ m ∈ l, n ∈ m.nlris) :
    ∃ m ∈ l, n ∈ m.nlris ∧ lastSent l n = some m := by
  obtain ⟨m, hm, hn⟩ := h
  have hne : l.filter (fun m => n ∈ m.nlris) ≠ [] := List.ne_nil_of_mem (List.mem_filter.mpr ⟨hm, by simpa using hn⟩)
  have hlast := List.getLast_mem hne
  rw [List.mem_filter] at hlast
  exact ⟨_, hlast.1, by simpa using hlast.2, List.getLast?_eq_getLast_of_ne_nil hne⟩

/-- A session that comes up is told every best path that it is eligible for. -/
theorem lastSent_greet {s : EvpnCentral} {session : Session} {n : EvpnNlri} {p : Path} {nh : List UInt8}
    (hp : s.rib.bestOf n = some p) (hnh : s.nextHops[n]? = some nh)
    (helig : shouldPropagate p session.peerType session.rrClient session.addr = true) :
    ∃ attrs nlris, lastSent (greet c s ⟨session, true, []⟩).written n = some (.reach attrs nh nlris) ∧
      serviceOf attrs = p.srv6Sid.map fun sid => (true, sid) := by
  let prop := s.rib.best.toList.filterMap fun e => (s.nextHops[e.1]?).map fun nh => (⟨e.1, e.2, nh⟩ : EvpnPropRoute)
  have hroute : ∀ r ∈ prop, r.nlri = n → r = ⟨n, p, nh⟩ := by
    intro r hr hrn
    obtain ⟨e, he, hre⟩ := List.mem_filterMap.mp hr
    obtain ⟨nh', hnh', rfl⟩ := Option.map_eq_some_iff.mp hre
    have hen : e.1 = n := hrn
    have hbest := ExtTreeMap.mem_toList_iff_getElem?_eq_some.mp he
    rw [hen] at hbest hnh'
    have hpath : e.2 = p := Option.some.inj (hbest.symm.trans hp)
    rw [hen, hpath, Option.some.inj (hnh'.symm.trans hnh)]
  have hmem : (⟨n, p, nh⟩ : EvpnPropRoute) ∈ prop := by
    refine List.mem_filterMap.mpr ⟨(n, p), ExtTreeMap.mem_toList_iff_getElem?_eq_some.mpr hp, ?_⟩
    rw [hnh, Option.map_some]
  obtain ⟨attrs, hone, hservice⟩ := propagateEvpnOne_spec (s := session) (r := ⟨n, p, nh⟩) helig
  have hwritten : (greet c s ⟨session, true, []⟩).written =
      ([] ++ session.writeEvpn (.advertise c.originated)) ++ session.writeEvpn (.propagate prop) := by
    rw [greet, EvpnSession.handle_written (EvpnSession.handle_mpEvpn _ _), EvpnSession.handle_session,
      EvpnSession.handle_written rfl]
  have htold : ∃ m ∈ session.writeEvpn (.propagate prop), n ∈ m.nlris :=
    ⟨.reach attrs nh [n], List.mem_filterMap.mpr ⟨_, hmem, hone⟩, by simp [EvpnMsg.nlris]⟩
  obtain ⟨m, hm, hmn, hlast⟩ := exists_lastSent htold
  have hreach : m = .reach attrs nh [n] := by
    obtain ⟨r, hr, hrm⟩ := List.mem_filterMap.mp hm
    rw [nlris_of_propagateEvpnOne hrm, List.mem_singleton] at hmn
    rw [hroute r hr hmn.symm, hone] at hrm
    exact (Option.some.inj hrm).symm
  refine ⟨attrs, [n], ?_, hservice⟩
  rw [hwritten, lastSent_append]
  rw [hlast, hreach, Option.some_or]

theorem greet_session (s : EvpnCentral) (w : EvpnSession) : (greet c s w).session = w.session := by
  rw [greet, EvpnSession.handle_session, EvpnSession.handle_session]

theorem reflecting_established {s : EvpnCentral} {d : Deliveries} (h : Reflecting c s d) (session : Session) (mpEvpn : Bool) :
    Reflecting c (step c s (.established session mpEvpn)) d := by
  refine ⟨h.selected, h.sources, ?_, ?_⟩
  · intro a w hw
    rw [step, getElem?_insert] at hw
    split_ifs at hw with ha hevpn
    · cases hw
      rw [greet_session]
      exact ha.symm
    · cases hw
      exact ha.symm
    · exact h.addrs a w hw
  · intro n p hp
    obtain ⟨dl, hd, hnh, hservice, hrecord, hsent⟩ := h.best n p hp
    refine ⟨dl, hd, hnh, hservice, hrecord, ?_⟩
    intro a w hw hevpn hmp helig
    rw [step, getElem?_insert] at hw
    split_ifs at hw with ha hactive
    · cases hw
      have hmp' : mpEvpn = true := by
        rw [← hmp, greet, EvpnSession.handle_mpEvpn, EvpnSession.handle_mpEvpn]
      rw [greet_session, ha] at helig
      rw [hmp', hservice]
      exact lastSent_greet hp hrecord helig
    · rw [ha] at hevpn
      exact absurd hevpn hactive
    · exact hsent a w hw hevpn hmp helig

theorem reflecting_step {s : EvpnCentral} {d : Deliveries} (h : Reflecting c s d) (e : EvpnChange) (he : s.SelfElected e) :
    Reflecting c (step c s e) (note d s e) := by
  cases e with
  | withdraw peer nlri => exact reflecting_withdraw h he
  | offer facts u nh nlri => exact reflecting_offer h he
  | lost peer => exact reflecting_lost h he
  | established session mpEvpn => exact reflecting_established h session mpEvpn

theorem reflecting_new : Reflecting c new fun _ _ => none := by
  refine ⟨EvpnRib.selected_new, ?_, ?_, ?_⟩
  · intro n src p hp
    simp [new] at hp
  · intro a w hw
    simp [new] at hw
  · intro n p hp
    simp [new] at hp

/-- The central task and what its peers delivered, after a run. -/
def run (c : EvpnConfig) (es : List EvpnInput) : EvpnCentral × Deliveries :=
  (es.flatMap (·.changes c.loc)).foldl (Run.observe (step c) note) (new, fun _ _ => none)

/-- In every state of a run whose best paths all got there by their own UPDATEs, each of them was
reflected with the next hop and the service SID that it was delivered with. -/
theorem reflected_of_selfElected (c : EvpnConfig) (es : List EvpnInput)
    (h : Run.Every (step c) SelfElected new (es.flatMap (·.changes c.loc))) (fs : List EvpnInput) (hfs : fs <+: es) :
    Reflected c (run c fs).1 (run c fs).2 := by
  obtain ⟨gs, rfl⟩ := hfs
  rw [List.flatMap_append, Run.every_append] at h
  have hall : ∀ (l : List EvpnChange) (w : EvpnCentral × Deliveries), Run.Every (step c) SelfElected w.1 l →
      Reflecting c w.1 w.2 → Reflecting c (l.foldl (Run.observe (step c) note) w).1 (l.foldl (Run.observe (step c) note) w).2 := by
    intro l
    induction l with
    | nil => exact fun w _ hw => hw
    | cons e l ih => exact fun w hl hw => ih _ hl.2 (reflecting_step hw e hl.1)
  exact (hall _ (new, fun _ _ => none) h.1 reflecting_new).reflected

end EvpnCentral

/-! Route-reflector clients that offer one route, and one that hears of it. -/

namespace Sample

def reflector : EvpnConfig := ⟨loc, fun _ => true, []⟩

/-- The client `192.0.2.o`. -/
def client (o : UInt8) : Session := { session o false with peerType := .ibgp, rrClient := true }

def clientFacts (o : UInt8) : PeerFacts := ⟨addr o, 65000, o.toBitVec.setWidth 32, false, false, true⟩

def inclusive : EvpnNlri := .imet (.replicate 8 1) 0 (addr 9)

/-- The client offers the route with itself as the next hop. -/
def offerInclusive (o : UInt8) : EvpnInput :=
  .update (clientFacts o) { attributes := [.origin .igp, .asPath []] } [] (some ([192, 0, 2, o], [inclusive]))

def withdrawInclusive (o : UInt8) : EvpnInput := .update (clientFacts o) {} [inclusive] none

end Sample

namespace EvpnCentral

/-- A client hears of the route of another one. -/
theorem reflected_one_client :
    let s := (run Sample.reflector [.established (Sample.client 3) true, Sample.offerInclusive 1]).1
    ∃ p, s.rib.bestOf Sample.inclusive = some p ∧ s.nextHops[Sample.inclusive]? = some [192, 0, 2, 1] ∧
      ∃ w attrs nlris, s.sessions[Sample.addr 3]? = some w ∧
        lastSent w.written Sample.inclusive = some (.reach attrs [192, 0, 2, 1] nlris) := by
  intro s
  have hself : Run.Every (step Sample.reflector) SelfElected new
      ([EvpnInput.established (Sample.client 3) true, Sample.offerInclusive 1].flatMap (·.changes Sample.reflector.loc)) := by
    refine ⟨trivial, ?_, trivial⟩
    intro path hpath
    have hsel : (offered (Sample.clientFacts 1) { attributes := [.origin .igp, .asPath []] } [192, 0, 2, 1] Sample.inclusive).all
        (fun path => EvpnRib.selectBest (Offers.paths (ExtTreeMap.insert (∅ : Offers) (Sample.addr 1, 0) path)) = some path) = true := by
      decide +kernel
    rw [hpath, Option.all_some, decide_eq_true_eq] at hsel
    refine ⟨fun hne => absurd hsel hne, fun _ sid => ?_⟩
    rw [show serviceOf [PathAttribute.origin .igp, .asPath []] = none from rfl]
    exact (Option.some_ne_none _).symm
  have hreflected := reflected_of_selfElected Sample.reflector _ hself _ (List.prefix_refl _)
  have hbest : (s.rib.bestOf Sample.inclusive).any (fun p => p.peerAddr = Sample.addr 1 &&
      (s.sessions[Sample.addr 3]?).any fun w => w.mpEvpn &&
        shouldPropagate p w.session.peerType w.session.rrClient (Sample.addr 3)) = true := by decide +kernel
  obtain ⟨p, hp, hboth⟩ := (Option.any_eq_true _ _).mp hbest
  rw [Bool.and_eq_true, decide_eq_true_eq] at hboth
  obtain ⟨haddr, hsession⟩ := hboth
  obtain ⟨w, hw, helig⟩ := (Option.any_eq_true _ _).mp hsession
  rw [Bool.and_eq_true] at helig
  obtain ⟨dl, hdl, hrecord, hsent⟩ := hreflected _ p hp
  obtain ⟨attrs, nlris, hlast, -⟩ := hsent _ w hw rfl helig.1 helig.2
  have hgiven : (run Sample.reflector [.established (Sample.client 3) true, Sample.offerInclusive 1]).2 (Sample.addr 1)
      Sample.inclusive = some ⟨[192, 0, 2, 1], none⟩ := by rfl
  rw [haddr, hgiven] at hdl
  cases hdl
  exact ⟨p, hp, hrecord, w, attrs, nlris, hw, hlast⟩

/-- The first of two clients withdraws the route that was the best. The other one's path takes its place,
with no next hop on record and none told. -/
theorem not_forall_reflected :
    ¬ ∀ (c : EvpnConfig) (es : List EvpnInput), Reflected c (run c es).1 (run c es).2 := by
  intro h
  have hall := h Sample.reflector [.established (Sample.client 3) true, Sample.offerInclusive 1, Sample.offerInclusive 2,
    Sample.withdrawInclusive 1]
  set w := run Sample.reflector [.established (Sample.client 3) true, Sample.offerInclusive 1, Sample.offerInclusive 2,
    Sample.withdrawInclusive 1] with hw
  have hbest : (w.1.rib.bestOf Sample.inclusive).map Path.peerAddr = some (Sample.addr 2) := by decide +kernel
  obtain ⟨p, hp, haddr⟩ := Option.map_eq_some_iff.mp hbest
  obtain ⟨dl, hdl, hrecord, -⟩ := hall _ p hp
  rw [haddr] at hdl
  have hgiven : w.2 (Sample.addr 2) Sample.inclusive = some ⟨[192, 0, 2, 2], none⟩ := by rfl
  have hempty : w.1.nextHops[Sample.inclusive]? = some [] := by decide +kernel
  rw [hgiven] at hdl
  cases hdl
  rw [hempty] at hrecord
  cases hrecord

end EvpnCentral
end Wren.Daemon.Bgp
