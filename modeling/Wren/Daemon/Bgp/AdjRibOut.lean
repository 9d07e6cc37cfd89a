import Wren.Daemon.Bgp.Effects

/-! What the peers hold from the speaker, against its Loc-RIB and the routes it originates. -/

namespace Wren.Daemon.Bgp
open Wren.Core Wren.Bgp OrdMap Replica

namespace Session
variable {s : Session}

/-- A peer of the session holds each learned network with the attributes of its best path, if that
is eligible, and each originated one in some form. `exempt` networks are sent to it regardless. -/
structure Agreement (s : Session) (adv : Prefix → Option OriginRoute) (exempt : Prefix → Prop)
    (best : Prefix → Option Path) (held : Prefix → Option (List PathAttribute)) : Prop where
  learned : ∀ x, adv x = none → ¬ exempt x → held x = (best x).bind (s.outgoing x)
  originated : ∀ x r, adv x = some r → s.originating r ≠ none → held x ≠ none

/-- A change of the Loc-RIB that the session can pass on without taking anything back: no best path
that was eligible gives way to one that is not, and none disappears below an originated route. -/
def Keeps (s : Session) (adv : Prefix → Option OriginRoute) (exempt : Prefix → Prop)
    (best : Prefix → Option Path) : RibEvent → Prop
  | .best x path _ =>
    adv x = none → ¬ exempt x → s.outgoing x path = none → (best x).bind (s.outgoing x) = none
  | .withdrawn x => ∀ r, adv x = some r → s.originating r = none

def note (best : Prefix → Option Path) (ev : RibEvent) : Prefix → Option Path := ev.bestDelta.apply best

variable {adv : Prefix → Option OriginRoute} {exempt : Prefix → Prop} {best : Prefix → Option Path}
  {log : List SessionCmd}

theorem holds_propagate_best (hap : s.addPathSend = false) (log : List SessionCmd) (x y : Prefix)
    (path : Path) (hops : List NextHop) :
    s.holds (log ++ [Central.propagate (.best x path hops)]) y =
      if y = x then (s.outgoing x path <|> s.holds log x) else s.holds log y := by
  rw [holds_append, Central.propagate, deltas_propagate s hap]
  cases hout : s.outgoing x path with
  | none =>
    by_cases hy : y = x
    · simp [hout, hy]
    · simp [hout, hy]
  | some attrs => simp [hout, Delta.apply, Function.update_apply]

theorem holds_propagate_withdrawn (hap : s.addPathSend = false) (log : List SessionCmd) (x y : Prefix) :
    s.holds (log ++ [Central.propagate (.withdrawn x)]) y = if y = x then none else s.holds log y := by
  have hdeltas : s.deltas (.withdrawPropagated [x]) = (s.withdraw [x]).flatMap changes := by
    simp [deltas, written, hap]
  rw [holds_append, Central.propagate, hdeltas, replay_withdraw]
  by_cases hy : y = x
  · by_cases hneg : x.isIpv4 = true ∨ s.mpIpv6 = true
    · simp [hy, hneg]
    · rw [not_or, Bool.not_eq_true, Bool.not_eq_true] at hneg
      simp [hy, hneg, s.holds_of_not_negotiated log hneg.1 hneg.2]
  · simp [hy]

theorem Agreement.note (h : Agreement s adv exempt best (s.holds log)) (hap : s.addPathSend = false)
    {ev : RibEvent} (hk : s.Keeps adv exempt best ev) :
    Agreement s adv exempt (note best ev) (s.holds (log ++ [Central.propagate ev])) := by
  cases ev with
  | best x path hops =>
    refine ⟨?_, ?_⟩
    · intro y hadv hex
      rw [holds_propagate_best hap]
      by_cases hy : y = x
      · subst hy
        cases hout : s.outgoing y path with
        | none =>
          have hnone := hk hadv hex hout
          simp [Session.note, RibEvent.bestDelta, Delta.apply, hout, h.learned y hadv hex, hnone]
        | some attrs => simp [Session.note, RibEvent.bestDelta, Delta.apply, hout]
      · simp [Session.note, RibEvent.bestDelta, Delta.apply, hy, h.learned y hadv hex]
    · intro y r hadv hr
      have hheld := h.originated y r hadv hr
      rw [holds_propagate_best hap]
      by_cases hy : y = x
      · subst hy
        cases hout : s.outgoing y path with
        | none => simpa [hout] using hheld
        | some attrs => simp
      · simpa [hy] using hheld
  | withdrawn x =>
    refine ⟨?_, ?_⟩
    · intro y hadv hex
      rw [holds_propagate_withdrawn hap]
      by_cases hy : y = x
      · simp [Session.note, RibEvent.bestDelta, Delta.apply, hy]
      · simp [Session.note, RibEvent.bestDelta, Delta.apply, hy, h.learned y hadv hex]
    · intro y r hadv hr
      rw [holds_propagate_withdrawn hap]
      by_cases hy : y = x
      · exact absurd (hk r (hy ▸ hadv)) hr
      · simpa [hy] using h.originated y r hadv hr

theorem Agreement.notes (h : Agreement s adv exempt best (s.holds log)) (hap : s.addPathSend = false)
    {evs : List RibEvent} (hk : Run.Every Session.note (s.Keeps adv exempt) best evs) :
    Agreement s adv exempt (replay best (evs.map RibEvent.bestDelta))
      (s.holds (log ++ evs.map Central.propagate)) := by
  induction evs generalizing best log with
  | nil => simpa using h
  | cons ev evs ih =>
    have hrest := ih (h.note hap hk.1) hk.2
    simpa [Session.note] using hrest

end Session

/-- Each route stands under its own network. -/
def Keyed (m : BTreeMap Prefix OriginRoute) : Prop :=
  ∀ (x : Prefix) (r : OriginRoute), m[x]? = some r → r.pfx = x

theorem Keyed.addAggregate {out : BTreeMap Prefix OriginRoute} (h : Keyed out)
    (originated : BTreeMap Prefix OriginEntry) (agg : Aggregate) :
    Keyed (addAggregate originated out agg) := by
  have hinsert : ∀ {m : BTreeMap Prefix OriginRoute}, Keyed m →
      Keyed (m.insert agg.pfx ⟨agg.pfx, [], [], [], true⟩) := by
    intro m hm x r hr
    rw [getElem?_insert] at hr
    split_ifs at hr with hx
    · rw [← Option.some.inj hr, hx]
    · exact hm x r hr
  unfold Bgp.addAggregate
  dsimp only
  split_ifs with hnil hsummary
  · exact h
  · refine hinsert ?_
    intro x r hr
    rw [getElem?_foldl_erase] at hr
    split_ifs at hr
    exact h x r hr
  · exact hinsert h

theorem keyed_effectiveOrigination (originated : BTreeMap Prefix OriginEntry)
    (aggregates : List Aggregate) : Keyed (effectiveOrigination originated aggregates) := by
  unfold effectiveOrigination
  refine List.foldlRecOn aggregates _ ?_ fun out h agg _ => h.addAggregate originated agg
  intro x r hr
  rw [Std.ExtTreeMap.getElem?_map] at hr
  obtain ⟨e, -, rfl⟩ := Option.map_eq_some_iff.mp hr
  rfl

namespace Central

/-- The default route of a neighbour that is always sent one. -/
def Exempt (s : Central) (q : IpAddr) (x : Prefix) : Prop :=
  x = defaultRoute.pfx ∧ q ∈ s.defaultOriginate

instance (s : Central) (q : IpAddr) (x : Prefix) : Decidable (s.Exempt q x) :=
  inferInstanceAs (Decidable (_ ∧ _))

def Agreed (s : Central) (q : IpAddr) (h : SessionHandle) : Prop :=
  h.sess.Agreement (fun x => s.advertised[x]?) (s.Exempt q) s.rib.bestOf (h.sess.holds h.log)

/-- A session that does not send ADD-PATH. -/
def Ordinary (s : Central) (q : IpAddr) (h : SessionHandle) : Prop :=
  s.sessions[q]? = some h ∧ h.sess.addPathSend = false

/-- Every ordinary session agrees with the Loc-RIB. -/
structure Agrees (s : Central) : Prop where
  keyed : Keyed s.advertised
  session : ∀ q h, s.Ordinary q h → q ∉ s.addpathSend ∧ s.Agreed q h

/-- Nothing that agreement depends on changes, and sessions only go away. -/
theorem Agrees.mono {s t : Central} (h : s.Agrees) (hadv : t.advertised = s.advertised)
    (hrib : t.rib.bestOf = s.rib.bestOf)
    (hsess : ∀ q hd, t.Ordinary q hd → q ∉ s.addpathSend →
      q ∉ t.addpathSend ∧ (q ∈ s.defaultOriginate → q ∈ t.defaultOriginate))
    (hsub : ∀ q hd, t.Ordinary q hd → s.Ordinary q hd) : t.Agrees := by
  refine ⟨hadv ▸ h.keyed, ?_⟩
  intro q hd hq
  obtain ⟨hnap, hagr⟩ := h.session q hd (hsub q hd hq)
  obtain ⟨hnap', hdflt⟩ := hsess q hd hq hnap
  refine ⟨hnap', ?_⟩
  unfold Agreed
  rw [hadv, hrib]
  refine ⟨?_, hagr.originated⟩
  intro x hx hex
  exact hagr.learned x hx fun hs => hex ⟨hs.1, hdflt hs.2⟩

/-- The notifications of a sequence of operations. -/
def notesOf (rib : BgpRib) (ops : List BgpRib.Op) : List RibEvent :=
  Replica.log BgpRib.step BgpRib.notify rib ops

theorem bestOf_foldl (rib : BgpRib) (ops : List BgpRib.Op) :
    (ops.foldl BgpRib.step rib).bestOf = replay rib.bestOf ((notesOf rib ops).map RibEvent.bestDelta) :=
  (replay_log BgpRib.step BgpRib.notify RibEvent.bestDelta BgpRib.bestOf BgpRib.bestOf_step
    rib ops).symm

/-- The notifications of the operations can be passed on to a session. -/
def Passes (s : Central) (ops : List BgpRib.Op) (q : IpAddr) (sess : Session) : Prop :=
  Run.Every Session.note (sess.Keeps (fun x => s.advertised[x]?) (s.Exempt q)) s.rib.bestOf
    (notesOf s.rib ops)

theorem Agrees.applyOps {s : Central} (h : s.Agrees) {ops : List BgpRib.Op}
    (hp : ∀ q hd, s.Ordinary q hd → s.Passes ops q hd.sess) : (s.applyOps ops).Agrees := by
  rw [applyOps_eq]
  refine ⟨h.keyed, ?_⟩
  rintro q hd ⟨hq, hap⟩
  have hget : (s.sessions[q]?).map (fun h => h.push (fanoutCmds s.rib ops)) = some hd := by
    simpa [fanout] using hq
  obtain ⟨hd0, hq0, rfl⟩ := Option.map_eq_some_iff.mp hget
  obtain ⟨hnap, hagr⟩ := h.session q hd0 ⟨hq0, hap⟩
  refine ⟨hnap, ?_⟩
  have hnew := Session.Agreement.notes hagr hap (hp q hd0 ⟨hq0, hap⟩)
  unfold Agreed
  rw [bestOf_foldl]
  exact hnew

theorem Agrees.foldl_propagateAddPath {s : Central} (h : s.Agrees) (l : List Prefix) :
    (l.foldl Central.propagateAddPath s).Agrees := by
  have hcore := core_foldl_propagateAddPath s l
  have hsub : ∀ q hd, (l.foldl Central.propagateAddPath s).Ordinary q hd → s.Ordinary q hd := by
    rintro q hd ⟨hq, hap⟩
    have hsess := sess_foldl_propagateAddPath s l q
    rw [hq, Option.map_some] at hsess
    obtain ⟨hd0, hq0, heq⟩ := Option.map_eq_some_iff.mp hsess.symm
    have hnap := (h.session q hd0 ⟨hq0, heq ▸ hap⟩).1
    rw [sessions_foldl_propagateAddPath s l hnap] at hq
    exact ⟨hq, hap⟩
  refine h.mono (eq_of_core advertised (fun _ => rfl) hcore) (by rw [foldl_propagateAddPath_rib]) ?_ hsub
  intro q hd hq hnap
  rw [eq_of_core addpathSend (fun _ => rfl) hcore, eq_of_core defaultOriginate (fun _ => rfl) hcore]
  exact ⟨hnap, id⟩

/-- The peer after it was sent the originated routes of a map that `f` lets through. -/
theorem replay_advertise (sess : Session) (m : Prefix → Option (List PathAttribute))
    {adv : BTreeMap Prefix OriginRoute} (hk : Keyed adv) (f : OriginRoute → Bool) (x : Prefix) :
    replay m (sess.deltas (.advertise ((adv.toList.map Prod.snd).filter f))) x =
      (((adv[x]?).bind fun r => if f r then sess.originating r else none) <|> m x) := by
  have hdeltas : sess.deltas (.advertise ((adv.toList.map Prod.snd).filter f)) =
      adv.toList.filterMap fun e =>
        (if f e.2 then sess.originating e.2 else none).map fun attrs => ⟨e.1, some attrs⟩ := by
    rw [Session.deltas_advertise, List.filter_map, List.filterMap_map, List.filterMap_filter]
    refine List.filterMap_congr ?_
    intro e he
    have hpfx := hk e.1 e.2 (Std.ExtTreeMap.mem_toList_iff_getElem?_eq_some.mp he)
    cases hf : f e.2 <;> simp [hf, hpfx]
  rw [hdeltas, replay_filterMap m Prod.fst _ (nodup_keys_toList adv), find?_toList]
  cases adv[x]? <;> rfl

/-- The peer after it was sent the best paths. -/
theorem replay_propagate {sess : Session} (hap : sess.addPathSend = false)
    (m : Prefix → Option (List PathAttribute)) (best : BTreeMap Prefix Path) (x : Prefix) :
    replay m (sess.deltas (.propagate (best.toList.map fun e => ⟨e.1, e.2⟩))) x =
      ((best[x]?).bind (sess.outgoing x) <|> m x) := by
  have hdeltas : sess.deltas (.propagate (best.toList.map fun e => ⟨e.1, e.2⟩)) =
      best.toList.filterMap fun e => (sess.outgoing e.1 e.2).map fun attrs => ⟨e.1, some attrs⟩ := by
    rw [Session.deltas_propagate sess hap, List.filterMap_map]
    rfl
  rw [hdeltas, replay_filterMap m Prod.fst _ (nodup_keys_toList best), find?_toList]
  cases best[x]? <;> rfl

/-- What a snapshot leaves at a peer, whatever it held before. -/
theorem holds_snapshot (s : Central) (hk : Keyed s.advertised) {sess : Session}
    (hap : sess.addPathSend = false) (log : List SessionCmd) (x : Prefix) :
    sess.holds (log ++ s.snapshot) x =
      ((s.rib.bestOf x).bind (sess.outgoing x) <|> (s.advertised[x]?).bind sess.originating <|>
        sess.holds log x) := by
  have hsnap : s.snapshot.flatMap sess.deltas =
      sess.deltas (.advertise (s.advertised.toList.map Prod.snd)) ++
        sess.deltas (.propagate (s.rib.best.toList.map fun e => ⟨e.1, e.2⟩)) := by
    have hadv : sess.deltas (.advertise []) = [] := by simp [Session.deltas_advertise]
    have hprop : sess.deltas (.propagate []) = [] := by simp [Session.deltas_propagate sess hap]
    unfold snapshot
    dsimp only
    split_ifs with horigin hbest hbest <;> simp [horigin, hbest, hadv, hprop]
  have hadv := fun m => replay_advertise sess m hk (fun _ => true) x
  simp only [List.filter_true, if_true] at hadv
  rw [Session.holds_append_list, hsnap, replay_append, replay_propagate hap, hadv]
  rfl

/-- A single originated route replaces what the peer held of its network. -/
theorem replay_advertise_one (sess : Session) (m : Prefix → Option (List PathAttribute)) (r : OriginRoute)
    (x : Prefix) :
    replay m (sess.deltas (.advertise [r])) x =
      if x = r.pfx then (sess.originating r <|> m x) else m x := by
  rw [Session.deltas_advertise]
  cases hout : sess.originating r with
  | none => simp [hout]
  | some attrs => simp [hout, Delta.apply, Function.update_apply]

/-- A new peer holds what a snapshot says, and perhaps the default route in its place. -/
theorem holds_greeting {s : Central} (hk : Keyed s.advertised) {sess : Session}
    (hap : sess.addPathSend = false) (q : IpAddr) (x : Prefix) :
    sess.holds (s.greeting q) x =
      ((if s.Exempt q x then sess.originating defaultRoute else none) <|>
        (s.rib.bestOf x).bind (sess.outgoing x) <|> (s.advertised[x]?).bind sess.originating) := by
  have hsnap := s.holds_snapshot hk hap [] x
  have hnil : sess.holds [] x = none := rfl
  rw [List.nil_append, hnil] at hsnap
  have hend : sess.deltas .sendEndOfRib = [] := rfl
  unfold greeting Exempt
  by_cases hq : q ∈ s.defaultOriginate
  · rw [if_pos hq, Session.holds_append, hend, replay_nil, Session.holds_append, replay_advertise_one, hsnap]
    by_cases hx : x = defaultRoute.pfx
    · cases sess.originating defaultRoute <;> simp [hx, hq]
    · simp [hx]
  · rw [if_neg hq, Session.holds_append, hend, replay_nil, List.append_nil, hsnap]
    simp [hq]

theorem Agrees.register {s : Central} (h : s.Agrees) {m : EstablishedMsg}
    (hnap : m.sess.addPathSend = false → m.sess.addr ∉ s.addpathSend) : (s.register m).Agrees := by
  refine ⟨h.keyed, ?_⟩
  rintro q hd ⟨hq, hap⟩
  have hget : (if q = m.sess.addr then some ⟨m.sess, s.greeting m.sess.addr⟩ else s.sessions[q]?) = some hd := by
    rw [← hq, Central.register, getElem?_insert]
  split_ifs at hget with haddr
  · subst haddr
    cases hget
    refine ⟨hnap hap, ?_, ?_⟩
    · intro x hadv hex
      have hadv' : s.advertised[x]? = none := hadv
      have hex' : ¬ s.Exempt m.sess.addr x := hex
      rw [holds_greeting h.keyed hap, if_neg hex', hadv']
      show (none <|> (s.rib.bestOf x).bind (m.sess.outgoing x) <|> none) =
        (s.rib.bestOf x).bind (m.sess.outgoing x)
      cases (s.rib.bestOf x).bind (m.sess.outgoing x) <;> rfl
    · intro x r hadv hr
      have hadv' : s.advertised[x]? = some r := hadv
      rw [holds_greeting h.keyed hap, hadv', Option.bind_some]
      simp [hr]
  · exact h.session q hd ⟨hget, hap⟩

theorem Agrees.sendTo {s : Central} (h : s.Agrees) {p : IpAddr} {cmds : List SessionCmd}
    (hc : ∀ hd, s.Ordinary p hd → s.Agreed p (hd.push cmds)) : (s.sendTo p cmds).Agrees := by
  refine ⟨h.keyed, ?_⟩
  rintro q hd ⟨hq, hap⟩
  rw [Central.sendTo, getElem?_modify] at hq
  split_ifs at hq with hqp
  · subst hqp
    obtain ⟨hd0, hq0, rfl⟩ := Option.map_eq_some_iff.mp hq
    exact ⟨(h.session q hd0 ⟨hq0, hap⟩).1, hc hd0 ⟨hq0, hap⟩⟩
  · exact h.session q hd ⟨hq, hap⟩

/-- A command that carries no routes. -/
theorem Agrees.sendTo_of_deltas_eq_nil {s : Central} (h : s.Agrees) (p : IpAddr) {c : SessionCmd}
    (hc : ∀ sess : Session, sess.deltas c = []) : (s.sendTo p [c]).Agrees := by
  refine h.sendTo ?_
  intro hd hord
  have hagr := (h.session p hd hord).2
  unfold Agreed SessionHandle.push at *
  rwa [Session.holds_append, hc, replay_nil]

theorem Agrees.refreshRequest {s : Central} (h : s.Agrees) (p : IpAddr) (connId : UInt64) :
    (s.refreshRequest p connId).Agrees := by
  unfold Central.refreshRequest
  split_ifs
  · exact h
  · refine h.sendTo ?_
    intro hd hord
    have hagr := (h.session p hd hord).2
    have hheld := holds_snapshot s h.keyed hord.2 hd.log
    refine ⟨?_, ?_⟩
    · intro x hadv hex
      have hadv' : s.advertised[x]? = none := hadv
      show hd.sess.holds (hd.log ++ s.snapshot) x = _
      rw [hheld, hadv', hagr.learned x hadv hex]
      show _ = (s.rib.bestOf x).bind (hd.sess.outgoing x)
      cases (s.rib.bestOf x).bind (hd.sess.outgoing x) <;> rfl
    · intro x r hadv hr
      have hadv' : s.advertised[x]? = some r := hadv
      have hr' : hd.sess.originating r ≠ none := hr
      show hd.sess.holds (hd.log ++ s.snapshot) x ≠ none
      rw [hheld, hadv', Option.bind_some]
      simp [hr']

/-- An originated route of a network leaves no eligible path behind when it goes. -/
def Retires (s : Central) (next : BTreeMap Prefix OriginRoute) (q : IpAddr) (sess : Session) : Prop :=
  ∀ x, x ∈ s.advertised → x ∉ next → ¬ s.Exempt q x → (s.rib.bestOf x).bind (sess.outgoing x) = none

theorem mem_retired {s : Central} {next : BTreeMap Prefix OriginRoute} {x : Prefix} :
    x ∈ s.retired next ↔ x ∈ s.advertised ∧ x ∉ next := by
  simp [retired, Std.ExtTreeMap.map_fst_toList_eq_keys]

theorem holds_originationCmds (s : Central) {next : BTreeMap Prefix OriginRoute} (hk : Keyed next)
    (sess : Session) (log : List SessionCmd) (x : Prefix) :
    sess.holds (log ++ s.originationCmds next) x =
      if x ∈ s.advertised ∧ x ∉ next then none
      else (((next[x]?).bind fun r => if s.advertised[r.pfx]? ≠ some r then sess.originating r else none) <|>
        sess.holds log x) := by
  have hcmds : (s.originationCmds next).flatMap sess.deltas =
      sess.deltas (.advertise (s.changed next)) ++ (sess.withdraw (s.retired next)).flatMap changes := by
    have hadv : sess.deltas (.advertise []) = [] := by simp [Session.deltas_advertise]
    have hwd : (sess.withdraw []).flatMap changes = [] := by simp [Session.withdraw]
    have hdeltas : sess.deltas (.withdraw (s.retired next)) =
      (sess.withdraw (s.retired next)).flatMap changes := rfl
    unfold originationCmds
    split_ifs with h1 h2 h2 <;> simp [h1, h2, hadv, hwd, hdeltas]
  have hchanged := replay_advertise sess (sess.holds log) hk
    (fun r => s.advertised[r.pfx]? ≠ some r) x
  rw [Session.holds_append_list, hcmds, replay_append, Session.replay_withdraw]
  by_cases hout : x ∈ s.advertised ∧ x ∉ next
  · rw [if_pos hout]
    by_cases hneg : x.isIpv4 = true ∨ sess.mpIpv6 = true
    · rw [if_pos ⟨mem_retired.mpr hout, hneg⟩]
    · rw [if_neg (fun h => hneg h.2)]
      rw [not_or, Bool.not_eq_true, Bool.not_eq_true] at hneg
      have hnone : next[x]? = none := Std.ExtTreeMap.getElem?_eq_none hout.2
      have hheld := sess.holds_of_not_negotiated log hneg.1 hneg.2
      rw [changed, hchanged, hnone, hheld]
      rfl
  · rw [if_neg hout, if_neg (fun h => hout (mem_retired.mp h.1)), changed, hchanged]
    simp

theorem Agrees.applyRedistribution {s : Central} (h : s.Agrees) {r : Redistribution}
    (hret : ∀ q hd, s.Ordinary q hd → s.Retires (s.applyRedistribution r).advertised q hd.sess) :
    (s.applyRedistribution r).Agrees := by
  unfold Central.applyRedistribution at hret ⊢
  cases hr : s.redistributed r with
  | none => exact h
  | some originated =>
    simp only [hr] at hret ⊢
    set next := effectiveOrigination originated s.aggregates with hnext
    have hk : Keyed next := keyed_effectiveOrigination originated s.aggregates
    refine ⟨hk, ?_⟩
    rintro q hd ⟨hq, hap⟩
    have hget : (s.sessions[q]?).map (fun h => h.push (s.originationCmds next)) = some hd := by
      simpa [fanout] using hq
    obtain ⟨hd0, hq0, rfl⟩ := Option.map_eq_some_iff.mp hget
    obtain ⟨hnap, hagr⟩ := h.session q hd0 ⟨hq0, hap⟩
    have hheld := s.holds_originationCmds hk hd0.sess hd0.log
    refine ⟨hnap, ?_, ?_⟩
    · intro x hadv hex
      have hadv' : next[x]? = none := hadv
      have hnot : x ∉ next := by
        rw [Std.ExtTreeMap.mem_iff_isSome_getElem?, hadv']
        exact Bool.false_ne_true
      show hd0.sess.holds (hd0.log ++ s.originationCmds next) x = _
      rw [hheld, hadv']
      by_cases hold : x ∈ s.advertised
      · rw [if_pos ⟨hold, hnot⟩]
        exact (hret q hd0 ⟨hq0, hap⟩ x hold hnot hex).symm
      · rw [if_neg (fun h => hold h.1)]
        exact hagr.learned x (Std.ExtTreeMap.getElem?_eq_none hold) hex
    · intro x r' hadv hr'
      have hadv' : next[x]? = some r' := hadv
      have hin : x ∈ next := by
        rw [Std.ExtTreeMap.mem_iff_isSome_getElem?, hadv']
        rfl
      show hd0.sess.holds (hd0.log ++ s.originationCmds next) x ≠ none
      rw [hheld, if_neg (fun h => h.2 hin), hadv', Option.bind_some]
      by_cases hsame : s.advertised[r'.pfx]? = some r'
      · rw [hk x r' hadv'] at hsame
        simpa [hk x r' hadv', hsame] using hagr.originated x r' hsame hr'
      · have hr'' : hd0.sess.originating r' ≠ none := hr'
        simp [hsame, hr'']

/-- What an event must not do for the peers to hold what they should: notify a session that stays of
a change it cannot pass on, retire an originated route above an eligible path, or put an ordinary
session where one with ADD-PATH was never reported down. -/
structure Smooth (s : Central) (e : Event) : Prop where
  passes : ∀ q hd, s.Ordinary q hd → q ∈ (s.step e).sessions → s.Passes (s.ribOps e) q hd.sess
  retires : ∀ q hd, s.Ordinary q hd → s.Retires (s.step e).advertised q hd.sess
  plain : ∀ m, e = .established m → s.refuses m = false → m.sess.addPathSend = false →
    m.sess.addr ∉ s.addpathSend

theorem mem_sessions {s : Central} {q : IpAddr} {hd : SessionHandle} (hq : s.sessions[q]? = some hd) :
    q ∈ s.sessions := by
  rw [Std.ExtTreeMap.mem_iff_isSome_getElem?, hq]
  rfl

theorem mem_sessions_congr {s t : Central} {q : IpAddr}
    (h : (t.sessions[q]?).map SessionHandle.sess = (s.sessions[q]?).map SessionHandle.sess) :
    q ∈ t.sessions ↔ q ∈ s.sessions := by
  rw [Std.ExtTreeMap.mem_iff_isSome_getElem?, Std.ExtTreeMap.mem_iff_isSome_getElem?,
    ← Option.isSome_map (f := SessionHandle.sess), h, Option.isSome_map]

theorem sess_applyOps (s : Central) (ops : List BgpRib.Op) (q : IpAddr) :
    ((s.applyOps ops).sessions[q]?).map SessionHandle.sess =
      (s.sessions[q]?).map SessionHandle.sess := by
  rw [applyOps_sessions, Option.map_map]
  rfl

/-- Sessions are closed, then the RIB changes and the others are told. -/
theorem Agrees.close {s t : Central} (h : s.Agrees) (hadv : t.advertised = s.advertised)
    (hrib : t.rib = s.rib) (hap : ∀ q, q ∉ s.addpathSend → q ∉ t.addpathSend)
    (hdflt : ∀ q ∈ t.sessions, q ∈ t.defaultOriginate ↔ q ∈ s.defaultOriginate)
    (hsub : ∀ (q : IpAddr) (hd : SessionHandle), t.sessions[q]? = some hd → s.sessions[q]? = some hd)
    {ops : List BgpRib.Op}
    (hp : ∀ q hd, s.Ordinary q hd → q ∈ (t.applyOps ops).sessions → s.Passes ops q hd.sess) :
    (t.applyOps ops).Agrees := by
  have hin : ∀ q hd, t.Ordinary q hd → q ∈ t.sessions :=
    fun q hd hord => mem_sessions hord.1
  have ht : t.Agrees := by
    refine h.mono hadv (by rw [hrib]) ?_ ?_
    · intro q hd hord hq
      exact ⟨hap q hq, (hdflt q (hin q hd hord)).mpr⟩
    · intro q hd hord
      exact ⟨hsub q hd hord.1, hord.2⟩
  refine ht.applyOps ?_
  intro q hd hord
  have hpass := hp q hd ⟨hsub q hd hord.1, hord.2⟩
    ((mem_sessions_congr (sess_applyOps t ops q)).mpr (hin q hd hord))
  have hex : t.Exempt q = s.Exempt q := by
    funext x
    simp only [Exempt, hdflt q (hin q hd hord)]
  unfold Passes at hpass ⊢
  rwa [hadv, hrib, hex]

theorem of_getElem?_erase {m : BTreeMap IpAddr SessionHandle} {p q : IpAddr} {hd : SessionHandle}
    (h : (m.erase p)[q]? = some hd) : q ≠ p ∧ m[q]? = some hd := by
  rw [getElem?_erase] at h
  split_ifs at h with hq
  exact ⟨hq, h⟩

theorem mem_of_mem_erase {m : BTreeMap IpAddr SessionHandle} {p q : IpAddr} (h : q ∈ m.erase p) : q ≠ p := by
  rintro rfl
  simp at h

theorem Agrees.down {s : Central} (h : s.Agrees) {p : IpAddr} {conn : UInt64} {now : ℕ}
    (hs : s.Smooth (.down p conn now)) : (s.down p conn now).Agrees := by
  by_cases hconn : s.currentConn[p]? = some conn
  · have hdown : s.down p conn now = (s.affected p).foldl Central.propagateAddPath
        (((s.leave p now).applyOps (s.lossOps p)).applyFamilyOps [.withdrawPeer p]) := by
      simp [Central.down, hconn]
    have hops : s.ribOps (.down p conn now) = s.lossOps p := by simp [ribOps, hconn]
    have hclose : ((s.leave p now).applyOps (s.lossOps p)).Agrees := by
      refine Agrees.close (t := s.leave p now) h rfl rfl ?_ (fun _ _ => Iff.rfl)
        (fun q hd hq => (of_getElem?_erase hq).2) ?_
      · intro q hq hmem
        exact hq (List.mem_filter.mp hmem).1
      · intro q hd hord hq
        rw [← hops]
        refine hs.passes q hd hord ?_
        show q ∈ (s.down p conn now).sessions
        rwa [hdown, mem_sessions_congr (sess_foldl_propagateAddPath _ _ q)]
    rw [hdown]
    refine Agrees.foldl_propagateAddPath ?_ _
    exact hclose.mono rfl rfl (fun _ _ _ hq => ⟨hq, id⟩) fun _ _ hord => hord
  · have hdown : s.down p conn now = s := by simp [Central.down, hconn]
    rwa [hdown]

theorem Agrees.update {s : Central} (h : s.Agrees) {conn : UInt64} {m : UpdateMsg}
    (hs : s.Smooth (.update conn m)) : (s.update m).Agrees := by
  by_cases hdamp : m.facts.addr ∈ s.damped
  · have hupd : s.update m = s := by simp [Central.update, hdamp]
    rwa [hupd]
  · have hops : s.ribOps (.update conn m) = s.updateOps m := by simp [ribOps, hdamp]
    have hpass : ∀ t : Central, (∀ q, q ∈ t.sessions ↔ q ∈ (s.update m).sessions) →
        ∀ q hd, s.Ordinary q hd → q ∈ t.sessions → s.Passes (s.updateOps m) q hd.sess := by
      intro t ht q hd hord hq
      rw [← hops]
      exact hs.passes q hd hord ((ht q).mp hq)
    have hunstale : (∀ q, q ∈ ((s.unstale m).applyOps (s.updateOps m)).sessions ↔ q ∈ (s.update m).sessions) →
        ((s.unstale m).applyOps (s.updateOps m)).Agrees := fun ht =>
      Agrees.close (t := s.unstale m) h rfl rfl (fun _ hq => hq) (fun _ _ => Iff.rfl) (fun _ _ hq => hq)
        (hpass _ ht)
    unfold Central.update at hunstale hpass ⊢
    simp only [hdamp, if_false] at hunstale hpass ⊢
    split_ifs at hunstale hpass ⊢ with hloop hmany hempty
    · exact hunstale fun _ => Iff.rfl
    · rw [damp_applyOps] at hpass ⊢
      refine Agrees.close (t := (s.unstale m).damp m.facts.addr) h rfl rfl (fun _ hq => hq)
        (fun _ _ => Iff.rfl) (fun q hd hq => (of_getElem?_erase hq).2) (hpass _ fun _ => Iff.rfl)
    · exact (hunstale fun _ => Iff.rfl).mono rfl rfl (fun _ _ _ hq => ⟨hq, id⟩) fun _ _ hord => hord
    · refine Agrees.foldl_propagateAddPath ?_ _
      have hagr := hunstale fun q => (mem_sessions_congr (sess_foldl_propagateAddPath
        (((s.unstale m).applyOps (s.updateOps m)).applyFamilyOps (familyOps m)) (touched m.update) q)).symm
      exact hagr.mono rfl rfl (fun _ _ _ hq => ⟨hq, id⟩) fun _ _ hord => hord

theorem Agrees.established {s : Central} (h : s.Agrees) {m : EstablishedMsg}
    (hs : s.Smooth (.established m)) : (s.established m).Agrees := by
  unfold Central.established
  split_ifs with href hap
  · exact h
  · refine Agrees.foldl_propagateAddPath ?_ _
    have hadm : (s.register m).Agrees := h.register fun hno => absurd hap (by simp [hno])
    refine hadm.mono rfl rfl ?_ fun _ _ hord => hord
    rintro q hd ⟨hq, hno⟩ hnap
    refine ⟨?_, id⟩
    intro hmem
    rcases List.mem_insert_iff.mp hmem with rfl | hmem
    · have hnew : (s.register m).sessions[m.sess.addr]? = some ⟨m.sess, s.greeting m.sess.addr⟩ := by
        rw [Central.register, getElem?_insert, if_pos rfl]
      have heq : hd = ⟨m.sess, s.greeting m.sess.addr⟩ := Option.some.inj (hq.symm.trans hnew)
      rw [heq, hap] at hno
      cases hno
    · exact hnap hmem
  · have hno : m.sess.addPathSend = false := by simpa using hap
    exact h.register fun _ => hs.plain m rfl (by simpa using href) hno

theorem foldl_forget_sessions (s : Central) (remove : List IpAddr) :
    (remove.foldl forget s).sessions = remove.foldl (fun m p => m.erase p) s.sessions := by
  induction remove generalizing s with
  | nil => rfl
  | cons p remove ih => rw [List.foldl_cons, ih]; rfl

theorem foldl_forget_frame (s : Central) (remove : List IpAddr) :
    let t := remove.foldl forget s
    t.advertised = s.advertised ∧ t.rib = s.rib ∧ (∀ q, q ∉ s.addpathSend → q ∉ t.addpathSend) ∧
      ∀ q, q ∉ remove → (q ∈ t.defaultOriginate ↔ q ∈ s.defaultOriginate) := by
  refine List.foldlRecOn (motive := fun t : Central =>
    t.advertised = s.advertised ∧ t.rib = s.rib ∧ (∀ q, q ∉ s.addpathSend → q ∉ t.addpathSend) ∧
      ∀ q, q ∉ remove → (q ∈ t.defaultOriginate ↔ q ∈ s.defaultOriginate)) remove _
    ⟨rfl, rfl, fun _ hq => hq, fun _ _ => Iff.rfl⟩ ?_
  rintro t ⟨hadv, hrib, hap, hdflt⟩ p hp
  refine ⟨hadv, hrib, fun q hq hmem => hap q hq (List.mem_filter.mp hmem).1, ?_⟩
  intro q hq
  have hne : q ≠ p := fun h => hq (h ▸ hp)
  rw [← hdflt q hq]
  simp [forget, hne]

theorem Agrees.foldl_addNeighbor {s : Central} (h : s.Agrees) (add : List NeighborConfig) :
    (add.foldl addNeighbor s).Agrees := by
  induction add generalizing s with
  | nil => exact h
  | cons n add ih =>
    refine ih ?_
    unfold addNeighbor
    split_ifs with hin hdflt
    · exact h
    · refine h.mono rfl rfl (fun q _ _ hq => ⟨hq, ?_⟩) fun _ _ hord => hord
      exact fun hd => List.mem_insert_iff.mpr (Or.inr hd)
    · exact h.mono rfl rfl (fun _ _ _ hq => ⟨hq, id⟩) fun _ _ hord => hord

theorem sessions_foldl_addNeighbor (s : Central) (add : List NeighborConfig) :
    (add.foldl addNeighbor s).sessions = s.sessions :=
  List.foldlRecOn (motive := fun t : Central => t.sessions = s.sessions) add _ rfl fun t ht n _ => by
    unfold addNeighbor
    split_ifs <;> exact ht

theorem Agrees.reconfig {s : Central} (h : s.Agrees) {remove : List IpAddr} {add : List NeighborConfig}
    (hs : s.Smooth (.reconfig remove add)) : (s.reconfig remove add).Agrees := by
  refine Agrees.foldl_addNeighbor ?_ add
  have hsess := foldl_forget_sessions s remove
  obtain ⟨hadv, hrib, hap, hdflt⟩ := foldl_forget_frame s remove
  have hget : ∀ q, (remove.foldl forget s).sessions[q]? = if q ∈ remove then none else s.sessions[q]? := by
    intro q
    rw [hsess, getElem?_foldl_erase]
  rw [foldl_removeNeighbor_eq]
  have hclose : ((remove.foldl forget s).applyOps (remove.map .withdrawPeer)).Agrees := by
    refine Agrees.close (t := remove.foldl forget s) h hadv hrib hap ?_ ?_ ?_
    · intro q hq
      refine hdflt q ?_
      intro hmem
      rw [Std.ExtTreeMap.mem_iff_isSome_getElem?, hget, if_pos hmem] at hq
      exact Bool.false_ne_true hq
    · intro q hd hq
      rw [hget] at hq
      split_ifs at hq
      exact hq
    · intro q hd hord hq
      refine hs.passes q hd hord ?_
      show q ∈ (add.foldl addNeighbor (remove.foldl removeNeighbor s)).sessions
      rwa [sessions_foldl_addNeighbor, foldl_removeNeighbor_eq]
  exact hclose.mono rfl rfl (fun _ _ _ hq => ⟨hq, id⟩) fun _ _ hord => hord

/-- One event keeps the peers in agreement. -/
theorem Agrees.step {s : Central} (h : s.Agrees) {e : Event} (hs : s.Smooth e) : (s.step e).Agrees := by
  cases e with
  | established m => exact h.established hs
  | down p conn now => exact h.down hs
  | refreshRequest p conn => exact h.refreshRequest p conn
  | endOfRib p conn v4 =>
    by_cases hconn : s.currentConn[p]? = some conn
    · have heq : s.step (.endOfRib p conn v4) =
          ({ s with stale := s.stale.erase p } : Central).applyOps (s.staleOps p) := by
        simp [Central.step, Central.endOfRib, hconn, finalise_eq]
      have hops : s.ribOps (.endOfRib p conn v4) = s.staleOps p := by simp [ribOps, hconn]
      have hpass := hs.passes
      rw [heq, hops] at hpass
      rw [heq]
      exact Agrees.close (t := { s with stale := s.stale.erase p }) h rfl rfl (fun _ hq => hq)
        (fun _ _ => Iff.rfl) (fun _ _ hq => hq) hpass
    · have heq : s.step (.endOfRib p conn v4) = s := by simp [Central.step, Central.endOfRib, hconn]
      rwa [heq]
  | update conn m => exact h.update hs
  | restartTimer now =>
    have heq : s.step (.restartTimer now) =
        ({ s with stale := (s.expired now).foldl (fun m p => m.erase p) s.stale } : Central).applyOps
          (s.ribOps (.restartTimer now)) := foldl_finalise_eq s _ (expired_nodup s now)
    have hpass := hs.passes
    rw [heq] at hpass ⊢
    exact Agrees.close (t := { s with stale := (s.expired now).foldl (fun m p => m.erase p) s.stale }) h rfl
      rfl (fun _ hq => hq) (fun _ _ => Iff.rfl) (fun _ _ hq => hq) hpass
  | teardown p =>
    refine h.mono rfl rfl (fun _ _ _ hq => ⟨hq, id⟩) ?_
    rintro q hd ⟨hq, hap⟩
    exact ⟨(of_getElem?_erase hq).2, hap⟩
  | redistribute r => exact h.applyRedistribution hs.retires
  | rtrFeed feed =>
    exact Agrees.close (t := { s with roa := ⟨s.staticRoas ++ feed⟩ }) h rfl rfl (fun _ hq => hq)
      (fun _ _ => Iff.rfl) (fun _ _ hq => hq) hs.passes
  | bfdDown p => exact h.sendTo_of_deltas_eq_nil p fun _ => rfl
  | refresh p => exact h.sendTo_of_deltas_eq_nil p fun _ => rfl
  | reconfig remove add => exact h.reconfig hs

theorem agrees_start (c : BgpConfig) : (start c).Agrees := by
  refine Agrees.foldl_addNeighbor ⟨keyed_effectiveOrigination c.networks c.aggregates, ?_⟩ c.neighbors
  rintro q hd ⟨hq, -⟩
  simp at hq

/-- The routes an ordinary session left at its peer are those of the Loc-RIB that are eligible for it
and the originated ones, after every run of events that each can be passed on. -/
theorem adjRibOut_agreement (c : BgpConfig) (es : List Event) (hes : Run.Every step Smooth (start c) es)
    (q : IpAddr) (h : SessionHandle) (hq : (run c es).sessions[q]? = some h)
    (hap : h.sess.addPathSend = false) (x : Prefix) :
    ((run c es).advertised[x]? = none → ¬ (x = defaultRoute.pfx ∧ q ∈ (run c es).defaultOriginate) →
      h.sess.holds h.log x = ((run c es).rib.best[x]?).bind (h.sess.outgoing x)) ∧
    ∀ r, (run c es).advertised[x]? = some r → h.sess.originating r ≠ none → h.sess.holds h.log x ≠ none := by
  have hagr : (run c es).Agrees :=
    hes.invariant Agrees (agrees_start c) fun _ _ hs hsmooth => hs.step hsmooth
  obtain ⟨hlearned, horiginated⟩ := (hagr.session q h ⟨hq, hap⟩).2
  exact ⟨hlearned x, horiginated x⟩

/-- A session that comes up in its peer's first place. -/
theorem smooth_established {s : Central} {m : EstablishedMsg}
    (hplain : m.sess.addPathSend = false → m.sess.addr ∉ s.addpathSend)
    (hadv : (s.established m).advertised = s.advertised) : s.Smooth (.established m) := by
  refine ⟨fun _ _ _ _ => trivial, ?_, ?_⟩
  · intro q h _ x hin hnot
    exact absurd hin (hadv ▸ hnot)
  · intro m' hm _ hap
    cases hm
    exact hplain hap

/-- `192.0.2.1` announces a network that no one had announced before. -/
theorem adjRibOut_agreement_first_path :
    let es : List Event := [Sample.established 1 1, Sample.established 3 3,
      Sample.update 1 1 (Sample.announceTen [65001] [])]
    ∃ h, (run Sample.config es).sessions[Sample.addr 3]? = some h ∧
      ∃ path, (run Sample.config es).rib.best[Sample.net10]? = some path ∧
        h.sess.holds h.log Sample.net10 = h.sess.outgoing Sample.net10 path := by
  intro es
  let s := run Sample.config [Sample.established 1 1, Sample.established 3 3]
  have hupdate : s.Smooth (Sample.update 1 1 (Sample.announceTen [65001] [])) := by
    have hkeys : (notesOf s.rib (s.ribOps (Sample.update 1 1 (Sample.announceTen [65001] [])))).map
        (fun ev => (ev.bestDelta.key, ev.bestDelta.value.isSome)) = [(Sample.net10, true)] := by
      decide +kernel
    have hnone : s.rib.bestOf Sample.net10 = none := by decide +kernel
    refine ⟨?_, ?_, fun m hm => by cases hm⟩
    · intro q h hord _
      unfold Passes
      generalize notesOf s.rib (s.ribOps (Sample.update 1 1 (Sample.announceTen [65001] []))) = evs at hkeys ⊢
      obtain ⟨ev, rfl, hev⟩ := List.map_eq_singleton_iff.mp hkeys
      cases ev with
      | best x path hops =>
        have hx : x = Sample.net10 := congrArg Prod.fst hev
        refine ⟨fun _ _ _ => ?_, trivial⟩
        rw [hx, hnone, Option.bind_none]
      | withdrawn x => cases congrArg Prod.snd hev
    · intro q h _ x hin
      have hempty : s.advertised = ∅ := by decide +kernel
      rw [hempty] at hin
      simp at hin
  have hes : Run.Every step Smooth (start Sample.config) es :=
    ⟨smooth_established (fun _ => by decide +kernel) rfl,
      smooth_established (fun _ => by decide +kernel) rfl, hupdate, trivial⟩
  have hrun : ((run Sample.config es).sessions[Sample.addr 3]?).any (fun h =>
      decide (h.sess.addPathSend = false)) = true := by decide +kernel
  obtain ⟨h, hq, hap⟩ := (Option.any_eq_true _ _).mp hrun
  have hbest : ((run Sample.config es).rib.best[Sample.net10]?).isSome = true := by decide +kernel
  obtain ⟨path, hpath⟩ := Option.isSome_iff_exists.mp hbest
  have hagr := (adjRibOut_agreement Sample.config es hes _ h hq (by simpa using hap) Sample.net10).1
    (by decide +kernel) (by decide +kernel)
  exact ⟨h, hq, path, hpath, by rw [hagr, hpath, Option.bind_some]⟩

/-- The best path of `192.0.2.1` gives way to one of `192.0.2.2` that must not be exported, and
`192.0.2.3` keeps the first. -/
theorem not_forall_adjRibOut_agreement :
    ¬ ∀ (c : BgpConfig) (es : List Event) (q : IpAddr) (h : SessionHandle),
      (run c es).sessions[q]? = some h → h.sess.addPathSend = false → ∀ x,
      ((run c es).advertised[x]? = none → ¬ (x = defaultRoute.pfx ∧ q ∈ (run c es).defaultOriginate) →
        h.sess.holds h.log x = ((run c es).rib.best[x]?).bind (h.sess.outgoing x)) ∧
      ∀ r, (run c es).advertised[x]? = some r → h.sess.originating r ≠ none →
        h.sess.holds h.log x ≠ none := by
  intro hall
  let es : List Event := [Sample.established 1 1, Sample.established 2 2, Sample.established 3 3,
    Sample.update 1 1 (Sample.announceTen [65001, 64500] []),
    Sample.update 2 2 (Sample.announceTen [65002] [noExport])]
  have hrun : ((run Sample.config es).sessions[Sample.addr 3]?).any (fun h =>
      decide (h.sess.addPathSend = false) && decide (h.sess.holds h.log Sample.net10 ≠
        ((run Sample.config es).rib.best[Sample.net10]?).bind (h.sess.outgoing Sample.net10))) = true := by
    decide +kernel
  obtain ⟨h, hq, hbad⟩ := (Option.any_eq_true _ _).mp hrun
  rw [Bool.and_eq_true, decide_eq_true_iff, decide_eq_true_iff] at hbad
  refine hbad.2 ((hall Sample.config es _ h hq hbad.1 Sample.net10).1 ?_ ?_)
  · decide +kernel
  · decide +kernel

end Central
end Wren.Daemon.Bgp
