import Wren.Daemon.Bgp.AddPath

/-! After every event the ADD-PATH peers hold the paths they are to be offered, as long as no handler
changes a path that is eligible for one of them without offering its network again. -/

namespace Wren.Daemon.Bgp
open Wren.Core Wren.Bgp OrdMap Replica

/-- A RIB operation is about the path of a source for a network. -/
def opNames (op : BgpRib.Op) (x : Prefix) (src : IpAddr × UInt32) : Prop :=
  match op with
  | .update p i y _ | .withdraw p i y => x = y ∧ src = (p, i)
  | .withdrawPeer p => src.1 = p

theorem offer_step_cases (rib : BgpRib) (op : BgpRib.Op) (x : Prefix) (src : IpAddr × UInt32) :
    (rib.step op).offer x src = rib.offer x src ∨
      opNames op x src ∧ ((rib.step op).offer x src = none ∨
        ∃ path, op = .update src.1 src.2 x path ∧ (rib.step op).offer x src = some path) := by
  cases op with
  | update p i y path =>
    by_cases hk : x = y ∧ src = (p, i)
    · obtain ⟨rfl, rfl⟩ := hk
      exact Or.inr ⟨⟨rfl, rfl⟩, Or.inr ⟨path, rfl, by rw [BgpRib.offer_update, if_pos ⟨rfl, rfl⟩]⟩⟩
    · exact Or.inl (by rw [BgpRib.offer_update, if_neg hk])
  | withdraw p i y =>
    by_cases hk : x = y ∧ src = (p, i)
    · exact Or.inr ⟨hk, Or.inl (by rw [BgpRib.offer_withdraw, if_pos hk])⟩
    · exact Or.inl (by rw [BgpRib.offer_withdraw, if_neg hk])
  | withdrawPeer p =>
    have hoffer : (rib.step (.withdrawPeer p)).offer x src = if src.1 = p then none else rib.offer x src :=
      BgpRib.offer_withdrawPeer ..
    by_cases hk : src.1 = p
    · exact Or.inr ⟨hk, Or.inl (by rw [hoffer, if_pos hk])⟩
    · exact Or.inl (by rw [hoffer, if_neg hk])

/-- A path after a sequence of operations is the old one, or one of them was about it. -/
theorem offer_foldl_cases (ops : List BgpRib.Op) (rib : BgpRib) (x : Prefix) (src : IpAddr × UInt32) :
    (ops.foldl BgpRib.step rib).offer x src = rib.offer x src ∨
      (∃ op ∈ ops, opNames op x src) ∧ ((ops.foldl BgpRib.step rib).offer x src = none ∨
        ∃ path, .update src.1 src.2 x path ∈ ops ∧ (ops.foldl BgpRib.step rib).offer x src = some path) := by
  induction ops generalizing rib with
  | nil => exact Or.inl rfl
  | cons op ops ih =>
    rw [List.foldl_cons]
    rcases ih (rib.step op) with hsame | ⟨⟨op', hin, hnames⟩, hrest⟩
    · rw [hsame]
      rcases offer_step_cases rib op x src with hold | ⟨hnames, hnone | ⟨path, rfl, hpath⟩⟩
      · exact Or.inl hold
      · exact Or.inr ⟨⟨op, by simp, hnames⟩, Or.inl hnone⟩
      · exact Or.inr ⟨⟨_, by simp, hnames⟩, Or.inr ⟨path, by simp, hpath⟩⟩
    · refine Or.inr ⟨⟨op', by simp [hin], hnames⟩, ?_⟩
      rcases hrest with hnone | ⟨path, hin', hpath⟩
      · exact Or.inl hnone
      · exact Or.inr ⟨path, by simp [hin'], hpath⟩

/-- What never happens to the identifiers: none comes back to another source. -/
structure AddPathState.Later (a b : AddPathState) : Prop where
  next : a.next.toNat ≤ b.next.toNat
  above : ∀ (src : IpAddr × UInt32) (id : UInt32), b.ids[src]? = some id →
    a.ids[src]? = some id ∨ a.next.toNat < id.toNat

namespace AddPathState

theorem Later.refl (a : AddPathState) : a.Later a := ⟨le_rfl, fun _ _ h => Or.inl h⟩

theorem Later.trans {a b c : AddPathState} (hab : a.Later b) (hbc : b.Later c) : a.Later c := by
  refine ⟨hab.next.trans hbc.next, ?_⟩
  intro src id h
  rcases hbc.above src id h with hb | hlt
  · exact hab.above src id hb
  · exact Or.inr (lt_of_le_of_lt hab.next hlt)

theorem Grows.later {a b : AddPathState} (h : a.Grows b) : a.Later b := ⟨h.next, h.above⟩

theorem later_dropPeer (a : AddPathState) (p : IpAddr) : a.Later (a.dropPeer p) := by
  refine ⟨le_rfl, ?_⟩
  intro src id hid
  rw [ids_dropPeer] at hid
  split_ifs at hid
  exact Or.inl hid

end AddPathState

namespace Central

/-- The operations touch no path of the network that is eligible for the peer. -/
structure Spares (s : Central) (ops : List BgpRib.Op) (q : IpAddr) (x : Prefix) : Prop where
  old : ∀ src, (∃ op ∈ ops, opNames op x src) → (s.rib.offer x src).bind (s.eligible q x src) = none
  new : ∀ src path, .update src.1 src.2 x path ∈ ops → s.eligible q x src path = none

theorem Spares.eligible {s : Central} {ops : List BgpRib.Op} {q : IpAddr} {x : Prefix} (h : s.Spares ops q x)
    (src : IpAddr × UInt32) :
    ((ops.foldl BgpRib.step s.rib).offer x src).bind (s.eligible q x src) =
      (s.rib.offer x src).bind (s.eligible q x src) := by
  rcases offer_foldl_cases ops s.rib x src with hsame | ⟨hnames, hnone | ⟨path, hin, hpath⟩⟩
  · rw [hsame]
  · rw [hnone, h.old src hnames, Option.bind_none]
  · rw [hpath, h.old src hnames, Option.bind_some, h.new src path hin]

/-- The networks that are offered again after an event. -/
def reoffered (s : Central) : Event → List Prefix
  | .down p conn _ => if s.currentConn[p]? = some conn then s.affected p else []
  | .update _ m => if m.facts.addr ∈ s.damped ∨ s.fate m ≠ .taken then [] else touched m.update
  | _ => []

/-- The sources that have a path, or get one by the event. -/
def sources (s : Central) (e : Event) : List (IpAddr × UInt32) :=
  ((s.rib.entries.toList.flatMap fun en => en.2.toList.map Prod.fst) ++
    match e with
    | .update _ m => (reachKeys m.update).map fun k => (m.facts.addr, k.2)
    | _ => []).dedup

/-- The event removes the neighbour. -/
def removes : Event → IpAddr → Prop
  | .reconfig remove _, q => q ∈ remove
  | _, _ => False

/-- The event leaves the ADD-PATH peers up to date: a path that is eligible for one of them changes
only where its network is offered again, and none loses its identifier while it is kept; a new session
does not find the offers of one that was torn down; no neighbour is added that is already offered paths;
and the identifiers do not run out. -/
structure Followed (s : Central) (e : Event) : Prop where
  spares : ∀ q ∈ s.addpathSend, q ∈ s.sessions → ¬ removes e q → ∀ x, x.isIpv4 = true →
    x ∉ s.reoffered e → s.Spares (s.ribOps e) q x
  retains : ∀ p conn now, e = .down p conn now → s.currentConn[p]? = some conn → s.retained p = true →
    ∀ q ∈ s.addpathSend, q ∈ s.sessions → ∀ x, x.isIpv4 = true → ∀ i,
      (s.rib.offer x (p, i)).bind (s.eligible q x (p, i)) = none
  clean : ∀ m, e = .established m → s.refuses m = false → m.sess.addr ∈ s.addpathSend →
    m.sess.addr ∈ s.sessions
  adds : ∀ remove add, e = .reconfig remove add → ∀ n ∈ add, n.addr ∉ remove → n.addr ∉ s.neighbors →
    n.addr ∈ s.addpathSend → n.addr ∉ s.sessions
  room : s.addpath.next.toNat + (s.sources e).length < 2 ^ 32

/-- All ADD-PATH peers are up to date, and nothing is recorded for others. -/
structure Serving (s : Central) : Prop where
  distinct : s.addpath.Distinct
  listed : ∀ (q : IpAddr) (hd : SessionHandle), s.sessions[q]? = some hd → hd.sess.addPathSend = true →
    q ∈ s.addpathSend
  absent : ∀ q, q ∉ s.addpathSend → ∀ y id, id ∉ s.advertisedTo q y
  serves : ∀ q ∈ s.addpathSend, q ∈ s.sessions → ∀ y, y.isIpv4 = true → s.Serves q y

/-- Every session was there before, and its peer holds the same paths. -/
def KeepsHoldings (s t : Central) : Prop :=
  ∀ (q : IpAddr) (hd' : SessionHandle), t.sessions[q]? = some hd' → ∃ hd : SessionHandle,
    s.sessions[q]? = some hd ∧ hd.sess = hd'.sess ∧ addPathHolds hd'.log = addPathHolds hd.log

theorem KeepsHoldings.same {s t : Central} (h : KeepsHoldings s t) (q : IpAddr) (y : Prefix) :
    SameHoldings s t q y := by
  intro hd' hget'
  obtain ⟨hd, hget, hsess, hlog⟩ := h q hd' hget'
  exact ⟨hd, hget, hsess, fun id => by rw [hlog]⟩

/-- What a handler may do to the sessions and the records before it offers anything. -/
structure Frame (s t : Central) : Prop where
  listed : ∀ q ∈ s.addpathSend, q ∈ t.sessions → q ∈ t.addpathSend
  sub : ∀ q ∈ t.addpathSend, q ∈ s.addpathSend
  held : KeepsHoldings s t
  out : ∀ q ∈ t.addpathSend, ∀ y id, id ∈ t.advertisedTo q y ↔ id ∈ s.advertisedTo q y
  absent : ∀ q, q ∉ t.addpathSend → ∀ y id, id ∈ t.advertisedTo q y → q ∉ s.addpathSend ∧ id ∈ s.advertisedTo q y
  config : ∀ q ∈ t.addpathSend, q ∈ t.sessions → t.peers[q]? = s.peers[q]? ∧ t.exports[q]? = s.exports[q]?

/-- Records that nothing was done to, and commands that say nothing about single paths. -/
theorem Frame.of_same {s t : Central} (haddpath : t.addpath = s.addpath) (hsend : t.addpathSend = s.addpathSend)
    (hpeers : t.peers = s.peers) (hexports : t.exports = s.exports)
    (hheld : KeepsHoldings s t) : Frame s t := by
  have hout : ∀ q y, t.advertisedTo q y = s.advertisedTo q y := by
    intro q y
    rw [advertisedTo, haddpath]
    rfl
  refine ⟨?_, ?_, hheld, ?_, ?_, ?_⟩
  · intro q hq _
    rwa [hsend]
  · intro q hq
    rwa [hsend] at hq
  · intro q _ y id
    rw [hout]
  · intro q hq y id hid
    rw [hsend] at hq
    rw [hout] at hid
    exact ⟨hq, hid⟩
  · intro q _ _
    rw [hpeers, hexports]
    exact ⟨rfl, rfl⟩

theorem addPathDeltas_fanoutCmds {rib : BgpRib} {ops : List BgpRib.Op} {c : SessionCmd}
    (hc : c ∈ fanoutCmds rib ops) : addPathDeltas c = [] := by
  obtain ⟨ev, -, rfl⟩ := List.mem_map.mp hc
  cases ev <;> rfl

/-- The fan-out of RIB changes says nothing about single paths. -/
theorem keepsHoldings_applyOps (s : Central) (ops : List BgpRib.Op) : KeepsHoldings s (s.applyOps ops) := by
  intro q hd' h
  rw [applyOps_sessions] at h
  obtain ⟨hd, hget, rfl⟩ := Option.map_eq_some_iff.mp h
  exact ⟨hd, hget, rfl, addPathHolds_append_of_plain (fun _ => addPathDeltas_fanoutCmds) hd.log⟩

theorem KeepsHoldings.mem_sessions {s t : Central} (h : KeepsHoldings s t) {q : IpAddr} (hq : q ∈ t.sessions) :
    q ∈ s.sessions := by
  rw [Std.ExtTreeMap.mem_iff_isSome_getElem?, Option.isSome_iff_exists] at hq ⊢
  obtain ⟨hd', hget'⟩ := hq
  obtain ⟨hd, hget, -⟩ := h q hd' hget'
  exact ⟨hd, hget⟩

theorem Frame.trans {s t u : Central} (hst : Frame s t) (htu : Frame t u) : Frame s u := by
  refine ⟨?_, ?_, ?_, ?_, ?_, ?_⟩
  · intro q hq hqu
    exact htu.listed q (hst.listed q hq (htu.held.mem_sessions hqu)) hqu
  · intro q hq
    exact hst.sub q (htu.sub q hq)
  · intro q hd'' hget''
    obtain ⟨hd', hget', hsess', hlog'⟩ := htu.held q hd'' hget''
    obtain ⟨hd, hget, hsess, hlog⟩ := hst.held q hd' hget'
    exact ⟨hd, hget, hsess.trans hsess', hlog'.trans hlog⟩
  · intro q hq y id
    rw [htu.out q hq, hst.out q (htu.sub q hq)]
  · intro q hq y id hid
    obtain ⟨hqt, hidt⟩ := htu.absent q hq y id hid
    exact hst.absent q hqt y id hidt
  · intro q hq hqs
    obtain ⟨hp, he⟩ := htu.config q hq hqs
    obtain ⟨hp', he'⟩ := hst.config q (htu.sub q hq) (htu.held.mem_sessions hqs)
    exact ⟨hp.trans hp', he.trans he'⟩

theorem Frame.applyOps (s : Central) (ops : List BgpRib.Op) : Frame s (s.applyOps ops) := by
  refine Frame.of_same ?_ ?_ ?_ ?_ (keepsHoldings_applyOps s ops)
  all_goals
    rw [applyOps_eq]
    rfl

section
variable {s t : Central}

theorem Frame.ready (hf : Frame s t) (h : s.Serving) {q : IpAddr} (hq : q ∈ t.addpathSend)
    (hqs : q ∈ t.sessions) {y : Prefix} (hy : y.isIpv4 = true) : t.Ready q y := by
  have hqs' := hf.held.mem_sessions hqs
  refine ((h.serves q (hf.sub q hq) hqs' y hy).ready hqs').frame ?_ (hf.out q hq y) (hf.held.same q y)
  have hc : s.sessions.contains q = true := by simpa using hqs'
  have hc' : t.sessions.contains q = true := by simpa using hqs
  unfold offers
  rw [(hf.config q hq hqs).1, (hf.config q hq hqs).2, hc, hc']
  exact id

theorem Frame.serves (hf : Frame s t) (h : s.Serving) {q : IpAddr} (hq : q ∈ t.addpathSend)
    (hqs : q ∈ t.sessions) {y : Prefix} (hy : y.isIpv4 = true)
    (hel : ∀ src, (t.rib.offer y src).bind (s.eligible q y src) = (s.rib.offer y src).bind (s.eligible q y src))
    (hids : ∀ e ∈ s.offered q y, t.addpath.ids[e.1]? = s.addpath.ids[e.1]?) : t.Serves q y := by
  have hsame : ∀ src, t.eligible q y src = s.eligible q y src := by
    intro src
    funext path
    unfold eligible
    rw [(hf.config q hq hqs).1, (hf.config q hq hqs).2]
  refine (h.serves q (hf.sub q hq) (hf.held.mem_sessions hqs) y hy).frame ?_ hids (hf.out q hq y) (hf.held.same q y)
  rintro ⟨src, path⟩
  rw [mem_offered, mem_offered, hsame, hel]

theorem mem_advertisedTo_foldl_propagateAddPath (xs : List Prefix) {q : IpAddr} (hq : q ∉ s.addpathSend)
    (y : Prefix) (id : UInt32) :
    id ∈ (xs.foldl propagateAddPath s).advertisedTo q y ↔ id ∈ s.advertisedTo q y := by
  refine (List.foldlRecOn (motive := fun t : Central => q ∉ t.addpathSend ∧
    (id ∈ t.advertisedTo q y ↔ id ∈ s.advertisedTo q y)) xs _ ⟨hq, Iff.rfl⟩ ?_).2
  rintro t ⟨hqt, hiff⟩ x _
  unfold propagateAddPath
  split_ifs
  · refine List.foldlRecOn (motive := fun u : Central => q ∉ u.addpathSend ∧
      (id ∈ u.advertisedTo q y ↔ id ∈ s.advertisedTo q y)) t.addpathSend _ ⟨hqt, hiff⟩ ?_
    rintro u ⟨hqu, hiff'⟩ p hp
    have hne : ¬ (q = p ∧ y = x) := fun heq => hqt (heq.1 ▸ hp)
    refine ⟨by rwa [addpathSend_propagateAddPathTo], ?_⟩
    rw [(frame_propagateAddPathTo hne).1, hiff']
  · exact ⟨hqt, hiff⟩

/-- A handler that keeps to its frame and then offers all the networks where something changed. -/
theorem Serving.finish (h : s.Serving) (hf : Frame s t) (hd : t.addpath.Distinct)
    (hl : s.addpath.Later t.addpath) (sources : List (IpAddr × UInt32)) (hroom : t.addpath.Room sources)
    (hknown : ∀ x src, t.rib.offer x src ≠ none → src ∈ sources) (xs : List Prefix)
    (hkept : ∀ q ∈ t.addpathSend, q ∈ t.sessions → ∀ y, y.isIpv4 = true → y ∉ xs → t.Serves q y) :
    (xs.foldl propagateAddPath t).Serving ∧ s.addpath.Later (xs.foldl propagateAddPath t).addpath := by
  have hstage : Stage sources t := ⟨hd, hroom, hknown, fun q hq hqs y hy => hf.ready h hq hqs hy⟩
  obtain ⟨⟨hst, hg, hsend, hsess⟩, hold, hnew⟩ := foldl_propagateAddPath_spec hstage xs
  refine ⟨⟨hst.distinct, ?_, ?_, ?_⟩, hl.trans hg.later⟩
  · intro q hd hget hap
    have hmap := sess_foldl_propagateAddPath t xs q
    rw [hget, Option.map_some] at hmap
    obtain ⟨hd₁, hget₁, hsess₁⟩ := Option.map_eq_some_iff.mp hmap.symm
    obtain ⟨hd₀, hget₀, hsess₀, -⟩ := hf.held q hd₁ hget₁
    rw [hsend]
    refine hf.listed q (h.listed q hd₀ hget₀ ?_) ?_
    · rw [hsess₀, hsess₁, hap]
    · rw [Std.ExtTreeMap.mem_iff_isSome_getElem?, hget₁]
      rfl
  · intro q hq y id hid
    rw [hsend] at hq
    rw [mem_advertisedTo_foldl_propagateAddPath xs hq] at hid
    obtain ⟨hqs, hids⟩ := hf.absent q hq y id hid
    exact h.absent q hqs y id hids
  · intro q hq hqs y hy
    rw [hsend] at hq
    rw [hsess] at hqs
    by_cases hin : y ∈ xs
    · exact hnew y hin hy q hq hqs
    · exact hold q y hqs (hkept q hq hqs y hy hin)

/-- A handler that offers nothing again. -/
theorem Serving.quiet (h : s.Serving) (hf : Frame s t) (hd : t.addpath.Distinct)
    (hl : s.addpath.Later t.addpath)
    (hkept : ∀ q ∈ t.addpathSend, q ∈ t.sessions → ∀ y, y.isIpv4 = true → t.Serves q y) :
    t.Serving ∧ s.addpath.Later t.addpath := by
  refine ⟨⟨hd, ?_, ?_, hkept⟩, hl⟩
  · intro q hd' hget hap
    obtain ⟨hd₀, hget₀, hsess₀, -⟩ := hf.held q hd' hget
    refine hf.listed q (h.listed q hd₀ hget₀ (by rw [hsess₀, hap])) ?_
    rw [Std.ExtTreeMap.mem_iff_isSome_getElem?, hget]
    rfl
  · intro q hq y id hid
    obtain ⟨hqs, hids⟩ := hf.absent q hq y id hid
    exact h.absent q hqs y id hids

end

theorem mem_sources_of_offer {s : Central} {e : Event} {x : Prefix} {src : IpAddr × UInt32}
    (h : s.rib.offer x src ≠ none) : src ∈ s.sources e := by
  obtain ⟨path, hpath⟩ := Option.ne_none_iff_exists'.mp h
  obtain ⟨peers, hpeers, hget⟩ := Option.bind_eq_some_iff.mp hpath
  refine List.mem_dedup.mpr (List.mem_append_left _ (List.mem_flatMap.mpr ⟨(x, peers), ?_, ?_⟩))
  · exact Std.ExtTreeMap.mem_toList_iff_getElem?_eq_some.mpr hpeers
  · exact List.mem_map.mpr ⟨(src, path), Std.ExtTreeMap.mem_toList_iff_getElem?_eq_some.mpr hget, rfl⟩

theorem reachKeys_of_update_mem {s : Central} {m : UpdateMsg} {p : IpAddr} {i : UInt32} {x : Prefix} {path : Path}
    (h : BgpRib.Op.update p i x path ∈ s.updateOps m) : p = m.facts.addr ∧ (x, i) ∈ reachKeys m.update := by
  have hpeer : p = m.facts.addr := opPeer_of_mem_updateOps h
  refine ⟨hpeer, ?_⟩
  unfold updateOps at h
  rcases List.mem_append.mp h with hw | h
  · obtain ⟨k, -, hk⟩ := List.mem_map.mp hw
    cases hk
  · split_ifs at h with hloop hmany
    · cases h
    · cases List.mem_singleton.mp h
    · have hin : (x, i) ∈ ((s.policyFor m.facts.addr).installed m).map Delta.key := by
        unfold ImportPolicy.installOps at h
        split_ifs at h with hrej
        · cases h
        · obtain ⟨e, he, hop⟩ := List.mem_map.mp h
          have hrefused : (s.policyFor m.facts.addr).refused m = false := by
            have hloop' : isLoop (s.policyFor m.facts.addr).loc m.update = false := Bool.not_eq_true _ ▸ hloop
            rw [ImportPolicy.refused, hloop', Bool.false_or]
            simpa using hrej
          have hkey : e.1 = (x, i) := by
            unfold ImportPolicy.importAndInstall at hop
            split at hop
            · cases hop
              rfl
            · cases hop
          rw [ImportPolicy.installed, hrefused, if_neg Bool.false_ne_true, ImportPolicy.map_key_reachDeltas]
          exact List.mem_map.mpr ⟨e, he, hkey⟩
      exact ImportPolicy.mem_reachKeys_of_mem_installed _ hin

/-- Every source after some operations was there before, or one of them gave it a path. -/
theorem mem_sources_of_offer_foldl {s : Central} {e : Event} {ops : List BgpRib.Op}
    (hops : ∀ (src : IpAddr × UInt32) x path, .update src.1 src.2 x path ∈ ops → src ∈ s.sources e)
    {x : Prefix} {src : IpAddr × UInt32} (h : (ops.foldl BgpRib.step s.rib).offer x src ≠ none) :
    src ∈ s.sources e := by
  rcases offer_foldl_cases ops s.rib x src with hsame | ⟨-, hnone | ⟨path, hin, -⟩⟩
  · rw [hsame] at h
    exact mem_sources_of_offer h
  · exact absurd hnone h
  · exact hops src x path hin

/-- There is room for all sources when nothing has been named yet in an event. -/
theorem room_of_next {a : AddPathState} {sources : List (IpAddr × UInt32)}
    (h : a.next.toNat + sources.length < 2 ^ 32) : a.Room sources := by
  have hle : a.unnamed sources ≤ sources.length := List.length_filter_le _ _
  unfold AddPathState.Room
  omega

section Events
variable {s : Central}

/-- An event whose handler offers nothing again and keeps the identifiers. -/
theorem Serving.step_of_same (h : s.Serving) {e : Event} (hfol : s.Followed e) (hf : Frame s (s.step e))
    (haddpath : (s.step e).addpath = s.addpath) (hre : s.reoffered e = []) (hnr : ∀ q, ¬ removes e q) :
    (s.step e).Serving ∧ s.addpath.Later (s.step e).addpath := by
  refine h.quiet hf (haddpath ▸ h.distinct) (haddpath ▸ .refl _) ?_
  intro q hq hqs y hy
  have hsp := hfol.spares q (hf.sub q hq) (hf.held.mem_sessions hqs) (hnr q) y hy (by simp [hre])
  refine hf.serves h hq hqs hy ?_ (fun _ _ => by rw [haddpath])
  intro src
  rw [step_rib]
  exact hsp.eligible src

/-- Commands that say nothing about single paths, to one peer. -/
theorem Frame.sendTo (s : Central) (p : IpAddr) {cs : List SessionCmd} (hcs : ∀ c ∈ cs, addPathDeltas c = []) :
    Frame s (s.sendTo p cs) := by
  refine Frame.of_same rfl rfl rfl rfl ?_
  intro q hd' hget
  rw [Central.sendTo, getElem?_modify] at hget
  split_ifs at hget with hq
  · obtain ⟨hd, hold, rfl⟩ := Option.map_eq_some_iff.mp hget
    exact ⟨hd, hold, rfl, addPathHolds_append_of_plain hcs hd.log⟩
  · exact ⟨hd', hget, rfl, rfl⟩

theorem Frame.fanout (s : Central) {cs : List SessionCmd} (hcs : ∀ c ∈ cs, addPathDeltas c = []) :
    Frame s (s.fanout cs) := by
  refine Frame.of_same rfl rfl rfl rfl ?_
  intro q hd' hget
  rw [Central.fanout, Std.ExtTreeMap.getElem?_map] at hget
  obtain ⟨hd, hold, rfl⟩ := Option.map_eq_some_iff.mp hget
  exact ⟨hd, hold, rfl, addPathHolds_append_of_plain hcs hd.log⟩

/-- A session is closed. -/
theorem Frame.of_erase {t : Central} (haddpath : t.addpath = s.addpath) (hsend : t.addpathSend = s.addpathSend)
    (hpeers : t.peers = s.peers) (hexports : t.exports = s.exports) {p : IpAddr}
    (hsess : t.sessions = s.sessions.erase p) : Frame s t := by
  refine Frame.of_same haddpath hsend hpeers hexports ?_
  intro q hd' hget
  rw [hsess, getElem?_erase] at hget
  split_ifs at hget
  exact ⟨hd', hget, rfl, rfl⟩

theorem addPathDeltas_of_mem_ite {c d : SessionCmd} (hd : addPathDeltas d = []) {P : Prop} [Decidable P]
    (hc : c ∈ if P then [] else [d]) : addPathDeltas c = [] := by
  split_ifs at hc
  · cases hc
  · rw [List.mem_singleton.mp hc, hd]

theorem addPathDeltas_snapshot {c : SessionCmd} (hc : c ∈ s.snapshot) : addPathDeltas c = [] := by
  rcases List.mem_append.mp hc with hc | hc
  · exact addPathDeltas_of_mem_ite rfl hc
  · exact addPathDeltas_of_mem_ite rfl hc

theorem addPathDeltas_greeting {p : IpAddr} {c : SessionCmd} (hc : c ∈ s.greeting p) : addPathDeltas c = [] := by
  unfold greeting at hc
  simp only [List.mem_append, List.mem_singleton] at hc
  rcases hc with (hsnap | hdef) | rfl
  · exact addPathDeltas_snapshot hsnap
  · split_ifs at hdef
    · rw [List.mem_singleton.mp hdef]
      rfl
    · cases hdef
  · rfl

theorem addPathDeltas_originationCmds {next : BTreeMap Prefix OriginRoute} {c : SessionCmd}
    (hc : c ∈ s.originationCmds next) : addPathDeltas c = [] := by
  rcases List.mem_append.mp hc with hc | hc
  · exact addPathDeltas_of_mem_ite rfl hc
  · exact addPathDeltas_of_mem_ite rfl hc

theorem Serving.update (h : s.Serving) {conn : UInt64} {m : UpdateMsg} (hfol : s.Followed (.update conn m)) :
    (s.update m).Serving ∧ s.addpath.Later (s.update m).addpath := by
  by_cases hdamp : m.facts.addr ∈ s.damped
  · have hsame : s.update m = s := by simp [Central.update, hdamp]
    rw [hsame]
    exact ⟨h, .refl _⟩
  have hops : Frame s ((s.unstale m).applyOps (s.updateOps m)) :=
    (Frame.of_same rfl rfl rfl rfl fun q hd hget => ⟨hd, hget, rfl, rfl⟩ : Frame s (s.unstale m)).trans
      (Frame.applyOps _ _)
  have haddpath : ((s.unstale m).applyOps (s.updateOps m)).addpath = s.addpath := by
    rw [applyOps_eq]
    rfl
  cases hfate : s.fate m with
  | looped =>
    have hstep : s.step (.update conn m) = (s.unstale m).applyOps (s.updateOps m) := by
      have hloop : isLoop s.loc m.update = true := by
        unfold fate at hfate
        split_ifs at hfate with hloop
        exact hloop
      simp [Central.step, Central.update, hdamp, hloop]
    exact h.step_of_same hfol (hstep ▸ hops) (hstep ▸ haddpath) (by simp [reoffered, hfate]) fun _ hr => hr
  | overLimit =>
    have hstep : s.step (.update conn m) = ((s.unstale m).applyOps (s.updateOps m)).damp m.facts.addr := by
      unfold fate at hfate
      split_ifs at hfate with hloop hmany
      simp [Central.step, Central.update, hdamp, hloop, hmany]
    have hframe : Frame s (((s.unstale m).applyOps (s.updateOps m)).damp m.facts.addr) :=
      hops.trans (Frame.of_erase rfl rfl rfl rfl rfl)
    exact h.step_of_same hfol (hstep ▸ hframe) (hstep ▸ haddpath) (by simp [reoffered, hfate]) fun _ hr => hr
  | taken =>
    set t := ((s.unstale m).applyOps (s.updateOps m)).applyFamilyOps (familyOps m) with ht
    have hstep : s.step (.update conn m) =
        (if s.addpathSend.isEmpty then [] else touched m.update).foldl propagateAddPath t := by
      unfold fate at hfate
      split_ifs at hfate with hloop hmany
      simp [Central.step, Central.update, hdamp, hloop, hmany, ht]
    have hframe : Frame s t :=
      hops.trans (Frame.of_same rfl rfl rfl rfl fun q hd hget => ⟨hd, hget, rfl, rfl⟩)
    have hrib : t.rib = (s.ribOps (.update conn m)).foldl BgpRib.step s.rib := by
      simp [ht, applyFamilyOps, unstale, ribOps, hdamp]
    have hre : s.reoffered (.update conn m) = touched m.update := by simp [reoffered, hdamp, hfate]
    show (s.step (.update conn m)).Serving ∧ s.addpath.Later (s.step (.update conn m)).addpath
    rw [hstep]
    refine h.finish hframe ?_ ?_ (s.sources (.update conn m)) ?_ ?_ _ ?_
    · show ((s.unstale m).applyOps (s.updateOps m)).addpath.Distinct
      exact haddpath ▸ h.distinct
    · show s.addpath.Later ((s.unstale m).applyOps (s.updateOps m)).addpath
      exact haddpath ▸ .refl _
    · show ((s.unstale m).applyOps (s.updateOps m)).addpath.Room _
      exact haddpath ▸ room_of_next hfol.room
    · intro x src hx
      rw [hrib] at hx
      refine mem_sources_of_offer_foldl ?_ hx
      intro src x path hin
      simp only [ribOps, hdamp, if_false] at hin
      obtain ⟨hp, hkey⟩ := reachKeys_of_update_mem hin
      exact List.mem_dedup.mpr (List.mem_append_right _ (List.mem_map.mpr ⟨(x, src.2), hkey,
        Prod.ext hp.symm rfl⟩))
    · intro q hq hqs y hy hnot
      have hqsend := hframe.sub q hq
      have hne : s.addpathSend.isEmpty = false := by
        cases hl : s.addpathSend with
        | nil =>
          rw [hl] at hqsend
          cases hqsend
        | cons a l => rfl
      rw [hne, if_neg Bool.false_ne_true] at hnot
      have hsp := hfol.spares q hqsend (hframe.held.mem_sessions hqs) id y hy (hre ▸ hnot)
      refine hframe.serves h hq hqs hy ?_ ?_
      · intro src
        rw [hrib]
        exact hsp.eligible src
      · intro e _
        show ((s.unstale m).applyOps (s.updateOps m)).addpath.ids[e.1]? = _
        rw [haddpath]

theorem mem_advertisedTo_dropPeer {t : Central} {p : IpAddr} (h : t.addpath = s.addpath.dropPeer p) (q : IpAddr)
    (y : Prefix) (id : UInt32) : id ∈ t.advertisedTo q y ↔ q ≠ p ∧ id ∈ s.advertisedTo q y := by
  unfold advertisedTo
  rw [h]
  by_cases hq : q = p
  · cases s.addpath.out[(q, y)]? <;> simp [AddPathState.dropPeer, hq, Std.ExtTreeMap.getElem?_filter]
  · cases hout : s.addpath.out[(q, y)]? <;>
      simp [AddPathState.dropPeer, hq, Std.ExtTreeMap.getElem?_filter, hout, Option.filter]

/-- A peer is struck from the records together with its session. -/
theorem Frame.of_drop {t : Central} {p : IpAddr} (haddpath : t.addpath = s.addpath.dropPeer p)
    (hsend : t.addpathSend = s.addpathSend.filter (· ≠ p)) (hsess : t.sessions = s.sessions.erase p)
    (hconfig : ∀ q, q ≠ p → t.peers[q]? = s.peers[q]? ∧ t.exports[q]? = s.exports[q]?) : Frame s t := by
  have hmem : ∀ q, q ∈ t.addpathSend ↔ q ∈ s.addpathSend ∧ q ≠ p := by
    intro q
    simp [hsend]
  have hget : ∀ (q : IpAddr) (hd : SessionHandle), t.sessions[q]? = some hd → q ≠ p ∧ s.sessions[q]? = some hd := by
    intro q hd hq
    rw [hsess, getElem?_erase] at hq
    split_ifs at hq with heq
    exact ⟨heq, hq⟩
  refine ⟨?_, ?_, ?_, ?_, ?_, ?_⟩
  · intro q hq hqs
    rw [Std.ExtTreeMap.mem_iff_isSome_getElem?, Option.isSome_iff_exists] at hqs
    obtain ⟨hd, hqs⟩ := hqs
    exact (hmem q).mpr ⟨hq, (hget q hd hqs).1⟩
  · intro q hq
    exact ((hmem q).mp hq).1
  · intro q hd hq
    exact ⟨hd, (hget q hd hq).2, rfl, rfl⟩
  · intro q hq y id
    rw [mem_advertisedTo_dropPeer haddpath]
    exact and_iff_right ((hmem q).mp hq).2
  · intro q hq y id hid
    obtain ⟨hne, hold⟩ := (mem_advertisedTo_dropPeer haddpath q y id).mp hid
    exact ⟨fun hin => hq ((hmem q).mpr ⟨hin, hne⟩), hold⟩
  · intro q hq _
    exact hconfig q ((hmem q).mp hq).2

theorem Serving.down (h : s.Serving) {p : IpAddr} {conn : UInt64} {now : ℕ}
    (hfol : s.Followed (.down p conn now)) :
    (s.down p conn now).Serving ∧ s.addpath.Later (s.down p conn now).addpath := by
  by_cases hconn : s.currentConn[p]? = some conn
  swap
  · have hsame : s.down p conn now = s := by simp [Central.down, hconn]
    rw [hsame]
    exact ⟨h, .refl _⟩
  set t := ((s.leave p now).applyOps (s.lossOps p)).applyFamilyOps [.withdrawPeer p] with ht
  have hdown : s.down p conn now = (s.affected p).foldl propagateAddPath t := by simp [Central.down, hconn, ht]
  have haddpath : t.addpath = s.addpath.dropPeer p := by
    rw [ht, applyOps_eq]
    rfl
  have hleave : Frame s (s.leave p now) := Frame.of_drop rfl rfl rfl fun _ _ => ⟨rfl, rfl⟩
  have hframe : Frame s t :=
    (hleave.trans (Frame.applyOps _ _)).trans
      (Frame.of_same rfl rfl rfl rfl fun q hd hget => ⟨hd, hget, rfl, rfl⟩)
  have hsend : ∀ q ∈ t.addpathSend, q ≠ p := by
    intro q hq
    have hq' : q ∈ (s.leave p now).addpathSend := by
      rw [ht, applyOps_eq] at hq
      exact hq
    exact by simpa using (List.mem_filter.mp hq').2
  have hops : s.ribOps (.down p conn now) = s.lossOps p := by simp [ribOps, hconn]
  have hrib : t.rib = (s.ribOps (.down p conn now)).foldl BgpRib.step s.rib := by
    simp [ht, applyFamilyOps, leave, hops]
  have hre : s.reoffered (.down p conn now) = s.affected p := by simp [reoffered, hconn]
  rw [hdown]
  refine h.finish hframe ?_ ?_ (s.sources (.down p conn now)) ?_ ?_ _ ?_
  · exact haddpath ▸ h.distinct.dropPeer p
  · exact haddpath ▸ AddPathState.later_dropPeer _ p
  · exact haddpath ▸ room_of_next hfol.room
  · intro x src hx
    rw [hrib] at hx
    refine mem_sources_of_offer_foldl ?_ hx
    intro src x path hin
    rw [hops, lossOps] at hin
    split_ifs at hin
    · cases hin
    · cases List.mem_singleton.mp hin
  · intro q hq hqs y hy hnot
    have hqsend := hframe.sub q hq
    have hqs' := hframe.held.mem_sessions hqs
    have hsp := hfol.spares q hqsend hqs' id y hy (hre ▸ hnot)
    refine hframe.serves h hq hqs hy ?_ ?_
    · intro src
      rw [hrib]
      exact hsp.eligible src
    · -- none of the paths offered is the lost peer's
      rintro ⟨src, path⟩ he
      rw [haddpath, AddPathState.ids_dropPeer]
      have hne : src.1 ≠ p := by
        intro heq
        have hnone : (s.rib.offer y src).bind (s.eligible q y src) = none := by
          cases hret : s.retained p with
          | true =>
            have hkeep := hfol.retains p conn now rfl hconn hret q hqsend hqs' y hy src.2
            rwa [← heq] at hkeep
          | false =>
            exact hsp.old src ⟨.withdrawPeer p, by simp [hops, lossOps, hret], heq⟩
        rw [mem_offered, hnone] at he
        cases he
      rw [if_neg hne]

theorem foldl_forget_spec (remove : List IpAddr) (s : Central) :
    Frame s (remove.foldl forget s) ∧
      (∀ src : IpAddr × UInt32, src.1 ∉ remove →
        (remove.foldl forget s).addpath.ids[src]? = s.addpath.ids[src]?) ∧
      s.addpath.Later (remove.foldl forget s).addpath ∧
      (s.addpath.Distinct → (remove.foldl forget s).addpath.Distinct) ∧
      (∀ q ∈ (remove.foldl forget s).addpathSend, q ∉ remove) ∧
      ∀ q, q ∈ (remove.foldl forget s).neighbors ↔ q ∈ s.neighbors ∧ q ∉ remove := by
  induction remove generalizing s with
  | nil =>
    exact ⟨Frame.of_same rfl rfl rfl rfl fun q hd hget => ⟨hd, hget, rfl, rfl⟩, fun _ _ => rfl, .refl _, id,
      fun _ _ => List.not_mem_nil, by simp⟩
  | cons p remove ih =>
    have hone : Frame s (s.forget p) := by
      refine Frame.of_drop rfl rfl rfl ?_
      intro q hq
      simp [forget, getElem?_erase, hq]
    obtain ⟨hf, hids, hl, hd, hsend, hnb⟩ := ih (s.forget p)
    refine ⟨hone.trans hf, ?_, (AddPathState.later_dropPeer _ p).trans hl, fun h => hd (h.dropPeer p), ?_, ?_⟩
    · intro src hsrc
      rw [List.mem_cons, not_or] at hsrc
      rw [List.foldl_cons, hids src hsrc.2]
      show (s.addpath.dropPeer p).ids[src]? = _
      rw [AddPathState.ids_dropPeer, if_neg hsrc.1]
    · intro q hq hin
      rcases List.mem_cons.mp hin with rfl | hin'
      · have hmem : q ∈ (s.forget q).addpathSend := hf.sub q hq
        simp [forget] at hmem
      · exact hsend q hq hin'
    · intro q
      rw [List.foldl_cons, hnb]
      simp only [forget, List.mem_filter, List.mem_cons, not_or]
      constructor
      · rintro ⟨⟨hq, hne⟩, hnot⟩
        exact ⟨hq, by simpa using hne, hnot⟩
      · rintro ⟨hq, hne, hnot⟩
        exact ⟨⟨hq, by simpa using hne⟩, hnot⟩

/-- A neighbour that is offered paths is not among those added. -/
theorem Frame.foldl_addNeighbor (add : List NeighborConfig) (s : Central)
    (h : ∀ n ∈ add, n.addr ∉ s.neighbors → n.addr ∈ s.addpathSend → n.addr ∉ s.sessions) :
    Frame s (add.foldl addNeighbor s) := by
  induction add generalizing s with
  | nil => exact Frame.of_same rfl rfl rfl rfl fun q hd hget => ⟨hd, hget, rfl, rfl⟩
  | cons n add ih =>
    have hone : Frame s (s.addNeighbor n) := by
      by_cases hin : n.addr ∈ s.neighbors
      · rw [addNeighbor, if_pos hin]
        exact Frame.of_same rfl rfl rfl rfl fun q hd hget => ⟨hd, hget, rfl, rfl⟩
      · rw [addNeighbor, if_neg hin]
        refine ⟨fun _ hq _ => hq, fun _ hq => hq, fun q hd hget => ⟨hd, hget, rfl, rfl⟩, fun _ _ _ _ => Iff.rfl,
          fun _ hq _ _ hid => ⟨hq, hid⟩, ?_⟩
        intro q hq hqs
        have hne : q ≠ n.addr := by
          rintro rfl
          exact h n (by simp) hin hq hqs
        refine ⟨by simp [getElem?_insert, hne], ?_⟩
        cases n.exportFilter <;> simp [getElem?_insert, hne]
    refine hone.trans (ih (s.addNeighbor n) ?_)
    intro n' hn' hnot hsend hsess
    have hsend' : n'.addr ∈ s.addpathSend := hone.sub _ hsend
    have hsess' := hone.held.mem_sessions hsess
    refine h n' (by simp [hn']) ?_ hsend' hsess'
    intro hin
    refine hnot ?_
    by_cases hnew : n.addr ∈ s.neighbors
    · rwa [addNeighbor, if_pos hnew]
    · rw [addNeighbor, if_neg hnew]
      exact List.mem_insert_of_mem hin

theorem Serving.reconfig (h : s.Serving) {remove : List IpAddr} {add : List NeighborConfig}
    (hfol : s.Followed (.reconfig remove add)) :
    (s.reconfig remove add).Serving ∧ s.addpath.Later (s.reconfig remove add).addpath := by
  obtain ⟨hforget, hids, hl, hd, hsend, hnb⟩ := foldl_forget_spec remove s
  set t := remove.foldl removeNeighbor s with ht
  have hteq : t = ((remove.foldl forget s).applyOps (remove.map .withdrawPeer)).applyFamilyOps
      (remove.map .withdrawPeer) := foldl_removeNeighbor_eq s remove
  have htf : Frame (remove.foldl forget s) t := by
    rw [hteq]
    exact (Frame.applyOps _ _).trans (Frame.of_same rfl rfl rfl rfl fun q hd hget => ⟨hd, hget, rfl, rfl⟩)
  have htaddpath : t.addpath = (remove.foldl forget s).addpath := by
    rw [hteq, applyOps_eq]
    rfl
  have htnb : t.neighbors = (remove.foldl forget s).neighbors := by
    rw [hteq, applyOps_eq]
    rfl
  have hadd : Frame t (add.foldl addNeighbor t) := by
    refine Frame.foldl_addNeighbor add t ?_
    intro n hn hnot hq hqs
    have hq' := htf.sub _ hq
    rw [htnb, hnb] at hnot
    have hremove := hsend _ hq'
    exact hfol.adds remove add rfl n hn hremove (fun hin => hnot ⟨hin, hremove⟩) (hforget.sub _ hq')
      (hforget.held.mem_sessions (htf.held.mem_sessions hqs))
  have hframe : Frame s (s.reconfig remove add) := (hforget.trans htf).trans hadd
  have haddpath : (s.reconfig remove add).addpath = (remove.foldl forget s).addpath := by
    rw [← htaddpath]
    refine List.foldlRecOn (motive := fun u : Central => u.addpath = t.addpath) add _ rfl ?_
    intro u hu n _
    rw [← hu]
    unfold addNeighbor
    split_ifs <;> rfl
  refine h.quiet hframe (haddpath ▸ hd h.distinct) (haddpath ▸ hl) ?_
  intro q hq hqs y hy
  have hqr : q ∉ remove := hsend q (htf.sub q (hadd.sub q hq))
  have hsp := hfol.spares q (hframe.sub q hq) (hframe.held.mem_sessions hqs) hqr y hy List.not_mem_nil
  refine hframe.serves h hq hqs hy ?_ ?_
  · intro src
    have hrib : (s.reconfig remove add).rib = _ := step_rib s (.reconfig remove add)
    rw [hrib]
    exact hsp.eligible src
  · rintro ⟨src, path⟩ he
    rw [haddpath]
    refine hids src ?_
    intro hin
    have hnone := hsp.old src ⟨.withdrawPeer src.1, List.mem_map_of_mem hin, rfl⟩
    rw [mem_offered, hnone] at he
    cases he

theorem addPathHolds_greeting (p : IpAddr) (k : Prefix × UInt32) : addPathHolds (s.greeting p) k = none := by
  have hnil : (s.greeting p).flatMap addPathDeltas = [] :=
    List.flatMap_eq_nil_iff.mpr fun _ => addPathDeltas_greeting
  rw [addPathHolds, hnil, replay_nil]

theorem sessions_register (m : EstablishedMsg) (q : IpAddr) :
    (s.register m).sessions[q]? =
      if q = m.sess.addr then some ⟨m.sess, s.greeting m.sess.addr⟩ else s.sessions[q]? := by
  rw [register, getElem?_insert]

theorem mem_sessions_register {m : EstablishedMsg} {q : IpAddr} :
    q ∈ (s.register m).sessions ↔ q = m.sess.addr ∨ q ∈ s.sessions := by
  rw [Std.ExtTreeMap.mem_iff_isSome_getElem?, sessions_register, Std.ExtTreeMap.mem_iff_isSome_getElem?]
  split_ifs with hq <;> simp [hq]

/-- The other peers do not notice a new session. -/
theorem sameHoldings_register {m : EstablishedMsg} {q : IpAddr} (hq : q ≠ m.sess.addr) (y : Prefix) :
    SameHoldings s (s.register m) q y := by
  intro hd hget
  rw [sessions_register, if_neg hq] at hget
  exact ⟨hd, hget, rfl, fun _ => rfl⟩

/-- What is recorded for a peer when a new session of it is accepted. -/
theorem Serving.recorded (h : s.Serving) {m : EstablishedMsg} (hfol : s.Followed (.established m))
    (hacc : s.refuses m = false) {y : Prefix} (hy : y.isIpv4 = true) {id : UInt32}
    (hid : id ∈ s.advertisedTo m.sess.addr y) :
    m.sess.addr ∈ s.sessions ∧ s.Serves m.sess.addr y := by
  have hsend : m.sess.addr ∈ s.addpathSend := by
    by_contra hnot
    exact h.absent _ hnot y id hid
  have hsess := hfol.clean m rfl hacc hsend
  exact ⟨hsess, h.serves _ hsend hsess y hy⟩

/-- A new ADD-PATH session is entered, before its peer is offered anything. -/
def entered (s : Central) (m : EstablishedMsg) : Central :=
  { s.register m with addpathSend := s.addpathSend.insert m.sess.addr }

theorem mem_entered {m : EstablishedMsg} {q : IpAddr} (hp : q ≠ m.sess.addr)
    (hq : q ∈ (s.entered m).addpathSend) (hqs : q ∈ (s.entered m).sessions) :
    q ∈ s.addpathSend ∧ q ∈ s.sessions :=
  ⟨(List.mem_insert_iff.mp hq).resolve_left hp, (mem_sessions_register.mp hqs).resolve_left hp⟩

theorem holds_entered {m : EstablishedMsg} {hd : SessionHandle}
    (hget : (s.entered m).sessions[m.sess.addr]? = some hd) (k : Prefix × UInt32) : addPathHolds hd.log k = none := by
  have hget' : (s.register m).sessions[m.sess.addr]? = some hd := hget
  rw [sessions_register, if_pos rfl] at hget'
  cases hget'
  exact addPathHolds_greeting _ _

theorem offers_entered {m : EstablishedMsg} {q : IpAddr} (hq : q ∈ s.sessions) (hq' : q ∈ (s.entered m).sessions) :
    (s.entered m).offers q = s.offers q := by
  have hc : s.sessions.contains q = true := by simpa using hq
  have hc' : (s.entered m).sessions.contains q = true := by simpa using hq'
  unfold offers
  rw [hc, hc']
  rfl

theorem Serving.stage_entered (h : s.Serving) {m : EstablishedMsg} (hfol : s.Followed (.established m))
    (hacc : s.refuses m = false) : Stage (s.sources (.established m)) (s.entered m) := by
  refine ⟨h.distinct, room_of_next hfol.room, fun x src hx => mem_sources_of_offer hx, ?_⟩
  intro q hq hqs y hy
  by_cases hp : q = m.sess.addr
  · subst hp
    refine ⟨?_, ?_⟩
    · intro hd hget _ id hid
      exact absurd (holds_entered hget _) hid
    · intro hoff id hid
      obtain ⟨hsess, hserves⟩ := h.recorded hfol hacc hy hid
      rw [offers_entered hsess hqs] at hoff
      exact (hserves.ready hsess).idle hoff id hid
  · obtain ⟨hq', hqs'⟩ := mem_entered hp hq hqs
    refine ((h.serves q hq' hqs' y hy).ready hqs').frame ?_ (fun _ => Iff.rfl) (sameHoldings_register hp y)
    rw [offers_entered hqs' hqs]
    exact id

/-- Networks without a path are up to date from the start. -/
theorem Serving.serves_entered (h : s.Serving) {m : EstablishedMsg} (hfol : s.Followed (.established m))
    (hacc : s.refuses m = false) (hsel : s.rib.Selected) {q : IpAddr} (hq : q ∈ (s.entered m).addpathSend)
    (hqs : q ∈ (s.entered m).sessions) {y : Prefix} (hy : y.isIpv4 = true)
    (hnot : y ∉ s.rib.best.toList.map Prod.fst) : (s.entered m).Serves q y := by
  by_cases hp : q = m.sess.addr
  · subst hp
    have hbest : s.rib.best[y]? = none := by
      by_contra hne
      obtain ⟨path, hpath⟩ := Option.ne_none_iff_exists'.mp hne
      exact hnot (List.mem_map.mpr ⟨(y, path), Std.ExtTreeMap.mem_toList_iff_getElem?_eq_some.mpr hpath, rfl⟩)
    have hnone : s.offered m.sess.addr y = [] := by
      rw [List.eq_nil_iff_forall_not_mem]
      rintro ⟨src, path⟩ he
      rw [mem_offered, hsel.offer_of_best_none hbest src] at he
      cases he
    have hnone' : (s.entered m).offered m.sess.addr y = [] := hnone
    refine ⟨by simp [hnone'], ?_, ?_⟩
    · intro id
      have hnot' : id ∉ (s.entered m).advertisedTo m.sess.addr y := by
        intro hid
        obtain ⟨-, hserves⟩ := h.recorded hfol hacc hy hid
        obtain ⟨e, he, -⟩ := (hserves.out id).mp hid
        rw [hnone] at he
        cases he
      simp [hnone', hnot']
    · intro hd hget _ id path
      simp [hnone', holds_entered hget]
  · obtain ⟨hq', hqs'⟩ := mem_entered hp hq hqs
    exact (h.serves q hq' hqs' y hy).frame (fun _ => Iff.rfl) (fun _ _ => rfl) (fun _ => Iff.rfl)
      (sameHoldings_register hp y)

theorem Serving.register (h : s.Serving) {m : EstablishedMsg} (hfol : s.Followed (.established m))
    (hacc : s.refuses m = false) (hap : m.sess.addPathSend = false) : (s.register m).Serving := by
  have hplain : ∀ hd : SessionHandle, (s.register m).sessions[m.sess.addr]? = some hd →
      hd.sess.addPathSend = false := by
    intro hd hget
    rw [sessions_register, if_pos rfl] at hget
    cases hget
    exact hap
  refine ⟨h.distinct, ?_, h.absent, ?_⟩
  · intro q hd hget hap'
    by_cases hp : q = m.sess.addr
    · subst hp
      rw [hplain hd hget] at hap'
      cases hap'
    · rw [sessions_register, if_neg hp] at hget
      exact h.listed q hd hget hap'
  · intro q hq hqs y hy
    by_cases hp : q = m.sess.addr
    · subst hp
      have hserves := h.serves _ hq (hfol.clean m rfl hacc hq) y hy
      refine ⟨hserves.named, hserves.out, ?_⟩
      intro hd hget hap'
      rw [hplain hd hget] at hap'
      cases hap'
    · have hserves := h.serves q hq ((mem_sessions_register.mp hqs).resolve_left hp) y hy
      exact hserves.frame (fun _ => Iff.rfl) (fun _ _ => rfl) (fun _ => Iff.rfl) (sameHoldings_register hp y)

theorem Serving.established (h : s.Serving) {m : EstablishedMsg} (hfol : s.Followed (.established m))
    (hsel : s.rib.Selected) :
    (s.established m).Serving ∧ s.addpath.Later (s.established m).addpath := by
  cases hacc : s.refuses m with
  | true =>
    have hsame : s.established m = s := by simp [Central.established, hacc]
    rw [hsame]
    exact ⟨h, .refl _⟩
  | false =>
    cases hap : m.sess.addPathSend with
    | false =>
      have hregister : s.established m = s.register m := by simp [Central.established, hacc, hap]
      rw [hregister]
      exact ⟨h.register hfol hacc hap, .refl _⟩
    | true =>
      have hserve : s.established m = (s.rib.best.toList.map Prod.fst).foldl propagateAddPath (s.entered m) := by
        simp [Central.established, hacc, hap, serveAddPath]
        rfl
      obtain ⟨⟨hst, hg, hsend, hsess⟩, hold, hnew⟩ :=
        foldl_propagateAddPath_spec (h.stage_entered hfol hacc) (s.rib.best.toList.map Prod.fst)
      rw [hserve]
      refine ⟨⟨hst.distinct, ?_, ?_, ?_⟩, hg.later⟩
      · intro q hd hget hap'
        have hmap := sess_foldl_propagateAddPath (s.entered m) (s.rib.best.toList.map Prod.fst) q
        rw [hget, Option.map_some] at hmap
        obtain ⟨hd₁, hget₁, hsess₁⟩ := Option.map_eq_some_iff.mp hmap.symm
        rw [hsend, entered, List.mem_insert_iff]
        by_cases hp : q = m.sess.addr
        · exact Or.inl hp
        · have hget₂ : (s.register m).sessions[q]? = some hd₁ := hget₁
          rw [sessions_register, if_neg hp] at hget₂
          exact Or.inr (h.listed q hd₁ hget₂ (by rw [hsess₁, hap']))
      · intro q hq y id hid
        rw [hsend] at hq
        rw [mem_advertisedTo_foldl_propagateAddPath _ hq] at hid
        exact h.absent q (fun hin => hq (List.mem_insert_of_mem hin)) y id hid
      · intro q hq hqs y hy
        rw [hsend] at hq
        rw [hsess] at hqs
        by_cases hin : y ∈ s.rib.best.toList.map Prod.fst
        · exact hnew y hin hy q hq hqs
        · exact hold q y hqs (h.serves_entered hfol hacc hsel hq hqs hy hin)

/-- One event keeps the ADD-PATH peers up to date. -/
theorem Serving.step (h : s.Serving) (hsel : s.rib.Selected) {e : Event} (hfol : s.Followed e) :
    (s.step e).Serving ∧ s.addpath.Later (s.step e).addpath := by
  have hself : Frame s s := Frame.of_same rfl rfl rfl rfl fun q hd hget => ⟨hd, hget, rfl, rfl⟩
  cases e with
  | established m => exact h.established hfol hsel
  | down p conn now => exact h.down hfol
  | refreshRequest p conn =>
    by_cases hconn : s.currentConn[p]? = some conn
    · have hstep : s.step (.refreshRequest p conn) = s.sendTo p s.snapshot := by
        simp [Central.step, Central.refreshRequest, hconn]
      exact h.step_of_same hfol (hstep ▸ Frame.sendTo s p fun _ => addPathDeltas_snapshot) (hstep ▸ rfl) rfl
        fun _ hr => hr
    · have hstep : s.step (.refreshRequest p conn) = s := by
        simp [Central.step, Central.refreshRequest, hconn]
      exact h.step_of_same hfol (hstep.symm ▸ hself) (by rw [hstep]) rfl fun _ hr => hr
  | endOfRib p conn v4 =>
    by_cases hconn : s.currentConn[p]? = some conn
    · have hstep : s.step (.endOfRib p conn v4) =
          ({ s with stale := s.stale.erase p } : Central).applyOps (s.staleOps p) := by
        simp [Central.step, Central.endOfRib, hconn, finalise_eq]
      have hframe : Frame s (({ s with stale := s.stale.erase p } : Central).applyOps (s.staleOps p)) :=
        (Frame.of_same rfl rfl rfl rfl fun q hd hget => ⟨hd, hget, rfl, rfl⟩ :
          Frame s { s with stale := s.stale.erase p }).trans (Frame.applyOps _ _)
      exact h.step_of_same hfol (hstep ▸ hframe) (by rw [hstep, applyOps_eq]; rfl) rfl fun _ hr => hr
    · have hstep : s.step (.endOfRib p conn v4) = s := by simp [Central.step, Central.endOfRib, hconn]
      exact h.step_of_same hfol (hstep.symm ▸ hself) (by rw [hstep]) rfl fun _ hr => hr
  | update conn m => exact h.update hfol
  | restartTimer now =>
    set stale := (s.expired now).foldl (fun m p => m.erase p) s.stale
    have hstep : s.step (.restartTimer now) = ({ s with stale } : Central).applyOps (s.ribOps (.restartTimer now)) :=
      foldl_finalise_eq s _ (expired_nodup s now)
    have hframe : Frame s (({ s with stale } : Central).applyOps (s.ribOps (.restartTimer now))) :=
      (Frame.of_same rfl rfl rfl rfl fun q hd hget => ⟨hd, hget, rfl, rfl⟩ :
        Frame s { s with stale }).trans (Frame.applyOps _ _)
    exact h.step_of_same hfol (hstep ▸ hframe) (by rw [hstep, applyOps_eq]; rfl) rfl fun _ hr => hr
  | teardown p => exact h.step_of_same hfol (Frame.of_erase rfl rfl rfl rfl rfl) rfl rfl fun _ hr => hr
  | redistribute r =>
    cases hred : s.redistributed r with
    | none =>
      have hstep : s.step (.redistribute r) = s := by simp [Central.step, Central.applyRedistribution, hred]
      exact h.step_of_same hfol (hstep.symm ▸ hself) (by rw [hstep]) rfl fun _ hr => hr
    | some originated =>
      set next := effectiveOrigination originated s.aggregates
      have hstep : s.step (.redistribute r) =
          ({ s with originated, advertised := next } : Central).fanout (s.originationCmds next) := by
        simp [Central.step, Central.applyRedistribution, hred, next]
      have hframe : Frame s (({ s with originated, advertised := next } : Central).fanout
          (s.originationCmds next)) :=
        (Frame.of_same rfl rfl rfl rfl fun q hd hget => ⟨hd, hget, rfl, rfl⟩ :
          Frame s { s with originated, advertised := next }).trans
          (Frame.fanout _ fun _ => addPathDeltas_originationCmds)
      exact h.step_of_same hfol (hstep ▸ hframe) (hstep ▸ rfl) rfl fun _ hr => hr
  | rtrFeed feed =>
    have hframe : Frame s (s.rtrFeed feed) :=
      (Frame.of_same rfl rfl rfl rfl fun q hd hget => ⟨hd, hget, rfl, rfl⟩ :
        Frame s { s with roa := ⟨s.staticRoas ++ feed⟩ }).trans (Frame.applyOps _ _)
    refine h.step_of_same hfol hframe ?_ rfl fun _ hr => hr
    show (s.rtrFeed feed).addpath = s.addpath
    rw [rtrFeed, applyOps_eq]
    rfl
  | bfdDown p =>
    exact h.step_of_same hfol (Frame.sendTo s p (by simp [addPathDeltas])) rfl rfl fun _ hr => hr
  | refresh p =>
    exact h.step_of_same hfol (Frame.sendTo s p (by simp [addPathDeltas])) rfl rfl fun _ hr => hr
  | reconfig remove add => exact h.reconfig hfol

end Events

theorem serving_start (c : BgpConfig) : (start c).Serving := by
  have hbase : ∀ t : Central, t.addpath = ⟨∅, 0, ∅⟩ → t.sessions = ∅ → t.addpathSend = [] → t.Serving := by
    intro t haddpath hsess hsend
    refine ⟨⟨?_, ?_⟩, ?_, ?_, ?_⟩
    · intro src id hid
      simp [haddpath] at hid
    · intro src src' id hid
      simp [haddpath] at hid
    · intro q hd hget
      simp [hsess] at hget
    · intro q _ y id hid
      simp [advertisedTo, haddpath] at hid
    · intro q hq
      simp [hsend] at hq
  refine List.foldlRecOn (motive := fun t : Central => t.Serving ∧ t.addpathSend = [])
    c.neighbors _ ⟨hbase _ rfl rfl rfl, rfl⟩ (fun t ⟨ht, hsend⟩ n _ => ?_) |>.1
  have hframe : Frame t (t.addNeighbor n) :=
    Frame.foldl_addNeighbor [n] t fun n' _ _ hin => by simp [hsend] at hin
  have hsend' : (t.addNeighbor n).addpathSend = [] := by
    rw [List.eq_nil_iff_forall_not_mem]
    intro q hq
    have hin := hframe.sub q hq
    simp [hsend] at hin
  have haddpath : (t.addNeighbor n).addpath = t.addpath := by
    unfold addNeighbor
    split_ifs <;> rfl
  refine ⟨(ht.quiet hframe (haddpath ▸ ht.distinct) (haddpath ▸ .refl _) ?_).1, hsend'⟩
  intro q hq
  simp [hsend'] at hq

theorem serving_run {s : Central} (h : s.Serving) (hsel : s.rib.Selected) {es : List Event}
    (hes : Run.Every step Followed s es) :
    (es.foldl step s).Serving ∧ (es.foldl step s).rib.Selected ∧ s.addpath.Later (es.foldl step s).addpath := by
  refine hes.invariant (fun t => t.Serving ∧ t.rib.Selected ∧ s.addpath.Later t.addpath)
    ⟨h, hsel, .refl _⟩ ?_
  rintro t e ⟨ht, htsel, hlater⟩ hfol
  obtain ⟨ht', hlater'⟩ := ht.step htsel hfol
  exact ⟨ht', selected_step htsel e, hlater.trans hlater'⟩

/-- In every run whose events all leave the ADD-PATH peers up to date, each of them holds exactly the
paths it is to be offered, under their identifiers, and no identifier is ever given to two sources. -/
theorem addPath_agreement (c : BgpConfig) (es : List Event) (hes : Run.Every step Followed (start c) es) :
    (∀ (q : IpAddr) (hd : SessionHandle), (run c es).sessions[q]? = some hd → hd.sess.addPathSend = true →
      ∀ x, x.isIpv4 = true →
        (∀ e ∈ (run c es).offered q x, (run c es).addpath.ids[e.1]? ≠ none) ∧
        (∀ id, id ∈ (run c es).advertisedTo q x ↔
          ∃ e ∈ (run c es).offered q x, (run c es).addpath.ids[e.1]? = some id) ∧
        ∀ id path, addPathHolds hd.log (x, id) = some path ↔
          ∃ src, (src, path) ∈ (run c es).offered q x ∧ (run c es).addpath.ids[src]? = some id) ∧
    ∀ fs, fs <+: es → ∀ (src src' : IpAddr × UInt32) (id : UInt32), (run c fs).addpath.ids[src]? = some id →
      (run c es).addpath.ids[src']? = some id → src = src' := by
  have hsel : (start c).rib.Selected := by
    rw [start_rib]
    exact BgpRib.selected_withMaxPaths _
  have hall := (serving_run (serving_start c) hsel hes).1
  refine ⟨?_, ?_⟩
  · intro q hd hget hap x hx
    have hq : q ∈ (run c es).sessions := by
      rw [Std.ExtTreeMap.mem_iff_isSome_getElem?, hget]
      rfl
    have hserves := hall.serves q (hall.listed q hd hget hap) hq x hx
    exact ⟨hserves.named, hserves.out, hserves.held hd hget hap⟩
  · rintro fs ⟨gs, rfl⟩ src src' id hsrc hsrc'
    obtain ⟨hfs, hgs⟩ := Run.every_append.mp hes
    obtain ⟨hserving, hsel', -⟩ := serving_run (serving_start c) hsel hfs
    have hlater := (serving_run hserving hsel' hgs).2.2
    rw [run, List.foldl_append] at hsrc'
    rcases hlater.above src' id hsrc' with hold | hlt
    · exact hserving.distinct.injective src src' id hsrc hold
    · have hle := hserving.distinct.bounded src id hsrc
      omega

/-- The network an operation is about, if it is about one. -/
def opNetwork : BgpRib.Op → Option Prefix
  | .update _ _ x _ | .withdraw _ _ x => some x
  | .withdrawPeer _ => none

theorem spares_of_networks {s : Central} {ops : List BgpRib.Op} {x : Prefix}
    (h : ∀ op ∈ ops, ∃ y, opNetwork op = some y ∧ y ≠ x) (q : IpAddr) : s.Spares ops q x := by
  have hnot : ∀ src, ¬ ∃ op ∈ ops, opNames op x src := by
    rintro src ⟨op, hop, hnames⟩
    obtain ⟨y, hy, hne⟩ := h op hop
    cases op with
    | update p i z path =>
      cases hy
      exact hne hnames.1.symm
    | withdraw p i z =>
      cases hy
      exact hne hnames.1.symm
    | withdrawPeer p => cases hy
  refine ⟨fun src hex => absurd hex (hnot src), ?_⟩
  intro src path hin
  exact absurd ⟨_, hin, rfl, rfl⟩ (hnot src)

/-- A session that no one else is offered paths beside. -/
theorem followed_established {s : Central} (m : EstablishedMsg) (hsend : s.addpathSend = [])
    (hroom : s.addpath.next.toNat + (s.sources (.established m)).length < 2 ^ 32) :
    s.Followed (.established m) where
  spares q hq := by simp [hsend] at hq
  retains _ _ _ he := by cases he
  clean m' _ _ hin := by simp [hsend] at hin
  adds _ _ he := by cases he
  room := hroom

end Central

/-- A session that is offered every path comes up. -/
def Sample.establishedAddPath (o : UInt8) (conn : UInt64) : Event :=
  .established ⟨conn, o.toBitVec.setWidth 32, true, none, session o true⟩

namespace Central

/-- `192.0.2.3` is offered the path of `192.0.2.1`. -/
theorem addPath_agreement_first_path :
    let es : List Event := [Sample.established 1 1, Sample.establishedAddPath 3 3,
      Sample.update 1 1 (Sample.announceTen [65001] [])]
    ∃ hd, (run Sample.config es).sessions[Sample.addr 3]? = some hd ∧ hd.sess.addPathSend = true ∧
      ∃ path, addPathHolds hd.log (Sample.net10, 1) = some path ∧
        ∃ src, (src, path) ∈ (run Sample.config es).offered (Sample.addr 3) Sample.net10 := by
  intro es
  let s := run Sample.config [Sample.established 1 1, Sample.establishedAddPath 3 3]
  have hupdate : s.Followed (Sample.update 1 1 (Sample.announceTen [65001] [])) := by
    have hnets : (s.ribOps (Sample.update 1 1 (Sample.announceTen [65001] []))).map opNetwork =
        [some Sample.net10] := by decide +kernel
    have hre : s.reoffered (Sample.update 1 1 (Sample.announceTen [65001] [])) = [Sample.net10] := by
      decide +kernel
    refine ⟨?_, (fun _ _ _ he => by cases he), (fun _ he => by cases he), (fun _ _ he => by cases he),
      by decide +kernel⟩
    intro q _ _ _ x _ hnot
    rw [hre, List.mem_singleton] at hnot
    refine spares_of_networks ?_ q
    intro op hop
    have hmem : opNetwork op ∈ [some Sample.net10] := hnets ▸ List.mem_map_of_mem hop
    exact ⟨_, List.mem_singleton.mp hmem, fun heq => hnot heq.symm⟩
  have hes : Run.Every step Followed (start Sample.config) es :=
    ⟨followed_established _ (by decide +kernel) (by decide +kernel),
      followed_established _ (by decide +kernel) (by decide +kernel), hupdate, trivial⟩
  have hrun : ((run Sample.config es).sessions[Sample.addr 3]?).any (fun hd =>
      hd.sess.addPathSend && (addPathHolds hd.log (Sample.net10, 1)).isSome) = true := by decide +kernel
  obtain ⟨hd, hget, hok⟩ := (Option.any_eq_true _ _).mp hrun
  rw [Bool.and_eq_true] at hok
  obtain ⟨path, hpath⟩ := Option.isSome_iff_exists.mp hok.2
  have hagr := ((addPath_agreement Sample.config es hes).1 _ hd hget hok.1 Sample.net10 (by decide)).2.2
  obtain ⟨src, hsrc, -⟩ := (hagr 1 path).mp hpath
  exact ⟨hd, hget, hok.1, path, hpath, src, hsrc⟩

/-- `192.0.2.1` is removed, and `192.0.2.3` keeps its path. -/
theorem not_forall_addPath_agreement :
    ¬ ∀ (c : BgpConfig) (es : List Event), Interleaved es → ∀ (q : IpAddr) (hd : SessionHandle),
      (run c es).sessions[q]? = some hd → hd.sess.addPathSend = true → .teardown q ∉ es →
      ∀ x, x.isIpv4 = true →
        (∀ id, id ∈ (run c es).advertisedTo q x ↔
          ∃ e ∈ (run c es).offered q x, (run c es).addpath.ids[e.1]? = some id) ∧
        ∀ id path, addPathHolds hd.log (x, id) = some path ↔
          ∃ src, (src, path) ∈ (run c es).offered q x ∧ (run c es).addpath.ids[src]? = some id := by
  intro hall
  let es : List Event := [Sample.established 1 1, Sample.establishedAddPath 3 3,
    Sample.update 1 1 (Sample.announceTen [65001] []), .reconfig [Sample.addr 1] []]
  have hrun : ((run Sample.config es).sessions[Sample.addr 3]?).any (fun hd =>
      hd.sess.addPathSend && (addPathHolds hd.log (Sample.net10, 1)).isSome) = true := by decide +kernel
  have hnone : ((run Sample.config es).offered (Sample.addr 3) Sample.net10).isEmpty = true := by decide +kernel
  obtain ⟨hd, hget, hok⟩ := (Option.any_eq_true _ _).mp hrun
  rw [Bool.and_eq_true] at hok
  obtain ⟨path, hpath⟩ := Option.isSome_iff_exists.mp hok.2
  have hagr := (hall Sample.config es (by decide +kernel) _ hd hget hok.1
    (by simp [es, Sample.established, Sample.establishedAddPath, Sample.update]) Sample.net10 (by decide)).2
  obtain ⟨src, hsrc, -⟩ := (hagr 1 path).mp hpath
  rw [List.isEmpty_iff.mp hnone] at hsrc
  cases hsrc

end Central
end Wren.Daemon.Bgp
