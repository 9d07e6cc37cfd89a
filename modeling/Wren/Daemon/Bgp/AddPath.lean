import Wren.Daemon.Bgp.PathIds
import Wren.Daemon.Bgp.PeerView

/-! The Adj-RIB-Out of the sessions that send several paths for a network. They ignore the ordinary
fan-out, so every handler that changes the paths of a network has to offer it to them again. -/

namespace Wren.Daemon.Bgp
open Wren.Core Wren.Bgp OrdMap Replica

/-- What a command changes of the paths a peer holds under their identifiers. -/
def addPathDeltas : SessionCmd → List (Delta (Prefix × UInt32) Path)
  | .advertiseAddPath routes => routes.map fun r => ⟨(r.pfx, r.pathId), some r.path⟩
  | .withdrawAddPath pfx ids => ids.map fun id => ⟨(pfx, id), none⟩
  | _ => []

/-- The paths a peer holds under their identifiers after the commands. -/
def addPathHolds (log : List SessionCmd) : Prefix × UInt32 → Option Path :=
  replay (fun _ => none) (log.flatMap addPathDeltas)

theorem addPathHolds_append (log cs : List SessionCmd) :
    addPathHolds (log ++ cs) = replay (addPathHolds log) (cs.flatMap addPathDeltas) := by
  rw [addPathHolds, List.flatMap_append, replay_append]
  rfl

/-- Commands that say nothing about single paths. -/
theorem addPathHolds_append_of_plain {cs : List SessionCmd} (h : ∀ c ∈ cs, addPathDeltas c = [])
    (log : List SessionCmd) : addPathHolds (log ++ cs) = addPathHolds log := by
  have hnil : cs.flatMap addPathDeltas = [] := List.flatMap_eq_nil_iff.mpr h
  rw [addPathHolds_append, hnil, replay_nil]

namespace Central

/-- What a source path becomes on its way to a peer, if it is eligible for that. -/
def eligible (s : Central) (peer : IpAddr) (pfx : Prefix) (src : IpAddr × UInt32) (path : Path) : Option Path :=
  (s.peers[peer]?).bind fun pp =>
    if rfc8212Deny pp.requirePolicy (pp.peerType == .ebgp) (s.exports[peer]?).isSome then none
    else if src.1 = peer ∨ shouldPropagate path pp.peerType pp.rrClient peer = false then none
    else filterPath s.exports[peer]? pfx path

theorem mem_offered {s : Central} {peer : IpAddr} {pfx : Prefix} {src : IpAddr × UInt32} {path : Path} :
    (src, path) ∈ s.offered peer pfx ↔ (s.rib.offer pfx src).bind (s.eligible peer pfx src) = some path := by
  have hpaths : ∀ raw, (src, raw) ∈ s.rib.paths pfx ↔ s.rib.offer pfx src = some raw := by
    intro raw
    unfold BgpRib.paths BgpRib.offer
    cases s.rib.entries[pfx]? with
    | none => simp
    | some peers => simp [Std.ExtTreeMap.mem_toList_iff_getElem?_eq_some]
  unfold offered eligible
  cases hpp : s.peers[peer]? with
  | none => simp
  | some pp =>
    simp only [Option.bind_some]
    split_ifs with hdeny
    · simp
    · simp only [List.mem_filterMap, Option.bind_eq_some_iff]
      constructor
      · rintro ⟨⟨src', raw⟩, hin, hout⟩
        dsimp only at hout
        split_ifs at hout with hno
        obtain ⟨q, hq, heq⟩ := Option.map_eq_some_iff.mp hout
        cases heq
        exact ⟨raw, (hpaths raw).mp hin, by rw [if_neg hno]; exact hq⟩
      · rintro ⟨raw, hin, hout⟩
        split_ifs at hout with hno
        refine ⟨(src, raw), (hpaths raw).mpr hin, ?_⟩
        rw [if_neg hno, hout, Option.map_some]

theorem nodup_offered (s : Central) (peer : IpAddr) (pfx : Prefix) :
    ((s.offered peer pfx).map Prod.fst).Nodup := by
  have hpaths : ((s.rib.paths pfx).map Prod.fst).Nodup := by
    unfold BgpRib.paths
    cases s.rib.entries[pfx]? with
    | none => exact List.nodup_nil
    | some peers => exact nodup_keys_toList peers
  unfold offered
  cases hpp : s.peers[peer]? with
  | none => exact List.nodup_nil
  | some pp =>
    simp only
    split_ifs
    · exact List.nodup_nil
    · rw [List.Nodup, List.pairwise_map] at hpaths ⊢
      refine hpaths.filterMap _ ?_
      intro e e' hne b hb b' hb'
      have hkey : ∀ {e b : (IpAddr × UInt32) × Path}, (if e.1.1 = peer ∨
          shouldPropagate e.2 pp.peerType pp.rrClient peer = false then none
          else (filterPath s.exports[peer]? pfx e.2).map fun p => (e.1, p)) = some b → b.1 = e.1 := by
        intro e b hb
        split_ifs at hb
        obtain ⟨q, -, rfl⟩ := Option.map_eq_some_iff.mp hb
        rfl
      rw [hkey hb, hkey hb']
      exact hne

/-- The identifiers recorded as advertised to a peer for a network. -/
def advertisedTo (s : Central) (p : IpAddr) (x : Prefix) : BTreeSet UInt32 := s.addpath.out[(p, x)]?.getD ∅

/-- The peer holds a path exactly if it is offered it, under the identifier of the source, and the
identifiers are recorded. -/
structure Serves (s : Central) (p : IpAddr) (x : Prefix) : Prop where
  named : ∀ e ∈ s.offered p x, s.addpath.ids[e.1]? ≠ none
  out : ∀ id, id ∈ s.advertisedTo p x ↔ ∃ e ∈ s.offered p x, s.addpath.ids[e.1]? = some id
  held : ∀ h : SessionHandle, s.sessions[p]? = some h → h.sess.addPathSend = true → ∀ id path,
    addPathHolds h.log (x, id) = some path ↔
      ∃ src, (src, path) ∈ s.offered p x ∧ s.addpath.ids[src]? = some id

/-- Enough is recorded to bring the peer up to date: all that it holds, and nothing if nothing is
ever computed for it. -/
structure Ready (s : Central) (p : IpAddr) (x : Prefix) : Prop where
  covers : ∀ h : SessionHandle, s.sessions[p]? = some h → h.sess.addPathSend = true → ∀ id,
    addPathHolds h.log (x, id) ≠ none → id ∈ s.advertisedTo p x
  idle : s.offers p = false → ∀ id, id ∉ s.advertisedTo p x

theorem offered_of_not_offers {s : Central} {p : IpAddr} (hp : p ∈ s.sessions) (h : s.offers p = false)
    (x : Prefix) : s.offered p x = [] := by
  have hc : s.sessions.contains p = true := by simpa using hp
  unfold offers at h
  rw [hc, Bool.true_and] at h
  unfold offered
  cases hpp : s.peers[p]? with
  | none => rfl
  | some pp =>
    rw [hpp, Option.any_some] at h
    simp only
    rw [if_pos (by simpa using h)]

theorem Serves.ready {s : Central} {p : IpAddr} {x : Prefix} (h : s.Serves p x) (hp : p ∈ s.sessions) :
    s.Ready p x where
  covers hd hget hap id hid := by
    obtain ⟨path, hpath⟩ := Option.ne_none_iff_exists'.mp hid
    obtain ⟨src, hin, hsrc⟩ := (h.held hd hget hap id path).mp hpath
    exact (h.out id).mpr ⟨_, hin, hsrc⟩
  idle hoff id hid := by
    obtain ⟨e, hin, -⟩ := (h.out id).mp hid
    rw [offered_of_not_offers hp hoff] at hin
    cases hin

/-- The commands about the paths of one network leave the others alone and are followed exactly. -/
theorem replay_offers (m : Prefix × UInt32 → Option Path) (x : Prefix) (gone : List UInt32)
    (desired : BTreeMap UInt32 Path) (k : Prefix × UInt32) :
    replay m ((gone.map fun id => ⟨(x, id), none⟩) ++
        desired.toList.map fun e => ⟨(x, e.1), some e.2⟩) k =
      if k.1 = x then (desired[k.2]? <|> if k.2 ∈ gone then none else m k) else m k := by
  have hgone : ∀ k, replay m (gone.map fun id => ⟨(x, id), none⟩) k =
      if k.1 = x ∧ k.2 ∈ gone then none else m k := by
    intro k
    have hclear := replay_clear m (gone.map fun id => (x, id)) k
    rw [List.map_map] at hclear
    rw [show (gone.map fun id => (⟨(x, id), none⟩ : Delta (Prefix × UInt32) Path)) =
      gone.map ((fun a => ⟨a, none⟩) ∘ fun id => (x, id)) from rfl, hclear]
    congr 1
    obtain ⟨y, id⟩ := k
    simp [eq_comm, and_comm]
  have hkeys : ((desired.toList.map fun e => (⟨(x, e.1), some e.2⟩ : Delta (Prefix × UInt32) Path)).map
      Delta.key) = (desired.toList.map Prod.fst).map fun id => (x, id) := by
    rw [List.map_map, List.map_map]
    rfl
  have hnodup : ((desired.toList.map fun e => (⟨(x, e.1), some e.2⟩ : Delta (Prefix × UInt32) Path)).map
      Delta.key).Nodup := by
    rw [hkeys]
    exact (nodup_keys_toList desired).map fun _ _ h => (Prod.mk.inj h).2
  rw [replay_append]
  obtain ⟨y, id⟩ := k
  by_cases hy : y = x
  · subst hy
    simp only [if_true]
    cases hid : desired[id]? with
    | some path =>
      have hmem : (⟨(y, id), some path⟩ : Delta (Prefix × UInt32) Path) ∈
          desired.toList.map fun e => ⟨(y, e.1), some e.2⟩ :=
        List.mem_map.mpr ⟨(id, path), Std.ExtTreeMap.mem_toList_iff_getElem?_eq_some.mpr hid, rfl⟩
      exact replay_of_mem _ hnodup hmem
    | none =>
      rw [replay_of_notMem, hgone]
      · simp
      · rw [hkeys]
        intro hin
        obtain ⟨id', hin', heq⟩ := List.mem_map.mp hin
        obtain ⟨e, he, rfl⟩ := List.mem_map.mp hin'
        have hget := Std.ExtTreeMap.mem_toList_iff_getElem?_eq_some.mp he
        rw [(Prod.mk.inj heq).2, hid] at hget
        cases hget
  · rw [replay_of_notMem, hgone]
    · simp [hy]
    · rw [hkeys]
      intro hin
      obtain ⟨id', -, heq⟩ := List.mem_map.mp hin
      exact hy (Prod.mk.inj heq).1.symm

@[simp] theorem offered_propagateAddPathTo (x : Prefix) (s : Central) (p q : IpAddr) (y : Prefix) :
    (propagateAddPathTo x s p).offered q y = s.offered q y :=
  eq_of_core (fun s => s.offered q y) (fun _ => rfl) (core_propagateAddPathTo x s p)

@[simp] theorem addpathSend_propagateAddPathTo (x : Prefix) (s : Central) (p : IpAddr) :
    (propagateAddPathTo x s p).addpathSend = s.addpathSend :=
  eq_of_core addpathSend (fun _ => rfl) (core_propagateAddPathTo x s p)

@[simp] theorem rib_propagateAddPathTo (x : Prefix) (s : Central) (p : IpAddr) :
    (propagateAddPathTo x s p).rib = s.rib :=
  eq_of_core rib (fun _ => rfl) (core_propagateAddPathTo x s p)

/-- The identifiers recorded for a network after its paths were offered. -/
theorem mem_recorded (advertised : BTreeSet UInt32) (desired : BTreeMap UInt32 Path) (id : UInt32) :
    id ∈ desired.toList.foldl (fun ids e => ids.insert e.1) (advertised.filter fun id => id ∈ desired) ↔
      id ∈ desired := by
  have hfold : ∀ (l : List (UInt32 × Path)) (ids : BTreeSet UInt32),
      id ∈ l.foldl (fun ids e => ids.insert e.1) ids ↔ id ∈ ids ∨ ∃ e ∈ l, e.1 = id := by
    intro l
    induction l with
    | nil => simp
    | cons e l ih =>
      intro ids
      rw [List.foldl_cons, ih]
      simp only [Std.ExtTreeSet.mem_insert, List.exists_mem_cons_iff, Std.LawfulEqCmp.compare_eq_iff_eq]
      tauto
  have hkey : (∃ e ∈ desired.toList, e.1 = id) ↔ id ∈ desired := by
    rw [Std.ExtTreeMap.mem_iff_isSome_getElem?, Option.isSome_iff_exists]
    constructor
    · rintro ⟨e, he, rfl⟩
      exact ⟨e.2, Std.ExtTreeMap.mem_toList_iff_getElem?_eq_some.mp he⟩
    · rintro ⟨path, hpath⟩
      exact ⟨(id, path), Std.ExtTreeMap.mem_toList_iff_getElem?_eq_some.mpr hpath, rfl⟩
  rw [hfold, hkey]
  simp

section Offer
variable {s : Central} {p : IpAddr} {x : Prefix}

theorem propagateAddPathTo_of_not_offers (h : s.offers p = false) : propagateAddPathTo x s p = s := by
  simp [propagateAddPathTo, h]

theorem ids_propagateAddPathTo (h : s.offers p = true) :
    (propagateAddPathTo x s p).addpath.ids = (s.addpath.assign (s.offered p x)).2.ids ∧
      (propagateAddPathTo x s p).addpath.next = (s.addpath.assign (s.offered p x)).2.next := by
  simp [propagateAddPathTo, h, sendTo]

theorem mem_advertisedTo_propagateAddPathTo (h : s.offers p = true) (q : IpAddr) (y : Prefix) (id : UInt32) :
    id ∈ (propagateAddPathTo x s p).advertisedTo q y ↔
      if q = p ∧ y = x then id ∈ (s.addpath.assign (s.offered p x)).1 else id ∈ s.advertisedTo q y := by
  have hrec := mem_recorded (s.advertisedTo p x) (s.addpath.assign (s.offered p x)).1 id
  unfold advertisedTo propagateAddPathTo
  simp only [h, if_true, sendTo, AddPathState.assign_out]
  have hrec' := hrec
  unfold advertisedTo at hrec'
  generalize (s.addpath.assign (s.offered p x)).1.toList.foldl (fun ids e => ids.insert e.1)
    ((s.addpath.out[(p, x)]?.getD ∅).filter fun id => id ∈ (s.addpath.assign (s.offered p x)).1) = recorded at hrec' ⊢
  by_cases hqy : q = p ∧ y = x
  · obtain ⟨rfl, rfl⟩ := hqy
    simp only [and_self, if_true]
    rw [← hrec']
    cases hempty : recorded.isEmpty with
    | true =>
      have hnone : id ∉ recorded := by
        rw [Std.ExtTreeSet.isEmpty_iff.mp hempty]
        exact Std.ExtTreeSet.not_mem_empty
      simp [hnone]
    | false => simp
  · have hne : (q, y) ≠ (p, x) := fun heq => hqy (Prod.mk.inj heq)
    rw [if_neg hqy]
    cases recorded.isEmpty with
    | true => simp [getElem?_erase, hne]
    | false => simp [getElem?_insert, hne]

theorem holds_propagateAddPathTo (h : s.offers p = true) {hd : SessionHandle}
    (hget : (propagateAddPathTo x s p).sessions[p]? = some hd) :
    ∃ hd₀, s.sessions[p]? = some hd₀ ∧ hd₀.sess = hd.sess ∧ ∀ k, addPathHolds hd.log k =
      if k.1 = x then ((s.addpath.assign (s.offered p x)).1[k.2]? <|>
        if k.2 ∈ s.advertisedTo p x then none else addPathHolds hd₀.log k)
      else addPathHolds hd₀.log k := by
  set desired := (s.addpath.assign (s.offered p x)).1 with hdes
  set gone := (s.advertisedTo p x).toList.filter fun id => id ∉ desired with hgone
  have hsess : (propagateAddPathTo x s p).sessions[p]? = (s.sessions[p]?).map fun hd => hd.push
      ((if gone = [] then [] else [.withdrawAddPath x gone]) ++
        if (desired.toList.map fun e => AddPathRoute.mk x e.1 e.2) = [] then []
        else [.advertiseAddPath (desired.toList.map fun e => ⟨x, e.1, e.2⟩)]) := by
    unfold propagateAddPathTo
    simp only [h, if_true, sendTo, getElem?_modify, AddPathState.assign_out]
    rfl
  rw [hsess] at hget
  obtain ⟨hd₀, hget₀, rfl⟩ := Option.map_eq_some_iff.mp hget
  refine ⟨hd₀, hget₀, rfl, ?_⟩
  intro k
  have hcmds : ((if gone = [] then [] else [SessionCmd.withdrawAddPath x gone]) ++
      if (desired.toList.map fun e => AddPathRoute.mk x e.1 e.2) = [] then []
      else [SessionCmd.advertiseAddPath (desired.toList.map fun e => ⟨x, e.1, e.2⟩)]).flatMap addPathDeltas =
      (gone.map fun id => ⟨(x, id), none⟩) ++ desired.toList.map fun e => ⟨(x, e.1), some e.2⟩ := by
    rw [List.flatMap_append]
    congr 1
    · split_ifs with hnil
      · simp [hnil]
      · simp [addPathDeltas]
    · split_ifs with hnil
      · rw [List.map_eq_nil_iff.mp hnil]
        rfl
      · simp [addPathDeltas]
  rw [SessionHandle.push, addPathHolds_append, hcmds, replay_offers]
  by_cases hk : k.1 = x
  · rw [if_pos hk, if_pos hk]
    cases hid : desired[k.2]? with
    | some path => rfl
    | none =>
      have hmem : k.2 ∈ gone ↔ k.2 ∈ s.advertisedTo p x := by
        rw [hgone, List.mem_filter, Std.ExtTreeSet.mem_toList]
        simp [Std.ExtTreeMap.mem_iff_isSome_getElem?, hid]
      simp only [hmem]
  · rw [if_neg hk, if_neg hk]

end Offer

/-- The sessions that a peer has in one state it had in the other, and it holds the same of a network. -/
def SameHoldings (s t : Central) (q : IpAddr) (y : Prefix) : Prop :=
  ∀ hd' : SessionHandle, t.sessions[q]? = some hd' → ∃ hd : SessionHandle, s.sessions[q]? = some hd ∧
    hd.sess = hd'.sess ∧ ∀ id, addPathHolds hd'.log (y, id) = addPathHolds hd.log (y, id)

theorem Serves.frame {s t : Central} {q : IpAddr} {y : Prefix} (h : s.Serves q y)
    (hoff : ∀ e, e ∈ t.offered q y ↔ e ∈ s.offered q y)
    (hids : ∀ e ∈ s.offered q y, t.addpath.ids[e.1]? = s.addpath.ids[e.1]?)
    (hout : ∀ id, id ∈ t.advertisedTo q y ↔ id ∈ s.advertisedTo q y) (hheld : SameHoldings s t q y) :
    t.Serves q y := by
  refine ⟨?_, ?_, ?_⟩
  · intro e he
    rw [hids e ((hoff e).mp he)]
    exact h.named e ((hoff e).mp he)
  · intro id
    rw [hout, h.out]
    constructor
    · rintro ⟨e, he, hid⟩
      exact ⟨e, (hoff e).mpr he, by rw [hids e he, hid]⟩
    · rintro ⟨e, he, hid⟩
      have he' := (hoff e).mp he
      exact ⟨e, he', by rw [← hids e he', hid]⟩
  · intro hd' hget' hap id path
    obtain ⟨hd, hget, hsess, hsame⟩ := hheld hd' hget'
    rw [hsame, h.held hd hget (hsess ▸ hap)]
    constructor
    · rintro ⟨src, he, hid⟩
      exact ⟨src, (hoff _).mpr he, by rw [hids _ he, hid]⟩
    · rintro ⟨src, he, hid⟩
      have he' := (hoff _).mp he
      exact ⟨src, he', by rw [← hids _ he', hid]⟩

theorem Ready.frame {s t : Central} {q : IpAddr} {y : Prefix} (h : s.Ready q y)
    (hoffers : t.offers q = false → s.offers q = false)
    (hout : ∀ id, id ∈ t.advertisedTo q y ↔ id ∈ s.advertisedTo q y) (hheld : SameHoldings s t q y) :
    t.Ready q y := by
  refine ⟨?_, ?_⟩
  · intro hd' hget' hap id hid
    obtain ⟨hd, hget, hsess, hsame⟩ := hheld hd' hget'
    rw [hsame] at hid
    exact (hout id).mpr (h.covers hd hget (hsess ▸ hap) id hid)
  · intro hoff id hid
    exact h.idle (hoffers hoff) id ((hout id).mp hid)

/-- Everything is ready for the networks to be offered, one after the other. -/
structure Stage (sources : List (IpAddr × UInt32)) (s : Central) : Prop where
  distinct : s.addpath.Distinct
  room : s.addpath.Room sources
  known : ∀ x src, s.rib.offer x src ≠ none → src ∈ sources
  ready : ∀ q ∈ s.addpathSend, q ∈ s.sessions → ∀ y, y.isIpv4 = true → s.Ready q y

theorem sources_of_offered {s : Central} {sources : List (IpAddr × UInt32)}
    (hknown : ∀ x src, s.rib.offer x src ≠ none → src ∈ sources) (p : IpAddr) (x : Prefix) :
    ∀ e ∈ s.offered p x, e.1 ∈ sources := by
  rintro ⟨src, path⟩ he
  obtain ⟨raw, hraw, -⟩ := Option.bind_eq_some_iff.mp (mem_offered.mp he)
  exact hknown x src (by simp [hraw])

theorem mem_sessions_propagateAddPathTo {x : Prefix} {s : Central} {p q : IpAddr} :
    q ∈ (propagateAddPathTo x s p).sessions ↔ q ∈ s.sessions := by
  have hsess : ((propagateAddPathTo x s p).sessions[q]?).map SessionHandle.sess =
      (s.sessions[q]?).map SessionHandle.sess := by
    unfold propagateAddPathTo
    split_ifs
    · exact sess_sendTo _ p _ q
    · rfl
  rw [Std.ExtTreeMap.mem_iff_isSome_getElem?, Std.ExtTreeMap.mem_iff_isSome_getElem?,
    ← Option.isSome_map (f := SessionHandle.sess), hsess, Option.isSome_map]

section Fold
variable {s : Central} {p : IpAddr} {x : Prefix} {sources : List (IpAddr × UInt32)}

theorem grows_propagateAddPathTo (h : Stage sources s) :
    (propagateAddPathTo x s p).addpath.Distinct ∧ (propagateAddPathTo x s p).addpath.Room sources ∧
      s.addpath.Grows (propagateAddPathTo x s p).addpath := by
  cases hoff : s.offers p with
  | false =>
    rw [propagateAddPathTo_of_not_offers hoff]
    exact ⟨h.distinct, h.room, .refl _⟩
  | true =>
    obtain ⟨hids, hnext⟩ := ids_propagateAddPathTo (x := x) hoff
    obtain ⟨hd, hr, hg, -, -⟩ := AddPathState.assign_spec h.distinct h.room (nodup_offered s p x)
      (sources_of_offered h.known p x)
    refine ⟨⟨?_, ?_⟩, ?_, ⟨?_, ?_, ?_⟩⟩
    · rw [hids, hnext]
      exact hd.bounded
    · rw [hids]
      exact hd.injective
    · unfold AddPathState.Room AddPathState.unnamed
      rw [hids, hnext]
      exact hr
    · rw [hnext]
      exact hg.next
    · rw [hids]
      exact hg.kept
    · rw [hids]
      exact hg.above

/-- The peer is up to date about the network it was just offered. -/
theorem serves_propagateAddPathTo (h : Stage sources s) (hp : p ∈ s.sessions) (hready : s.Ready p x) :
    (propagateAddPathTo x s p).Serves p x := by
  cases hoff : s.offers p with
  | false =>
    rw [propagateAddPathTo_of_not_offers hoff]
    have hnone := offered_of_not_offers hp hoff x
    refine ⟨by simp [hnone], ?_, ?_⟩
    · intro id
      simp [hnone, hready.idle hoff id]
    · intro hd hget hap id path
      have hfree : addPathHolds hd.log (x, id) = none := by
        by_contra hne
        exact hready.idle hoff id (hready.covers hd hget hap id hne)
      simp [hnone, hfree]
  | true =>
    obtain ⟨hids, -⟩ := ids_propagateAddPathTo (x := x) hoff
    obtain ⟨-, -, -, hnamed, hfound⟩ := AddPathState.assign_spec h.distinct h.room (nodup_offered s p x)
      (sources_of_offered h.known p x)
    have hfound' : ∀ id path, (s.addpath.assign (s.offered p x)).1[id]? = some path ↔
        ∃ src, (src, path) ∈ s.offered p x ∧ (propagateAddPathTo x s p).addpath.ids[src]? = some id := by
      intro id path
      rw [hids]
      exact hfound id path
    refine ⟨?_, ?_, ?_⟩
    · intro e he
      rw [offered_propagateAddPathTo] at he
      rw [hids]
      exact hnamed e he
    · intro id
      rw [mem_advertisedTo_propagateAddPathTo hoff, if_pos ⟨rfl, rfl⟩, offered_propagateAddPathTo,
        Std.ExtTreeMap.mem_iff_isSome_getElem?, Option.isSome_iff_exists]
      constructor
      · rintro ⟨path, hpath⟩
        obtain ⟨src, he, hid⟩ := (hfound' id path).mp hpath
        exact ⟨_, he, hid⟩
      · rintro ⟨⟨src, path⟩, he, hid⟩
        exact ⟨path, (hfound' id path).mpr ⟨src, he, hid⟩⟩
    · intro hd hget hap id path
      obtain ⟨hd₀, hget₀, hsess, hheld⟩ := holds_propagateAddPathTo hoff hget
      rw [offered_propagateAddPathTo, ← hfound', hheld, if_pos rfl]
      cases hdes : (s.addpath.assign (s.offered p x)).1[id]? with
      | some q => simp
      | none =>
        -- what the peer held of it was recorded, and is withdrawn
        have hgone : (if id ∈ s.advertisedTo p x then none else addPathHolds hd₀.log (x, id)) = none := by
          split_ifs with hadv
          · rfl
          · by_contra hne
            exact hadv (hready.covers hd₀ hget₀ (hsess ▸ hap) id hne)
        simp [hgone]

/-- The others, and the other networks, are left alone. -/
theorem frame_propagateAddPathTo {q : IpAddr} {y : Prefix} (hne : ¬ (q = p ∧ y = x)) :
    (∀ id, id ∈ (propagateAddPathTo x s p).advertisedTo q y ↔ id ∈ s.advertisedTo q y) ∧
      SameHoldings s (propagateAddPathTo x s p) q y := by
  cases hoff : s.offers p with
  | false =>
    rw [propagateAddPathTo_of_not_offers hoff]
    exact ⟨fun _ => Iff.rfl, fun hd hget => ⟨hd, hget, rfl, fun _ => rfl⟩⟩
  | true =>
    refine ⟨?_, ?_⟩
    · intro id
      rw [mem_advertisedTo_propagateAddPathTo hoff, if_neg hne]
    · intro hd hget
      by_cases hq : q = p
      · subst hq
        obtain ⟨hd₀, hget₀, hsess, hheld⟩ := holds_propagateAddPathTo hoff hget
        refine ⟨hd₀, hget₀, hsess, ?_⟩
        intro id
        rw [hheld, if_neg fun hy => hne ⟨rfl, hy⟩]
      · rw [sessions_propagateAddPathTo x s hq] at hget
        exact ⟨hd, hget, rfl, fun _ => rfl⟩

theorem offers_propagateAddPathTo (q : IpAddr) : (propagateAddPathTo x s p).offers q = s.offers q := by
  have hcore := core_propagateAddPathTo x s p
  have hpeers : (propagateAddPathTo x s p).peers = s.peers := eq_of_core peers (fun _ => rfl) hcore
  have hexports : (propagateAddPathTo x s p).exports = s.exports := eq_of_core exports (fun _ => rfl) hcore
  have hc : (propagateAddPathTo x s p).sessions.contains q = s.sessions.contains q := by
    rw [Bool.eq_iff_iff, Std.ExtTreeMap.contains_iff_mem, Std.ExtTreeMap.contains_iff_mem]
    exact mem_sessions_propagateAddPathTo
  unfold offers
  rw [hpeers, hexports, hc]

theorem serves_kept_propagateAddPathTo (h : Stage sources s) (hx : x.isIpv4 = true) {q : IpAddr} {y : Prefix}
    (hq : q ∈ s.sessions) (hserves : s.Serves q y) : (propagateAddPathTo x s p).Serves q y := by
  by_cases heq : q = p ∧ y = x
  · obtain ⟨rfl, rfl⟩ := heq
    exact serves_propagateAddPathTo h hq (hserves.ready hq)
  · obtain ⟨hout, hheld⟩ := frame_propagateAddPathTo (s := s) heq
    refine hserves.frame (by simp) ?_ hout hheld
    intro e he
    obtain ⟨id, hid⟩ := Option.ne_none_iff_exists'.mp (hserves.named e he)
    rw [hid]
    exact (grows_propagateAddPathTo h).2.2.kept _ _ hid

theorem Stage.propagateAddPathTo (h : Stage sources s) (hp : p ∈ s.addpathSend) (hx : x.isIpv4 = true) :
    Stage sources (propagateAddPathTo x s p) := by
  obtain ⟨hd, hr, -⟩ := grows_propagateAddPathTo (x := x) (p := p) h
  refine ⟨hd, hr, by simpa using h.known, ?_⟩
  intro q hq hqs y hy
  rw [addpathSend_propagateAddPathTo] at hq
  rw [mem_sessions_propagateAddPathTo] at hqs
  by_cases heq : q = p ∧ y = x
  · obtain ⟨rfl, rfl⟩ := heq
    exact (serves_propagateAddPathTo h hqs (h.ready q hq hqs y hy)).ready
      (mem_sessions_propagateAddPathTo.mpr hqs)
  · obtain ⟨hout, hheld⟩ := frame_propagateAddPathTo (s := s) heq
    exact (h.ready q hq hqs y hy).frame (by rw [offers_propagateAddPathTo]; exact id) hout hheld

/-- All the peers are brought up to date about one network, and none falls back. -/
theorem propagateAddPath_spec (h : Stage sources s) (x : Prefix) :
    (Stage sources (s.propagateAddPath x) ∧ s.addpath.Grows (s.propagateAddPath x).addpath ∧
      (s.propagateAddPath x).addpathSend = s.addpathSend ∧
      ∀ q, q ∈ (s.propagateAddPath x).sessions ↔ q ∈ s.sessions) ∧
    (∀ q y, q ∈ s.sessions → s.Serves q y → (s.propagateAddPath x).Serves q y) ∧
    (x.isIpv4 = true → ∀ q ∈ s.addpathSend, q ∈ s.sessions → (s.propagateAddPath x).Serves q x) := by
  unfold propagateAddPath
  cases hx : x.isIpv4 with
  | false =>
    rw [if_neg Bool.false_ne_true]
    exact ⟨⟨h, .refl _, rfl, fun _ => Iff.rfl⟩, fun _ _ _ hs => hs, fun hfalse => by cases hfalse⟩
  | true =>
    simp only [if_true]
    obtain ⟨hpre, hkeep, hgoal⟩ := Run.foldl_establish (f := Central.propagateAddPathTo x)
      (l := s.addpathSend) (s := s) (G := fun p c => c = (p, x))
      (P := fun t => Stage sources t ∧ s.addpath.Grows t.addpath ∧ t.addpathSend = s.addpathSend ∧
        ∀ q, q ∈ t.sessions ↔ q ∈ s.sessions)
      (Q := fun (c : IpAddr × Prefix) t => c.1 ∈ t.sessions → t.Serves c.1 c.2)
      ⟨h, .refl _, rfl, fun _ => Iff.rfl⟩
      (by
        rintro t p hp ⟨hst, hg, hsend, hsess⟩
        refine ⟨hst.propagateAddPathTo (hsend ▸ hp) hx, hg.trans (grows_propagateAddPathTo hst).2.2,
          by rw [addpathSend_propagateAddPathTo, hsend], ?_⟩
        intro q
        rw [mem_sessions_propagateAddPathTo, hsess])
      (by
        rintro t p hp ⟨hst, -⟩ ⟨q, y⟩ hserves hq
        rw [mem_sessions_propagateAddPathTo] at hq
        exact serves_kept_propagateAddPathTo hst hx hq (hserves hq))
      (by
        rintro t p hp ⟨hst, -, hsend, -⟩ ⟨q, y⟩ heq hq
        cases heq
        rw [mem_sessions_propagateAddPathTo] at hq
        exact serves_propagateAddPathTo hst hq (hst.ready p (hsend ▸ hp) hq x hx))
    refine ⟨hpre, ?_, ?_⟩
    · intro q y hq hserves
      exact hkeep (q, y) (fun _ => hserves) ((hpre.2.2.2 q).mpr hq)
    · intro _ q hq hqs
      exact hgoal q hq (q, x) rfl ((hpre.2.2.2 q).mpr hqs)

theorem foldl_propagateAddPath_spec (h : Stage sources s) (xs : List Prefix) :
    (Stage sources (xs.foldl propagateAddPath s) ∧ s.addpath.Grows (xs.foldl propagateAddPath s).addpath ∧
      (xs.foldl propagateAddPath s).addpathSend = s.addpathSend ∧
      ∀ q, q ∈ (xs.foldl propagateAddPath s).sessions ↔ q ∈ s.sessions) ∧
    (∀ q y, q ∈ s.sessions → s.Serves q y → (xs.foldl propagateAddPath s).Serves q y) ∧
    ∀ x ∈ xs, x.isIpv4 = true → ∀ q ∈ s.addpathSend, q ∈ s.sessions →
      (xs.foldl propagateAddPath s).Serves q x := by
  obtain ⟨hpre, hkeep, hgoal⟩ := Run.foldl_establish (f := Central.propagateAddPath) (l := xs) (s := s)
    (G := fun x c => c.2 = x ∧ x.isIpv4 = true ∧ c.1 ∈ s.addpathSend)
    (P := fun t => Stage sources t ∧ s.addpath.Grows t.addpath ∧ t.addpathSend = s.addpathSend ∧
      ∀ q, q ∈ t.sessions ↔ q ∈ s.sessions)
    (Q := fun (c : IpAddr × Prefix) t => c.1 ∈ t.sessions → t.Serves c.1 c.2)
    ⟨h, .refl _, rfl, fun _ => Iff.rfl⟩
    (by
      rintro t x - ⟨hst, hg, hsend, hsess⟩
      obtain ⟨⟨hst', hg', hsend', hsess'⟩, -⟩ := propagateAddPath_spec hst x
      refine ⟨hst', hg.trans hg', hsend'.trans hsend, ?_⟩
      intro q
      rw [hsess', hsess])
    (by
      rintro t x - ⟨hst, -⟩ ⟨q, y⟩ hserves hq
      obtain ⟨⟨-, -, -, hsess'⟩, hkept, -⟩ := propagateAddPath_spec hst x
      rw [hsess'] at hq
      exact hkept q y hq (hserves hq))
    (by
      rintro t x - ⟨hst, -, hsend, -⟩ ⟨q, y⟩ ⟨rfl, hx, hq⟩ hqs
      obtain ⟨⟨-, -, -, hsess'⟩, -, hnew⟩ := propagateAddPath_spec hst y
      rw [hsess'] at hqs
      exact hnew hx q (hsend ▸ hq) hqs)
  refine ⟨hpre, ?_, ?_⟩
  · intro q y hq hserves
    exact hkeep (q, y) (fun _ => hserves) ((hpre.2.2.2 q).mpr hq)
  · intro x hin hx q hq hqs
    exact hgoal x hin (q, x) ⟨rfl, hx, hq⟩ ((hpre.2.2.2 q).mpr hqs)

end Fold

end Central
end Wren.Daemon.Bgp
