import Wren.Daemon.Bgp.Central

/-! What the handlers of the central task do to its state, part by part. -/

namespace Wren.Daemon.Bgp
open Wren.Core Wren.Bgp OrdMap
namespace Central

/-- The commands that fan out a sequence of operations. -/
def fanoutCmds (rib : BgpRib) (ops : List BgpRib.Op) : List SessionCmd :=
  (Replica.log BgpRib.step BgpRib.notify rib ops).map propagate

theorem fanout_append (s : Central) (cs ds : List SessionCmd) :
    (s.fanout cs).fanout ds = s.fanout (cs ++ ds) := by
  have hmap : (s.fanout cs).sessions.map (fun _ h => h.push ds) =
      s.sessions.map fun _ h => h.push (cs ++ ds) := by
    apply Std.ExtTreeMap.ext_getElem?
    intro q
    simp [fanout, SessionHandle.push]
  simp only [fanout] at hmap ⊢
  rw [hmap]

theorem applyOps_eq (s : Central) (ops : List BgpRib.Op) :
    s.applyOps ops = { s.fanout (fanoutCmds s.rib ops) with rib := ops.foldl BgpRib.step s.rib } := by
  induction ops generalizing s with
  | nil =>
    have hnil : s.fanout [] = s := by
      have hmap : s.sessions.map (fun _ h => h.push []) = s.sessions := by
        apply Std.ExtTreeMap.ext_getElem?
        intro q
        simp [SessionHandle.push]
      simp only [fanout, hmap]
    show s = { s.fanout [] with rib := s.rib }
    rw [hnil]
  | cons op ops ih =>
    show (s.applyOp op).applyOps ops = _
    rw [ih]
    simp only [applyOp, fanoutCmds, Replica.log, List.map_append, ← fanout_append, List.foldl_cons]
    rfl

@[simp] theorem applyOps_rib (s : Central) (ops : List BgpRib.Op) :
    (s.applyOps ops).rib = ops.foldl BgpRib.step s.rib := by
  rw [applyOps_eq]

theorem applyOps_sessions (s : Central) (ops : List BgpRib.Op) (q : IpAddr) :
    (s.applyOps ops).sessions[q]? = (s.sessions[q]?).map fun h => h.push (fanoutCmds s.rib ops) := by
  rw [applyOps_eq]
  simp [fanout]

/-- All that ADD-PATH offers leave as it is. -/
def core (s : Central) : Central := { s with sessions := ∅, addpath := ⟨∅, 0, ∅⟩ }

theorem eq_of_core {α : Type} (f : Central → α) (hf : ∀ s, f (core s) = f s) {s t : Central}
    (h : s.core = t.core) : f s = f t := by
  rw [← hf s, h, hf t]

theorem core_foldl {α : Type} {f : Central → α → Central} (hf : ∀ s a, (f s a).core = s.core) (l : List α)
    (s : Central) : (l.foldl f s).core = s.core := by
  induction l generalizing s with
  | nil => rfl
  | cons a l ih => rw [List.foldl_cons, ih, hf]

theorem core_propagateAddPathTo (pfx : Prefix) (s : Central) (peer : IpAddr) :
    (propagateAddPathTo pfx s peer).core = s.core := by
  unfold propagateAddPathTo
  split_ifs <;> rfl

theorem core_propagateAddPath (s : Central) (pfx : Prefix) : (s.propagateAddPath pfx).core = s.core := by
  unfold propagateAddPath
  split_ifs
  · exact core_foldl (core_propagateAddPathTo pfx) _ s
  · rfl

theorem core_foldl_propagateAddPath (s : Central) (l : List Prefix) :
    (l.foldl propagateAddPath s).core = s.core :=
  core_foldl core_propagateAddPath l s

theorem sessions_propagateAddPathTo (pfx : Prefix) (s : Central) {peer q : IpAddr} (hq : q ≠ peer) :
    (propagateAddPathTo pfx s peer).sessions[q]? = s.sessions[q]? := by
  unfold propagateAddPathTo
  split_ifs
  · simp [sendTo, getElem?_modify, hq]
  · rfl

/-- Commands change the log of a session and nothing else of it. -/
theorem sess_sendTo (s : Central) (peer : IpAddr) (cmds : List SessionCmd) (q : IpAddr) :
    ((s.sendTo peer cmds).sessions[q]?).map SessionHandle.sess =
      (s.sessions[q]?).map SessionHandle.sess := by
  rw [sendTo, getElem?_modify]
  split_ifs
  · rw [Option.map_map]
    rfl
  · rfl

theorem sess_propagateAddPath (s : Central) (pfx : Prefix) (q : IpAddr) :
    ((s.propagateAddPath pfx).sessions[q]?).map SessionHandle.sess =
      (s.sessions[q]?).map SessionHandle.sess := by
  unfold propagateAddPath
  split_ifs
  · refine List.foldlRecOn (motive := fun t : Central =>
      (t.sessions[q]?).map SessionHandle.sess = (s.sessions[q]?).map SessionHandle.sess) _ _ rfl ?_
    intro t ht peer _
    unfold propagateAddPathTo
    split_ifs
    · exact (sess_sendTo _ peer _ q).trans ht
    · exact ht
  · rfl

theorem sess_foldl_propagateAddPath (s : Central) (l : List Prefix) (q : IpAddr) :
    ((l.foldl propagateAddPath s).sessions[q]?).map SessionHandle.sess =
      (s.sessions[q]?).map SessionHandle.sess :=
  List.foldlRecOn (motive := fun t : Central =>
    (t.sessions[q]?).map SessionHandle.sess = (s.sessions[q]?).map SessionHandle.sess) l _ rfl
    fun t ht x _ => (sess_propagateAddPath t x q).trans ht

/-- A peer that is not served with ADD-PATH is sent nothing about it. -/
theorem sessions_propagateAddPath (s : Central) (pfx : Prefix) {q : IpAddr} (hq : q ∉ s.addpathSend) :
    (s.propagateAddPath pfx).sessions[q]? = s.sessions[q]? := by
  have hfold : ∀ (l : List IpAddr) (s : Central), q ∉ l →
      (l.foldl (propagateAddPathTo pfx) s).sessions[q]? = s.sessions[q]? := by
    intro l
    induction l with
    | nil => intro s _; rfl
    | cons p l ih =>
      intro s hl
      rw [List.mem_cons, not_or] at hl
      rw [List.foldl_cons, ih _ hl.2, sessions_propagateAddPathTo pfx s hl.1]
  unfold propagateAddPath
  split_ifs
  · exact hfold _ s hq
  · rfl

theorem sessions_foldl_propagateAddPath (s : Central) (l : List Prefix) {q : IpAddr}
    (hq : q ∉ s.addpathSend) : (l.foldl propagateAddPath s).sessions[q]? = s.sessions[q]? := by
  induction l generalizing s with
  | nil => rfl
  | cons x l ih =>
    have hsend : (s.propagateAddPath x).addpathSend = s.addpathSend :=
      eq_of_core addpathSend (fun _ => rfl) (core_propagateAddPath s x)
    rw [List.foldl_cons, ih _ (hsend ▸ hq), sessions_propagateAddPath s x hq]

/-- The operations that give up a peer's stale routes. -/
def staleOps (s : Central) (p : IpAddr) : List BgpRib.Op :=
  (s.stale[p]?).elim [] fun st => flushOps p st.prefixes

/-- The unicast operations of an event, in order. -/
def ribOps (s : Central) : Event → List BgpRib.Op
  | .down p conn _ => if s.currentConn[p]? = some conn then s.lossOps p else []
  | .endOfRib p conn _ => if s.currentConn[p]? = some conn then s.staleOps p else []
  | .update _ m => if m.facts.addr ∈ s.damped then [] else s.updateOps m
  | .restartTimer now => (s.expired now).flatMap s.staleOps
  | .rtrFeed feed => s.invalidOps ⟨s.staticRoas ++ feed⟩
  | .reconfig remove _ => remove.map .withdrawPeer
  | _ => []

theorem finalise_eq (s : Central) (p : IpAddr) :
    s.finalise p = ({ s with stale := s.stale.erase p } : Central).applyOps (s.staleOps p) := by
  unfold finalise staleOps
  cases h : s.stale[p]? with
  | none =>
    have herase : s.stale.erase p = s.stale := by
      apply Std.ExtTreeMap.ext_getElem?
      intro q
      rw [getElem?_erase]
      split_ifs with hq
      · rw [hq, h]
      · rfl
    simp only [Option.elim_none, herase]
    rfl
  | some st => rfl

theorem applyOps_append (s : Central) (ops ops' : List BgpRib.Op) :
    s.applyOps (ops ++ ops') = (s.applyOps ops).applyOps ops' := List.foldl_append

/-- Restart timers that run out at one moment are of different peers. -/
theorem foldl_finalise_eq (s : Central) (l : List IpAddr) (hl : l.Nodup) :
    l.foldl finalise s =
      ({ s with stale := l.foldl (fun m p => m.erase p) s.stale } : Central).applyOps (l.flatMap s.staleOps) := by
  induction l generalizing s with
  | nil => rfl
  | cons p l ih =>
    rw [List.nodup_cons] at hl
    have hops : ∀ q ∈ l, (s.finalise p).staleOps q = s.staleOps q := by
      intro q hq
      have hne : q ≠ p := fun h => hl.1 (h ▸ hq)
      rw [finalise_eq, staleOps, applyOps_eq]
      simp [fanout, getElem?_erase, hne, staleOps]
    rw [List.foldl_cons, ih _ hl.2, List.flatMap_cons, applyOps_append, List.flatMap_congr hops, finalise_eq]
    simp only [applyOps_eq, fanout, List.foldl_cons]

theorem expired_nodup (s : Central) (now : ℕ) : (s.expired now).Nodup :=
  (nodup_keys_toList s.stale).sublist (List.filter_sublist.map Prod.fst)

/-- A session that is closed after a fan-out could have been closed before it. -/
theorem damp_applyOps (s : Central) (p : IpAddr) (ops : List BgpRib.Op) :
    (s.applyOps ops).damp p = (s.damp p).applyOps ops := by
  simp only [applyOps_eq, damp, fanout, erase_map]

theorem forget_applyOps (s : Central) (p : IpAddr) (ops : List BgpRib.Op) :
    (s.applyOps ops).forget p = (s.forget p).applyOps ops := by
  simp only [applyOps_eq, forget, fanout, erase_map]

theorem applyOps_applyFamilyOps (s : Central) (fops : List FamilyOp) (ops : List BgpRib.Op) :
    (s.applyFamilyOps fops).applyOps ops = (s.applyOps ops).applyFamilyOps fops := by
  rw [applyOps_eq, applyOps_eq]
  rfl

theorem applyFamilyOps_append (s : Central) (fops fops' : List FamilyOp) :
    s.applyFamilyOps (fops ++ fops') = (s.applyFamilyOps fops).applyFamilyOps fops' := by
  simp only [applyFamilyOps, List.foldl_append]

/-- Neighbours are removed one after the other as if all had been forgotten first. -/
theorem foldl_removeNeighbor_eq (s : Central) (remove : List IpAddr) :
    remove.foldl removeNeighbor s =
      ((remove.foldl forget s).applyOps (remove.map .withdrawPeer)).applyFamilyOps
        (remove.map .withdrawPeer) := by
  have hforget : ∀ (l : List IpAddr) (s : Central) (ops : List BgpRib.Op) (fops : List FamilyOp),
      l.foldl forget ((s.applyOps ops).applyFamilyOps fops) =
        ((l.foldl forget s).applyOps ops).applyFamilyOps fops := by
    intro l
    induction l with
    | nil => intros; rfl
    | cons p l ih =>
      intro s ops fops
      have hcomm : ((s.applyOps ops).applyFamilyOps fops).forget p =
          ((s.applyOps ops).forget p).applyFamilyOps fops := rfl
      rw [List.foldl_cons, hcomm, forget_applyOps, ih, List.foldl_cons]
  induction remove generalizing s with
  | nil => rfl
  | cons p remove ih =>
    rw [List.foldl_cons, ih, removeNeighbor, hforget, applyOps_applyFamilyOps, ← applyOps_append,
      ← applyFamilyOps_append]
    rfl

theorem foldl_removeNeighbor_rib (s : Central) (remove : List IpAddr) :
    (remove.foldl removeNeighbor s).rib = (remove.map BgpRib.Op.withdrawPeer).foldl BgpRib.step s.rib := by
  have hrib : (remove.foldl forget s).rib = s.rib :=
    List.foldlRecOn (motive := fun t : Central => t.rib = s.rib) remove _ rfl fun t ht p _ => ht
  rw [foldl_removeNeighbor_eq]
  simp [applyFamilyOps, hrib]

theorem foldl_addNeighbor_rib (s : Central) (add : List NeighborConfig) :
    (add.foldl addNeighbor s).rib = s.rib := by
  induction add generalizing s with
  | nil => rfl
  | cons n add ih =>
    rw [List.foldl_cons, ih]
    unfold addNeighbor
    split_ifs <;> rfl

theorem start_rib (c : BgpConfig) : (start c).rib = .withMaxPaths c.maxPaths := foldl_addNeighbor_rib _ _

@[simp] theorem foldl_propagateAddPath_rib (s : Central) (l : List Prefix) :
    (l.foldl propagateAddPath s).rib = s.rib :=
  eq_of_core rib (fun _ => rfl) (core_foldl_propagateAddPath s l)

theorem update_notMem_staleOps (s : Central) (p : IpAddr) {peer : IpAddr} {id : UInt32} {x : Prefix} {path : Path} :
    .update peer id x path ∉ s.staleOps p := by
  unfold staleOps
  cases s.stale[p]? <;> simp [flushOps]

/-- What an event does to the unicast RIB. -/
theorem step_rib (s : Central) (e : Event) :
    (s.step e).rib = (s.ribOps e).foldl BgpRib.step s.rib := by
  cases e with
  | established m =>
    simp only [step, established, ribOps, List.foldl_nil, serveAddPath]
    split_ifs
    · rfl
    · rw [foldl_propagateAddPath_rib]
      rfl
    · rfl
  | down p conn now =>
    simp only [step, down, ribOps]
    by_cases hconn : s.currentConn[p]? = some conn
    · simp [hconn, applyFamilyOps, leave]
    · simp [hconn]
  | refreshRequest p conn =>
    simp only [step, refreshRequest, ribOps, List.foldl_nil]
    split_ifs <;> rfl
  | endOfRib p conn v4 =>
    simp only [step, endOfRib, ribOps]
    by_cases hconn : s.currentConn[p]? = some conn
    · simp [hconn, finalise_eq]
    · simp [hconn]
  | update conn m =>
    simp only [step, update, ribOps]
    split_ifs
    · rfl
    · simp [unstale]
    · simp [unstale, damp]
    · simp [unstale, applyFamilyOps]
    · simp [unstale, applyFamilyOps]
  | restartTimer now =>
    simp only [step, restartTimer, ribOps]
    rw [foldl_finalise_eq s _ (expired_nodup s now)]
    simp
  | teardown p => rfl
  | redistribute r =>
    simp only [step, applyRedistribution, ribOps, List.foldl_nil]
    cases s.redistributed r <;> rfl
  | rtrFeed feed => simp [step, rtrFeed, ribOps]
  | bfdDown p => rfl
  | refresh p => rfl
  | reconfig remove add =>
    simp only [step, reconfig, ribOps]
    rw [foldl_addNeighbor_rib, foldl_removeNeighbor_rib]

/-- What validation goes by, and what is configured of the neighbours. -/
def settings (s : Central) : (Bool × List Roa × RoaTable) × BTreeMap IpAddr PeerProps :=
  ((s.rpkiReject, s.staticRoas, s.roa), s.peers)

@[simp] theorem settings_applyOps (s : Central) (ops : List BgpRib.Op) : (s.applyOps ops).settings = s.settings := by
  rw [applyOps_eq]
  rfl

@[simp] theorem settings_foldl_propagateAddPath (s : Central) (l : List Prefix) :
    (l.foldl propagateAddPath s).settings = s.settings :=
  eq_of_core settings (fun _ => rfl) (core_foldl_propagateAddPath s l)

@[simp] theorem settings_finalise (s : Central) (p : IpAddr) : (s.finalise p).settings = s.settings := by
  rw [finalise_eq, settings_applyOps]
  rfl

/-- The ROAs are not configured with the neighbours. -/
theorem rpki_reconfig (s : Central) (remove : List IpAddr) (add : List NeighborConfig) :
    (s.reconfig remove add).settings.1 = s.settings.1 := by
  have hremoved : (remove.foldl removeNeighbor s).settings.1 = s.settings.1 := by
    refine List.foldlRecOn (motive := fun t : Central => t.settings.1 = s.settings.1) remove _ rfl ?_
    intro t ht p _
    have hops : ((t.forget p).applyOps [.withdrawPeer p]).settings.1 = (t.forget p).settings.1 := by rw [settings_applyOps]
    exact hops.trans ht
  refine List.foldlRecOn (motive := fun t : Central => t.settings.1 = s.settings.1) add _ hremoved ?_
  intro t ht n _
  rw [← ht]
  unfold addNeighbor
  split_ifs <;> rfl

/-- No other event changes the settings. -/
theorem settings_step (s : Central) {e : Event} (hfeed : ∀ feed, e ≠ .rtrFeed feed)
    (hconfig : ∀ remove add, e ≠ .reconfig remove add) : (s.step e).settings = s.settings := by
  cases e with
  | established m =>
    simp only [step, established, serveAddPath]
    split_ifs
    · rfl
    · exact settings_foldl_propagateAddPath _ _
    · rfl
  | down p conn now =>
    simp only [step, down]
    split_ifs
    · rfl
    · rw [settings_foldl_propagateAddPath]
      exact settings_applyOps (s.leave p now) (s.lossOps p)
  | refreshRequest p conn =>
    simp only [step, refreshRequest]
    split_ifs <;> rfl
  | endOfRib p conn v4 =>
    simp only [step, endOfRib]
    split_ifs
    · rfl
    · exact settings_finalise s p
  | update conn m =>
    have hops := settings_applyOps (s.unstale m) (s.updateOps m)
    simp only [step, update]
    split_ifs
    · rfl
    · exact hops
    · exact hops
    · exact hops
    · exact (settings_foldl_propagateAddPath _ _).trans hops
  | restartTimer now =>
    refine List.foldlRecOn (motive := fun t : Central => t.settings = s.settings) (s.expired now) _ rfl ?_
    intro t ht p _
    exact (settings_finalise t p).trans ht
  | teardown p => rfl
  | redistribute r =>
    simp only [step, applyRedistribution]
    cases s.redistributed r <;> rfl
  | rtrFeed feed => exact absurd rfl (hfeed feed)
  | bfdDown p => rfl
  | refresh p => rfl
  | reconfig remove add => exact absurd rfl (hconfig remove add)

theorem settings_rtrFeed (s : Central) (feed : List Roa) :
    (s.rtrFeed feed).settings = ((s.rpkiReject, s.staticRoas, ⟨s.staticRoas ++ feed⟩), s.peers) :=
  settings_applyOps { s with roa := ⟨s.staticRoas ++ feed⟩ } _

theorem selected_step {s : Central} (h : s.rib.Selected) (e : Event) : (s.step e).rib.Selected := by
  rw [step_rib]
  exact List.foldlRecOn (motive := BgpRib.Selected) _ _ h fun _ hrib op _ => hrib.step op

/-- A path is only installed by an UPDATE that is taken, as the import policy of the peer lets it through. -/
theorem update_of_mem_ribOps {s : Central} {e : Event} {peer : IpAddr} {id : UInt32} {x : Prefix} {path : Path}
    (h : .update peer id x path ∈ s.ribOps e) :
    ∃ conn m nextHop iface, e = .update conn m ∧ peer = m.facts.addr ∧ (s.policyFor peer).rejectReach m = false ∧
      (s.policyFor peer).accepted x ((s.policyFor peer).stampedPath m nextHop iface) = some path := by
  cases e with
  | update conn m =>
    simp only [ribOps, updateOps] at h
    split_ifs at h
    · cases h
    · simp [UpdateMsg.withdrawOps] at h
    · simp [UpdateMsg.withdrawOps] at h
    · have hinst : .update peer id x path ∈ (s.policyFor m.facts.addr).installOps m := by
        simpa [UpdateMsg.withdrawOps] using h
      unfold ImportPolicy.installOps at hinst
      split_ifs at hinst with hreject
      · cases hinst
      · obtain ⟨⟨k, base⟩, hmem, hop⟩ := List.mem_map.mp hinst
        unfold ImportPolicy.importAndInstall at hop
        cases hacc : (s.policyFor m.facts.addr).accepted k.1 base with
        | none => simp [hacc] at hop
        | some q =>
          simp only [hacc, BgpRib.Op.update.injEq] at hop
          obtain ⟨rfl, -, rfl, rfl⟩ := hop
          obtain ⟨nextHop, iface, rfl⟩ := ImportPolicy.stampedPath_of_mem_reachability hmem
          exact ⟨conn, m, nextHop, iface, rfl, rfl, by simpa using hreject, hacc⟩
  | down p conn now =>
    simp only [ribOps, lossOps] at h
    split_ifs at h <;> simp at h
  | endOfRib p conn v4 =>
    simp only [ribOps] at h
    split_ifs at h
    · exact absurd h (update_notMem_staleOps s p)
    · cases h
  | restartTimer now =>
    obtain ⟨p, -, hp⟩ := List.mem_flatMap.mp h
    exact absurd hp (update_notMem_staleOps s p)
  | rtrFeed feed =>
    simp only [ribOps, invalidOps] at h
    split_ifs at h <;> simp at h
  | reconfig remove add => simp [ribOps] at h
  | _ => simp [ribOps] at h

end Central
end Wren.Daemon.Bgp
