import Wren.Daemon.Bgp.Effects

/-! The part of the central state that belongs to one peer, and how each event changes it. -/

namespace Wren.Daemon.Bgp
open Wren.Core Wren.Bgp OrdMap Replica

/-- What the central task keeps about one peer, and the routes it holds from it. -/
structure PeerView where
  configured : Prop
  conn : Option UInt64
  stale : Option StalePeer
  props : Option PeerProps
  importFilter : Option Filter
  offer : NlriKey → Option Path
  family : Family → FamilyNlri → Prop

/-- The peer's network waits to be advertised again. -/
def PeerView.Stale (v : PeerView) (x : Prefix) : Prop := ∃ st, v.stale = some st ∧ x ∈ st.prefixes

/-- Nothing is known of the peer. -/
def PeerView.unknown : PeerView := ⟨False, none, none, none, none, fun _ => none, fun _ _ => False⟩

/-- The peer an operation is about. -/
def opPeer : BgpRib.Op → IpAddr
  | .update peer _ _ _ | .withdraw peer _ _ | .withdrawPeer peer => peer

theorem held_step_of_ne {op : BgpRib.Op} {q : IpAddr} (h : opPeer op ≠ q) (rib : BgpRib) :
    held q (rib.step op) = held q rib := by
  funext k
  cases op with
  | update peer i x path =>
    have hne : ¬ (k.1 = x ∧ (q, k.2) = (peer, i)) := fun hk => h (congrArg Prod.fst hk.2).symm
    rw [held, BgpRib.offer_update, if_neg hne]
    rfl
  | withdraw peer i x =>
    have hne : ¬ (k.1 = x ∧ (q, k.2) = (peer, i)) := fun hk => h (congrArg Prod.fst hk.2).symm
    rw [held, BgpRib.offer_withdraw, if_neg hne]
    rfl
  | withdrawPeer peer =>
    show (rib.withdrawPeer peer).1.offer k.1 (q, k.2) = _
    rw [BgpRib.offer_withdrawPeer, if_neg (fun hq : q = peer => h hq.symm)]
    rfl

/-- Operations about other peers leave a peer's paths alone. -/
theorem held_foldl_of_ne {ops : List BgpRib.Op} {q : IpAddr} (h : ∀ op ∈ ops, opPeer op ≠ q)
    (rib : BgpRib) : held q (ops.foldl BgpRib.step rib) = held q rib := by
  induction ops generalizing rib with
  | nil => rfl
  | cons op ops ih =>
    rw [List.foldl_cons, ih (fun o ho => h o (by simp [ho])), held_step_of_ne (h op (by simp))]

theorem held_withdrawPeer (rib : BgpRib) (p : IpAddr) : held p (rib.step (.withdrawPeer p)) = fun _ => none := by
  funext k
  show (rib.withdrawPeer p).1.offer k.1 (p, k.2) = none
  rw [BgpRib.offer_withdrawPeer, if_pos rfl]

namespace Central

/-- The routes of the other families that a peer holds. -/
def familyOf (ribs : Family → FamilyRib) (q : IpAddr) (f : Family) (n : FamilyNlri) : Prop :=
  ∃ path, ((q, n), path) ∈ ribs f

def view (s : Central) (q : IpAddr) : PeerView where
  configured := q ∈ s.neighbors
  conn := s.currentConn[q]?
  stale := s.stale[q]?
  props := s.peers[q]?
  importFilter := s.imports[q]?
  offer := held q s.rib
  family := familyOf s.families q

theorem view_of_core {s t : Central} (h : s.core = t.core) (q : IpAddr) : s.view q = t.view q :=
  eq_of_core (fun s => s.view q) (fun _ => rfl) h

theorem view_applyOps (s : Central) (ops : List BgpRib.Op) (q : IpAddr) :
    (s.applyOps ops).view q = { s.view q with offer := held q (ops.foldl BgpRib.step s.rib) } := by
  rw [applyOps_eq]
  rfl

theorem view_applyOps_of_ne (s : Central) {ops : List BgpRib.Op} {q : IpAddr}
    (h : ∀ op ∈ ops, opPeer op ≠ q) : (s.applyOps ops).view q = s.view q := by
  rw [view_applyOps, held_foldl_of_ne h]
  rfl

theorem familyOf_withdrawPeer (ribs : Family → FamilyRib) (p q : IpAddr) :
    familyOf (FamilyOp.apply ribs (.withdrawPeer p)) q =
      if q = p then fun _ _ => False else familyOf ribs q := by
  funext f n
  by_cases hq : q = p <;> simp [familyOf, FamilyOp.apply, hq]

theorem view_established (s : Central) (m : EstablishedMsg) (q : IpAddr) :
    (s.established m).view q =
      if s.refuses m = false ∧ q = m.sess.addr then { s.view q with conn := some m.connId }
      else s.view q := by
  have hregister : (s.register m).view q =
      if q = m.sess.addr then { s.view q with conn := some m.connId } else s.view q := by
    have hconn : (s.register m).view q =
        { s.view q with conn := if q = m.sess.addr then some m.connId else s.currentConn[q]? } := by
      unfold view Central.register
      simp only [getElem?_insert]
    rw [hconn]
    split_ifs <;> rfl
  unfold Central.established
  cases hrefuse : s.refuses m with
  | true => simp
  | false =>
    cases hap : m.sess.addPathSend with
    | true =>
      have hserve := view_of_core (core_foldl_propagateAddPath
        { s.register m with addpathSend := (s.register m).addpathSend.insert m.sess.addr }
        ((s.register m).rib.best.toList.map Prod.fst)) q
      simp only [Bool.false_eq_true, if_false, if_true, true_and]
      exact hserve.trans hregister
    | false => simpa using hregister

/-- The stale entry of a peer that is lost but kept. -/
def staleEntry (s : Central) (p : IpAddr) (now : ℕ) : StalePeer :=
  ⟨s.rib.prefixesFrom p, now + max (s.grHelper[p]?.getD 0).toNat 1⟩

theorem view_down (s : Central) (p : IpAddr) (conn : UInt64) (now : ℕ) (q : IpAddr) :
    (s.down p conn now).view q =
      if s.currentConn[p]? = some conn ∧ q = p then
        if s.retained p then
          { s.view q with conn := none, stale := some (s.staleEntry p now), family := fun _ _ => False }
        else { s.view q with conn := none, offer := fun _ => none, family := fun _ _ => False }
      else s.view q := by
  by_cases hconn : s.currentConn[p]? = some conn
  · have hdown : s.down p conn now = (s.affected p).foldl propagateAddPath
        (((s.leave p now).applyOps (s.lossOps p)).applyFamilyOps [.withdrawPeer p]) := by
      simp [Central.down, hconn]
    have hview : (s.down p conn now).view q =
        { (s.leave p now).view q with
          offer := held q ((s.lossOps p).foldl BgpRib.step s.rib)
          family := familyOf (FamilyOp.apply s.families (.withdrawPeer p)) q } := by
      rw [hdown, view_of_core (core_foldl_propagateAddPath _ _), applyOps_eq]
      rfl
    rw [hview, familyOf_withdrawPeer]
    by_cases hq : q = p
    · subst hq
      cases hret : s.retained q with
      | true => simp [hconn, hret, view, leave, lossOps, staleEntry]
      | false => simp [hconn, hret, view, leave, lossOps, held_withdrawPeer]
    · have hheld : held q ((s.lossOps p).foldl BgpRib.step s.rib) = held q s.rib := by
        refine held_foldl_of_ne ?_ s.rib
        intro op hop
        unfold lossOps at hop
        split_ifs at hop
        · cases hop
        · rw [List.mem_singleton.mp hop]
          exact fun h => hq h.symm
      rw [hheld]
      cases hret : s.retained p <;> simp [hconn, hq, hret, view, leave, getElem?_erase, getElem?_insert]
  · simp [Central.down, hconn]

end Central

/-- The paths without an identifier of the networks that are stale. -/
def PeerView.staleKeys (v : PeerView) : List NlriKey := (v.stale.elim [] fun st => st.prefixes).map fun x => (x, 0)

theorem PeerView.mem_staleKeys {v : PeerView} {x : Prefix} : (x, 0) ∈ v.staleKeys ↔ v.Stale x := by
  unfold staleKeys Stale
  cases v.stale <;> simp

/-- What is left when the stale routes are given up. -/
def PeerView.finalised (v : PeerView) : PeerView :=
  { v with stale := none, offer := replay v.offer (ImportPolicy.clear v.staleKeys) }

namespace Central

theorem view_finalise (s : Central) (p q : IpAddr) :
    (s.finalise p).view q = if q = p then (s.view q).finalised else s.view q := by
  rw [finalise_eq, view_applyOps]
  by_cases hq : q = p
  · subst hq
    have hops : s.staleOps q = (s.view q).staleKeys.map fun k => .withdraw q k.2 k.1 := by
      unfold staleOps PeerView.staleKeys view flushOps
      cases s.stale[q]? <;> simp
    have hheld : held q ((s.staleOps q).foldl BgpRib.step s.rib) =
        replay (held q s.rib) (ImportPolicy.clear (s.view q).staleKeys) := by
      rw [hops, held_foldl_withdraw]
    rw [if_pos rfl]
    simp only [hheld]
    simp [view, PeerView.finalised]
  · have hne : ∀ op ∈ s.staleOps p, opPeer op ≠ q := by
      intro op hop
      unfold staleOps flushOps at hop
      cases hst : s.stale[p]? with
      | none => simp [hst] at hop
      | some st =>
        simp only [hst, Option.elim_some] at hop
        obtain ⟨x, -, rfl⟩ := List.mem_map.mp hop
        exact fun h => hq h.symm
    simp only [held_foldl_of_ne hne]
    simp [view, hq, getElem?_erase]

theorem view_foldl_finalise (s : Central) {l : List IpAddr} (hl : l.Nodup) (q : IpAddr) :
    (l.foldl finalise s).view q = if q ∈ l then (s.view q).finalised else s.view q := by
  induction l generalizing s with
  | nil => simp
  | cons p l ih =>
    rw [List.nodup_cons] at hl
    rw [List.foldl_cons, ih _ hl.2, view_finalise]
    by_cases hq : q = p
    · subst hq
      simp [hl.1]
    · simp [hq]

end Central

/-- What becomes of an UPDATE that is not ignored. -/
inductive Fate where
  | looped
  | overLimit
  | taken
deriving DecidableEq

def FamilyOp.peer : FamilyOp → IpAddr
  | .update _ peer _ _ | .withdraw _ peer _ | .withdrawPeer peer => peer

namespace Central

def fate (s : Central) (m : UpdateMsg) : Fate :=
  if isLoop s.loc m.update then .looped else if s.tooMany m then .overLimit else .taken

/-- The peer's paths after its UPDATE. -/
def offerAfter (s : Central) (m : UpdateMsg) : NlriKey → Option Path :=
  match s.fate m with
  | .looped => replay (held m.facts.addr s.rib) (ImportPolicy.clear (withdrawals m.update))
  | .overLimit => fun _ => none
  | .taken => replay (held m.facts.addr s.rib) ((s.policyFor m.facts.addr).done m)

theorem held_updateOps (s : Central) (m : UpdateMsg) :
    held m.facts.addr ((s.updateOps m).foldl BgpRib.step s.rib) = s.offerAfter m := by
  have hw := held_foldl_withdraw m.facts.addr s.rib (withdrawals m.update)
  have hhandle := (s.policyFor m.facts.addr).held_handleUpdate s.rib m
  unfold offerAfter fate updateOps
  cases hloop : isLoop s.loc m.update with
  | true =>
    simp only [if_true, List.append_nil]
    exact hw
  | false =>
    cases hmany : s.tooMany m with
    | true =>
      simp only [Bool.false_eq_true, if_false, if_true, List.foldl_append, List.foldl_cons, List.foldl_nil]
      exact held_withdrawPeer _ _
    | false =>
      simp only [Bool.false_eq_true, if_false, List.foldl_append]
      have hloop' : isLoop (s.policyFor m.facts.addr).loc m.update = false := hloop
      rw [ImportPolicy.handleUpdate] at hhandle
      simpa only [hloop', Bool.false_eq_true, if_false] using hhandle

/-- A path that an UPDATE did not install was there before, and not withdrawn. -/
theorem held_of_offerAfter {s : Central} {m : UpdateMsg} {k : NlriKey} {path : Path}
    (hk : k ∉ ((s.policyFor m.facts.addr).installed m).map Delta.key) (h : s.offerAfter m k = some path) :
    held m.facts.addr s.rib k = some path ∧ k ∉ withdrawals m.update := by
  have hclear : replay (held m.facts.addr s.rib) (ImportPolicy.clear (withdrawals m.update)) k = some path := by
    rw [offerAfter] at h
    cases hfate : s.fate m with
    | looped => rwa [hfate] at h
    | overLimit =>
      rw [hfate] at h
      cases h
    | taken =>
      simp only [hfate] at h
      rwa [ImportPolicy.replay_done_of_notMem _ _ hk] at h
  rw [ImportPolicy.clear, replay_clear] at hclear
  split_ifs at hclear with hw
  exact ⟨hclear, hw⟩

theorem opPeer_of_mem_updateOps {s : Central} {m : UpdateMsg} {op : BgpRib.Op} (h : op ∈ s.updateOps m) :
    opPeer op = m.facts.addr := by
  unfold updateOps at h
  rcases List.mem_append.mp h with hw | h
  · obtain ⟨k, -, rfl⟩ := List.mem_map.mp hw
    rfl
  · split_ifs at h
    · cases h
    · rw [List.mem_singleton.mp h]
      rfl
    · unfold ImportPolicy.installOps at h
      split_ifs at h
      · cases h
      · obtain ⟨e, -, rfl⟩ := List.mem_map.mp h
        unfold ImportPolicy.importAndInstall
        split <;> rfl

theorem peer_of_mem_familyOps {m : UpdateMsg} {op : FamilyOp} (h : op ∈ familyOps m) :
    op.peer = m.facts.addr := by
  obtain ⟨f, -, h⟩ := List.mem_flatMap.mp h
  rcases List.mem_append.mp h with h | h
  · obtain ⟨n, -, rfl⟩ := List.mem_map.mp h
    rfl
  · unfold familyReach at h
    cases hreach : mpReachFamily f m.update with
    | none => simp [hreach] at h
    | some r =>
      simp only [hreach, Option.elim_some] at h
      split at h
      · cases hnh : evpnNextHopIp r.1 with
        | none => simp [hnh] at h
        | some nh =>
          simp only [hnh, Option.elim_some] at h
          obtain ⟨n, -, rfl⟩ := List.mem_map.mp h
          rfl
      · obtain ⟨n, -, rfl⟩ := List.mem_map.mp h
        rfl

theorem familyOf_apply_of_ne {op : FamilyOp} {q : IpAddr} (h : op.peer ≠ q) (ribs : Family → FamilyRib) :
    familyOf (FamilyOp.apply ribs op) q = familyOf ribs q := by
  have hkey : ∀ n n' : FamilyNlri, (q, n) ≠ (op.peer, n') := fun n n' heq => h (congrArg Prod.fst heq).symm
  funext f n
  cases op with
  | update g peer n' path =>
    have hkey' : (q, n) ≠ (peer, n') := hkey n n'
    by_cases hf : f = g
    · subst hf
      simp [familyOf, FamilyOp.apply, hkey']
    · simp [familyOf, FamilyOp.apply, hf]
  | withdraw g peer n' =>
    have hkey' : (q, n) ≠ (peer, n') := hkey n n'
    by_cases hf : f = g
    · subst hf
      simp [familyOf, FamilyOp.apply, hkey']
    · simp [familyOf, FamilyOp.apply, hf]
  | withdrawPeer peer =>
    rw [familyOf_withdrawPeer, if_neg (fun hq : q = peer => h hq.symm)]

theorem familyOf_foldl_of_ne (ops : List FamilyOp) (q : IpAddr) (h : ∀ op ∈ ops, op.peer ≠ q)
    (ribs : Family → FamilyRib) : familyOf (ops.foldl FamilyOp.apply ribs) q = familyOf ribs q := by
  induction ops generalizing ribs with
  | nil => rfl
  | cons op ops ih =>
    rw [List.foldl_cons, ih (fun o ho => h o (by simp [ho])), familyOf_apply_of_ne (h op (by simp))]

/-- The routes of the other families after the peer's UPDATE. -/
def familyAfter (s : Central) (m : UpdateMsg) : Family → FamilyNlri → Prop :=
  match s.fate m with
  | .taken => familyOf ((familyOps m).foldl FamilyOp.apply s.families) m.facts.addr
  | _ => familyOf s.families m.facts.addr

theorem view_update (s : Central) (m : UpdateMsg) (q : IpAddr) :
    (s.update m).view q =
      if q = m.facts.addr ∧ q ∉ s.damped then
        { s.view q with
          conn := if s.fate m = .overLimit then none else s.currentConn[q]?
          stale := (s.stale[q]?).map (refresh m.update)
          offer := s.offerAfter m
          family := s.familyAfter m }
      else s.view q := by
  by_cases hdamp : m.facts.addr ∈ s.damped
  · have hneg : ¬ (q = m.facts.addr ∧ q ∉ s.damped) := fun h => h.2 (h.1 ▸ hdamp)
    simp [Central.update, hdamp, hneg]
  have hops : ((s.unstale m).applyOps (s.updateOps m)).view q =
      { s.view q with
        stale := if q = m.facts.addr then (s.stale[q]?).map (refresh m.update) else s.stale[q]?
        offer := if q = m.facts.addr then s.offerAfter m else held q s.rib } := by
    rw [view_applyOps]
    have hheld : held q ((s.updateOps m).foldl BgpRib.step s.rib) =
        if q = m.facts.addr then s.offerAfter m else held q s.rib := by
      split_ifs with hq
      · rw [hq, held_updateOps]
      · exact held_foldl_of_ne (fun op hop h => hq (by rw [← h, opPeer_of_mem_updateOps hop])) s.rib
    have hstale : (s.unstale m).stale[q]? =
        if q = m.facts.addr then (s.stale[q]?).map (refresh m.update) else s.stale[q]? := by
      rw [unstale, getElem?_modify]
    show ({ s.view q with stale := _, offer := _ } : PeerView) = _
    simp only [← hstale, ← hheld]
    rfl
  unfold Central.update
  simp only [hdamp, if_false]
  cases hloop : isLoop s.loc m.update with
  | true =>
    have hfate : s.fate m = .looped := by simp [fate, hloop]
    simp only [if_true, hops]
    by_cases hq : q = m.facts.addr
    · subst hq
      simp [hdamp, hfate, familyAfter, view]
    · simp [hq, view]
  | false =>
    cases hmany : s.tooMany m with
    | true =>
      have hfate : s.fate m = .overLimit := by simp [fate, hloop, hmany]
      have hview : (((s.unstale m).applyOps (s.updateOps m)).damp m.facts.addr).view q =
          { ((s.unstale m).applyOps (s.updateOps m)).view q with
            conn := if q = m.facts.addr then none else s.currentConn[q]? } := by
        rw [applyOps_eq]
        simp [view, damp, unstale, fanout, getElem?_erase]
      simp only [Bool.false_eq_true, if_false, if_true, hview, hops]
      by_cases hq : q = m.facts.addr
      · subst hq
        simp [hdamp, hfate, familyAfter, view]
      · simp [hq, view]
    | false =>
      have hfate : s.fate m = .taken := by simp [fate, hloop, hmany]
      have hview : (((s.unstale m).applyOps (s.updateOps m)).applyFamilyOps (familyOps m)).view q =
          { ((s.unstale m).applyOps (s.updateOps m)).view q with
            family := familyOf ((familyOps m).foldl FamilyOp.apply s.families) q } := by
        rw [applyOps_eq]
        rfl
      simp only [Bool.false_eq_true, if_false]
      rw [view_of_core (core_foldl_propagateAddPath _ _), hview, hops]
      by_cases hq : q = m.facts.addr
      · subst hq
        simp [hdamp, hfate, familyAfter, view]
      · have hfam := familyOf_foldl_of_ne (familyOps m) q
          (fun op hop h => hq (by rw [← h, peer_of_mem_familyOps hop])) s.families
        rw [hfam]
        simp [hq, view]

theorem view_removeNeighbor (s : Central) (p q : IpAddr) :
    (s.removeNeighbor p).view q = if q = p then .unknown else s.view q := by
  have hview : (s.removeNeighbor p).view q =
      { (s.forget p).view q with
        offer := held q (s.rib.step (.withdrawPeer p))
        family := familyOf (FamilyOp.apply s.families (.withdrawPeer p)) q } := by
    rw [removeNeighbor, applyOps_eq]
    rfl
  rw [hview, familyOf_withdrawPeer]
  by_cases hq : q = p
  · subst hq
    simp [view, forget, held_withdrawPeer, PeerView.unknown]
  · have hheld : held q (s.rib.step (.withdrawPeer p)) = held q s.rib :=
      held_step_of_ne (fun h => hq h.symm) s.rib
    simp [view, forget, hq, hheld, getElem?_erase]

theorem view_addNeighbor (s : Central) (n : NeighborConfig) (q : IpAddr) :
    (s.addNeighbor n).view q =
      if q = n.addr ∧ q ∉ s.neighbors then
        { s.view q with configured := True, props := some n.props, importFilter := n.importFilter <|> s.imports[q]? }
      else s.view q := by
  unfold addNeighbor
  by_cases hin : n.addr ∈ s.neighbors
  · have hneg : ¬ (q = n.addr ∧ q ∉ s.neighbors) := fun h => h.2 (h.1 ▸ hin)
    simp [hin, hneg]
  · by_cases hq : q = n.addr
    · subst hq
      cases himp : n.importFilter <;> simp [hin, view]
    · cases himp : n.importFilter <;> simp [hin, hq, view, getElem?_insert]

/-- What holds of a peer that is not known, and survives its configuration, survives a reload. -/
theorem forall_view_reconfig {I : IpAddr → PeerView → Prop} (hunknown : ∀ q, I q .unknown)
    (hadd : ∀ q (v : PeerView), ¬ v.configured → I q v → ∀ props importFilter,
      I q { v with configured := True, props, importFilter })
    {s : Central} (h : ∀ q, I q (s.view q)) {remove : List IpAddr} {add : List NeighborConfig} :
    ∀ q, I q ((s.reconfig remove add).view q) := by
  have hremove : ∀ q, I q ((remove.foldl removeNeighbor s).view q) := by
    refine List.foldlRecOn (motive := fun t : Central => ∀ q, I q (t.view q)) remove _ h ?_
    intro t ht p _ q
    rw [view_removeNeighbor]
    split_ifs
    · exact hunknown q
    · exact ht q
  refine List.foldlRecOn (motive := fun t : Central => ∀ q, I q (t.view q)) add _ hremove ?_
  intro t ht n _ q
  rw [view_addNeighbor]
  split_ifs with hq
  · exact hadd q _ hq.2 (ht q) _ _
  · exact ht q

/-- An event that says nothing about the routes or the connection of any peer. -/
def quiet : Event → Bool
  | .refreshRequest .. | .teardown _ | .redistribute _ | .bfdDown _ | .refresh _ => true
  | _ => false

theorem view_of_quiet {e : Event} (h : quiet e = true) (s : Central) (q : IpAddr) :
    (s.step e).view q = s.view q := by
  cases e with
  | refreshRequest p conn =>
    show (s.refreshRequest p conn).view q = s.view q
    unfold refreshRequest
    split_ifs <;> rfl
  | redistribute r =>
    show (s.applyRedistribution r).view q = s.view q
    unfold applyRedistribution
    cases s.redistributed r <;> rfl
  | teardown p => rfl
  | bfdDown p => rfl
  | refresh p => rfl
  | established m => cases h
  | down p conn now => cases h
  | endOfRib p conn v4 => cases h
  | update conn m => cases h
  | restartTimer now => cases h
  | rtrFeed feed => cases h
  | reconfig remove add => cases h

theorem held_of_held_foldl_withdraw {q : IpAddr} (keys : List (IpAddr × Prefix)) {rib : BgpRib} {k : NlriKey}
    {path : Path}
    (h : held q ((keys.map fun e => BgpRib.Op.withdraw e.1 0 e.2).foldl BgpRib.step rib) k = some path) :
    held q rib k = some path := by
  induction keys generalizing rib with
  | nil => exact h
  | cons e keys ih =>
    have hstep := ih h
    rw [held, BgpRib.offer_withdraw] at hstep
    split_ifs at hstep
    exact hstep

/-- Revalidation only takes paths away. -/
theorem view_rtrFeed (s : Central) (feed : List Roa) (q : IpAddr) :
    ∃ offer, (s.rtrFeed feed).view q = { s.view q with offer } ∧
      ∀ k path, offer k = some path → held q s.rib k = some path := by
  refine ⟨_, view_applyOps _ _ q, ?_⟩
  intro k path h
  unfold invalidOps at h
  split_ifs at h
  · refine held_of_held_foldl_withdraw ((s.rib.best.toList.filter fun e =>
      RoaTable.validate ⟨s.staticRoas ++ feed⟩ e.1 ((originAs e.2.asPath).getD e.2.peerAs) = .invalid).map
        fun e => (e.2.peerAddr, e.1)) ?_
    rw [List.map_map]
    exact h
  · exact h

end Central
end Wren.Daemon.Bgp
