import Wren.Daemon.Bgp.PeerView

/-! Which connection each route of a peer came over. A route must not outlive that connection,
except through a graceful restart, nor enter without the policy its neighbour requires. -/

namespace Wren.Daemon.Bgp
open Wren.Core Wren.Bgp OrdMap Replica

/-- The routes of the other families that an UPDATE installs. -/
def familyKeys (m : UpdateMsg) : List (Family × FamilyNlri) :=
  (familyOps m).filterMap fun
    | .update f _ n _ => some (f, n)
    | _ => none

/-- The connection that last delivered each route, and when the restart timer last fired. The code
keeps no such record. -/
structure Deliveries where
  unicast : IpAddr → NlriKey → UInt64
  family : IpAddr → Family → FamilyNlri → UInt64
  clock : ℕ

/-- The unicast routes that an UPDATE makes reachable in the RIB, accepted or not. -/
def Central.installedKeys (s : Central) (m : UpdateMsg) : List NlriKey :=
  ((s.policyFor m.facts.addr).installed m).map Delta.key

def Deliveries.step (g : Deliveries) (s : Central) : Event → Deliveries
  | .update conn m =>
    if m.facts.addr ∈ s.damped ∨ s.fate m ≠ .taken then g
    else
      { g with
        unicast := fun q k =>
          if q = m.facts.addr ∧ k ∈ s.installedKeys m then conn else g.unicast q k
        family := fun q f n =>
          if q = m.facts.addr ∧ (f, n) ∈ familyKeys m then conn else g.family q f n }
  | .restartTimer now => { g with clock := max g.clock now }
  | _ => g

/-- Every route of the peer came over its present connection or waits out a restart, whose deadline
the timer has not seen, and met the import filter if the neighbour requires one. -/
structure Owned (v : PeerView) (clock : ℕ) (own : NlriKey → UInt64) (fown : Family → FamilyNlri → UInt64) :
    Prop where
  unicast : ∀ k, v.offer k ≠ none → v.configured ∧ (v.conn = some (own k) ∨ v.Stale k.1)
  family : ∀ f n, v.family f n → v.configured ∧ v.conn = some (fown f n)
  policy : ∀ pp, v.props = some pp → pp.peerType = .ebgp → pp.requirePolicy = true →
    ∀ k path, v.offer k = some path →
      ∃ f raw, v.importFilter = some f ∧ filterPath (some f) k.1 raw = some path
  deadline : ∀ st, v.stale = some st → clock < st.deadline

namespace Owned
variable {v : PeerView} {clock : ℕ} {own : NlriKey → UInt64} {fown : Family → FamilyNlri → UInt64}

theorem unknown : Owned .unknown clock own fown where
  unicast _ h := absurd rfl h
  family _ _ h := h.elim
  policy _ h := by cases h
  deadline _ h := by cases h

/-- Fewer routes. -/
theorem shrink (h : Owned v clock own fown) {offer : NlriKey → Option Path}
    (hoffer : ∀ k path, offer k = some path → v.offer k = some path) :
    Owned { v with offer } clock own fown := by
  refine ⟨?_, h.family, ?_, h.deadline⟩
  · intro k hk
    obtain ⟨path, hpath⟩ := Option.ne_none_iff_exists'.mp hk
    exact h.unicast k (by rw [hoffer k path hpath]; simp)
  · intro pp hpp hebgp hreq k path hpath
    exact h.policy pp hpp hebgp hreq k path (hoffer k path hpath)

/-- A new connection of a peer whose routes all wait out a restart. -/
theorem connect (h : Owned v clock own fown) (hstale : ∀ k, v.offer k ≠ none → v.Stale k.1)
    (hfam : ∀ f n, ¬ v.family f n) (conn : Option UInt64) :
    Owned { v with conn } clock own fown where
  unicast k hk := ⟨(h.unicast k hk).1, Or.inr (hstale k hk)⟩
  family f n hn := absurd hn (hfam f n)
  policy := h.policy
  deadline := h.deadline

/-- The end of a restart, if the routes it does not reach were delivered again. -/
theorem finalised (h : Owned v clock own fown)
    (hset : ∀ x i, i ≠ 0 → v.Stale x → v.offer (x, i) ≠ none → v.conn = some (own (x, i))) :
    Owned v.finalised clock own fown := by
  have hoffer : ∀ k path, replay v.offer (ImportPolicy.clear v.staleKeys) k = some path →
      v.offer k = some path ∧ k ∉ v.staleKeys := by
    intro k path hk
    rw [ImportPolicy.clear, replay_clear] at hk
    split_ifs at hk with hmem
    exact ⟨hk, hmem⟩
  refine ⟨?_, h.family, ?_, fun _ hst => by cases hst⟩
  · intro k hk
    obtain ⟨path, hpath⟩ := Option.ne_none_iff_exists'.mp hk
    obtain ⟨hold, hnot⟩ := hoffer k path hpath
    have hne : v.offer k ≠ none := by simp [hold]
    obtain ⟨hconf, hconn | hst⟩ := h.unicast k hne
    · exact ⟨hconf, Or.inl hconn⟩
    · refine ⟨hconf, Or.inl (hset k.1 k.2 ?_ hst hne)⟩
      intro hzero
      have hkey : k = (k.1, 0) := Prod.ext rfl hzero
      exact hnot (hkey ▸ PeerView.mem_staleKeys.mpr hst)
  · intro pp hpp hebgp hreq k path hpath
    exact h.policy pp hpp hebgp hreq k path (hoffer k path hpath).1

/-- The timer fires before the deadline. -/
theorem tick (h : Owned v clock own fown) {now : ℕ} (hnow : ∀ st, v.stale = some st → now < st.deadline) :
    Owned v (max clock now) own fown where
  unicast := h.unicast
  family := h.family
  policy := h.policy
  deadline st hst := max_lt (h.deadline st hst) (hnow st hst)

end Owned

/-- An UPDATE handled in order. The routes whose staleness it ends are replaced or withdrawn by it, or
the present connection has delivered them. What it installs comes over the present connection of a
configured neighbour, and as external if the neighbour is external and has no filter though it
requires one. A peer over its limit holds no routes of other families. -/
structure Central.OrderlyUpdate (s : Central) (g : Deliveries) (conn : UInt64) (m : UpdateMsg) : Prop where
  refresh : s.fate m ≠ .overLimit → ∀ x ∈ Central.refreshed m.update, (s.view m.facts.addr).Stale x →
    ∀ i, held m.facts.addr s.rib (x, i) ≠ none → (x, i) ∈ (s.policyFor m.facts.addr).acted m ∨
      s.currentConn[m.facts.addr]? = some (g.unicast m.facts.addr (x, i))
  deliver : s.fate m = .taken → s.installedKeys m ≠ [] ∨ familyKeys m ≠ [] →
    m.facts.addr ∈ s.neighbors ∧ s.currentConn[m.facts.addr]? = some conn
  external : s.fate m = .taken → s.installedKeys m ≠ [] → ∀ pp, s.peers[m.facts.addr]? = some pp →
    pp.peerType = .ebgp → pp.requirePolicy = true → s.imports[m.facts.addr]? = none →
      m.facts.fromEbgp = true
  limit : s.fate m = .overLimit → ∀ f n, ¬ (s.view m.facts.addr).family f n

/-- The routes of a peer that the end of its restart does not reach were delivered again. -/
def Central.Settled (s : Central) (g : Deliveries) (p : IpAddr) : Prop :=
  ∀ x i, i ≠ 0 → (s.view p).Stale x → held p s.rib (x, i) ≠ none →
    s.currentConn[p]? = some (g.unicast p (x, i))

/-- No event replaces a connection that still has routes, and none takes routes from a connection
that is not the present one. -/
def Central.Orderly (s : Central) (g : Deliveries) : Event → Prop
  | .established m =>
    s.refuses m = true ∨
      (∀ k, held m.sess.addr s.rib k ≠ none → (s.view m.sess.addr).Stale k.1) ∧
        ∀ f n, ¬ (s.view m.sess.addr).family f n
  | .down _ _ now => g.clock ≤ now
  | .update conn m => m.facts.addr ∈ s.damped ∨ s.OrderlyUpdate g conn m
  | .endOfRib p conn _ => s.currentConn[p]? = some conn → s.Settled g p
  | .restartTimer now => ∀ p ∈ s.expired now, s.Settled g p
  | _ => True

namespace Central

/-- Every peer's routes are owned. -/
def AllOwned (s : Central) (g : Deliveries) : Prop :=
  ∀ p, Owned (s.view p) g.clock (g.unicast p) (g.family p)

variable {s : Central} {g : Deliveries}

theorem AllOwned.of_view {t : Central} (h : s.AllOwned g) (hv : ∀ p, t.view p = s.view p) : t.AllOwned g := by
  intro p
  rw [hv p]
  exact h p

theorem AllOwned.established (h : s.AllOwned g) {m : EstablishedMsg} (ho : s.Orderly g (.established m)) :
    (s.established m).AllOwned g := by
  intro p
  rw [view_established]
  split_ifs with hp
  · obtain ⟨href, rfl⟩ := hp
    rcases ho with hyes | ⟨hstale, hfam⟩
    · rw [href] at hyes
      cases hyes
    · exact (h m.sess.addr).connect hstale hfam _
  · exact h p

theorem AllOwned.down (h : s.AllOwned g) (p : IpAddr) (conn : UInt64) {now : ℕ} (hnow : g.clock ≤ now) :
    (s.down p conn now).AllOwned g := by
  intro q
  rw [view_down]
  split_ifs with hq hret
  · refine ⟨?_, fun _ _ hn => hn.elim, (h q).policy, ?_⟩
    · intro k hk
      refine ⟨((h q).unicast k hk).1, Or.inr ⟨_, rfl, ?_⟩⟩
      rw [staleEntry, ← hq.2]
      exact BgpRib.mem_prefixesFrom.mpr ⟨k.2, Option.isSome_iff_ne_none.mpr hk⟩
    · rintro st ⟨⟩
      show g.clock < now + max (s.grHelper[p]?.getD 0).toNat 1
      omega
  · refine ⟨fun _ hk => absurd rfl hk, fun _ _ hn => hn.elim, ?_, (h q).deadline⟩
    intro pp _ _ _ k path hpath
    cases hpath
  · exact h q

theorem AllOwned.finalise (h : s.AllOwned g) {l : List IpAddr} (hl : l.Nodup)
    (hset : ∀ p ∈ l, s.Settled g p) : (l.foldl Central.finalise s).AllOwned g := by
  intro p
  rw [view_foldl_finalise s hl]
  split_ifs with hp
  · exact (h p).finalised (hset p hp)
  · exact h p

theorem AllOwned.reconfig (h : s.AllOwned g) (remove : List IpAddr) (add : List NeighborConfig) :
    (s.reconfig remove add).AllOwned g := by
  refine forall_view_reconfig (I := fun p v => Owned v g.clock (g.unicast p) (g.family p))
    (fun _ => Owned.unknown) ?_ h
  intro q v hnot hv props filter
  -- a neighbour that was not configured had no routes
  have hnone : ∀ k, v.offer k = none := by
    intro k
    by_contra hk
    exact hnot (hv.unicast k hk).1
  refine ⟨fun k hk => absurd (hnone k) hk, fun f n hn => absurd (hv.family f n hn).1 hnot, ?_, hv.deadline⟩
  intro pp _ _ _ k path hpath
  have hpath' : v.offer k = some path := hpath
  rw [hnone k] at hpath'
  cases hpath'

end Central

theorem familyOf_of_foldl {ops : List FamilyOp} {ribs : Family → FamilyRib} {q : IpAddr} {f : Family}
    {n : FamilyNlri} (h : Central.familyOf (ops.foldl FamilyOp.apply ribs) q f n) :
    Central.familyOf ribs q f n ∨ ∃ p path, FamilyOp.update f p n path ∈ ops := by
  induction ops generalizing ribs with
  | nil => exact Or.inl h
  | cons op ops ih =>
    rcases ih h with hin | ⟨p, path, hmem⟩
    · cases op with
      | update g p n' path =>
        by_cases hf : f = g
        · subst hf
          obtain ⟨path', hmem⟩ := hin
          simp only [FamilyOp.apply, Function.update_self, List.mem_append, List.mem_filter,
            List.mem_singleton, Prod.mk.injEq] at hmem
          rcases hmem with hold | ⟨⟨-, rfl⟩, -⟩
          · exact Or.inl ⟨path', hold.1⟩
          · exact Or.inr ⟨p, path, by simp⟩
        · left
          simpa [Central.familyOf, FamilyOp.apply, hf] using hin
      | withdraw g p n' =>
        left
        obtain ⟨path', hmem⟩ := hin
        by_cases hf : f = g
        · subst hf
          simp only [FamilyOp.apply, Function.update_self, List.mem_filter] at hmem
          exact ⟨path', hmem.1⟩
        · simp only [FamilyOp.apply, Function.update_of_ne hf] at hmem
          exact ⟨path', hmem⟩
      | withdrawPeer p =>
        left
        obtain ⟨path', hmem⟩ := hin
        exact ⟨path', (List.mem_filter.mp hmem).1⟩
    · exact Or.inr ⟨p, path, by simp [hmem]⟩

theorem mem_familyKeys {m : UpdateMsg} {f : Family} {n : FamilyNlri} :
    (f, n) ∈ familyKeys m ↔ ∃ p path, FamilyOp.update f p n path ∈ familyOps m := by
  unfold familyKeys
  rw [List.mem_filterMap]
  constructor
  · rintro ⟨op, hop, heq⟩
    cases op with
    | update g p n' path =>
      cases heq
      exact ⟨p, path, hop⟩
    | withdraw g p n' => cases heq
    | withdrawPeer p => cases heq
  · rintro ⟨p, path, hop⟩
    exact ⟨_, hop, rfl⟩

namespace Central
variable {s : Central} {g : Deliveries}

section Update
variable {conn : UInt64} {m : UpdateMsg}

/-- The view of a peer after its UPDATE, unless that went over the limit. -/
def viewAfter (s : Central) (m : UpdateMsg) : PeerView :=
  { s.view m.facts.addr with
    stale := (s.stale[m.facts.addr]?).map (refresh m.update)
    offer := s.offerAfter m
    family := s.familyAfter m }

theorem deadline_of_refresh
    (h : Owned (s.view m.facts.addr) g.clock (g.unicast m.facts.addr) (g.family m.facts.addr)) (st : StalePeer)
    (hst : (s.stale[m.facts.addr]?).map (refresh m.update) = some st) : g.clock < st.deadline := by
  obtain ⟨old, hold, rfl⟩ := Option.map_eq_some_iff.mp hst
  exact h.deadline old hold

/-- A path that an UPDATE did not install is owned as it was before. -/
theorem unicast_of_kept
    (h : Owned (s.view m.facts.addr) g.clock (g.unicast m.facts.addr) (g.family m.facts.addr))
    (ho : s.OrderlyUpdate g conn m) (hfate : s.fate m ≠ .overLimit) {k : NlriKey}
    (hk : k ∉ s.installedKeys m) {path : Path} (hpath : s.offerAfter m k = some path) :
    m.facts.addr ∈ s.neighbors ∧ ((s.viewAfter m).conn = some (g.unicast m.facts.addr k) ∨
      (s.viewAfter m).Stale k.1) := by
  obtain ⟨hheld, hw⟩ := held_of_offerAfter hk hpath
  have hheld' : held m.facts.addr s.rib k ≠ none := by simp [hheld]
  obtain ⟨hconf, hconn | hst⟩ := h.unicast k hheld'
  · exact ⟨hconf, Or.inl hconn⟩
  · refine ⟨hconf, ?_⟩
    by_cases href : k.1 ∈ refreshed m.update
    · left
      refine (ho.refresh hfate k.1 href hst k.2 hheld').resolve_left ?_
      intro hact
      exact ((ImportPolicy.mem_acted _).mp hact).elim hw hk
    · right
      obtain ⟨st, hst, hmem⟩ := hst
      have hst' : s.stale[m.facts.addr]? = some st := hst
      exact ⟨refresh m.update st, by rw [viewAfter, hst', Option.map_some],
        List.mem_filter.mpr ⟨hmem, decide_eq_true href⟩⟩

/-- What an UPDATE installs has passed the filter that its neighbour requires. -/
theorem filter_of_installed (ho : s.OrderlyUpdate g conn m) (hfate : s.fate m = .taken) {k : NlriKey}
    (hk : k ∈ s.installedKeys m) {path : Path}
    (hpath : replay (held m.facts.addr s.rib) ((s.policyFor m.facts.addr).done m) k = some path)
    {pp : PeerProps} (hpp : s.peers[m.facts.addr]? = some pp) (hebgp : pp.peerType = .ebgp)
    (hreq : pp.requirePolicy = true) :
    ∃ f raw, s.imports[m.facts.addr]? = some f ∧ filterPath (some f) k.1 raw = some path := by
  obtain ⟨hrefused, raw, hraw⟩ := ImportPolicy.accepted_of_replay_done _ hk hpath
  have hfilter := ImportPolicy.filter_of_accepted _ hraw
  have himp : (s.policyFor m.facts.addr).importFilter = s.imports[m.facts.addr]? := rfl
  have hreq' : (s.policyFor m.facts.addr).requirePolicy = true := by simp [policyFor, hpp, hreq]
  cases hf : s.imports[m.facts.addr]? with
  | some f => exact ⟨f, raw, rfl, by rw [← hfilter, himp, hf]⟩
  | none =>
    -- without a filter, RFC 8212 would have refused the reachability as a whole
    exfalso
    have hebgp' := ho.external hfate (List.ne_nil_of_mem hk) pp hpp hebgp hreq hf
    rw [ImportPolicy.refused, Bool.or_eq_false_iff, ImportPolicy.rejectReach, hreq', hebgp', himp, hf] at hrefused
    simp [rfc8212Deny] at hrefused

/-- An UPDATE that is not over the limit, of which nothing is taken if it has a loop in it. -/
theorem owned_of_handled
    (h : Owned (s.view m.facts.addr) g.clock (g.unicast m.facts.addr) (g.family m.facts.addr))
    (ho : s.OrderlyUpdate g conn m) (hfate : s.fate m ≠ .overLimit) (fown : Family → FamilyNlri → UInt64)
    (hinstalled : ∀ k ∈ s.installedKeys m, s.fate m = .taken)
    (hfam : ∀ f n, s.familyAfter m f n → m.facts.addr ∈ s.neighbors ∧
      s.currentConn[m.facts.addr]? = some (fown f n)) :
    Owned (s.viewAfter m) g.clock
      (fun k => if k ∈ s.installedKeys m then conn else g.unicast m.facts.addr k) fown := by
  refine ⟨?_, hfam, ?_, deadline_of_refresh h⟩
  · intro k hk
    obtain ⟨path, hpath⟩ := Option.ne_none_iff_exists'.mp hk
    by_cases hin : k ∈ s.installedKeys m
    · obtain ⟨hconf, hconn⟩ := ho.deliver (hinstalled k hin) (Or.inl (List.ne_nil_of_mem hin))
      exact ⟨hconf, Or.inl (by rw [if_pos hin]; exact hconn)⟩
    · rw [if_neg hin]
      exact unicast_of_kept h ho hfate hin hpath
  · intro pp hpp hebgp hreq k path hpath
    have hpath' : s.offerAfter m k = some path := hpath
    by_cases hin : k ∈ s.installedKeys m
    · have htaken := hinstalled k hin
      simp only [offerAfter, htaken] at hpath'
      exact filter_of_installed ho htaken hin hpath' hpp hebgp hreq
    · exact h.policy pp hpp hebgp hreq k path (held_of_offerAfter hin hpath').1

theorem installedKeys_of_looped (hfate : s.fate m = .looped) : s.installedKeys m = [] := by
  have hloop : isLoop s.loc m.update = true := by
    unfold fate at hfate
    split_ifs at hfate with hloop
    exact hloop
  have hrefused : (s.policyFor m.facts.addr).refused m = true := by
    rw [ImportPolicy.refused, show (s.policyFor m.facts.addr).loc = s.loc from rfl, hloop, Bool.true_or]
  simp [installedKeys, ImportPolicy.installed, hrefused]

end Update

theorem AllOwned.update (h : s.AllOwned g) {conn : UInt64} {m : UpdateMsg}
    (ho : s.Orderly g (.update conn m)) : (s.update m).AllOwned (g.step s (.update conn m)) := by
  intro q
  rw [view_update]
  by_cases hq : q = m.facts.addr ∧ q ∉ s.damped
  · obtain ⟨rfl, hdamp⟩ := hq
    have ho' : s.OrderlyUpdate g conn m := ho.resolve_left hdamp
    rw [if_pos ⟨rfl, hdamp⟩]
    cases hfate : s.fate m with
    | looped =>
      have hstep : g.step s (.update conn m) = g := by simp [Deliveries.step, hfate]
      have hkeys := installedKeys_of_looped hfate
      have hown := owned_of_handled (h m.facts.addr) ho' (by simp [hfate]) (g.family m.facts.addr)
        (by simp [hkeys]) (by simp only [familyAfter, hfate]; exact (h m.facts.addr).family)
      simp only [hkeys, List.not_mem_nil, if_false] at hown
      rw [hstep]
      exact hown
    | overLimit =>
      have hstep : g.step s (.update conn m) = g := by simp [Deliveries.step, hfate]
      rw [hstep]
      refine ⟨?_, ?_, ?_, deadline_of_refresh (h m.facts.addr)⟩
      · intro k hk
        simp [offerAfter, hfate] at hk
      · intro f n hn
        simp only [familyAfter, hfate] at hn
        exact absurd hn (ho'.limit hfate f n)
      · intro pp _ _ _ k path hpath
        simp [offerAfter, hfate] at hpath
    | taken =>
      have hown : (g.step s (.update conn m)).clock = g.clock ∧
          (g.step s (.update conn m)).unicast m.facts.addr =
            (fun k => if k ∈ s.installedKeys m then conn else g.unicast m.facts.addr k) ∧
          (g.step s (.update conn m)).family m.facts.addr =
            fun f n => if (f, n) ∈ familyKeys m then conn else g.family m.facts.addr f n := by
        simp [Deliveries.step, hfate, hdamp]
      rw [hown.1, hown.2.1, hown.2.2]
      refine owned_of_handled (h m.facts.addr) ho' (by simp [hfate]) _ (fun _ _ => hfate) ?_
      intro f n hn
      simp only [familyAfter, hfate] at hn
      by_cases hin : (f, n) ∈ familyKeys m
      · rw [if_pos hin]
        exact ho'.deliver hfate (Or.inr (List.ne_nil_of_mem hin))
      · rw [if_neg hin]
        rcases familyOf_of_foldl hn with hold | hnew
        · exact (h m.facts.addr).family f n hold
        · exact absurd (mem_familyKeys.mpr hnew) hin
  · rw [if_neg hq]
    have hown : (g.step s (.update conn m)).clock = g.clock ∧
        (g.step s (.update conn m)).unicast q = g.unicast q ∧
        (g.step s (.update conn m)).family q = g.family q := by
      simp only [Deliveries.step]
      split_ifs with hskip
      · exact ⟨rfl, rfl, rfl⟩
      · have hne : q ≠ m.facts.addr := fun heq => hq ⟨heq, heq ▸ fun hd => hskip (Or.inl hd)⟩
        exact ⟨rfl, by funext k; simp [hne], by funext f n; simp [hne]⟩
    rw [hown.1, hown.2.1, hown.2.2]
    exact h q

theorem AllOwned.restartTimer (h : s.AllOwned g) {now : ℕ} (hset : ∀ p ∈ s.expired now, s.Settled g p) :
    (s.restartTimer now).AllOwned (g.step s (.restartTimer now)) := by
  intro p
  have hfin := h.finalise (expired_nodup s now) hset p
  refine hfin.tick ?_
  intro st hst
  rw [view_foldl_finalise s (expired_nodup s now)] at hst
  split_ifs at hst with hp
  · cases hst
  · by_contra hnot
    refine hp (List.mem_map.mpr ⟨(p, st), List.mem_filter.mpr ⟨?_, by simpa using hnot⟩, rfl⟩)
    exact Std.ExtTreeMap.mem_toList_iff_getElem?_eq_some.mpr hst

/-- One event keeps the routes owned. -/
theorem AllOwned.step (h : s.AllOwned g) {e : Event} (ho : s.Orderly g e) :
    (s.step e).AllOwned (g.step s e) := by
  cases e with
  | established m => exact h.established ho
  | down p conn now => exact h.down p conn ho
  | refreshRequest p conn => exact h.of_view (view_of_quiet rfl s)
  | endOfRib p conn v4 =>
    by_cases hconn : s.currentConn[p]? = some conn
    · have hfin := h.finalise (List.nodup_singleton p) (by simpa using ho hconn)
      simpa [Central.step, Central.endOfRib, Deliveries.step, hconn] using hfin
    · simpa [Central.step, Central.endOfRib, Deliveries.step, hconn] using h
  | update conn m => exact h.update ho
  | restartTimer now => exact h.restartTimer ho
  | teardown p => exact h.of_view (view_of_quiet rfl s)
  | redistribute r => exact h.of_view (view_of_quiet rfl s)
  | rtrFeed feed =>
    intro p
    obtain ⟨offer, hview, hoffer⟩ := view_rtrFeed s feed p
    show Owned ((s.rtrFeed feed).view p) g.clock (g.unicast p) (g.family p)
    rw [hview]
    exact (h p).shrink hoffer
  | bfdDown p => exact h.of_view (view_of_quiet rfl s)
  | refresh p => exact h.of_view (view_of_quiet rfl s)
  | reconfig remove add => exact h.reconfig remove add

end Central

/-- The central task together with the record of deliveries. -/
abbrev Watched := Central × Deliveries

namespace Watched

def step : Watched → Event → Watched := Run.observe Central.step Deliveries.step

def start (c : BgpConfig) : Watched := (.start c, ⟨fun _ _ => 0, fun _ _ _ => 0, 0⟩)

def run (c : BgpConfig) (es : List Event) : Watched := es.foldl step (start c)

theorem allOwned_start (c : BgpConfig) : (start c).1.AllOwned (start c).2 := by
  refine Central.AllOwned.reconfig ?_ [] c.neighbors
  intro p
  have hview : ∀ t : Central, t.rib = .withMaxPaths c.maxPaths → t.stale = ∅ →
      t.families = (fun _ => []) → Owned (t.view p) 0 (fun _ => 0) (fun _ _ => 0) := by
    intro t hrib hstale hfam
    have hnone : ∀ k, held p t.rib k = none := by
      intro k
      rw [hrib]
      simp [held, BgpRib.offer, BgpRib.withMaxPaths]
    refine ⟨fun k hk => absurd (hnone k) hk, ?_, ?_, ?_⟩
    · rintro f n ⟨path, hn⟩
      simp [hfam] at hn
    · intro pp _ _ _ k path hpath
      have hpath' : held p t.rib k = some path := hpath
      rw [hnone k] at hpath'
      cases hpath'
    · intro st hst
      simp [Central.view, hstale] at hst
  exact hview _ rfl rfl rfl

/-- No route outlives its session or goes past its policy. -/
structure RoutesOwned (w : Watched) : Prop where
  unicast : ∀ p x i, w.1.rib.offer x (p, i) ≠ none →
    p ∈ w.1.neighbors ∧ (w.1.currentConn[p]? = some (w.2.unicast p (x, i)) ∨
      ∃ st, w.1.stale[p]? = some st ∧ x ∈ st.prefixes ∧ w.2.clock < st.deadline)
  family : ∀ f p n path, ((p, n), path) ∈ w.1.families f →
    p ∈ w.1.neighbors ∧ w.1.currentConn[p]? = some (w.2.family p f n)
  policy : ∀ p pp, w.1.peers[p]? = some pp → pp.peerType = .ebgp → pp.requirePolicy = true →
    ∀ x i path, w.1.rib.offer x (p, i) = some path →
      ∃ f raw, w.1.imports[p]? = some f ∧ filterPath (some f) x raw = some path

theorem routesOwned_of_allOwned {w : Watched} (h : w.1.AllOwned w.2) : w.RoutesOwned where
  unicast p x i hx := by
    obtain ⟨hconf, hconn | ⟨st, hst, hmem⟩⟩ := (h p).unicast (x, i) hx
    · exact ⟨hconf, Or.inl hconn⟩
    · exact ⟨hconf, Or.inr ⟨st, hst, hmem, (h p).deadline st hst⟩⟩
  family f p n path hn := (h p).family f n ⟨path, hn⟩
  policy p pp hpp hebgp hreq x i path hpath := (h p).policy pp hpp hebgp hreq (x, i) path hpath

end Watched
end Wren.Daemon.Bgp
