import Wren.Daemon.Bgp.PeerView

/-! The helper of a graceful restart. The routes of a peer that went away are kept as stale until it
advertises them again. The first End-of-RIB marker, of whichever family, and the Restart Timer end
the restart for both families and give up what is still stale. -/

namespace Wren.Daemon.Bgp
open Wren.Core Wren.Bgp OrdMap Replica

/-- What a peer has done since it was last lost with its routes kept. -/
structure Restart where
  /-- The routes it had taught before. -/
  learned : NlriKey → Option Path
  /-- What it has made reachable since, in any encoding. -/
  readvertised : List NlriKey
  /-- The networks among them in the encodings that end staleness. -/
  refreshed : List Prefix
  /-- The families of its End-of-RIB markers, true for IPv4. -/
  markers : List Bool
  /-- Its Restart Timer has expired. -/
  timedOut : Bool

namespace Restart

def fresh : Restart := ⟨fun _ => none, [], [], [], false⟩

/-- A marker or the timer has ended the restart. -/
def Ended (r : Restart) : Prop := r.markers ≠ [] ∨ r.timedOut = true

/-- How the record of the peers follows the central task. -/
def step (g : IpAddr → Restart) (s : Central) : Event → IpAddr → Restart
  | .down p conn _ =>
    if s.currentConn[p]? = some conn then
      Function.update g p (if s.retained p then { fresh with learned := held p s.rib } else fresh)
    else g
  | .update _ m =>
    if m.facts.addr ∈ s.damped then g
    else
      Function.update g m.facts.addr
        { g m.facts.addr with
          readvertised := (g m.facts.addr).readvertised ++ reachKeys m.update
          refreshed := (g m.facts.addr).refreshed ++ Central.refreshed m.update }
  | .endOfRib p conn v4 =>
    if s.currentConn[p]? = some conn then
      Function.update g p { g p with markers := (g p).markers ++ [v4] }
    else g
  | .restartTimer now => fun p => if p ∈ s.expired now then { g p with timedOut := true } else g p
  | _ => g

/-- What is stale has not been advertised again, a route from before that was not advertised again is
stale or its network was refreshed under another path identifier, and nothing is stale after the end. -/
structure Tracks (r : Restart) (v : PeerView) : Prop where
  waiting : ∀ x, v.Stale x → x ∉ r.refreshed
  kept : ∀ x, r.learned (x, 0) ≠ none → (x, 0) ∉ r.readvertised → v.offer (x, 0) ≠ none →
    x ∈ r.refreshed ∨ v.Stale x
  ended : r.Ended → v.stale = none

namespace Tracks
variable {r : Restart} {v : PeerView}

theorem unknown : r.Tracks .unknown where
  waiting := by
    rintro x ⟨st, hst, -⟩
    cases hst
  kept _ _ _ h := absurd rfl h
  ended _ := rfl

/-- Only the stale networks and the routes count, and there may be fewer routes. -/
theorem shrink (h : r.Tracks v) {w : PeerView} (hstale : w.stale = v.stale)
    (hoffer : ∀ k, w.offer k ≠ none → v.offer k ≠ none) : r.Tracks w := by
  have hst : ∀ x, w.Stale x ↔ v.Stale x := by
    intro x
    rw [PeerView.Stale, hstale]
    rfl
  refine ⟨?_, ?_, ?_⟩
  · intro x hx
    exact h.waiting x ((hst x).mp hx)
  · intro x hl hr hx
    rw [hst]
    exact h.kept x hl hr (hoffer _ hx)
  · intro he
    rw [hstale]
    exact h.ended he

/-- The stale networks are those of all the routes of a peer that has just gone. -/
theorem retained {offer : NlriKey → Option Path} (st : StalePeer) (hst : v.stale = some st)
    (hall : ∀ x, v.offer (x, 0) ≠ none → x ∈ st.prefixes) :
    ({ fresh with learned := offer } : Restart).Tracks v where
  waiting := by simp [fresh]
  kept x _ _ hx := Or.inr ⟨st, hst, hall x hx⟩
  ended he := by simp [Ended, fresh] at he

theorem lost (hoffer : v.offer = fun _ => none) : fresh.Tracks v where
  waiting := by simp [fresh]
  kept x _ _ hx := absurd (by rw [hoffer]) hx
  ended he := by simp [Ended, fresh] at he

theorem finalised (h : r.Tracks v) {r' : Restart} (hlearned : r'.learned = r.learned)
    (hread : r'.readvertised = r.readvertised) (href : r'.refreshed = r.refreshed) :
    r'.Tracks v.finalised where
  waiting := by
    rintro x ⟨st, hst, -⟩
    cases hst
  kept := by
    intro x hl hr hx
    rw [hlearned] at hl
    rw [hread] at hr
    have hx' : replay v.offer (ImportPolicy.clear v.staleKeys) (x, 0) ≠ none := hx
    rw [ImportPolicy.clear, replay_clear] at hx'
    split_ifs at hx' with hmem
    · exact absurd rfl hx'
    · rcases h.kept x hl hr hx' with hin | hst
      · exact Or.inl (href ▸ hin)
      · exact absurd (PeerView.mem_staleKeys.mpr hst) hmem
  ended _ := rfl

end Tracks

/-- Every peer's record and state fit together. -/
def AllTracks (g : IpAddr → Restart) (s : Central) : Prop := ∀ p, (g p).Tracks (s.view p)

namespace AllTracks
variable {g : IpAddr → Restart} {s : Central}

theorem of_view {t : Central} (h : AllTracks g s) (hv : ∀ p, t.view p = s.view p) : AllTracks g t := by
  intro p
  rw [hv p]
  exact h p

theorem established (h : AllTracks g s) (m : EstablishedMsg) : AllTracks g (s.established m) := by
  intro p
  rw [Central.view_established]
  split_ifs
  · exact (h p).shrink rfl fun _ hk => hk
  · exact h p

theorem down (h : AllTracks g s) (p : IpAddr) (conn : UInt64) (now : ℕ) :
    AllTracks (step g s (.down p conn now)) (s.down p conn now) := by
  intro q
  rw [Central.view_down]
  simp only [step]
  by_cases hconn : s.currentConn[p]? = some conn
  · by_cases hq : q = p
    · subst hq
      simp only [hconn, if_true, and_self, Function.update_self]
      cases s.retained q with
      | true =>
        refine Tracks.retained (s.staleEntry q now) rfl ?_
        intro x hx
        exact BgpRib.mem_prefixesFrom.mpr ⟨0, Option.isSome_iff_ne_none.mpr hx⟩
      | false => exact Tracks.lost rfl
    · simp only [hconn, hq, and_false, if_false, if_true, Function.update_of_ne, ne_eq, not_false_eq_true]
      exact h q
  · simp only [hconn, if_false, false_and]
    exact h q

theorem update (h : AllTracks g s) (conn : UInt64) (m : UpdateMsg) :
    AllTracks (step g s (.update conn m)) (s.update m) := by
  intro q
  rw [Central.view_update]
  simp only [step]
  by_cases hdamp : m.facts.addr ∈ s.damped
  · have hneg : ¬ (q = m.facts.addr ∧ q ∉ s.damped) := fun hq => hq.2 (hq.1 ▸ hdamp)
    rw [if_neg hneg, if_pos hdamp]
    exact h q
  by_cases hq : q = m.facts.addr
  · subst hq
    rw [if_neg hdamp, if_pos ⟨rfl, hdamp⟩, Function.update_self]
    have hp := h m.facts.addr
    refine ⟨?_, ?_, ?_⟩
    · rintro x ⟨st, hst, hx⟩
      obtain ⟨old, hold, rfl⟩ := Option.map_eq_some_iff.mp hst
      obtain ⟨hmem, hnot⟩ := List.mem_filter.mp hx
      rw [List.mem_append, not_or]
      exact ⟨hp.waiting x ⟨old, hold, hmem⟩, by simpa using hnot⟩
    · intro x hl hr hx
      rw [List.mem_append, not_or] at hr
      obtain ⟨path, hpath⟩ := Option.ne_none_iff_exists'.mp hx
      obtain ⟨hheld, -⟩ := Central.held_of_offerAfter
        (fun hin => hr.2 (ImportPolicy.mem_reachKeys_of_mem_installed _ hin)) hpath
      have hheld' : held m.facts.addr s.rib (x, 0) ≠ none := by simp [hheld]
      rw [List.mem_append]
      rcases hp.kept x hl hr.1 hheld' with hin | ⟨st, hst, hmem⟩
      · exact Or.inl (Or.inl hin)
      · by_cases href : x ∈ Central.refreshed m.update
        · exact Or.inl (Or.inr href)
        · refine Or.inr ⟨Central.refresh m.update st, ?_, List.mem_filter.mpr ⟨hmem, decide_eq_true href⟩⟩
          have hst' : s.stale[m.facts.addr]? = some st := hst
          show (s.stale[m.facts.addr]?).map (Central.refresh m.update) = _
          rw [hst', Option.map_some]
    · intro he
      have hst : s.stale[m.facts.addr]? = none := hp.ended he
      show (s.stale[m.facts.addr]?).map (Central.refresh m.update) = none
      rw [hst, Option.map_none]
  · rw [if_neg hdamp, if_neg (fun hq' => hq hq'.1), Function.update_of_ne hq]
    exact h q

theorem endOfRib (h : AllTracks g s) (p : IpAddr) (conn : UInt64) (v4 : Bool) :
    AllTracks (step g s (.endOfRib p conn v4)) (s.endOfRib p conn) := by
  simp only [step, Central.endOfRib]
  by_cases hconn : s.currentConn[p]? = some conn
  · simp only [hconn, if_true, ne_eq, not_true_eq_false, if_false]
    intro q
    rw [Central.view_finalise]
    by_cases hq : q = p
    · subst hq
      rw [if_pos rfl, Function.update_self]
      exact (h q).finalised rfl rfl rfl
    · rw [if_neg hq, Function.update_of_ne hq]
      exact h q
  · simp only [hconn, if_false, ne_eq, not_false_eq_true, if_true]
    exact h

theorem restartTimer (h : AllTracks g s) (now : ℕ) :
    AllTracks (step g s (.restartTimer now)) (s.restartTimer now) := by
  intro q
  rw [Central.restartTimer, Central.view_foldl_finalise s (Central.expired_nodup s now)]
  simp only [step]
  split_ifs
  · exact (h q).finalised rfl rfl rfl
  · exact h q

theorem reconfig (h : AllTracks g s) (remove : List IpAddr) (add : List NeighborConfig) :
    AllTracks g (s.reconfig remove add) :=
  Central.forall_view_reconfig (fun _ => Tracks.unknown)
    (fun _ _ _ hv _ _ => hv.shrink rfl fun _ hk => hk) h

theorem step (h : AllTracks g s) (e : Event) : AllTracks (Restart.step g s e) (s.step e) := by
  cases e with
  | established m => exact h.established m
  | down p conn now => exact h.down p conn now
  | refreshRequest p conn => exact h.of_view (Central.view_of_quiet rfl s)
  | endOfRib p conn v4 => exact h.endOfRib p conn v4
  | update conn m => exact h.update conn m
  | restartTimer now => exact h.restartTimer now
  | teardown p => exact h.of_view (Central.view_of_quiet rfl s)
  | redistribute r => exact h.of_view (Central.view_of_quiet rfl s)
  | rtrFeed feed =>
    intro p
    obtain ⟨offer, hview, hoffer⟩ := Central.view_rtrFeed s feed p
    show (g p).Tracks ((s.rtrFeed feed).view p)
    rw [hview]
    refine (h p).shrink rfl ?_
    intro k hk
    obtain ⟨path, hpath⟩ := Option.ne_none_iff_exists'.mp hk
    have hold : held p s.rib k = some path := hoffer k path hpath
    show held p s.rib k ≠ none
    simp [hold]
  | bfdDown p => exact h.of_view (Central.view_of_quiet rfl s)
  | refresh p => exact h.of_view (Central.view_of_quiet rfl s)
  | reconfig remove add => exact h.reconfig remove add

end AllTracks

/-- The central task with the record of the restarts beside it. -/
def run (c : BgpConfig) (es : List Event) : Central × (IpAddr → Restart) :=
  es.foldl (Run.observe Central.step step) (.start c, fun _ => fresh)

theorem allTracks_run (c : BgpConfig) (es : List Event) : AllTracks (run c es).2 (run c es).1 := by
  refine (Run.every_true _ _ es).invariant (fun w : Central × (IpAddr → Restart) => AllTracks w.2 w.1) ?_
    fun w e hw _ => AllTracks.step hw e
  refine AllTracks.reconfig ?_ [] c.neighbors
  intro p
  refine Tracks.lost ?_
  funext k
  simp [Central.view, held, BgpRib.offer, BgpRib.withMaxPaths]

/-- The events that give up stale routes. -/
def flushes : Event → Bool
  | .endOfRib .. | .restartTimer _ => true
  | _ => false

/-- Only stale routes without a path identifier are given up. -/
theorem stale_of_flushed {s : Central} {e : Event} (he : flushes e = true) {p : IpAddr} {k : NlriKey}
    (hbefore : held p s.rib k ≠ none) (hafter : held p (s.step e).rib k = none) :
    k.2 = 0 ∧ (s.view p).Stale k.1 := by
  have hfin : ∀ l : List IpAddr, l.Nodup → s.step e = l.foldl Central.finalise s →
      k.2 = 0 ∧ (s.view p).Stale k.1 := by
    intro l hl heq
    have hview := Central.view_foldl_finalise s hl p
    have hoffer : ((l.foldl Central.finalise s).view p).offer k = none := by rwa [heq] at hafter
    rw [hview] at hoffer
    split_ifs at hoffer
    · have hclear : replay (held p s.rib) (ImportPolicy.clear (s.view p).staleKeys) k = none := hoffer
      rw [ImportPolicy.clear, replay_clear] at hclear
      split_ifs at hclear with hmem
      · obtain ⟨x, -, rfl⟩ := List.mem_map.mp hmem
        exact ⟨rfl, PeerView.mem_staleKeys.mp hmem⟩
      · exact absurd hclear hbefore
    · exact absurd hoffer hbefore
  cases e with
  | endOfRib q conn v4 =>
    by_cases hconn : s.currentConn[q]? = some conn
    · exact hfin [q] (List.nodup_singleton q) (by simp [Central.step, Central.endOfRib, hconn])
    · exact hfin [] List.nodup_nil (by simp [Central.step, Central.endOfRib, hconn])
  | restartTimer now => exact hfin _ (Central.expired_nodup s now) rfl
  | _ => cases he

/-- In every run: a marker or the timer removes no route of a network that the peer advertised again
in the base field or as IPv6; after the first of them no route without a path identifier is left that
was learned before and whose network was not advertised again; and later markers remove nothing. -/
theorem helper_law (c : BgpConfig) (es : List Event) :
    (∀ e, flushes e = true → ∀ p k, held p (run c es).1.rib k ≠ none →
      held p ((run c es).1.step e).rib k = none → k.1 ∉ ((run c es).2 p).refreshed) ∧
    (∀ p, ((run c es).2 p).Ended → ∀ x, ((run c es).2 p).learned (x, 0) ≠ none →
      (x, 0) ∉ ((run c es).2 p).readvertised → x ∉ ((run c es).2 p).refreshed →
        held p (run c es).1.rib (x, 0) = none) ∧
    ∀ p conn v4, ((run c es).2 p).Ended →
      ((run c es).1.step (.endOfRib p conn v4)).rib = (run c es).1.rib := by
  have hall := allTracks_run c es
  refine ⟨?_, ?_, ?_⟩
  · intro e he p k hbefore hafter
    exact (hall p).waiting k.1 (stale_of_flushed he hbefore hafter).2
  · intro p hend x hl hr href
    by_contra hx
    rcases (hall p).kept x hl hr hx with hin | ⟨st, hst, -⟩
    · exact href hin
    · rw [(hall p).ended hend] at hst
      cases hst
  · intro p conn v4 hend
    have hst : (run c es).1.stale[p]? = none := (hall p).ended hend
    simp [Central.step, Central.endOfRib, Central.finalise, hst]

end Restart

namespace Sample

/-- The network `2001:db8::/32`. -/
def net6 : Prefix := ⟨.v6 (0x20010db8 <<< 96), 32, by decide, by decide⟩

/-- A session with graceful restart comes up. -/
def restarting (o : UInt8) (conn : UInt64) : Event :=
  .established ⟨conn, o.toBitVec.setWidth 32, true, some 120, session o false⟩

/-- The next hop `2001:db8::1`. -/
def hop6 : List UInt8 := [0x20, 0x01, 0x0d, 0xb8, 0, 0, 0, 0, 0, 0, 0, 0, 0, 0, 0, 1]

def announceMp (afi : UInt16) (x : Prefix) : Update where
  attributes := [.origin .igp, .asPath [.sequence [65001]], .mpReachNlri afi safiUnicast hop6 [x]]

/-- The network is taught, the peer is lost at time zero, and it comes back. -/
def lossAndReturn (u : Update) : List Event :=
  [restarting 1 1, update 1 1 u, .down (addr 1) 1 0, restarting 1 2]

end Sample

namespace Restart

/-- Three restarts. A network that comes back with an IPv6 next hop is flushed nevertheless. A route
with a path identifier outlasts the timer. The marker for IPv4 takes an IPv6 network. -/
theorem not_forall_helper_law :
    (¬ ∀ (c : BgpConfig) (es : List Event) (e : Event), Interleaved (es ++ [e]) → flushes e = true →
      ∀ p k, held p (run c es).1.rib k ≠ none → held p ((run c es).1.step e).rib k = none →
        k ∉ ((run c es).2 p).readvertised) ∧
    (¬ ∀ (c : BgpConfig) (es : List Event), Interleaved es → ∀ p,
      (∀ v4, v4 ∈ ((run c es).2 p).markers) ∨ ((run c es).2 p).timedOut = true → ∀ k,
        ((run c es).2 p).learned k ≠ none → k ∉ ((run c es).2 p).readvertised →
          held p (run c es).1.rib k = none) ∧
    ¬ ∀ (c : BgpConfig) (es : List Event) (p : IpAddr) (conn : UInt64) (v4 : Bool),
      Interleaved (es ++ [.endOfRib p conn v4]) → ∀ q k, held q (run c es).1.rib k ≠ none →
        held q ((run c es).1.step (.endOfRib p conn v4)).rib k = none → k.1.isIpv4 = v4 := by
  refine ⟨?_, ?_, ?_⟩
  · intro hall
    refine hall Sample.config (Sample.lossAndReturn (Sample.announceTen [65001] []) ++
      [Sample.update 1 2 (Sample.announceMp afiIpv4 Sample.net10)]) (.endOfRib (Sample.addr 1) 2 true) ?_ rfl
      (Sample.addr 1) (Sample.net10, 0) (by decide +kernel) (by decide +kernel) (by decide +kernel)
    decide +kernel
  · intro hall
    have hbad := hall Sample.config [Sample.restarting 1 1,
      Sample.update 1 1 { Sample.announceTen [65001] [] with nlriPathIds := [1] }, .down (Sample.addr 1) 1 0,
      .restartTimer 120] ?_ (Sample.addr 1) (Or.inr (by decide +kernel)) (Sample.net10, 1) (by decide +kernel)
      (by decide +kernel)
    · revert hbad
      decide +kernel
    · decide +kernel
  · intro hall
    have hbad := hall Sample.config (Sample.lossAndReturn (Sample.announceMp afiIpv6 Sample.net6)) (Sample.addr 1)
      2 true ?_ (Sample.addr 1) (Sample.net6, 0) (by decide +kernel) (by decide +kernel)
    · revert hbad
      decide +kernel
    · decide +kernel

end Restart
end Wren.Daemon.Bgp
