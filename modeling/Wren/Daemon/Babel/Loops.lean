import Wren.Lib.DistanceVector
import Wren.Babel.Distances
import Wren.Daemon.Babel.Updates

/-! Loops in a network of Babel routers: whatever is lost, delayed or delivered again, a network that one router
originates has no loop, but where a router falls back on a stale route. -/

namespace Wren.Daemon.Babel
open Std OrdMap Wren.Core Wren.Babel

/-! Records -/

/-- What routers tell each other, with `p` originated by `id` alone: its distances are within `limit`, a link has a cost,
and the next hop is the sender. -/
structure Honest (p : Prefix) (id : RouterId) (limit : ℕ → Prop) (scope : Option RouterId) (tlvs : List Tlv) : Prop where
  adverts : ∀ a ∈ attributed scope tlvs, a.pfx = p →
    a.routerId = id ∧ a.seqno = ourSeqno ∧ (a.metric ≠ metricInfinity → limit a.metric.toNat)
  ihus : ∀ rxcost interval address, .ihu rxcost interval address ∈ tlvs → rxcost ≠ 0
  nextHops : ∀ ip, .nextHop ip ∉ tlvs

theorem attributed_received (scope : Option RouterId) (l : List Tlv) :
    attributed scope (l.map Tlv.received) = attributed scope l := by
  induction l generalizing scope with
  | nil => rfl
  | cons t l ih =>
    cases t with
    | update flags interval seqno metric pfx => exact congrArg (List.append _) (ih scope)
    | _ => exact ih _

section Records
variable {p : Prefix} {id : RouterId} {limit limit' : ℕ → Prop} {scope : Option RouterId} {t : Tlv} {l m : List Tlv}

theorem Honest.of_prefix (h : Honest p id limit scope l) (hpre : m <+: l.map Tlv.received) :
    Honest p id limit scope m := by
  obtain ⟨rest, hrest⟩ := hpre
  have hmem : ∀ t ∈ m, ∃ t' ∈ l, t'.received = t := by
    intro t ht
    have hboth : t ∈ l.map Tlv.received := hrest ▸ List.mem_append_left rest ht
    exact List.mem_map.mp hboth
  refine ⟨?_, ?_, ?_⟩
  · intro a ha
    refine h.adverts a ?_
    rw [← attributed_received, ← hrest, attributed_append]
    exact List.mem_append_left _ ha
  · intro rxcost interval address ht
    obtain ⟨t', ht', heq⟩ := hmem _ ht
    cases t' with
    | ihu rxcost' interval' address' =>
      cases heq
      exact h.ihus _ _ _ ht'
    | _ => cases heq
  · intro ip ht
    obtain ⟨t', ht', heq⟩ := hmem _ ht
    cases t' with
    | nextHop ip' => exact h.nextHops ip' ht'
    | _ => cases heq

theorem Honest.imp (h : Honest p id limit scope l) (himp : ∀ d, limit d → limit' d) : Honest p id limit' scope l :=
  { h with adverts := fun a ha hp => ⟨(h.adverts a ha hp).1, (h.adverts a ha hp).2.1,
      fun hfinite => himp _ ((h.adverts a ha hp).2.2 hfinite)⟩ }

theorem Honest.tail (h : Honest p id limit scope (t :: l)) : Honest p id limit (scopeAfter scope [t]) l where
  adverts a ha := h.adverts a (by
    have happend := attributed_append scope [t] l
    rw [List.singleton_append] at happend
    rw [happend]
    exact List.mem_append_right _ ha)
  ihus rxcost interval address ht := h.ihus _ _ _ (List.mem_cons_of_mem _ ht)
  nextHops ip ht := h.nextHops ip (List.mem_cons_of_mem _ ht)

end Records

/-- What a reader makes of some octets is honest, however much of them it gets. -/
def Truthful (p : Prefix) (id : RouterId) (limit : ℕ → Prop) (octets : List UInt8) : Prop :=
  ∀ pkt, Packet.decode (octets.take recvBuf) = .ok pkt → Honest p id limit none pkt.body

theorem Honest.truthful {p : Prefix} {id : RouterId} {limit : ℕ → Prop} {l : List Tlv} (h : Honest p id limit none l)
    (hbounded : ∀ t ∈ l, t.Bounded) : Truthful p id limit (Packet.encode ⟨l⟩) :=
  fun _ hdecode => h.of_prefix (prefix_of_decode hbounded hdecode)

/-! One router -/

/-- Every way to a neighbour has a cost. -/
def Priced (t : NeighbourTable) : Prop :=
  ∀ (a : IpAddr) (n : Neighbour), t.neighbours[a]? = some n → n.txcost ≠ 0

namespace Priced
variable {t : NeighbourTable}

theorem new : Priced .new := by
  intro a n hn
  simp [NeighbourTable.new] at hn

theorem getD (h : Priced t) (a : IpAddr) : ((t.neighbours[a]?).getD .new).txcost ≠ 0 := by
  cases hn : t.neighbours[a]? with
  | none => exact (by decide : metricInfinity ≠ 0)
  | some n => exact h a n hn

theorem onHello (h : Priced t) (src : IpAddr) (seqno : UInt16) (now : ℕ) : Priced (t.onHello src seqno now) := by
  intro a n hn
  unfold NeighbourTable.onHello at hn
  rw [getElem?_insert] at hn
  split_ifs at hn
  · rw [← Option.some.inj hn]
    exact h.getD src
  · exact h a n hn

theorem onIhu (h : Priced t) (src : IpAddr) {rxcost : UInt16} (hcost : rxcost ≠ 0) (now : ℕ) :
    Priced (t.onIhu src rxcost now) := by
  intro a n hn
  unfold NeighbourTable.onIhu at hn
  rw [getElem?_insert] at hn
  split_ifs at hn
  · rw [← Option.some.inj hn]
    exact hcost
  · exact h a n hn

theorem forget (h : Priced t) (addr : IpAddr) : Priced (t.forget addr) := by
  intro a n hn
  unfold NeighbourTable.forget at hn
  rw [getElem?_erase] at hn
  split_ifs at hn
  exact h a n hn

theorem expire (h : Priced t) (now : ℕ) : Priced (t.expire now helloTimeout ihuTimeout).1 := by
  intro a n hn
  rw [NeighbourTable.getElem?_expire] at hn
  obtain ⟨m, hm, hkept⟩ := Option.bind_eq_some_iff.mp hn
  split_ifs at hkept
  rw [← Option.some.inj hkept, Neighbour.age]
  split_ifs
  · exact (by decide : metricInfinity ≠ 0)
  · exact h a m hm

theorem cost_ne_zero (h : Priced t) (addr : IpAddr) : t.cost addr ≠ 0 := by
  unfold NeighbourTable.cost
  cases hn : t.neighbours[addr]? with
  | none => exact (by decide : metricInfinity ≠ 0)
  | some n =>
    rw [Option.elim_some, Neighbour.cost]
    split_ifs
    · exact (by decide : metricInfinity ≠ 0)
    · exact h addr n hn

end Priced

theorem rxcost_ne_zero (t : NeighbourTable) (addr : IpAddr) : t.rxcost addr ≠ 0 := by
  unfold NeighbourTable.rxcost
  cases t.neighbours[addr]? with
  | none => exact (by decide : metricInfinity ≠ 0)
  | some n =>
    rw [Option.elim_some, Neighbour.rxcost]
    split_ifs
    · exact (by decide : metricInfinity ≠ 0)
    · exact (by decide : nominalRxcost ≠ 0)
    · exact (by decide : metricInfinity ≠ 0)

def State.label (p : Prefix) (id : RouterId) (s : State) : WithTop ℕ := s.table.sources.label p id

/-- What holds of a router, with what it can have heard so far: its routes to `p` are as they have to be, links have a
cost, and the route it advertises is above the distance it goes by. Only the origin originates `p`. -/
structure State.Keeps (p : Prefix) (id : RouterId) (origin : Prop) (heard : IpAddr → ℕ → Prop) (s : State) : Prop where
  table : s.table.Sole p id ourSeqno heard
  priced : Priced s.neighbours
  relayed : ∀ e, s.relayed[p]? = some e → e.1 = id ∧ e.2.1 = ourSeqno ∧ s.label p id < .some e.2.2.toNat
  routerId : origin → s.routerId = id
  others : ¬ origin → p ∉ s.selfPrefixes ∧ s.redistributed[p]? = none ∧ p ∉ s.retractions

section Node
variable {p : Prefix} {id : RouterId} {origin : Prop} {heard heard' : IpAddr → ℕ → Prop} {s s' : State}

theorem State.Keeps.mono (h : s.Keeps p id origin heard) (hheard : ∀ a d, heard a d → heard' a d) :
    s.Keeps p id origin heard' :=
  { h with table := h.table.mono hheard }

/-- Only that `p` may be advertised no longer. -/
structure Quieter (p : Prefix) (s s' : State) : Prop where
  table : s'.table = s.table
  neighbours : s'.neighbours = s.neighbours
  relayed : ∀ e, s'.relayed[p]? = some e → s.relayed[p]? = some e
  routerId : s'.routerId = s.routerId
  selfPrefixes : s'.selfPrefixes = s.selfPrefixes
  redistributed : s'.redistributed = s.redistributed
  retractions : s'.retractions = s.retractions

theorem Quieter.refl (s : State) : Quieter p s s := ⟨rfl, rfl, fun _ h => h, rfl, rfl, rfl, rfl⟩

theorem Quieter.trans {s'' : State} (h : Quieter p s s') (h' : Quieter p s' s'') : Quieter p s s'' where
  table := h'.table.trans h.table
  neighbours := h'.neighbours.trans h.neighbours
  relayed e he := h.relayed e (h'.relayed e he)
  routerId := h'.routerId.trans h.routerId
  selfPrefixes := h'.selfPrefixes.trans h.selfPrefixes
  redistributed := h'.redistributed.trans h.redistributed
  retractions := h'.retractions.trans h.retractions

theorem State.Keeps.quieter (h : s.Keeps p id origin heard) (hq : Quieter p s s') : s'.Keeps p id origin heard where
  table := hq.table ▸ h.table
  priced := hq.neighbours ▸ h.priced
  relayed e he := by
    have hold := h.relayed e (hq.relayed e he)
    unfold State.label at hold ⊢
    rwa [hq.table]
  routerId horigin := hq.routerId.trans (h.routerId horigin)
  others := by
    rw [hq.selfPrefixes, hq.redistributed, hq.retractions]
    exact h.others

theorem State.Keeps.withTable (h : s.Keeps p id origin heard) {table : RouteTable} (htable : table.Sole p id ourSeqno heard)
    (hmoves : RouteTable.Moves p id heard s.table table) : State.Keeps p id origin heard { s with table } :=
  { h with
    table := htable
    relayed := fun e he => ⟨(h.relayed e he).1, (h.relayed e he).2.1, hmoves.label_le.trans_lt (h.relayed e he).2.2⟩ }

theorem quieter_forwardEvent (ifname : Option String) (vrfTable : UInt32) (s : State) (ev : BabelEvent) :
    Quieter p s (forwardEvent ifname vrfTable s ev).1 := by
  cases ev with
  | select pfx nextHop metric => exact .refl s
  | retract pfx =>
    refine ⟨rfl, rfl, ?_, rfl, rfl, rfl, rfl⟩
    intro e he
    simp only [forwardEvent, getElem?_erase] at he
    split_ifs at he
    exact he

theorem quieter_forwardEvents (vrfTable : UInt32) (s : State) (events : List BabelEvent) :
    Quieter p s (forwardEvents vrfTable s events).1 := by
  induction events generalizing s with
  | nil => exact .refl s
  | cons ev events ih => exact (quieter_forwardEvent none vrfTable s ev).trans (ih _)

theorem State.Keeps.lose (h : s.Keeps p id origin heard) (vrfTable : UInt32) {addr : IpAddr}
    (hfresh : ¬ s.table.StaleFor p (.neighbourLost addr)) :
    (loseNeighbour vrfTable s addr).1.Keeps p id origin heard ∧
      RouteTable.Moves p id heard s.table (loseNeighbour vrfTable s addr).1.table := by
  obtain ⟨htable, hmoves⟩ := h.table.neighbourLost hfresh
  have hquieter := quieter_forwardEvents (p := p) vrfTable
    { s with
      table := (s.table.neighbourLost addr).1
      neighbourIfindex := s.neighbourIfindex.erase addr } (s.table.neighbourLost addr).2
  have hkeeps := h.withTable htable hmoves
  have hindex : State.Keeps p id origin heard
      { s with
        table := (s.table.neighbourLost addr).1
        neighbourIfindex := s.neighbourIfindex.erase addr } := { hkeeps with }
  refine ⟨hindex.quieter hquieter, ?_⟩
  have htable' : (loseNeighbour vrfTable s addr).1.table = (s.table.neighbourLost addr).1 := hquieter.table
  rw [htable']
  exact hmoves

/-- A route that gets selected is advertised above the distance it is gone by. -/
theorem State.Keeps.select (h : s.Keeps p id origin heard) {pfx : Prefix} {originator : RouterId} {seqno metric : UInt16}
    {k : RouteKey} {nextHop : IpAddr} (nexthop : IpAddr) (hadvert : pfx = p → originator = id ∧ seqno = ourSeqno)
    (hselected : s.table.selected[pfx]? = some (k, nextHop, metric)) :
    (Reading.select pfx originator seqno nexthop s (.select pfx nextHop metric)).Keeps p id origin heard ∧
      (Reading.select pfx originator seqno nexthop s (.select pfx nextHop metric)).table = s.table := by
  simp only [Reading.select]
  split_ifs
  · refine ⟨{ h with relayed := ?_ }, rfl⟩
    intro e he
    rw [getElem?_insert] at he
    split_ifs at he with hp
    · obtain ⟨hid, hseqno⟩ := hadvert hp.symm
      rw [← Option.some.inj he]
      exact ⟨hid, hseqno, h.table.label_lt (hp ▸ hselected)⟩
    · exact h.relayed e he
  · exact ⟨h, rfl⟩

theorem State.Keeps.onUpdate {r : Reading} (h : r.state.Keeps p id origin heard) {src : IpAddr} (hnexthop : r.nexthop = src)
    (iface : Iface) (vrfTable : UInt32) {originator : RouterId} {seqno metric : UInt16} {pfx : Prefix}
    (hadvert : pfx = p → originator = id ∧ seqno = ourSeqno ∧ (metric ≠ metricInfinity → heard src metric.toNat))
    (hfresh : ¬ r.state.table.StaleFor p
      (.update pfx originator src r.nexthop seqno metric (r.state.neighbours.cost src))) :
    (r.onUpdate iface src vrfTable originator seqno metric pfx).state.Keeps p id origin heard ∧
      RouteTable.Moves p id heard r.state.table
        (r.onUpdate iface src vrfTable originator seqno metric pfx).state.table := by
  have hop : RouteTable.Op.Heard p id ourSeqno heard
      (.update pfx originator src r.nexthop seqno metric (r.state.neighbours.cost src)) := by
    intro hp hfinite feasible
    obtain ⟨hid, hseqno, hheard⟩ := hadvert hp
    exact ⟨hid, hseqno, h.priced.cost_ne_zero src, hfinite, hnexthop, hheard hfinite⟩
  obtain ⟨htable, hmoves⟩ := h.table.update ⟨pfx, originator, src⟩ hop hfresh
  have hevent : ∀ ev,
      (r.state.table.update pfx originator src r.nexthop seqno metric (r.state.neighbours.cost src)).2 = some ev →
      (∃ k nextHop metric', ev = .select pfx nextHop metric' ∧
        (r.state.table.update pfx originator src r.nexthop seqno metric (r.state.neighbours.cost src)).1.selected[pfx]? =
          some (k, nextHop, metric')) ∨ ev = .retract pfx := fun ev hev => event_reselect hev
  unfold Reading.onUpdate
  dsimp only at htable hmoves ⊢
  generalize r.state.table.update pfx originator src r.nexthop seqno metric (r.state.neighbours.cost src) = updated
    at htable hmoves hevent ⊢
  have hkeeps := h.withTable htable hmoves
  obtain ⟨table, event⟩ := updated
  cases event with
  | none => exact ⟨hkeeps, hmoves⟩
  | some ev =>
    have hselect : (Reading.select pfx originator seqno r.nexthop { r.state with table } ev).Keeps p id origin heard ∧
        (Reading.select pfx originator seqno r.nexthop { r.state with table } ev).table = table := by
      rcases hevent ev rfl with ⟨k, nextHop, chosen, rfl, hselected⟩ | rfl
      · exact hkeeps.select r.nexthop (fun hp => ⟨(hadvert hp).1, (hadvert hp).2.1⟩) hselected
      · exact ⟨hkeeps, rfl⟩
    have hquieter := quieter_forwardEvent (p := p) (some iface.name) vrfTable
      (Reading.select pfx originator seqno r.nexthop { r.state with table } ev) ev
    refine ⟨hselect.1.quieter hquieter, ?_⟩
    rw [hquieter.table, hselect.2]
    exact hmoves

/-- An Update of the packet makes `p` fall back on no stale route. -/
def Reading.Fresh (p : Prefix) (src : IpAddr) (r : Reading) : Tlv → Prop
  | .update _ _ seqno metric pfx =>
    ∀ originator ∈ r.routerId, ¬ r.state.table.StaleFor p
      (.update pfx originator src r.nexthop seqno metric (r.state.neighbours.cost src))
  | _ => True

instance (p : Prefix) (src : IpAddr) (r : Reading) : DecidablePred (r.Fresh p src) := fun tlv =>
  match tlv with
  | .update .. => inferInstanceAs (Decidable (∀ originator ∈ r.routerId, _))
  | .pad1 | .padN _ | .ackReq .. | .ack _ | .hello .. | .ihu .. | .routerId _ | .nextHop _ | .routeRequest _
  | .seqnoRequest .. | .unknown .. => inferInstanceAs (Decidable True)

theorem State.Keeps.put {r : Reading} (h : r.state.Keeps p id origin heard) {src : IpAddr} (hnexthop : r.nexthop = src)
    (iface : Iface) (ifindex : UInt32) (now : ℕ) (vrfTable : UInt32) {t : Tlv} {l : List Tlv}
    (hhonest : Honest p id (heard src) r.routerId (t :: l)) (hfresh : r.Fresh p src t) :
    (r.put iface ifindex src now vrfTable t).state.Keeps p id origin heard ∧
      RouteTable.Moves p id heard r.state.table (r.put iface ifindex src now vrfTable t).state.table ∧
      (r.put iface ifindex src now vrfTable t).nexthop = src ∧
      (r.put iface ifindex src now vrfTable t).routerId = scopeAfter r.routerId [t] := by
  cases t with
  | hello flags seqno interval =>
    exact ⟨{ h with priced := h.priced.onHello src seqno now }, .refl _, hnexthop, rfl⟩
  | ihu rxcost interval address =>
    simp only [Reading.put]
    split_ifs
    · have hcost := hhonest.ihus rxcost interval address List.mem_cons_self
      exact ⟨{ h with priced := h.priced.onIhu src hcost now }, .refl _, hnexthop, rfl⟩
    · exact ⟨h, .refl _, hnexthop, rfl⟩
  | nextHop ip => exact absurd List.mem_cons_self (hhonest.nextHops ip)
  | update flags interval seqno metric pfx =>
    simp only [Reading.put]
    cases hid : r.routerId with
    | none => exact ⟨h, .refl _, hnexthop, hid⟩
    | some originator =>
      have hadvert := hhonest.adverts ⟨originator, seqno, metric, pfx⟩ (by simp [attributed, hid])
      obtain ⟨hkeeps, hmoves⟩ := h.onUpdate hnexthop iface vrfTable hadvert (hfresh originator hid)
      refine ⟨hkeeps, hmoves, ?_, ?_⟩
      · unfold Reading.onUpdate
        dsimp only
        split
        · exact hnexthop
        · exact hnexthop
      · unfold Reading.onUpdate
        dsimp only
        split
        · exact hid
        · exact hid
  | _ => exact ⟨h, .refl _, hnexthop, rfl⟩

theorem State.Keeps.read {r : Reading} (h : r.state.Keeps p id origin heard) {src : IpAddr} (hnexthop : r.nexthop = src)
    (iface : Iface) (ifindex : UInt32) (now : ℕ) (vrfTable : UInt32) {l : List Tlv}
    (hhonest : Honest p id (heard src) r.routerId l)
    (hfresh : Run.Every (Reading.put iface ifindex src now vrfTable) (Reading.Fresh p src) r l) :
    (l.foldl (Reading.put iface ifindex src now vrfTable) r).state.Keeps p id origin heard ∧
      RouteTable.Moves p id heard r.state.table
        (l.foldl (Reading.put iface ifindex src now vrfTable) r).state.table := by
  induction l generalizing r with
  | nil => exact ⟨h, .refl _⟩
  | cons t l ih =>
    obtain ⟨hkeeps, hmoves, hnext, hscope⟩ := h.put hnexthop iface ifindex now vrfTable hhonest hfresh.1
    obtain ⟨hlast, hrest⟩ := ih hkeeps hnext (hscope ▸ hhonest.tail) hfresh.2
    exact ⟨hlast, hmoves.trans hrest⟩

/-! What is sent -/

/-- All that is sent is honest: distances are above the one the sender goes by, but for the origin. -/
def Sends (p : Prefix) (id : RouterId) (limit : ℕ → Prop) (outputs : List Output) : Prop :=
  ∀ ifindex octets, .send ifindex octets ∈ outputs → Truthful p id limit octets

theorem State.Keeps.adverts (h : s.Keeps p id origin heard) {a : Advert} (ha : a ∈ s.adverts) (hp : a.pfx = p) :
    a.routerId = id ∧ a.seqno = ourSeqno ∧
      (a.metric ≠ metricInfinity → ¬ origin → s.label p id < .some a.metric.toNat) := by
  unfold State.adverts at ha
  simp only [List.mem_append, List.mem_map] at ha
  rcases ha with ((⟨q, hq, rfl⟩ | ⟨e, he, rfl⟩) | ⟨q, hq, rfl⟩) | ⟨e, he, rfl⟩
  · obtain rfl : q = p := hp
    have horigin : origin := by
      by_contra hnot
      exact (h.others hnot).1 hq
    exact ⟨h.routerId horigin, rfl, fun _ hnot => absurd horigin hnot⟩
  · obtain rfl : e.1 = p := hp
    have horigin : origin := by
      by_contra hnot
      have hsome := ExtTreeMap.mem_toList_iff_getElem?_eq_some.mp he
      rw [(h.others hnot).2.1] at hsome
      cases hsome
    exact ⟨h.routerId horigin, rfl, fun _ hnot => absurd horigin hnot⟩
  · obtain rfl : q = p := hp
    have horigin : origin := by
      by_contra hnot
      exact (h.others hnot).2.2 hq
    exact ⟨h.routerId horigin, rfl, fun hfinite => absurd rfl hfinite⟩
  · obtain rfl : e.1 = p := hp
    have hsome := ExtTreeMap.mem_toList_iff_getElem?_eq_some.mp (List.mem_of_mem_filter he)
    obtain ⟨hid, hseqno, hlt⟩ := h.relayed e.2 hsome
    exact ⟨hid, hseqno, fun _ _ => hlt⟩

/-- Packets of a stream of honest Updates are honest. -/
theorem sends_sendChunks {limit : ℕ → Prop} {as : List Advert}
    (has : ∀ a ∈ as, a.pfx = p → a.routerId = id ∧ a.seqno = ourSeqno ∧ (a.metric ≠ metricInfinity → limit a.metric.toNat))
    (ifaces : List Iface) : Sends p id limit (sendChunks ifaces (stream none as)) := by
  intro ifindex octets hmem
  obtain ⟨iface, -, hsend⟩ := List.mem_flatMap.mp hmem
  obtain ⟨chunk, hchunk, heq⟩ := List.mem_map.mp hsend
  cases heq
  obtain ⟨n, hsmall⟩ := small_of_mem_chunkUpdates hchunk
  have hhonest : Honest p id limit none chunk := by
    refine ⟨?_, ?_, ?_⟩
    · intro a ha hp
      refine has a ?_ hp
      rw [← attributed_stream none as, ← attributed_chunkUpdates]
      exact List.mem_flatMap.mpr ⟨chunk, hchunk, ha⟩
    · intro rxcost interval address ht
      cases hsmall.records _ ht
    · intro ip ht
      cases hsmall.records _ ht
  refine hhonest.truthful ?_
  intro t ht
  cases hsmall.records t ht with
  | routerId id => trivial
  | update interval seqno metric pfx => trivial

theorem State.Keeps.sendUpdates (h : s.Keeps p id origin heard) (ifaces : List Iface) :
    (sendUpdates ifaces s).1.Keeps p id origin heard ∧ (Babel.sendUpdates ifaces s).1.table = s.table ∧
      Sends p id (fun d => ¬ origin → s.label p id < .some d) (Babel.sendUpdates ifaces s).2 := by
  refine ⟨{ h with others := fun hnot => ⟨(h.others hnot).1, (h.others hnot).2.1, List.not_mem_nil⟩ }, rfl, ?_⟩
  unfold Babel.sendUpdates
  dsimp only
  split_ifs
  · intro ifindex octets hmem
    cases hmem
  · rw [buildUpdateTlvs_eq_stream]
    exact sends_sendChunks (fun a ha hp => h.adverts ha hp) ifaces

theorem State.Keeps.sendHellos (h : s.Keeps p id origin heard) (limit : ℕ → Prop) (ifaces : List Iface) :
    (Babel.sendHellos ifaces s).1.Keeps p id origin heard ∧ Sends p id limit (Babel.sendHellos ifaces s).2 := by
  refine ⟨{ h with }, ?_⟩
  intro ifindex octets hmem
  obtain ⟨iface, -, heq⟩ := List.mem_map.mp hmem
  cases heq
  have hcases : ∀ t, t ∈ Tlv.hello 0 s.helloSeqno helloInterval :: s.neighbours.addresses.map (fun addr =>
      Tlv.ihu (s.neighbours.rxcost addr) ihuInterval (some addr)) →
      t = .hello 0 s.helloSeqno helloInterval ∨ ∃ addr, t = .ihu (s.neighbours.rxcost addr) ihuInterval (some addr) := by
    intro t ht
    rcases List.mem_cons.mp ht with rfl | ht
    · exact .inl rfl
    · obtain ⟨addr, -, rfl⟩ := List.mem_map.mp ht
      exact .inr ⟨addr, rfl⟩
  have hnone : ∀ addrs : List IpAddr, attributed none (addrs.map fun addr =>
      Tlv.ihu (s.neighbours.rxcost addr) ihuInterval (some addr)) = [] := by
    intro addrs
    induction addrs with
    | nil => rfl
    | cons addr addrs ih => exact ih
  refine Honest.truthful ⟨?_, ?_, ?_⟩ ?_
  · intro a ha
    rw [attributed, hnone] at ha
    · cases ha
    · intro _ h
      cases h
    · intro _ _ _ _ _ h
      cases h
  · intro rxcost interval address ht
    rcases hcases _ ht with heq | ⟨addr, heq⟩
    · cases heq
    · cases heq
      exact rxcost_ne_zero s.neighbours addr
  · intro ip ht
    rcases hcases _ ht with heq | ⟨addr, heq⟩
    · cases heq
    · cases heq
  · intro t ht
    rcases hcases _ ht with rfl | ⟨addr, rfl⟩
    · trivial
    · trivial

/-- A stream of one originator names it once. -/
theorem stream_same (id : RouterId) (as : List Advert) (h : ∀ a ∈ as, a.routerId = id) :
    stream (some id) as = as.map fun a => .update 0 updateInterval a.seqno a.metric a.pfx := by
  induction as with
  | nil => rfl
  | cons a as ih =>
    have ha : a.routerId = id := h a (by simp)
    rw [stream, ha, ih fun b hb => h b (by simp [hb])]
    simp

theorem State.Keeps.sendRetractions (h : s.Keeps p id origin heard) (limit : ℕ → Prop) (ifaces : List Iface) :
    Sends p id limit (Babel.sendRetractions ifaces s) := by
  unfold Babel.sendRetractions
  dsimp only
  split_ifs with hempty
  · intro ifindex octets hmem
    cases hmem
  · let own : List Advert := (s.selfPrefixes ++ s.redistributed.keys).map fun q =>
      ⟨s.routerId, ourSeqno, metricInfinity, q⟩
    have hsame : ∀ a ∈ own, a.routerId = s.routerId := by
      intro a ha
      obtain ⟨q, -, rfl⟩ := List.mem_map.mp ha
      rfl
    have hstream : Tlv.routerId s.routerId :: (s.selfPrefixes ++ s.redistributed.keys).map (fun q =>
        Tlv.update 0 updateInterval ourSeqno metricInfinity q) = stream none own := by
      have htail := stream_same s.routerId own hsame
      cases hown : own with
      | nil =>
        have hnil : s.selfPrefixes ++ s.redistributed.keys = [] := List.map_eq_nil_iff.mp hown
        simp [hnil] at hempty
      | cons a as =>
        rw [hown] at htail
        have ha : a.routerId = s.routerId := hsame a (by simp [hown])
        have hmap : (s.selfPrefixes ++ s.redistributed.keys).map (fun q =>
            Tlv.update 0 updateInterval ourSeqno metricInfinity q) =
            (a :: as).map fun a => .update 0 updateInterval a.seqno a.metric a.pfx := by
          rw [← hown, List.map_map]
          rfl
        rw [hmap, ← htail, stream, stream, ha]
        simp
    rw [hstream]
    refine sends_sendChunks ?_ ifaces
    intro a ha hp
    obtain ⟨q, hq, rfl⟩ := List.mem_map.mp ha
    obtain rfl : q = p := hp
    have horigin : origin := by
      by_contra hnot
      obtain ⟨hself, hredistributed, -⟩ := h.others hnot
      rcases List.mem_append.mp hq with hq | hq
      · exact hself hq
      · rw [ExtTreeMap.mem_keys, ExtTreeMap.mem_iff_isSome_getElem?, hredistributed] at hq
        cases hq
    exact ⟨h.routerId horigin, rfl, fun hfinite => absurd rfl hfinite⟩

theorem State.Keeps.redistribute (h : s.Keeps p id origin heard) (metric : UInt16) (r : Redistribution)
    (hr : ∀ route, r = .announce route → ¬ origin → route.pfx ≠ p) :
    (applyRedistribution metric s r).1.Keeps p id origin heard ∧ (applyRedistribution metric s r).1.table = s.table := by
  cases r with
  | announce route =>
    simp only [applyRedistribution]
    split_ifs
    · exact ⟨h, rfl⟩
    · exact ⟨h, rfl⟩
    · refine ⟨{ h with others := ?_ }, rfl⟩
      intro hnot
      obtain ⟨hself, hredistributed, hretractions⟩ := h.others hnot
      refine ⟨hself, ?_, fun hmem => hretractions (List.mem_of_mem_filter hmem)⟩
      rw [getElem?_insert, if_neg (Ne.symm (hr route rfl hnot)), hredistributed]
  | withdraw pfx =>
    simp only [applyRedistribution]
    split_ifs with hcontains
    · refine ⟨{ h with others := ?_ }, rfl⟩
      intro hnot
      obtain ⟨hself, hredistributed, hretractions⟩ := h.others hnot
      have hne : p ≠ pfx := by
        rintro rfl
        rw [ExtTreeMap.contains_eq_isSome_getElem?, hredistributed] at hcontains
        cases hcontains
      refine ⟨hself, ?_, ?_⟩
      · rw [getElem?_erase, if_neg hne, hredistributed]
      · simp [hretractions, hne]
    · exact ⟨h, rfl⟩

/-! Events -/

/-- An event brings only what has been heard, and makes another router no origin of `p`. -/
def Event.Admissible (p : Prefix) (id : RouterId) (origin : Prop) (heard : IpAddr → ℕ → Prop) : Event → Prop
  | .datagram dg _ => ∀ pkt, Packet.decode dg.data = .ok pkt → Honest p id (heard (.v6 dg.src)) none pkt.body
  | .redist r => ∀ route, r = .announce route → ¬ origin → route.pfx ≠ p
  | _ => True

/-- Nothing that happens at the event makes `p` fall back on a stale route. -/
def State.Fresh (p : Prefix) (cfg : Config) (s : State) : Event → Prop
  | .datagram dg now =>
    ∀ q ∈ parseDatagram cfg.ifaces dg,
      Run.Every (Reading.put q.1 dg.ifindex (.v6 dg.src) now cfg.vrfTable) (Reading.Fresh p (.v6 dg.src))
        ⟨s, none, .v6 dg.src, false, []⟩ q.2
  | .bfdDown peer => s.neighbours.contains peer = true → ¬ s.table.StaleFor p (.neighbourLost peer)
  | .housekeeping now =>
    let expired := s.neighbours.expire now helloTimeout ihuTimeout
    Run.Every (fun s addr => (loseNeighbour cfg.vrfTable s addr).1)
      (fun s addr => ¬ s.table.StaleFor p (.neighbourLost addr)) { s with neighbours := expired.1 } expired.2
  | _ => True

theorem State.Keeps.loseAll (h : s.Keeps p id origin heard) (vrfTable : UInt32) {dead : List IpAddr}
    (hfresh : Run.Every (fun s addr => (loseNeighbour vrfTable s addr).1)
      (fun s addr => ¬ s.table.StaleFor p (.neighbourLost addr)) s dead) :
    (loseNeighbours vrfTable s dead).1.Keeps p id origin heard ∧
      RouteTable.Moves p id heard s.table (loseNeighbours vrfTable s dead).1.table := by
  induction dead generalizing s with
  | nil => exact ⟨h, .refl _⟩
  | cons addr dead ih =>
    obtain ⟨hkeeps, hmoves⟩ := h.lose vrfTable hfresh.1
    obtain ⟨hlast, hrest⟩ := ih hkeeps hfresh.2
    exact ⟨hlast, hmoves.trans hrest⟩

theorem sends_append {limit : ℕ → Prop} {os os' : List Output} (h : Sends p id limit os) (h' : Sends p id limit os') :
    Sends p id limit (os ++ os') := by
  intro ifindex octets hmem
  rcases List.mem_append.mp hmem with hmem | hmem
  · exact h ifindex octets hmem
  · exact h' ifindex octets hmem

theorem sends_route (limit : ℕ → Prop) (us : List RouteUpdate) : Sends p id limit (us.map .route) := by
  intro ifindex octets hmem
  obtain ⟨u, -, heq⟩ := List.mem_map.mp hmem
  cases heq

theorem sends_nil (limit : ℕ → Prop) : Sends p id limit [] := fun _ _ hmem => absurd hmem List.not_mem_nil

/-- What one event does to a router. -/
theorem State.Keeps.step (h : s.Keeps p id origin heard) (cfg : Config) {event : Event}
    (hevent : event.Admissible p id origin heard) (hfresh : s.Fresh p cfg event) :
    (s.step cfg event).1.Keeps p id origin heard ∧
      RouteTable.Moves p id heard s.table (s.step cfg event).1.table ∧
      Sends p id (fun d => ¬ origin → (s.step cfg event).1.label p id < .some d) (s.step cfg event).2 := by
  cases event with
  | datagram dg now =>
    have hhandled : (handleDatagram cfg.ifaces cfg.vrfTable s dg now).1.Keeps p id origin heard ∧
        RouteTable.Moves p id heard s.table (handleDatagram cfg.ifaces cfg.vrfTable s dg now).1.table := by
      unfold handleDatagram
      cases hparse : parseDatagram cfg.ifaces dg with
      | none => exact ⟨h, .refl _⟩
      | some q =>
        have hhonest : Honest p id (heard (.v6 dg.src)) none q.2 := by
          unfold parseDatagram at hparse
          cases hdecode : Packet.decode dg.data with
          | error e =>
            rw [hdecode] at hparse
            cases hparse
          | ok pkt =>
            rw [hdecode] at hparse
            obtain ⟨iface, -, rfl⟩ := Option.map_eq_some_iff.mp hparse
            exact hevent pkt hdecode
        exact State.Keeps.read (r := ⟨s, none, .v6 dg.src, false, []⟩) h rfl q.1 dg.ifindex now cfg.vrfTable hhonest
          (hfresh q hparse)
    obtain ⟨hkeeps, hmoves⟩ := hhandled
    simp only [State.step]
    split_ifs
    · obtain ⟨hlast, htable, hsends⟩ := hkeeps.sendUpdates cfg.ifaces
      refine ⟨hlast, htable ▸ hmoves, sends_append (sends_route _ _) ?_⟩
      simpa only [State.label, htable] using hsends
    · exact ⟨hkeeps, hmoves, sends_append (sends_route _ _) (sends_nil _)⟩
  | bfdDown peer =>
    simp only [State.step]
    split_ifs with hcontains
    · have hforget : State.Keeps p id origin heard { s with neighbours := s.neighbours.forget peer } :=
        { h with priced := h.priced.forget peer }
      obtain ⟨hkeeps, hmoves⟩ := hforget.lose cfg.vrfTable (hfresh hcontains)
      obtain ⟨hlast, htable, hsends⟩ := hkeeps.sendUpdates cfg.ifaces
      refine ⟨hlast, htable ▸ hmoves, sends_append (sends_route _ _) ?_⟩
      simpa only [State.label, htable] using hsends
    · exact ⟨h, .refl _, sends_nil _⟩
  | hello =>
    obtain ⟨hlast, hsends⟩ := h.sendHellos (fun d => ¬ origin → s.label p id < .some d) cfg.ifaces
    exact ⟨hlast, .refl _, hsends⟩
  | update =>
    obtain ⟨hlast, htable, hsends⟩ := h.sendUpdates cfg.ifaces
    refine ⟨hlast, htable ▸ .refl _, ?_⟩
    simpa only [State.label, State.step, htable] using hsends
  | housekeeping now =>
    have hexpired : State.Keeps p id origin heard
        { s with neighbours := (s.neighbours.expire now helloTimeout ihuTimeout).1 } :=
      { h with priced := h.priced.expire now }
    obtain ⟨hkeeps, hmoves⟩ := hexpired.loseAll cfg.vrfTable hfresh
    exact ⟨hkeeps, hmoves, sends_route _ _⟩
  | redist r =>
    obtain ⟨hkeeps, htable⟩ := h.redistribute cfg.redistributeMetric r hevent
    simp only [State.step]
    split_ifs
    · obtain ⟨hlast, htable', hsends⟩ := hkeeps.sendUpdates cfg.ifaces
      refine ⟨hlast, ?_, ?_⟩
      · rw [htable', htable]
        exact .refl _
      · simpa only [State.label, htable'] using hsends
    · refine ⟨hkeeps, ?_, sends_nil _⟩
      rw [htable]
      exact .refl _
  | shutdown => exact ⟨h, .refl _, h.sendRetractions _ cfg.ifaces⟩

end Node

instance (p : Prefix) (cfg : Config) (s : State) : DecidablePred (s.Fresh p cfg) := fun event =>
  match event with
  | .datagram dg _ => inferInstanceAs (Decidable (∀ q ∈ parseDatagram cfg.ifaces dg, Run.Every _ _ _ _))
  | .bfdDown _ => inferInstanceAs (Decidable (_ = true → ¬ _))
  | .housekeeping _ => inferInstanceAs (Decidable (Run.Every _ _ _ _))
  | .hello | .update | .redist _ | .shutdown => inferInstanceAs (Decidable True)

/-! The network -/

/-- Routers, and the address that each of them sends from on an interface. -/
structure Network (ι : Type) where
  config : ι → Config
  source : ι → UInt32 → BitVec 128

/-- The routers, and every datagram that was ever sent, with its source address. -/
structure World (ι : Type) where
  nodes : ι → Runner
  sent : List (BitVec 128 × List UInt8)

/-- What may happen next. A datagram may be delivered late, again, on any interface of any router, or never. -/
inductive Action (ι : Type) where
  | start (i : ι)
  | deliver (i : ι) (ifindex : UInt32) (n now : ℕ)
  | bfdDown (i : ι) (peer : IpAddr)
  | hello (i : ι)
  | update (i : ι)
  | housekeeping (i : ι) (now : ℕ)
  | redist (i : ι) (r : Redistribution)
  | shutdown (i : ι)

namespace Network
variable {ι : Type} [DecidableEq ι]

def init (net : Network ι) : World ι where
  nodes i := (net.config i).start
  sent := []

/-- The event that an action is for a router. -/
def event (w : World ι) : Action ι → Option (ι × Event)
  | .start _ => none
  | .deliver i ifindex n now => (w.sent[n]?).map fun d => (i, .datagram ⟨ifindex, d.1, d.2.take recvBuf⟩ now)
  | .bfdDown i peer => some (i, .bfdDown peer)
  | .hello i => some (i, .hello)
  | .update i => some (i, .update)
  | .housekeeping i now => some (i, .housekeeping now)
  | .redist i r => some (i, .redist r)
  | .shutdown i => some (i, .shutdown)

/-- The datagrams among what a router gives out. -/
def datagrams (net : Network ι) (i : ι) (outputs : List Output) : List (BitVec 128 × List UInt8) :=
  outputs.filterMap fun output =>
    match output with
    | .send ifindex octets => some (net.source i ifindex, octets)
    | _ => none

def step (net : Network ι) (w : World ι) (action : Action ι) : World ι :=
  match action with
  | .start i => { w with sent := w.sent ++ net.datagrams i (net.config i).announce }
  | _ =>
    match event w action with
    | none => w
    | some (i, e) =>
      let stepped := (w.nodes i).step (net.config i) e
      { nodes := Function.update w.nodes i stepped.1
        sent := w.sent ++ net.datagrams i stepped.2 }

/-- No router falls back on a stale route to `p`. -/
def Fresh (net : Network ι) (p : Prefix) (w : World ι) (action : Action ι) : Prop :=
  ∀ e ∈ event w action, (w.nodes e.1).state.Fresh p (net.config e.1) e.2

instance (net : Network ι) (p : Prefix) (w : World ι) : DecidablePred (net.Fresh p w) := fun action =>
  inferInstanceAs (Decidable (∀ e ∈ event w action, _))

/-- The selected route of `x` leads to an address of `y`. -/
def Forwards (net : Network ι) (p : Prefix) (w : World ι) (x y : ι) : Prop :=
  ∃ s ifindex, (w.nodes x).state.table.selected[p]? = some s ∧ s.2.1 = .v6 (net.source y ifindex)

/-- A reader of the octets is told of `p` at the distance `d`. -/
def Announces (p : Prefix) (octets : List UInt8) (d : ℕ) : Prop :=
  ∃ pkt, Packet.decode (octets.take recvBuf) = .ok pkt ∧
    ∃ a ∈ attributed none pkt.body, a.pfx = p ∧ a.metric ≠ metricInfinity ∧ a.metric.toNat = d

def Heard (p : Prefix) (w : World ι) (a : IpAddr) (d : ℕ) : Prop :=
  ∃ src octets, a = .v6 src ∧ (src, octets) ∈ w.sent ∧ Announces p octets d

/-- The network as one of distances. -/
def view (net : Network ι) (p : Prefix) (id : RouterId) (w : World ι) : DistanceVector.View ι ℕ where
  label i := (w.nodes i).state.label p id
  advert i d := ∃ ifindex octets, (net.source i ifindex, octets) ∈ w.sent ∧ Announces p octets d
  next := net.Forwards p w

structure Invariant (net : Network ι) (o : ι) (p : Prefix) (w : World ι) : Prop where
  nodes : ∀ i, (w.nodes i).state.Keeps p (net.config o).routerId (i = o) (Heard p w)
  sent : ∀ d ∈ w.sent, Truthful p (net.config o).routerId (fun _ => True) d.2
  sound : DistanceVector.Sound o (net.view p (net.config o).routerId w)

section Steps
variable {net : Network ι} {o : ι} {p : Prefix} {w : World ι}

omit [DecidableEq ι] in
theorem mem_datagrams {i : ι} {outputs : List Output} {d : BitVec 128 × List UInt8}
    (h : d ∈ net.datagrams i outputs) : ∃ ifindex, d.1 = net.source i ifindex ∧ .send ifindex d.2 ∈ outputs := by
  obtain ⟨output, hmem, heq⟩ := List.mem_filterMap.mp h
  cases output with
  | send ifindex octets =>
    cases heq
    exact ⟨ifindex, rfl, hmem⟩
  | _ => cases heq

theorem limit_of_announces {id : RouterId} {limit : ℕ → Prop} {octets : List UInt8} (h : Truthful p id limit octets)
    {d : ℕ} (hd : Announces p octets d) : limit d := by
  obtain ⟨pkt, hdecode, a, ha, hp, hfinite, rfl⟩ := hd
  exact ((h pkt hdecode).adverts a ha hp).2.2 hfinite

omit [DecidableEq ι] in
theorem heard_mono {w' : World ι} (h : ∀ d ∈ w.sent, d ∈ w'.sent) (a : IpAddr) (d : ℕ) (hd : Heard p w a d) :
    Heard p w' a d := by
  obtain ⟨src, octets, ha, hmem, hann⟩ := hd
  exact ⟨src, octets, ha, h _ hmem, hann⟩

omit [DecidableEq ι] in
theorem invariant_init (horigin : ∀ i, i ≠ o → p ∉ (net.config i).selfPrefixes) : net.Invariant o p net.init where
  nodes i :=
    { table := RouteTable.sole_new
      priced := Priced.new
      relayed := fun e he => by simp [init, Config.start] at he
      routerId := fun hi => by rw [hi]; rfl
      others := fun hi => ⟨horigin i hi, by simp [init, Config.start], by simp [init, Config.start]⟩ }
  sent d hd := by cases hd
  sound :=
    { advert := fun x d _ hadvert => by
        obtain ⟨ifindex, octets, hmem, -⟩ := hadvert
        cases hmem
      next := fun x y _ _ hnext => by
        obtain ⟨s, ifindex, hs, -⟩ := hnext
        simp [init, Config.start, RouteTable.new] at hs }

/-- What a router sends joins what was sent before. -/
theorem Invariant.act (h : net.Invariant o p w) (hdistinct : ∀ i j a b, net.source i a = net.source j b → i = j) {i : ι}
    {node : Runner} {outputs : List Output}
    (hkeeps : node.state.Keeps p (net.config o).routerId (i = o) (Heard p w))
    (hmoves : RouteTable.Moves p (net.config o).routerId (Heard p w) (w.nodes i).state.table node.state.table)
    (hsends : Sends p (net.config o).routerId
      (fun d => i ≠ o → node.state.label p (net.config o).routerId < .some d) outputs) :
    net.Invariant o p ⟨Function.update w.nodes i node, w.sent ++ net.datagrams i outputs⟩ := by
  let w' : World ι := ⟨Function.update w.nodes i node, w.sent ++ net.datagrams i outputs⟩
  have hself : w'.nodes i = node := Function.update_self ..
  have hother : ∀ j, j ≠ i → w'.nodes j = w.nodes j := fun j hj => Function.update_of_ne hj ..
  have hheard : ∀ a d, Heard p w a d → Heard p w' a d := heard_mono fun d hd => List.mem_append_left _ hd
  refine ⟨?_, ?_, h.sound.step ⟨?_, ?_, ?_⟩⟩
  · intro j
    change (w'.nodes j).state.Keeps p (net.config o).routerId (j = o) (Heard p w')
    by_cases hj : j = i
    · subst hj
      rw [hself]
      exact hkeeps.mono hheard
    · rw [hother j hj]
      exact (h.nodes j).mono hheard
  · intro d hd
    rcases List.mem_append.mp hd with hd | hd
    · exact h.sent d hd
    · obtain ⟨ifindex, -, hmem⟩ := mem_datagrams hd
      exact fun pkt hdecode => (hsends ifindex d.2 hmem pkt hdecode).imp fun _ _ => trivial
  · intro j
    change (w'.nodes j).state.label p (net.config o).routerId ≤ (w.nodes j).state.label p (net.config o).routerId
    by_cases hj : j = i
    · subst hj
      rw [hself]
      exact hmoves.label_le
    · rw [hother j hj]
  · intro x d hx hadvert
    obtain ⟨ifindex, octets, hmem, hann⟩ := hadvert
    rcases List.mem_append.mp hmem with hmem | hmem
    · exact .inl ⟨ifindex, octets, hmem, hann⟩
    · obtain ⟨ifindex', hsource, hsend⟩ := mem_datagrams hmem
      obtain rfl : x = i := hdistinct _ _ _ _ hsource
      refine .inr ?_
      change (w'.nodes x).state.label p (net.config o).routerId < .some d
      rw [hself]
      exact limit_of_announces (hsends ifindex' octets hsend) hann hx
  · intro x y _ hnext
    obtain ⟨s', ifindex, hs', hhop'⟩ := hnext
    change (w'.nodes x).state.table.selected[p]? = some s' at hs'
    by_cases hxi : x = i
    · subst hxi
      rw [hself] at hs'
      rcases hmoves.next s' hs' with ⟨s, hs, hhop, hlabel⟩ | ⟨d, hd, hle⟩
      · refine .inl ⟨⟨s, ifindex, hs, hhop.trans hhop'⟩, ?_⟩
        change (w'.nodes x).state.label p (net.config o).routerId = (w.nodes x).state.label p (net.config o).routerId
        rw [hself]
        exact hlabel
      · obtain ⟨src, octets, hsrc, hmem, hann⟩ := hd
        have haddr : src = net.source y ifindex := IpAddr.v6.inj (hsrc.symm.trans hhop')
        refine .inr ⟨d, ⟨ifindex, octets, haddr ▸ hmem, hann⟩, ?_⟩
        change .some d ≤ (w'.nodes x).state.label p (net.config o).routerId
        rw [hself]
        exact hle
    · rw [hother x hxi] at hs'
      refine .inl ⟨⟨s', ifindex, hs', hhop'⟩, ?_⟩
      change (w'.nodes x).state.label p (net.config o).routerId = (w.nodes x).state.label p (net.config o).routerId
      rw [hother x hxi]

theorem state_step (cfg : Config) (r : Runner) (e : Event) :
    (r.step cfg e).1.state = (r.state.step cfg e).1 ∧
      ∀ ifindex octets, .send ifindex octets ∈ (r.step cfg e).2 → .send ifindex octets ∈ (r.state.step cfg e).2 := by
  unfold Runner.step
  dsimp only
  split_ifs
  · unfold reconcileBfd
    split_ifs
    · exact ⟨rfl, fun _ _ hmem => by simpa using hmem⟩
    · refine ⟨rfl, ?_⟩
      intro ifindex octets hmem
      simpa using hmem
  · exact ⟨rfl, fun _ _ hmem => hmem⟩

omit [DecidableEq ι] in
/-- A datagram of the network brings what its sender has announced. -/
theorem Invariant.admissible (h : net.Invariant o p w) {action : Action ι} {e : ι × Event} (he : event w action = some e)
    (hredist : ∀ i route, action = .redist i (.announce route) → i ≠ o → route.pfx ≠ p) :
    e.2.Admissible p (net.config o).routerId (e.1 = o) (Heard p w) := by
  cases action with
  | deliver i ifindex n now =>
    obtain ⟨d, hd, rfl⟩ := Option.map_eq_some_iff.mp he
    have hmem : d ∈ w.sent := List.mem_of_getElem? hd
    intro pkt hdecode
    have hhonest := h.sent d hmem pkt hdecode
    refine { hhonest with adverts := ?_ }
    intro a ha hp
    obtain ⟨hid, hseqno, -⟩ := hhonest.adverts a ha hp
    exact ⟨hid, hseqno, fun hfinite => ⟨d.1, d.2, rfl, hmem, pkt, hdecode, a, ha, hp, hfinite, rfl⟩⟩
  | redist i r =>
    cases he
    intro route hroute hi
    exact hredist i route (by rw [hroute]) hi
  | start i => cases he
  | _ =>
    cases he
    trivial

theorem Invariant.step (h : net.Invariant o p w) (hdistinct : ∀ i j a b, net.source i a = net.source j b → i = j)
    (action : Action ι) (hredist : ∀ i route, action = .redist i (.announce route) → i ≠ o → route.pfx ≠ p)
    (hfresh : net.Fresh p w action) : net.Invariant o p (net.step w action) := by
  by_cases hstart : ∃ i, action = .start i
  · obtain ⟨i, rfl⟩ := hstart
    have hsends : Sends p (net.config o).routerId
        (fun d => i ≠ o → (w.nodes i).state.label p (net.config o).routerId < .some d) (net.config i).announce := by
      intro ifindex octets hmem
      rcases List.mem_append.mp hmem with hmem | hmem
      · obtain ⟨q, -, heq⟩ := List.mem_map.mp hmem
        cases heq
      · obtain ⟨iface, -, heq⟩ := List.mem_map.mp hmem
        cases heq
        refine Honest.truthful ⟨?_, ?_, ?_⟩ ?_
        · intro a ha
          cases ha
        · intro rxcost interval address ht
          simp at ht
        · intro ip ht
          simp at ht
        · intro t ht
          rw [List.mem_singleton.mp ht]
          trivial
    have hact := h.act hdistinct (h.nodes i) (.refl _) hsends
    rwa [Function.update_eq_self] at hact
  · cases he : event w action with
    | none =>
      have hsame : net.step w action = w := by
        cases action with
        | start i => exact absurd ⟨i, rfl⟩ hstart
        | _ => simp only [Network.step, he]
      rw [hsame]
      exact h
    | some e =>
      have hstepped : net.step w action = ⟨Function.update w.nodes e.1 ((w.nodes e.1).step (net.config e.1) e.2).1,
          w.sent ++ net.datagrams e.1 ((w.nodes e.1).step (net.config e.1) e.2).2⟩ := by
        cases action with
        | start i => exact absurd ⟨i, rfl⟩ hstart
        | _ => simp only [Network.step, he]
      obtain ⟨hkeeps, hmoves, hsends⟩ := (h.nodes e.1).step (net.config e.1) (h.admissible he hredist) (hfresh e he)
      obtain ⟨hstate, houtputs⟩ := state_step (net.config e.1) (w.nodes e.1) e.2
      rw [← hstate] at hkeeps hmoves hsends
      rw [hstepped]
      exact h.act hdistinct hkeeps hmoves fun ifindex octets hmem => hsends ifindex octets (houtputs _ _ hmem)

/-- In a network of which `p` is originated by the router `o` alone, whatever is lost, delayed, delivered in another
order or again, and whatever timers, lost neighbours and redistributed routes there are: as long as no router falls
back on a stale route to `p`, the selected routes to `p` make no loop that avoids `o`. -/
theorem no_loop (net : Network ι) (hdistinct : ∀ i j a b, net.source i a = net.source j b → i = j) (o : ι) (p : Prefix)
    (horigin : ∀ i, i ≠ o → p ∉ (net.config i).selfPrefixes) (actions : List (Action ι))
    (hredist : ∀ i route, .redist i (.announce route) ∈ actions → i ≠ o → route.pfx ≠ p)
    (hfresh : Run.Every net.step (net.Fresh p) net.init actions) (i : ι) :
    ¬ Relation.TransGen (fun x y => x ≠ o ∧ y ≠ o ∧ net.Forwards p (actions.foldl net.step net.init) x y) i i := by
  have hboth : Run.Every net.step
      (fun w a => (∀ i route, a = .redist i (.announce route) → i ≠ o → route.pfx ≠ p) ∧ net.Fresh p w a)
      net.init actions := by
    refine Run.Every.and (Run.every_of_forall (fun _ _ h => h) ?_ net.init) hfresh
    intro a ha i route heq
    exact hredist i route (heq ▸ ha)
  have hinv := hboth.invariant (net.Invariant o p) (invariant_init horigin)
    fun w a h hguard => h.step hdistinct a hguard.1 hguard.2
  exact hinv.sound.acyclic i

end Steps
end Network

namespace Sample
open Network

/-- Three routers on one link, of which the first has the network. -/
def lan : Network (Fin 3) where
  config i :=
    { routerId := Vector.replicate 8 (UInt8.ofNat i)
      ifaces := [⟨"eth0", 1, none⟩]
      connected := if i = 0 then [(Core.Sample.net, "eth1")] else []
      originate := []
      redistributeMetric := 0
      bfd := false
      vrfTable := rtTableMain }
  source i _ := 0xfe800000000000000000000000000001 + BitVec.ofNat 128 i

/-- The first two routers hear each other, and the first one has a round of Updates on its way. -/
def meeting : List (Action (Fin 3)) :=
  [.hello 0, .hello 0, .deliver 1 1 0 0, .deliver 1 1 1 1, .hello 1, .hello 1, .deliver 0 1 2 2, .deliver 0 1 3 3,
    .hello 0, .deliver 1 1 4 4, .update 0]

theorem fresh_meeting :
    Run.Every lan.step (lan.Fresh Core.Sample.net) lan.init (meeting ++ [.deliver 1 1 5 5]) := by
  refine Run.every_append.mpr ⟨by decide +kernel, ?_, trivial⟩
  have hsent : (meeting.foldl lan.step lan.init).sent[5]? =
      some (0xfe800000000000000000000000000001,
        Packet.encode ⟨[.routerId (Vector.replicate 8 0), .update 0 1600 1 0 Core.Sample.net]⟩) := by
    decide +kernel
  have hnone : (((meeting.foldl lan.step lan.init).nodes 1).state.table.selected[Core.Sample.net]?).isNone = true := by
    decide +kernel
  intro e he
  simp only [event, hsent] at he
  cases he
  intro q hq
  have hparse : parseDatagram (lan.config 1).ifaces
      ⟨1, 0xfe800000000000000000000000000001,
        (Packet.encode ⟨[.routerId (Vector.replicate 8 0), .update 0 1600 1 0 Core.Sample.net]⟩).take recvBuf⟩ =
      some (⟨"eth0", 1, none⟩, [.routerId (Vector.replicate 8 0), .update 0 1600 1 0 Core.Sample.net]) := by
    decide +kernel
  obtain rfl := Option.some.inj (hparse.symm.trans hq)
  refine ⟨trivial, ?_, trivial⟩
  intro originator _ hstale
  have hselected := (RouteTable.isSelectedRoute_iff _ _).mp hstale.2.1
  obtain ⟨s, hs, -⟩ := Option.map_eq_some_iff.mp hselected
  have hsome : ((meeting.foldl lan.step lan.init).nodes 1).state.table.selected[Core.Sample.net]? = some s := hs
  rw [hsome] at hnone
  cases hnone

theorem distinct_lan (i j : Fin 3) (a b : UInt32) (h : lan.source i a = lan.source j b) : i = j := by
  have hall : ∀ i j : Fin 3, lan.source i 0 = lan.source j 0 → i = j := by decide
  exact hall i j h

/-- The second router takes the Update of the first. -/
theorem no_loop_meeting :
    ¬ Relation.TransGen (fun x y => x ≠ 0 ∧ y ≠ 0 ∧ lan.Forwards Core.Sample.net
      ((meeting ++ [Action.deliver 1 1 5 5]).foldl lan.step lan.init) x y) 1 1 :=
  no_loop lan distinct_lan 0 Core.Sample.net (by decide) _ (by simp [meeting]) fresh_meeting 1

end Sample
end Wren.Daemon.Babel
