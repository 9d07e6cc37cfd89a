import Wren.Daemon.Isis.Defence

/-! Two routers on a LAN that exchange Hellos, and the LAN ID that each of them arrives at. First what an election and a
Hello do to an interface. -/

namespace Wren.Daemon
open Wren.Core Wren.Isis OrdMap

namespace Isis

/-- What a router is on a LAN does not change. -/
structure Iface.Keeps (f g : Iface) : Prop where
  ifaceType : g.ifaceType = f.ifaceType
  snpa : g.snpa = f.snpa
  circuit : g.localCircuitId = f.localCircuitId

variable {s : Isis} {idx : ℕ} {f : Iface}

theorem getElem?_modifyIface (hf : s.ifaces[idx]? = some f) (g : Iface → Iface) :
    (s.modifyIface idx g).ifaces[idx]? = some (g f) := by
  change (s.ifaces.modify idx g)[idx]? = some (g f)
  rw [List.getElem?_modify, hf]
  simp

theorem reoriginatePseudonode_spec (level : IsLevel) (hf : s.ifaces[idx]? = some f) :
    (s.reoriginatePseudonode idx level).cfg = s.cfg ∧ ∃ g, (s.reoriginatePseudonode idx level).ifaces[idx]? = some g ∧
      f.Keeps g ∧ g.neighbors = f.neighbors ∧ g.dis = f.dis := by
  have hkeeps : f.Keeps f := ⟨rfl, rfl, rfl⟩
  rw [reoriginatePseudonode, hf]
  dsimp only
  split
  · obtain ⟨hcfg, hifaces, -⟩ := storeAndFlood_fields
      (s := s.modifyIface idx fun g => { g with pnSeq := g.pnSeq.set level (f.pnSeq.get level + 1) }) level
      (s.buildPseudonodeLsp f level (f.pnSeq.get level + 1))
    refine ⟨hcfg, { f with pnSeq := f.pnSeq.set level (f.pnSeq.get level + 1) }, ?_, ⟨rfl, rfl, rfl⟩, rfl, rfl⟩
    rw [hifaces]
    exact getElem?_modifyIface hf _
  · split
    · obtain ⟨hcfg, hifaces, -⟩ := flushLsp_fields (s := s) level (s.pnId f)
      exact ⟨hcfg, f, by rw [hifaces]; exact hf, hkeeps, rfl, rfl⟩
    · exact ⟨rfl, f, hf, hkeeps, rfl, rfl⟩

theorem runDis_spec (level : IsLevel) (hf : s.ifaces[idx]? = some f) (hlan : f.ifaceType = .broadcast) :
    (s.runDis idx level).cfg = s.cfg ∧ ∃ g, (s.runDis idx level).ifaces[idx]? = some g ∧ f.Keeps g ∧
      g.neighbors = f.neighbors ∧ g.dis = f.dis.set level (s.electedLanId f level) := by
  rw [runDis, hf]
  dsimp only
  rw [if_neg (by simpa using hlan)]
  obtain ⟨b, hb⟩ : ∃ b, ((s.disWinner f level).any fun w => w.systemId = s.cfg.systemId) = b := ⟨_, rfl⟩
  rw [hb]
  have hset := getElem?_modifyIface hf fun f' => { f' with
    dis := f'.dis.set level (s.electedLanId f level), isDis := f'.isDis.set level b }
  split
  · obtain ⟨hcfg, g, hg, hkeeps, hneighbors, hdis⟩ := reoriginatePseudonode_spec level hset
    exact ⟨hcfg, g, hg, ⟨hkeeps.ifaceType, hkeeps.snpa, hkeeps.circuit⟩, hneighbors, hdis⟩
  · exact ⟨rfl, _, hset, ⟨rfl, rfl, rfl⟩, rfl, rfl⟩

/-- A Hello is ignored, or changes the entry of its sender and may call an election. -/
theorem processLanHello_spec (hf : s.ifaces[idx]? = some f) (hlan : f.ifaceType = .broadcast) (h : LanHello) (src : Snpa)
    (now : ℕ) {old new : Nbr} (hold : f.neighbors[h.sourceId]?.getD (Nbr.new src h.holdingTime) = old)
    (hnew : old.hearLan h src now (neighborBfdAddr h.tlvs f.ifindex)
      (if f.snpa ∈ lanNeighbors h.tlvs then .helloTwoWay else .helloOneWay) = new) :
    s.processLanHello idx h src now = s ∨
      (s.processLanHello idx h src now).cfg = s.cfg ∧ ∃ g, (s.processLanHello idx h src now).ifaces[idx]? = some g ∧
        f.Keeps g ∧ g.neighbors = f.neighbors.insert h.sourceId new ∧
        g.dis =
          if old.up h.level ≠ new.up h.level ∨ new.up h.level = true ∧ old.priority ≠ h.priority then
            f.dis.set h.level (s.electedLanId { f with neighbors := f.neighbors.insert h.sourceId new } h.level)
          else f.dis := by
  rw [processLanHello, hf]
  dsimp only
  split
  · exact Or.inl rfl
  · right
    rw [hold, hnew]
    have hset : (s.setNeighbor idx h.sourceId new).ifaces[idx]? =
        some { f with neighbors := f.neighbors.insert h.sourceId new } := getElem?_modifyIface hf _
    have hreoriginate : ∀ u : Isis, (u.reoriginate h.level).cfg = u.cfg ∧ (u.reoriginate h.level).ifaces = u.ifaces := by
      intro u
      rw [reoriginate_eq]
      exact ⟨rfl, rfl⟩
    by_cases hrun : old.up h.level ≠ new.up h.level ∨ new.up h.level = true ∧ old.priority ≠ h.priority
    · rw [if_pos hrun, if_pos hrun]
      obtain ⟨hcfg, g, hg, hkeeps, hneighbors, hdis⟩ := runDis_spec h.level hset hlan
      have hkeeps' : f.Keeps g := ⟨hkeeps.ifaceType, hkeeps.snpa, hkeeps.circuit⟩
      split
      · obtain ⟨hcfg', hifaces'⟩ := hreoriginate ((s.setNeighbor idx h.sourceId new).runDis idx h.level)
        exact ⟨hcfg'.trans hcfg, g, by rw [hifaces']; exact hg, hkeeps', hneighbors, hdis⟩
      · exact ⟨hcfg, g, hg, hkeeps', hneighbors, hdis⟩
    · rw [if_neg hrun, if_neg hrun, if_neg fun hup => hrun (Or.inl hup)]
      exact ⟨rfl, _, hset, ⟨rfl, rfl, rfl⟩, rfl, rfl⟩

/-- A Hello decides about the adjacency at its own level. -/
theorem up_hearLan (n : Nbr) (h : LanHello) (src : Snpa) (now : ℕ) (bfdAddr : Option (IpAddr × UInt32)) (listed : Bool)
    (level : IsLevel) :
    (n.hearLan h src now bfdAddr (if listed then .helloTwoWay else .helloOneWay)).up level =
      if SameDb h.level level then listed else n.up level := by
  rw [Nbr.up, Nbr.hearLan]
  dsimp only
  rw [get_set_sameDb]
  by_cases hlevel : SameDb h.level level
  · rw [if_pos hlevel, if_pos hlevel, Option.any_some, Adjacency.isUp_handle_hello]
  · rw [if_neg hlevel, if_neg hlevel]
    rfl

/-! ### Two routers -/

/-- A Hello on its way, and the levels at which the adjacency of its sender was up, or those of both routers, when it was
sent. -/
structure Transit where
  src : Snpa
  bytes : List UInt8
  senderUp : PerLevel Bool
  bothUp : PerLevel Bool

/-- A router with one of its interfaces, the Hellos that it has yet to receive there, and the levels at which it has
processed one that was sent when both adjacencies were up. -/
structure Station where
  router : Isis
  idx : ℕ
  inbox : List Transit
  informed : PerLevel Bool

namespace Station

def iface (x : Station) : Option Iface := x.router.ifaces[x.idx]?

/-- The adjacency of a router with another one. -/
def up (x y : Station) (level : IsLevel) : Bool :=
  x.iface.any fun f => (f.neighbors[y.router.cfg.systemId]?).any fun n => n.up level

def dis (x : Station) (level : IsLevel) : Option (SystemId × UInt8) := x.iface.bind fun f => f.dis.get level

/-- The Hellos that `sendHellos` puts on the LAN. -/
def hellos (x y : Station) : List Transit :=
  let senderUp : PerLevel Bool := ⟨x.up y .l1, x.up y .l2⟩
  let bothUp : PerLevel Bool := ⟨x.up y .l1 && y.up x .l1, x.up y .l2 && y.up x .l2⟩
  match x.iface with
  | none => []
  | some f => (x.router.hellosOn x.idx f).filterMap fun
    | .on _ _ bytes => some ⟨f.snpa, bytes, senderUp, bothUp⟩
    | .flood _ _ _ => none

/-- The LAN Hello that an encoded PDU is read as. -/
def helloOf (bytes : List UInt8) : Option LanHello :=
  match Pdu.decode bytes with
  | .ok ⟨_, .lanHello h⟩ => some h
  | _ => none

/-- The next Hello is taken from the LAN. No Hello makes the router panic. -/
def receive (x : Station) (now : ℕ) : Station :=
  match x.inbox with
  | [] => x
  | m :: rest =>
    { x with
      router := (x.router.handleFrame ⟨x.idx, m.src, llcFrame m.bytes⟩ now).getD x.router
      inbox := rest
      informed :=
        match helloOf m.bytes with
        | some h => x.informed.set h.level (x.informed.get h.level || m.bothUp.get h.level)
        | none => x.informed }

end Station

inductive Side where
  | left
  | right
deriving DecidableEq

def Side.other : Side → Side
  | .left => .right
  | .right => .left

abbrev Lan := Side → Station

namespace Lan

inductive Event where
  | send (side : Side)
  | deliver (side : Side) (now : ℕ)

def step (l : Lan) : Event → Lan
  | .send side =>
    let x := l side
    let y := l side.other
    Function.update (Function.update l side { x with router := x.router.sendHellos }) side.other
      { y with inbox := y.inbox ++ x.hellos y }
  | .deliver side now => Function.update l side ((l side).receive now)

/-- Both adjacencies are up, and each router knows it from the other. -/
def Settled (l : Lan) (level : IsLevel) : Prop :=
  ∀ side, (l side).up (l side.other) level = true ∧ (l side).informed.get level = true

end Lan

/-- What a router is on the LAN: a candidate for the role of the DIS, and the number of its pseudonode. -/
structure Profile where
  candidate : DisCandidate
  circuit : UInt8

def Station.profile (x : Station) : Option Profile :=
  x.iface.map fun f => ⟨⟨x.router.cfg.systemId, f.snpa, x.router.cfg.priority⟩, f.localCircuitId⟩

/-- The LAN ID that the winner of the election gives. -/
def Profile.winner (p q : Profile) : Option (SystemId × UInt8) :=
  (electDis [p.candidate, q.candidate]).map fun w =>
    (w.systemId, if w.systemId = p.candidate.systemId then p.circuit else q.circuit)

namespace Lan

def winner (l : Lan) : Option (SystemId × UInt8) :=
  (l .left).profile.bind fun p => (l .right).profile.bind fun q => p.winner q

/-- Once the routers are settled, both hold the LAN ID of the winner. -/
def Agrees (l : Lan) : Prop := ∀ level, l.Settled level → ∀ side, (l side).dis level = l.winner

/-- Two interfaces to a LAN with different addresses, where nobody was heard yet. -/
structure Start (l : Lan) : Prop where
  iface : ∀ side, ∃ f, (l side).iface = some f ∧ f.ifaceType = .broadcast ∧ ∀ id : SystemId, f.neighbors[id]? = none
  snpa : (l .left).iface.map Iface.snpa ≠ (l .right).iface.map Iface.snpa
  inbox : ∀ side, (l side).inbox = []
  informed : ∀ side level, (l side).informed.get level = false

end Lan

/-! ### Where it goes right -/

/-- A candidate as the others hear of it: the priority has seven bits on the wire. -/
def heard (c : DisCandidate) : DisCandidate := { c with priority := c.priority &&& 0x7f }

/-- A router elects the one that gives the LAN ID, and takes itself for the winner only if the LAN ID is its own. -/
structure Elects (p q : Profile) (id : SystemId × UInt8) : Prop where
  elected : (electDis [p.candidate, heard q.candidate]).map (·.systemId) = some id.1
  own : id.1 = p.candidate.systemId → id.2 = p.circuit

namespace Lan

/-- Both routers elect the winner. -/
def Elective (l : Lan) : Prop :=
  ∀ side p q id, (l side).profile = some p → (l side.other).profile = some q → l.winner = some id → Elects p q id

/-- A Hello that brings up the adjacency of the loser was sent when the adjacency of the winner was up. -/
def Guard (l : Lan) : Event → Prop
  | .send _ => True
  | .deliver side _ =>
    ∀ f ∈ (l side).iface, ∀ m ∈ (l side).inbox.head?, ∀ h ∈ Station.helloOf m.bytes,
      l.winner.map Prod.fst ≠ some (l side).router.cfg.systemId → (l side).up (l side.other) h.level = false →
        f.snpa ∈ lanNeighbors h.tlvs → m.senderUp.get h.level = true

instance (l : Lan) : (e : Event) → Decidable (l.Guard e)
  | .send _ => inferInstanceAs (Decidable True)
  | .deliver side _ => inferInstanceAs (Decidable (∀ f ∈ (l side).iface, ∀ m ∈ (l side).inbox.head?,
      ∀ h ∈ Station.helloOf m.bytes, _ → _ → _ → _))

end Lan

/-! ### What the routers know of each other -/

variable {s : Isis} {idx : ℕ} {f : Iface} {level : IsLevel}

/-- The only neighbour is the peer, and where its adjacency is up the LAN ID is agreed on. -/
structure Knows (q : Profile) (id : SystemId × UInt8) (f : Iface) : Prop where
  peer : ∀ (k : SystemId) n, f.neighbors[k]? = some n →
    k = q.candidate.systemId ∧ n.snpa = q.candidate.snpa ∧ n.priority = (heard q.candidate).priority
  dis : ∀ n level, f.neighbors[q.candidate.systemId]? = some n → n.up level = true → f.dis.get level = some id

/-- A frame from the peer. What is read of it is a Hello, with the LAN ID if the peer's adjacency was up. -/
structure Genuine (q : Profile) (id : SystemId × UInt8) (m : Transit) : Prop where
  src : m.src = q.candidate.snpa
  hello : ∀ mx b, Pdu.decode m.bytes = .ok ⟨mx, b⟩ → ∃ h, b = .lanHello h ∧ h.sourceId = q.candidate.systemId ∧
    h.priority = (heard q.candidate).priority ∧ (m.senderUp.get h.level = true → h.lanId = id)

structure Facing (p q : Profile) (id : SystemId × UInt8) (x : Station) : Prop where
  profile : x.profile = some p
  iface : ∃ f, x.iface = some f ∧ f.ifaceType = .broadcast ∧ Knows q id f
  inbox : ∀ m ∈ x.inbox, Genuine q id m

theorem eq_singleton_of_nodup {α : Type} {a : α} {l : List α} (hnodup : l.Nodup) (ha : a ∈ l) (h : ∀ b ∈ l, b = a) :
    l = [a] := by
  obtain ⟨hlen⟩ : Nonempty (l = List.replicate l.length a) := ⟨List.eq_replicate_of_mem h⟩
  rw [hlen, List.nodup_replicate] at hnodup
  have hpos := List.length_pos_of_mem ha
  have hone : l.length = 1 := by omega
  rw [hlen, hone]
  rfl

theorem upNeighbors_eq {q : Profile} {n : Nbr} (hpeer : ∀ (k : SystemId) m, f.neighbors[k]? = some m → k = q.candidate.systemId)
    (hn : f.neighbors[q.candidate.systemId]? = some n) (hup : n.up level = true) :
    f.upNeighbors level = [(q.candidate.systemId, n)] := by
  have hlist : f.neighbors.toList = [(q.candidate.systemId, n)] := by
    refine eq_singleton_of_nodup (List.Nodup.of_map Prod.fst (nodup_keys_toList f.neighbors)) ?_ ?_
    · exact Std.ExtTreeMap.mem_toList_iff_getElem?_eq_some.mpr hn
    · intro e he
      have hget := Std.ExtTreeMap.mem_toList_iff_getElem?_eq_some.mp he
      obtain ⟨k, m⟩ := e
      obtain rfl := hpeer k m hget
      rw [hn] at hget
      cases hget
      rfl
  rw [Iface.upNeighbors, hlist, List.filter_cons, if_pos hup, List.filter_nil]

/-- What an election comes to when the peer is up. -/
theorem electedLanId_eq {p q : Profile} {id : SystemId × UInt8} {n : Nbr} (helects : Elects p q id)
    (hcandidate : (⟨s.cfg.systemId, f.snpa, s.cfg.priority⟩ : DisCandidate) = p.candidate)
    (hcircuit : f.localCircuitId = p.circuit)
    (hpeer : ∀ (k : SystemId) m, f.neighbors[k]? = some m →
      k = q.candidate.systemId ∧ m.snpa = q.candidate.snpa ∧ m.priority = (heard q.candidate).priority)
    (hn : f.neighbors[q.candidate.systemId]? = some n) (hup : n.up level = true) :
    s.electedLanId f level =
      if id.1 = p.candidate.systemId then some id else (n.lanId.get level).or (some (id.1, 0)) := by
  obtain ⟨-, hsnpa, hpriority⟩ := hpeer _ n hn
  have hone := upNeighbors_eq (fun k m hm => (hpeer k m hm).1) hn hup
  have hheard : (⟨q.candidate.systemId, n.snpa, n.priority⟩ : DisCandidate) = heard q.candidate := by
    rw [hsnpa, hpriority]
    rfl
  have hwinner : s.disWinner f level = electDis [p.candidate, heard q.candidate] := by
    rw [disWinner, disCandidates, hone, hcandidate, ← hheard]
    rfl
  obtain ⟨w, hw, hwid⟩ := Option.map_eq_some_iff.mp helects.elected
  have hmem : w ∈ [p.candidate, heard q.candidate] :=
    (highest_of_electDis hw).1
  rw [electedLanId, hwinner, hw]
  dsimp only
  have hsys : s.cfg.systemId = p.candidate.systemId := by rw [← hcandidate]
  by_cases hown : id.1 = p.candidate.systemId
  · rw [if_pos (hwid.trans (hown.trans hsys.symm)), if_pos hown, hsys, hcircuit, ← helects.own hown, ← hown]
  · rw [if_neg fun heq => hown (hwid.symm.trans (heq.trans hsys)), if_neg hown]
    have hq : w.systemId = q.candidate.systemId := by
      rcases List.mem_cons.mp hmem with rfl | hmem'
      · exact absurd hwid.symm hown
      · rw [List.mem_singleton.mp hmem']
        rfl
    rw [hwid] at hq
    rw [hwid, hq, hn]
    rfl

/-! ### Steps -/

variable {p q : Profile} {id : SystemId × UInt8} {x y : Station}

theorem profile_eq (hf : x.iface = some f) :
    x.profile = some ⟨⟨x.router.cfg.systemId, f.snpa, x.router.cfg.priority⟩, f.localCircuitId⟩ := by
  rw [Station.profile, hf]
  rfl

/-- A router that was up before is an entry of the table. -/
theorem entry_of_up (hknows : Knows q id f) {h : LanHello} (hsource : h.sourceId = q.candidate.systemId)
    (hpriority : h.priority = (heard q.candidate).priority) {old : Nbr} {src : Snpa}
    (hold : f.neighbors[h.sourceId]?.getD (Nbr.new src h.holdingTime) = old) (hup : old.up level = true) :
    f.neighbors[q.candidate.systemId]? = some old ∧ old.priority = h.priority := by
  rw [hsource] at hold
  cases hentry : f.neighbors[q.candidate.systemId]? with
  | none =>
    rw [hentry] at hold
    rw [← hold] at hup
    cases level <;> cases hup
  | some n =>
    rw [hentry] at hold
    have hn : n = old := hold
    rw [hn] at hentry
    exact ⟨by rw [hn], (hknows.peer _ old hentry).2.2.trans hpriority.symm⟩

/-- A neighbour that stays up with the same priority calls for no election. -/
theorem dis_get_of_stays_up {dis : PerLevel (Option (SystemId × UInt8))} {elected : Option (SystemId × UInt8)}
    {h : LanHello} {old new : Nbr} (hpriority : old.priority = h.priority) (hold : old.up level = true)
    (hnew : new.up level = true) :
    (if old.up h.level ≠ new.up h.level ∨ new.up h.level = true ∧ old.priority ≠ h.priority then dis.set h.level elected
      else dis).get level = dis.get level := by
  split_ifs with hrun
  · rw [get_set_sameDb, if_neg]
    intro hlevel
    have hold' : old.up h.level = true := by
      rw [Nbr.up, get_of_sameDb old.adj hlevel]
      exact hold
    have hnew' : new.up h.level = true := by
      rw [Nbr.up, get_of_sameDb new.adj hlevel]
      exact hnew
    rcases hrun with hchanged | ⟨-, hchanged⟩
    · exact hchanged (hold'.trans hnew'.symm)
    · exact hchanged hpriority
  · rfl

/-- A Hello from the peer, or one that is ignored, leaves a router that knows the peer. -/
theorem knows_processLanHello (helects : Elects p q id) (hx : Facing p q id x) (hf : x.iface = some f)
    (hlan : f.ifaceType = .broadcast) (hknows : Knows q id f) {h : LanHello} (hsource : h.sourceId = q.candidate.systemId)
    (hpriority : h.priority = (heard q.candidate).priority) (now : ℕ)
    (hlanId : id.1 ≠ p.candidate.systemId → f.snpa ∈ lanNeighbors h.tlvs →
      (∀ n, f.neighbors[q.candidate.systemId]? = some n → n.up h.level = false) → h.lanId = id) :
    (x.router.processLanHello x.idx h q.candidate.snpa now).cfg = x.router.cfg ∧
      ∃ g, (x.router.processLanHello x.idx h q.candidate.snpa now).ifaces[x.idx]? = some g ∧ f.Keeps g ∧ Knows q id g := by
  obtain ⟨old, hold⟩ : ∃ old, f.neighbors[h.sourceId]?.getD (Nbr.new q.candidate.snpa h.holdingTime) = old := ⟨_, rfl⟩
  obtain ⟨new, hnew⟩ : ∃ new, old.hearLan h q.candidate.snpa now (neighborBfdAddr h.tlvs f.ifindex)
      (if f.snpa ∈ lanNeighbors h.tlvs then .helloTwoWay else .helloOneWay) = new := ⟨_, rfl⟩
  rcases processLanHello_spec hf hlan h q.candidate.snpa now hold hnew with hsame | ⟨hcfg, g, hg, hkeeps, hneighbors, hdis⟩
  · rw [hsame]
    exact ⟨rfl, f, hf, ⟨rfl, rfl, rfl⟩, hknows⟩
  · refine ⟨hcfg, g, hg, hkeeps, ?_⟩
    have hentry : new.snpa = q.candidate.snpa ∧ new.priority = (heard q.candidate).priority ∧
        new.lanId.get h.level = some h.lanId := by
      rw [← hnew]
      exact ⟨rfl, hpriority, PerLevel.get_set_self _ _ _⟩
    obtain ⟨hsnpa, hprio, hnewId⟩ := hentry
    have hget : ∀ k : SystemId, (f.neighbors.insert h.sourceId new)[k]? =
        if k = q.candidate.systemId then some new else f.neighbors[k]? := by
      intro k
      rw [getElem?_insert, hsource]
    have hpeer : ∀ (k : SystemId) n, (f.neighbors.insert h.sourceId new)[k]? = some n →
        k = q.candidate.systemId ∧ n.snpa = q.candidate.snpa ∧ n.priority = (heard q.candidate).priority := by
      intro k n hn
      rw [hget] at hn
      split_ifs at hn with hk
      · cases hn
        exact ⟨hk, hsnpa, hprio⟩
      · exact hknows.peer k n hn
    have hupNew : ∀ level, new.up level =
        if SameDb h.level level then decide (f.snpa ∈ lanNeighbors h.tlvs) else old.up level := by
      intro level
      rw [← hnew, ← up_hearLan old h q.candidate.snpa now (neighborBfdAddr h.tlvs f.ifindex)]
      simp only [decide_eq_true_eq]
    constructor
    · rw [hneighbors]
      exact hpeer
    · intro n level hn hup
      rw [hneighbors, hget, if_pos rfl] at hn
      obtain rfl := Option.some.inj hn
      by_cases hbefore : old.up level = true
      · obtain ⟨hentry, hsamePrio⟩ := entry_of_up hknows hsource hpriority hold hbefore
        rw [hdis, dis_get_of_stays_up hsamePrio hbefore hup]
        exact hknows.dis old level hentry hbefore
      · have hlevel : SameDb h.level level := by
          by_contra hother
          rw [hupNew, if_neg hother] at hup
          exact hbefore hup
        have hlisted : f.snpa ∈ lanNeighbors h.tlvs := by
          rw [hupNew, if_pos hlevel] at hup
          simpa using hup
        have hupLevel : new.up h.level = true := by
          rw [hupNew, if_pos (sameDb_self _)]
          simpa using hlisted
        have hdown : old.up h.level = false := by
          rw [Nbr.up, get_of_sameDb old.adj hlevel]
          simpa [Nbr.up] using hbefore
        rw [hdis, if_pos (Or.inl (by rw [hdown, hupLevel]; decide)), get_set_sameDb, if_pos hlevel]
        have hprofile := hx.profile
        rw [profile_eq hf] at hprofile
        obtain rfl := Option.some.inj hprofile
        rw [electedLanId_eq (f := { f with neighbors := f.neighbors.insert h.sourceId new }) helects rfl rfl hpeer
          (by rw [hget, if_pos rfl]) hupLevel]
        split_ifs with hown
        · rfl
        · rw [hnewId, hlanId hown hlisted]
          · rfl
          · intro n hn
            have hn' : n = old := by
              rw [hsource, hn] at hold
              exact hold
            rw [hn']
            exact hdown

theorem stripLlc_llcFrame (pdu : List UInt8) : stripLlc (llcFrame pdu) = some pdu := rfl

/-- A frame is ignored, or its Hello is processed. -/
theorem handleFrame_hello (hf : s.ifaces[idx]? = some f) {m : Transit} (hm : Genuine q id m) (now : ℕ) :
    s.handleFrame ⟨idx, m.src, llcFrame m.bytes⟩ now = some s ∨
      ∃ mx h, Pdu.decode m.bytes = .ok ⟨mx, .lanHello h⟩ ∧ Station.helloOf m.bytes = some h ∧
        s.handleFrame ⟨idx, m.src, llcFrame m.bytes⟩ now = some (s.processLanHello idx h m.src now) := by
  rw [handleFrame]
  dsimp only
  rw [hf, stripLlc_llcFrame]
  dsimp only
  split
  · exact Or.inl rfl
  · cases hdecode : Pdu.decode m.bytes with
    | error e => exact Or.inl rfl
    | ok pdu =>
      obtain ⟨mx, b⟩ := pdu
      obtain ⟨h, rfl, -⟩ := hm.hello mx b hdecode
      exact Or.inr ⟨mx, h, rfl, by rw [Station.helloOf, hdecode], rfl⟩

theorem facing_of_keeps (hx : Facing p q id x) (hf : x.iface = some f) {g : Iface} (hcfg : y.router.cfg = x.router.cfg)
    (hg : y.iface = some g) (hkeeps : f.Keeps g) (hlan : f.ifaceType = .broadcast) (hknows : Knows q id g)
    (hinbox : ∀ m ∈ y.inbox, Genuine q id m) : Facing p q id y := by
  have hprofile := hx.profile
  rw [profile_eq hf] at hprofile
  refine ⟨?_, ⟨g, hg, hkeeps.ifaceType.trans hlan, hknows⟩, hinbox⟩
  rw [profile_eq hg, hcfg, hkeeps.snpa, hkeeps.circuit]
  exact hprofile

/-- A router that takes a Hello from the LAN still agrees with its peer, if it takes itself for the winner or the Hello
that brings up its adjacency has the LAN ID. -/
theorem facing_receive (helects : Elects p q id) (hx : Facing p q id x) (now : ℕ)
    (hguard : ∀ f ∈ x.iface, ∀ m ∈ x.inbox.head?, ∀ h ∈ Station.helloOf m.bytes, id.1 ≠ p.candidate.systemId →
      (∀ n, f.neighbors[q.candidate.systemId]? = some n → n.up h.level = false) →
        f.snpa ∈ lanNeighbors h.tlvs → m.senderUp.get h.level = true) : Facing p q id (x.receive now) := by
  obtain ⟨f, hf, hlan, hknows⟩ := hx.iface
  rw [Station.receive]
  cases hinbox : x.inbox with
  | nil => exact hx
  | cons m rest =>
    have hm : Genuine q id m := hx.inbox m (by rw [hinbox]; exact List.mem_cons_self)
    have hrest : ∀ m' ∈ rest, Genuine q id m' := fun m' hm' =>
      hx.inbox m' (by rw [hinbox]; exact List.mem_cons_of_mem _ hm')
    dsimp only
    rcases handleFrame_hello hf hm now with hignored | ⟨mx, h, hdecode, hhello, hprocessed⟩
    · rw [hignored]
      exact facing_of_keeps hx hf rfl hf ⟨rfl, rfl, rfl⟩ hlan hknows hrest
    · obtain ⟨h', hbody, hsource, hpriority, hlanId⟩ := hm.hello mx _ hdecode
      cases hbody
      rw [hprocessed, hm.src]
      obtain ⟨hcfg, g, hg, hkeeps, hknows'⟩ := knows_processLanHello helects hx hf hlan hknows hsource hpriority now
        fun hloses hlisted hdown => hlanId (hguard f hf m (by rw [hinbox]; rfl) h hhello hloses hdown hlisted)
      exact facing_of_keeps hx hf hcfg hg hkeeps hlan hknows' hrest

theorem length_tlvs_lanHello_le (s : Isis) (f : Iface) (level : IsLevel) : (s.lanHello f level).tlvs.length ≤ 100 := by
  have hauth := s.length_pushAuth_le ([.areaAddresses [s.cfg.area], .protocolsSupported [nlpidIpv4, nlpidIpv6]] ++
    tlvOf .ipv4InterfaceAddresses f.v4 ++ tlvOf .ipv6InterfaceAddresses f.v6)
  have h4 := length_tlvOf_le .ipv4InterfaceAddresses f.v4
  have h6 := length_tlvOf_le .ipv6InterfaceAddresses f.v6
  have hn := length_tlvOf_le .lanNeighbors
    ((f.neighbors.toList.filter fun e => (e.2.adj.get level).isSome).map fun e => e.2.snpa)
  change (s.helloTlvs f ++ tlvOf .lanNeighbors _).length ≤ 100
  rw [helloTlvs, List.length_append]
  simp only [List.length_append, List.length_cons, List.length_nil] at hauth
  omega

/-- What a Hello says of its sender, if it can be read. -/
theorem genuine_hellos (hx : Facing p q id x) (hy : y.router.cfg.systemId = q.candidate.systemId) :
    ∀ m ∈ x.hellos y, Genuine p id m := by
  obtain ⟨f, hf, hlan, hknows⟩ := hx.iface
  have hprofile := hx.profile
  rw [profile_eq hf] at hprofile
  obtain rfl := Option.some.inj hprofile
  have hup : ∀ level, x.up y level = true → f.dis.get level = some id := by
    intro level hup
    rw [Station.up, hf, hy, Option.any_some, Option.any_eq_true] at hup
    obtain ⟨n, hn, hnup⟩ := hup
    exact hknows.dis n level hn hnup
  intro m hm
  rw [Station.hellos, hf] at hm
  dsimp only at hm
  rw [hellosOn, hlan] at hm
  obtain ⟨out, hout, hm'⟩ := List.mem_filterMap.mp hm
  obtain ⟨level, hlevel, rfl⟩ := List.mem_map.mp hout
  obtain rfl := Option.some.inj hm'
  have hlevel' : level = .l1 ∨ level = .l2 := by
    rw [activeLevels] at hlevel
    cases hcfg : x.router.cfg.level <;> rw [hcfg] at hlevel <;> simp at hlevel <;> simp [hlevel]
  have hsize : (Pdu.mk 0 (.lanHello (x.router.lanHello f level))).pduType.fixedHeaderLen +
      (encodeAll (PduBody.lanHello (x.router.lanHello f level)).tlvs).length < 65536 := by
    have hhead : (Pdu.mk 0 (.lanHello (x.router.lanHello f level))).pduType.fixedHeaderLen ≤ 33 := by
      cases (Pdu.mk 0 (.lanHello (x.router.lanHello f level))).pduType <;> decide
    have hbody := length_encodeAll_le (PduBody.lanHello (x.router.lanHello f level)).tlvs
    have hcount := length_tlvs_lanHello_le x.router f level
    change (encodeAll (x.router.lanHello f level).tlvs).length ≤ 257 * (x.router.lanHello f level).tlvs.length at hbody
    change _ + (encodeAll (x.router.lanHello f level).tlvs).length < 65536
    omega
  refine ⟨rfl, ?_⟩
  intro mx b hdecode
  obtain ⟨c, ts, -, hread⟩ := decode_encodePdu hsize x.router.cfg.auth
  change Pdu.decode (Wren.Isis.encodePdu x.router.cfg.auth ⟨0, .lanHello (x.router.lanHello f level)⟩) = _ at hdecode
  rw [hread] at hdecode
  split at hdecode
  · cases hdecode
  · obtain ⟨-, rfl⟩ := Pdu.mk.inj (Except.ok.inj hdecode)
    refine ⟨_, rfl, rfl, rfl, ?_⟩
    have hread : (if level = .l2 then IsLevel.l2 else .l1) = level := by
      rcases hlevel' with rfl | rfl <;> rfl
    change PerLevel.get _ (if level = .l2 then IsLevel.l2 else .l1) = true → (f.dis.get level).getD (0, 0) = id
    rw [hread]
    intro hsent
    have hsent' : x.up y level = true := by
      rcases hlevel' with rfl | rfl <;> exact hsent
    rw [hup level hsent']
    rfl

/-! ### Elections that come out alike -/

theorem heard_eq {c : DisCandidate} (h : c.priority ≤ 127) : heard c = c := by
  have hle : c.priority.toNat ≤ 127 := UInt8.le_iff_toNat_le.mp h
  have hbits : c.priority &&& 0x7f = c.priority := by
    refine UInt8.toNat_inj.mp ?_
    rw [UInt8.toNat_and]
    exact (Nat.and_two_pow_sub_one_eq_mod c.priority.toNat 7).trans (Nat.mod_eq_of_lt (by omega))
  rw [heard, hbits]

theorem exists_electDis (a b : DisCandidate) : ∃ w, electDis [a, b] = some w := by
  rw [← Option.isSome_iff_exists, Option.isSome_iff_ne_none, electDis, ne_eq, Reduce.maxBy_eq_none_iff]
  simp

/-- The order of two candidates does not matter, as their addresses break the tie. -/
theorem electDis_comm {a b : DisCandidate} (h : a.snpa ≠ b.snpa) : electDis [a, b] = electDis [b, a] := by
  obtain ⟨w, hw⟩ := exists_electDis a b
  obtain ⟨w', hw'⟩ := exists_electDis b a
  obtain ⟨hmem, hmax⟩ := highest_of_electDis hw
  obtain ⟨hmem', hmax'⟩ := highest_of_electDis hw'
  have hrank : w.rank = w'.rank := by
    refine le_antisymm (hmax' w ?_) (hmax w' ?_)
    · exact List.mem_pair.mpr (List.mem_pair.mp hmem).symm
    · exact List.mem_pair.mpr (List.mem_pair.mp hmem').symm
  have hsame : w.snpa = w'.snpa := BitVec.eq_of_toNat_eq (congrArg Prod.snd (toLex.injective hrank))
  have heq : w = w' := by
    rcases List.mem_pair.mp hmem with rfl | rfl
    · rcases List.mem_pair.mp hmem' with rfl | rfl
      · exact absurd hsame h
      · rfl
    · rcases List.mem_pair.mp hmem' with rfl | rfl
      · rfl
      · exact absurd hsame.symm h
  rw [hw, hw', heq]

namespace Lan

/-- Routers with System IDs, addresses and priorities as they should be elect the same winner. -/
theorem elective_of_distinct {l : Lan} (hp : (l .left).profile = some p) (hq : (l .right).profile = some q)
    (hsystemId : p.candidate.systemId ≠ q.candidate.systemId) (hsnpa : p.candidate.snpa ≠ q.candidate.snpa)
    (hpp : p.candidate.priority ≤ 127) (hqp : q.candidate.priority ≤ 127) : l.Elective := by
  intro side p' q' id hp' hq' hid
  rw [Lan.winner, hp, hq] at hid
  obtain ⟨w, hw, hwid⟩ := Option.map_eq_some_iff.mp (show p.winner q = some id from hid)
  obtain ⟨hwin, hcircuit⟩ := Prod.ext_iff.mp hwid
  dsimp only at hwin hcircuit
  cases side with
  | left =>
    obtain rfl := Option.some.inj (hp.symm.trans hp')
    obtain rfl := Option.some.inj (hq.symm.trans hq')
    refine ⟨by rw [heard_eq hqp, hw, ← hwin]; rfl, ?_⟩
    intro hown
    rw [if_pos (hwin.trans hown)] at hcircuit
    exact hcircuit.symm
  | right =>
    obtain rfl := Option.some.inj (hq.symm.trans hp')
    obtain rfl := Option.some.inj (hp.symm.trans hq')
    constructor
    · rw [heard_eq hpp, ← electDis_comm hsnpa, hw, ← hwin]
      rfl
    · intro hown
      rw [if_neg fun h => hsystemId (h.symm.trans (hwin.trans hown))] at hcircuit
      exact hcircuit.symm

end Lan

/-! ### Runs -/

namespace Lan

variable {l : Lan} {profiles : Side → Profile}

/-- Each router faces the other one, and both agree on the LAN ID of the winner. -/
structure Inv (profiles : Side → Profile) (id : SystemId × UInt8) (l : Lan) : Prop where
  winner : (profiles .left).winner (profiles .right) = some id
  elects : ∀ side, Elects (profiles side) (profiles side.other) id
  facing : ∀ side, Facing (profiles side) (profiles side.other) id (l side)

theorem Inv.lanId (h : Inv profiles id l) : l.winner = some id := by
  have hleft := (h.facing .left).profile
  have hright := (h.facing .right).profile
  rw [Lan.winner, hleft, hright]
  exact h.winner

theorem systemId_of_profile (h : x.profile = some p) : x.router.cfg.systemId = p.candidate.systemId := by
  cases hf : x.iface with
  | none =>
    rw [Station.profile, hf] at h
    cases h
  | some f =>
    rw [profile_eq hf] at h
    rw [← Option.some.inj h]

theorem inv_send (h : Inv profiles id l) (side : Side) : Inv profiles id (l.step (.send side)) := by
  refine ⟨h.winner, h.elects, ?_⟩
  obtain ⟨x, hx⟩ : ∃ x, x = l side := ⟨_, rfl⟩
  obtain ⟨y, hy⟩ : ∃ y, y = l side.other := ⟨_, rfl⟩
  have hfacing := h.facing side
  have hother := h.facing side.other
  have hback : side.other.other = side := by cases side <;> rfl
  rw [← hx] at hfacing
  rw [← hy, hback] at hother
  have hstep : l.step (.send side) = Function.update (Function.update l side { x with router := x.router.sendHellos })
      side.other { y with inbox := y.inbox ++ x.hellos y } := by rw [hx, hy, step]
  have hhellos := genuine_hellos hfacing (systemId_of_profile hother.profile)
  intro side'
  rw [hstep]
  by_cases hside : side' = side.other
  · rw [hside, Function.update_self, hback]
    refine ⟨hother.profile, hother.iface, ?_⟩
    intro m hm
    rcases List.mem_append.mp hm with hold | hnew
    · exact hother.inbox m hold
    · exact hhellos m hnew
  · have hself : side' = side := by cases side <;> cases side' <;> first | rfl | exact absurd rfl hside
    rw [Function.update_of_ne hside, hself, Function.update_self]
    exact ⟨hfacing.profile, hfacing.iface, hfacing.inbox⟩

theorem inv_deliver (h : Inv profiles id l) (side : Side) (now : ℕ) (hguard : l.Guard (.deliver side now)) :
    Inv profiles id (l.step (.deliver side now)) := by
  refine ⟨h.winner, h.elects, ?_⟩
  intro side'
  by_cases hside : side' = side
  · rw [hside, step, Function.update_self]
    refine facing_receive (h.elects side) (h.facing side) now ?_
    intro f hf m hm hello hhello hloses hdown hlisted
    refine hguard f hf m hm hello hhello ?_ ?_ hlisted
    · rw [h.lanId, systemId_of_profile (h.facing side).profile]
      simpa using hloses
    · rw [Station.up, Option.mem_def.mp hf, systemId_of_profile (h.facing side.other).profile, Option.any_some,
        Option.any_eq_false]
      intro n hn
      rw [hdown n hn]
  · rw [step, Function.update_of_ne hside]
    exact h.facing side'

theorem inv_step (e : Event) (h : Inv profiles id l) (hguard : l.Guard e) : Inv profiles id (l.step e) := by
  cases e with
  | send side => exact inv_send h side
  | deliver side now => exact inv_deliver h side now hguard

theorem Inv.agrees (h : Inv profiles id l) : l.Agrees := by
  intro level hsettled side
  obtain ⟨f, hf, -, hknows⟩ := (h.facing side).iface
  obtain ⟨hup, -⟩ := hsettled side
  rw [Station.up, hf, systemId_of_profile (h.facing side.other).profile, Option.any_some, Option.any_eq_true] at hup
  obtain ⟨n, hn, hnup⟩ := hup
  rw [Station.dis, hf, h.lanId]
  exact hknows.dis n level hn hnup

theorem exists_inv_of_start (hstart : l.Start) (helective : l.Elective) : ∃ profiles id, Inv profiles id l := by
  have hprofile : ∀ side, ∃ p, (l side).profile = some p := by
    intro side
    obtain ⟨f, hf, -⟩ := hstart.iface side
    exact ⟨_, profile_eq hf⟩
  choose profiles hprofiles using hprofile
  obtain ⟨id, hid⟩ : ∃ id, (profiles .left).winner (profiles .right) = some id := by
    obtain ⟨w, hw⟩ := exists_electDis (profiles .left).candidate (profiles .right).candidate
    rw [Profile.winner, hw]
    exact ⟨_, rfl⟩
  have hwinner : l.winner = some id := by
    rw [Lan.winner, hprofiles, hprofiles]
    exact hid
  refine ⟨profiles, id, hid, ?_, ?_⟩
  · intro side
    exact helective side _ _ id (hprofiles side) (hprofiles side.other) hwinner
  · intro side
    obtain ⟨f, hf, hlan, hnone⟩ := hstart.iface side
    refine ⟨hprofiles side, ⟨f, hf, hlan, ?_, ?_⟩, ?_⟩
    · intro k n hn
      rw [hnone] at hn
      cases hn
    · intro n level hn
      rw [hnone] at hn
      cases hn
    · intro m hm
      rw [hstart.inbox] at hm
      cases hm

/-- In every exchange of Hellos that meets the guard, the routers hold the LAN ID of the winner once they are settled. -/
theorem agrees_run (l : Lan) (es : List Event) (hstart : l.Start) (helective : l.Elective) (h : Run.Every step Guard l es) :
    ∀ fs, fs <+: es → Agrees (fs.foldl step l) := by
  intro fs hfs
  obtain ⟨gs, rfl⟩ := hfs
  obtain ⟨profiles, id, hinv⟩ := exists_inv_of_start hstart helective
  have hlast : Inv profiles id (fs.foldl step l) :=
    (Run.every_append.mp h).1.invariant (Inv profiles id) hinv fun t e ht he => inv_step e ht he
  exact hlast.agrees

/-- A router of priority 64 and its interface to the LAN. -/
def stationOf (systemId : SystemId) (snpa : Snpa) : Station :=
  ⟨fresh systemId [Iface.quiet .broadcast snpa], 0, [], ⟨false, false⟩⟩

/-- A router sends its Hellos of both levels, and the other one receives them. -/
def exchange (side : Side) : List Event := [.send side, .deliver side.other 0, .deliver side.other 0]

def pair : Lan
  | .left => stationOf 7 5
  | .right => stationOf 3 9

theorem start_pair : pair.Start where
  iface := by
    intro side
    cases side <;> exact ⟨_, rfl, rfl, fun id => by simp [Iface.quiet]⟩
  snpa := by decide
  inbox := by
    intro side
    cases side <;> rfl
  informed := by
    intro side level
    cases side <;> cases level <;> rfl

theorem elective_pair : pair.Elective :=
  elective_of_distinct (p := ⟨⟨7, 5, 64⟩, 1⟩) (q := ⟨⟨3, 9, 64⟩, 1⟩) rfl rfl (by decide) (by decide) (by decide) (by decide)

/-- The winner, on the right, comes up first. -/
theorem agrees_run_winner_first :
    Agrees ((exchange .right ++ exchange .left ++ exchange .right ++ exchange .left ++ exchange .right).foldl step pair) := by
  have hguard : Run.Every step Guard pair
      (exchange .right ++ exchange .left ++ exchange .right ++ exchange .left ++ exchange .right) := by decide +kernel
  exact agrees_run pair _ start_pair elective_pair hguard _ (List.prefix_refl _)

/-- The loser comes up first, by a Hello that says nothing yet of a LAN ID, and never learns it. -/
theorem not_agrees_loser_first :
    ¬ ∀ (l : Lan) (es : List Event), l.Start → l.Elective → ∀ fs, fs <+: es → Agrees (fs.foldl step l) := by
  intro h
  have hagrees := h pair (exchange .left ++ exchange .right ++ exchange .left ++ exchange .right ++ exchange .left)
    start_pair elective_pair _ (List.prefix_refl _) .l2
  have hsettled : Settled ((exchange .left ++ exchange .right ++ exchange .left ++ exchange .right ++
      exchange .left).foldl step pair) .l2 := by
    intro side
    cases side <;> decide +kernel
  have hleft := hagrees hsettled .left
  revert hleft
  decide +kernel

end Lan

end Isis
end Wren.Daemon
