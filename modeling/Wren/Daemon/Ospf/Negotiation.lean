import Wren.Daemon.Ospf.Exchange
import Wren.Lib.Run

/-! Who becomes the master of a Database Exchange, when the Database Descriptions of two routers reach each other in any
order, any number of times or not at all. -/

namespace Wren.Daemon.DbExchange
open Wren.Ospf

section Outcomes
variable {H K : Type} [DecidableEq K] {db : Databases H K}

def Exchanging (s : NeighborState) : Prop := s = .exchange ∨ s = .loading ∨ s = .full

instance (s : NeighborState) : Decidable (Exchanging s) := inferInstanceAs (Decidable (_ ∨ _))

/-- A description in the course of an exchange, from a router in this role. -/
def Message.InRole (master : Bool) : Message H K → Prop
  | .dd d => d.init = false ∧ d.master = master
  | .lsr _ => True

omit [DecidableEq K] in
theorem inRole_sendExchangeDd (n : Adjacency K) : (sendExchangeDd db n).2.InRole n.master := by
  unfold sendExchangeDd
  cases h : n.master with
  | false => exact ⟨by simp [Description.init], by simp [Description.master]⟩
  | true =>
    have hinit : ddFlagMaster &&& ddFlagInit = 0 := by decide
    have hmaster : ¬ ddFlagMaster = 0 := by decide
    exact ⟨by simp [Description.init, hinit], by simp [Description.master, hmaster]⟩

omit [DecidableEq K] in
theorem inRole_sendLsr (master : Bool) (n : Adjacency K) : ∀ m ∈ (sendLsr n : List (Message H K)), m.InRole master := by
  intro m hm
  unfold sendLsr at hm
  split at hm
  · cases hm
  · obtain rfl := List.mem_singleton.mp hm
    trivial

/-- What a neighbour may come out of a packet as. -/
inductive Negotiated (selfId nbrId : Ipv4Addr) (n : Adjacency K) (dd : Description H) (o : Outcome H K) : Prop
  | ignored : o.nbr = n → o.sent = [] → o.acts = [] → Negotiated selfId nbrId n dd o
  | slave : n.state = .exStart → selfId < nbrId → o.nbr.master = false → o.nbr.state = .exchange →
    (∀ m ∈ o.sent, m.InRole false) → o.acts = [] → Negotiated selfId nbrId n dd o
  | master : n.state = .exStart → nbrId < selfId → dd.init = false → dd.master = false → o.nbr.master = true →
    o.nbr.state = .exchange → (∀ m ∈ o.sent, m.InRole true) → o.acts = [] → Negotiated selfId nbrId n dd o
  | restarted : Exchanging n.state → o.nbr.state = .exStart → o.sent = [] →
    o.acts = [.clearAdjacency, .startDdExchange] → Negotiated selfId nbrId n dd o
  | driven : Exchanging n.state → Exchanging o.nbr.state → o.nbr.master = n.master →
    (∀ m ∈ o.sent, m.InRole n.master) → (o.acts = [] ∨ o.acts = [.adjacencyUp]) → Negotiated selfId nbrId n dd o

omit [DecidableEq K] in
theorem exchangeDone_spec {n : Adjacency K} (h : Exchanging n.state) :
    Exchanging (exchangeDone n : Outcome H K).nbr.state ∧ (exchangeDone n : Outcome H K).nbr.master = n.master ∧
      (∀ m ∈ (exchangeDone n : Outcome H K).sent, m.InRole n.master) ∧
      ((exchangeDone n : Outcome H K).acts = [] ∨ (exchangeDone n : Outcome H K).acts = [.adjacencyUp]) := by
  have hhandle : Exchanging (n.state.handle .exchangeDone ⟨true, n.requestList.isEmpty⟩).1 ∧
      ((n.state.handle .exchangeDone ⟨true, n.requestList.isEmpty⟩).2 = [] ∨
        (n.state.handle .exchangeDone ⟨true, n.requestList.isEmpty⟩).2 = [.adjacencyUp]) := by
    rcases h with h | h | h
    · rw [h]
      cases n.requestList.isEmpty
      · decide
      · decide
    · rw [h]
      exact ⟨.inr (.inl rfl), .inl rfl⟩
    · rw [h]
      exact ⟨.inr (.inr rfl), .inl rfl⟩
  refine ⟨hhandle.1, rfl, ?_, hhandle.2⟩
  intro m hm
  simp only [exchangeDone] at hm
  split at hm
  · exact inRole_sendLsr _ _ m hm
  · cases hm

theorem negotiated_exchangeDd {selfId nbrId : Ipv4Addr} {n : Adjacency K} (h : Exchanging n.state) (dd : Description H) :
    Negotiated selfId nbrId n dd (exchangeDd db n dd) := by
  unfold exchangeDd
  split
  · have hrestart : n.state.handle .seqNumberMismatch {} = (.exStart, [.clearAdjacency, .startDdExchange]) := by
      rcases h with h | h | h <;> rw [h] <;> rfl
    simp only [hrestart]
    exact .restarted h rfl rfl rfl
  · split
    · split
      · exact .ignored rfl rfl rfl
      · split
        · obtain ⟨hstate, hmaster, hsent, hacts⟩ :=
            exchangeDone_spec (H := H) (n := processDdHeaders db dd.lsaHeaders n) h
          exact .driven h hstate hmaster hsent hacts
        · refine .driven h h rfl ?_ (.inl rfl)
          intro m hm
          obtain rfl := List.mem_singleton.mp hm
          exact inRole_sendExchangeDd _
    · split
      · refine .driven h h rfl ?_ (.inl rfl)
        intro m hm
        obtain rfl := List.mem_singleton.mp hm
        exact inRole_sendExchangeDd _
      · split
        · refine .driven h h rfl ?_ (.inl rfl)
          intro m hm
          obtain rfl := List.mem_singleton.mp hm
          exact inRole_sendExchangeDd _
        · obtain ⟨hstate, hmaster, hsent, hacts⟩ := exchangeDone_spec (H := H)
            (n := (sendExchangeDd db (processDdHeaders db dd.lsaHeaders { n with ddSeq := dd.ddSequence })).1) h
          refine .driven h hstate hmaster ?_ hacts
          intro m hm
          rcases List.mem_cons.mp hm with rfl | hm
          · exact inRole_sendExchangeDd _
          · exact hsent m hm

theorem negotiated_handleDd (selfId nbrId : Ipv4Addr) (n : Adjacency K) (dd : Description H) :
    Negotiated selfId nbrId n dd (handleDd db selfId nbrId n dd) := by
  have hdone : n.state = .exStart → (n.state.handle .negotiationDone {}).1 = .exchange := by
    intro hs
    rw [hs]
    rfl
  unfold handleDd
  split
  · exact .ignored rfl rfl rfl
  · split
    · rename_i hs
      split
      · rename_i hcond
        refine .slave hs hcond.2 rfl (hdone hs) ?_ rfl
        intro m hm
        obtain rfl := List.mem_singleton.mp hm
        exact inRole_sendExchangeDd _
      · split
        · rename_i hcond
          refine .master hs hcond.2.2.1 hcond.1 hcond.2.1 rfl (hdone hs) ?_ rfl
          intro m hm
          obtain rfl := List.mem_singleton.mp hm
          exact inRole_sendExchangeDd _
        · exact .ignored rfl rfl rfl
    · rename_i hs
      exact negotiated_exchangeDd (.inl hs) dd
    · rename_i hs
      exact negotiated_exchangeDd (.inr (.inl hs)) dd
    · rename_i hs
      exact negotiated_exchangeDd (.inr (.inr hs)) dd
    · exact .ignored rfl rfl rfl

end Outcomes

/-! ### Two routers -/

/-- How a router knows its neighbours: OSPFv2 by the address on a link that elects a Designated Router and by the Router
ID on other links, OSPFv3 by the Router ID. -/
inductive Runner where
  | ospf (electsDr : Bool)
  | ospf3

def Runner.neighborKey (r : Runner) (src routerId : Ipv4Addr) : Ipv4Addr :=
  match r with
  | .ospf electsDr => if electsDr then src else routerId
  | .ospf3 => routerId

/-- A router of the pair, with its entry for the other one. -/
structure Party (K : Type) where
  routerId : Ipv4Addr
  nbrId : Ipv4Addr
  nbr : Adjacency K
  nextDdSeq : UInt32

/-- The two routers, and all descriptions that were ever sent to each. -/
structure Pair (H K : Type) where
  party : Bool → Party K
  inbox : Bool → List (Description H)

/-- A router gets one of the descriptions sent to it, with its databases as they are by then, or repeats the one that
opens the exchange. -/
inductive PairEvent (H K : Type) where
  | deliver (dst : Bool) (n : ℕ) (db : Databases H K)
  | retransmitInitDds (src : Bool)

section Pair
variable {H K : Type} [DecidableEq K]

def Message.dd? : Message H K → Option (Description H)
  | .dd d => some d
  | .lsr _ => none

/-- Carry out what is left to do. The other actions do not touch the exchange. -/
def Party.act (p : Party K) : List NeighborAction → Party K × List (Message H K)
  | [] => (p, [])
  | .clearAdjacency :: acts => Party.act { p with nbr := clearAdjacency p.nbr } acts
  | .startDdExchange :: acts =>
    let seq := p.nextDdSeq + 1
    let started := startDdExchange seq p.nbr
    let rest := Party.act { p with nbr := started.1, nextDdSeq := seq } acts
    (rest.1, started.2 :: rest.2)
  | _ :: acts => Party.act p acts

def Party.handleDd (p : Party K) (db : Databases H K) (dd : Description H) : Party K × List (Message H K) :=
  let o := DbExchange.handleDd db p.routerId p.nbrId p.nbr dd
  let r := Party.act { p with nbr := o.nbr } o.acts
  (r.1, o.sent ++ r.2)

/-- The description that is repeated while the neighbour is in ExStart. -/
def Party.initDd (p : Party K) : List (Message H K) :=
  if p.nbr.state = .exStart then [(startDdExchange p.nbr.ddSeq p.nbr).2] else []

/-- One router moves, and sends to the other one. -/
def Pair.move (s : Pair H K) (i : Bool) (r : Party K × List (Message H K)) : Pair H K where
  party := Function.update s.party i r.1
  inbox := Function.update s.inbox (!i) (s.inbox (!i) ++ r.2.filterMap Message.dd?)

def Pair.step (s : Pair H K) : PairEvent H K → Pair H K
  | .deliver i n db =>
    match (s.inbox i)[n]? with
    | none => s
    | some dd => s.move i ((s.party i).handleDd db dd)
  | .retransmitInitDds i => s.move i (s.party i, (s.party i).initDd)

/-- Both routers have just started the exchange. -/
def Pair.start (runner : Runner) (routerId addr : Bool → Ipv4Addr) (seq next : Bool → UInt32) : Pair H K where
  party i :=
    { routerId := routerId i, nbrId := runner.neighborKey (addr !i) (routerId !i), nextDdSeq := next i
      nbr := (startDdExchange (H := H) (seq i) ⟨.exStart, 0, false, false, []⟩).1 }
  inbox i := [(startDdExchange (K := K) (seq !i) ⟨.exStart, 0, false, false, []⟩).2].filterMap Message.dd?

/-- Once the negotiation is done on both sides, one router is the master, and it has the higher Router ID. -/
def Pair.Agreed (s : Pair H K) : Prop :=
  Exchanging (s.party false).nbr.state → Exchanging (s.party true).nbr.state →
    ∃ i, (s.party i).nbr.master = true ∧ (s.party !i).nbr.master = false ∧
      (s.party !i).routerId < (s.party i).routerId

/-- Not both find the other one above, and the one that finds the other above, and is below for it, has the lower
Router ID. -/
def KeysAgree (routerId nbrId : Bool → Ipv4Addr) : Prop :=
  ∀ i, routerId i < nbrId i → ¬ routerId (!i) < nbrId !i ∧ (nbrId (!i) < routerId !i → routerId i < routerId !i)

/-! ### What holds in every state -/

/-- A role is taken by the comparison it takes, and the master's also by that of the other router. -/
structure Pair.Inv (routerId nbrId : Bool → Ipv4Addr) (s : Pair H K) : Prop where
  ids : ∀ i, (s.party i).routerId = routerId i ∧ (s.party i).nbrId = nbrId i
  role : ∀ i, Exchanging (s.party i).nbr.state →
    ((s.party i).nbr.master = false ∧ routerId i < nbrId i) ∨
    ((s.party i).nbr.master = true ∧ nbrId i < routerId i ∧ routerId (!i) < nbrId !i)
  sent : ∀ i, ∀ d ∈ s.inbox i, d.init = true ∨ d.master = true ∨ routerId (!i) < nbrId !i

/-- Messages that a router may send which is a slave only if it is outranked. -/
def Allowed (outranked : Prop) (m : Message H K) : Prop :=
  ∀ d, m.dd? = some d → d.init = true ∨ d.master = true ∨ outranked

omit [DecidableEq K] in
theorem allowed_of_inRole {outranked : Prop} {m : Message H K} {master : Bool} (h : m.InRole master)
    (hrole : master = false → outranked) : Allowed outranked m := by
  intro d hd
  cases m with
  | lsr _ => cases hd
  | dd _ =>
    obtain rfl := Option.some.inj hd
    cases master with
    | false => exact .inr (.inr (hrole rfl))
    | true => exact .inr (.inl h.2)

theorem init_opening : (ddFlagInit ||| ddFlagMore ||| ddFlagMaster) &&& ddFlagInit ≠ 0 := by decide

omit [DecidableEq K] in
theorem allowed_startDdExchange (outranked : Prop) (seq : UInt32) (n : Adjacency K) :
    Allowed outranked (startDdExchange (H := H) seq n).2 := by
  intro d hd
  obtain rfl := Option.some.inj hd
  exact .inl (decide_eq_true init_opening)

/-- A party after a packet: who it is stays, and its role is as the comparisons have it. -/
theorem Party.handleDd_spec (p : Party K) (db : Databases H K) (dd : Description H) {peer : Prop}
    (hrole : Exchanging p.nbr.state → (p.nbr.master = false ∧ p.routerId < p.nbrId) ∨
      (p.nbr.master = true ∧ p.nbrId < p.routerId ∧ peer))
    (hdd : dd.init = true ∨ dd.master = true ∨ peer) :
    ((p.handleDd db dd).1.routerId = p.routerId ∧ (p.handleDd db dd).1.nbrId = p.nbrId) ∧
    (Exchanging (p.handleDd db dd).1.nbr.state →
      ((p.handleDd db dd).1.nbr.master = false ∧ p.routerId < p.nbrId) ∨
      ((p.handleDd db dd).1.nbr.master = true ∧ p.nbrId < p.routerId ∧ peer)) ∧
    ∀ m ∈ (p.handleDd db dd).2, Allowed (p.routerId < p.nbrId) m := by
  unfold Party.handleDd
  cases @negotiated_handleDd H K _ db p.routerId p.nbrId p.nbr dd with
  | ignored hnbr hsent hacts =>
    simp only [hnbr, hsent, hacts, Party.act, List.append_nil]
    exact ⟨⟨trivial, trivial⟩, hrole, fun m hm => by cases hm⟩
  | slave hs hlt hmaster hstate hsent hacts =>
    simp only [hacts, Party.act, List.append_nil]
    refine ⟨⟨trivial, trivial⟩, fun _ => .inl ⟨hmaster, hlt⟩, ?_⟩
    intro m hm
    exact allowed_of_inRole (hsent m hm) fun _ => hlt
  | master hs hlt hinit hnot hmaster hstate hsent hacts =>
    have hpeer : peer := by
      rcases hdd with h | h | h
      · rw [hinit] at h
        cases h
      · rw [hnot] at h
        cases h
      · exact h
    simp only [hacts, Party.act, List.append_nil]
    refine ⟨⟨trivial, trivial⟩, fun _ => .inr ⟨hmaster, hlt, hpeer⟩, ?_⟩
    intro m hm
    refine allowed_of_inRole (hsent m hm) ?_
    intro h
    cases h
  | restarted hs hstate hsent hacts =>
    simp only [hacts, hsent, Party.act, List.nil_append]
    refine ⟨⟨trivial, trivial⟩, ?_, ?_⟩
    · intro hex
      have hstart : (DbExchange.handleDd db p.routerId p.nbrId p.nbr dd).nbr.state = .exStart := hstate
      have hnot : ¬ Exchanging NeighborState.exStart := by decide
      exact absurd (hstart ▸ hex) hnot
    · intro m hm
      obtain rfl := List.mem_singleton.mp hm
      exact allowed_startDdExchange _ _ _
  | driven hs hstate hmaster hsent hacts =>
    have hact : ∀ q : Party K,
        Party.act (H := H) q (DbExchange.handleDd db p.routerId p.nbrId p.nbr dd).acts = (q, []) := by
      intro q
      rcases hacts with h | h
      · rw [h]
        rfl
      · rw [h]
        rfl
    simp only [hact, List.append_nil, hmaster]
    refine ⟨⟨trivial, trivial⟩, fun _ => hrole hs, ?_⟩
    intro m hm
    refine allowed_of_inRole (hsent m hm) ?_
    intro hfalse
    rcases hrole hs with h | h
    · exact h.2
    · rw [hfalse] at h
      cases h.1

variable {routerId nbrId : Bool → Ipv4Addr}

omit [DecidableEq K] in
@[simp] theorem Pair.party_move (s : Pair H K) (i : Bool) (r : Party K × List (Message H K)) :
    (s.move i r).party i = r.1 :=
  Function.update_self (β := fun _ => Party K) i r.1 s.party

omit [DecidableEq K] in
@[simp] theorem Pair.party_move_other (s : Pair H K) (i : Bool) (r : Party K × List (Message H K)) :
    (s.move i r).party (!i) = s.party !i :=
  Function.update_of_ne (β := fun _ => Party K) (Bool.not_ne_self i) r.1 s.party

omit [DecidableEq K] in
@[simp] theorem Pair.party_move_not (s : Pair H K) (i : Bool) (r : Party K × List (Message H K)) :
    (s.move (!i) r).party i = s.party i := by
  have h := Pair.party_move_other s (!i) r
  rwa [Bool.not_not] at h

omit [DecidableEq K] in
@[simp] theorem Pair.inbox_move (s : Pair H K) (i : Bool) (r : Party K × List (Message H K)) :
    (s.move i r).inbox i = s.inbox i :=
  Function.update_of_ne (β := fun _ => List (Description H)) (Bool.not_ne_self i).symm _ s.inbox

omit [DecidableEq K] in
@[simp] theorem Pair.inbox_move_other (s : Pair H K) (i : Bool) (r : Party K × List (Message H K)) :
    (s.move i r).inbox (!i) = s.inbox (!i) ++ r.2.filterMap Message.dd? :=
  Function.update_self (β := fun _ => List (Description H)) (!i) _ s.inbox

omit [DecidableEq K] in
theorem Pair.inv_move {s : Pair H K} (h : s.Inv routerId nbrId) (i : Bool) (r : Party K × List (Message H K))
    (hids : r.1.routerId = (s.party i).routerId ∧ r.1.nbrId = (s.party i).nbrId)
    (hrole : Exchanging r.1.nbr.state → (r.1.nbr.master = false ∧ routerId i < nbrId i) ∨
      (r.1.nbr.master = true ∧ nbrId i < routerId i ∧ routerId (!i) < nbrId !i))
    (hsent : ∀ m ∈ r.2, Allowed (routerId i < nbrId i) m) : (s.move i r).Inv routerId nbrId := by
  have hcases : ∀ j, j = i ∨ j = !i := by cases i <;> decide
  constructor
  · intro j
    rcases hcases j with rfl | rfl
    · rw [party_move, hids.1, hids.2]
      exact h.ids j
    · rw [party_move_other]
      exact h.ids _
  · intro j hex
    rcases hcases j with rfl | rfl
    · rw [party_move] at hex ⊢
      exact hrole hex
    · rw [party_move_other] at hex ⊢
      exact h.role _ hex
  · intro j d hd
    rcases hcases j with rfl | rfl
    · rw [inbox_move] at hd
      exact h.sent j d hd
    · rw [inbox_move_other, List.mem_append] at hd
      rcases hd with hd | hd
      · exact h.sent _ d hd
      · obtain ⟨m, hm, hmd⟩ := List.mem_filterMap.mp hd
        rw [Bool.not_not]
        exact hsent m hm d hmd

theorem Pair.inv_step {s : Pair H K} (h : s.Inv routerId nbrId) (e : PairEvent H K) : (s.step e).Inv routerId nbrId := by
  cases e with
  | deliver i n db =>
    rw [Pair.step]
    cases hd : (s.inbox i)[n]? with
    | none => exact h
    | some dd =>
      have hrole := h.role i
      rw [← (h.ids i).1, ← (h.ids i).2] at hrole
      obtain ⟨hids, hrole', hsent⟩ := (s.party i).handleDd_spec db dd hrole (h.sent i dd (List.mem_of_getElem? hd))
      rw [(h.ids i).1, (h.ids i).2] at hrole' hsent
      exact inv_move h i _ hids hrole' hsent
  | retransmitInitDds i =>
    refine inv_move h i _ ⟨rfl, rfl⟩ (h.role i) ?_
    intro m hm
    dsimp only [Party.initDd] at hm
    split at hm
    · obtain rfl := List.mem_singleton.mp hm
      exact allowed_startDdExchange _ _ _
    · cases hm

theorem not_exchanging_exStart : ¬ Exchanging NeighborState.exStart := by decide

omit [DecidableEq K] in
theorem Pair.inv_start (runner : Runner) (routerId addr : Bool → Ipv4Addr) (seq next : Bool → UInt32) :
    (Pair.start runner routerId addr seq next : Pair H K).Inv routerId
      fun i => runner.neighborKey (addr !i) (routerId !i) := by
  refine ⟨fun i => ⟨rfl, rfl⟩, ?_, ?_⟩
  · intro i hex
    exact absurd hex not_exchanging_exStart
  · intro i d hd
    obtain rfl := List.mem_singleton.mp hd
    exact .inl (decide_eq_true init_opening)

theorem Pair.inv_run {s : Pair H K} (h : s.Inv routerId nbrId) (es : List (PairEvent H K)) :
    (es.foldl Pair.step s).Inv routerId nbrId :=
  (Run.every_true Pair.step s es).invariant (Pair.Inv routerId nbrId) h fun _ e hs _ => inv_step hs e

omit [DecidableEq K] in
/-- Where the keys agree, so do the routers. -/
theorem Pair.Inv.agreed {s : Pair H K} (h : s.Inv routerId nbrId) (hkeys : KeysAgree routerId nbrId) : s.Agreed := by
  have hboth : ∀ i, (s.party i).nbr.master = false → routerId i < nbrId i → Exchanging (s.party !i).nbr.state →
      ∃ j, (s.party j).nbr.master = true ∧ (s.party !j).nbr.master = false ∧
        (s.party !j).routerId < (s.party j).routerId := by
    intro i hslave hlt hex
    have hnot := hkeys i hlt
    rcases h.role (!i) hex with hrole | hrole
    · exact absurd hrole.2 hnot.1
    · have hids : routerId i < routerId !i := hnot.2 hrole.2.1
      rw [← (h.ids i).1, ← (h.ids !i).1] at hids
      refine ⟨!i, hrole.1, ?_, ?_⟩
      · rw [Bool.not_not]
        exact hslave
      · rw [Bool.not_not]
        exact hids
  intro hfalse htrue
  rcases h.role false hfalse with hrole | hrole
  · exact hboth false hrole.1 hrole.2 htrue
  · rcases h.role true htrue with hrole' | hrole'
    · exact hboth true hrole'.1 hrole'.2 hfalse
    · exact absurd hrole'.2.1 (BitVec.lt_asymm hrole.2.2)

/-! ### Where the keys do not agree -/

/-- The description that opens an exchange. -/
def opening (seq : UInt32) : Description H := ⟨ifaceMtu, ddFlagInit ||| ddFlagMore ||| ddFlagMaster, seq, []⟩

omit [DecidableEq K] in
@[simp] theorem Pair.inbox_start (runner : Runner) (routerId addr : Bool → Ipv4Addr) (seq next : Bool → UInt32)
    (i : Bool) : (Pair.start runner routerId addr seq next : Pair H K).inbox i = [opening (seq !i)] := rfl

theorem isInit_opening (seq : UInt32) : (opening seq : Description H).isInit = true := by
  have hmore : (ddFlagInit ||| ddFlagMore ||| ddFlagMaster) &&& ddFlagMore ≠ 0 := by decide
  have hmaster : (ddFlagInit ||| ddFlagMore ||| ddFlagMaster) &&& ddFlagMaster ≠ 0 := by decide
  have hinit := init_opening
  simp [Description.isInit, Description.init, Description.more, Description.master, opening, hinit, hmore, hmaster]

/-- An opening makes a slave of a router that is outranked. -/
theorem Party.handleDd_opening {p : Party K} (db : Databases H K) (seq : UInt32) (hs : p.nbr.state = .exStart)
    (hlt : p.routerId < p.nbrId) :
    p.handleDd db (opening seq) = ({ p with nbr := (negotiationDone db false seq p.nbr).nbr },
      (negotiationDone db false seq p.nbr).sent) := by
  have hmtu : ¬ ((opening seq : Description H).interfaceMtu ≠ 0 ∧ ifaceMtu < (opening seq : Description H).interfaceMtu) := by
    simp [opening]
  have ho : DbExchange.handleDd db p.routerId p.nbrId p.nbr (opening seq) = negotiationDone db false seq p.nbr := by
    unfold DbExchange.handleDd
    rw [if_neg hmtu, hs]
    simp only [isInit_opening, hlt, and_self, if_true]
    rfl
  simp only [Party.handleDd, ho]
  simp [negotiationDone, Party.act]

theorem Party.slave_of_opening {p : Party K} (db : Databases H K) (seq : UInt32) (hs : p.nbr.state = .exStart)
    (hlt : p.routerId < p.nbrId) :
    (p.handleDd db (opening seq)).1.nbr.state = .exchange ∧ (p.handleDd db (opening seq)).1.nbr.master = false := by
  rw [p.handleDd_opening db seq hs hlt]
  simp [negotiationDone, sendExchangeDd, hs, NeighborState.handle]

/-- The answer of a slave makes a master of a router that outranks it. -/
theorem Party.handleDd_answer {p : Party K} (db : Databases H K) (headers : List H) (hs : p.nbr.state = .exStart)
    (hlt : p.nbrId < p.routerId) :
    (p.handleDd db ⟨ifaceMtu, 0, p.nbr.ddSeq, headers⟩).1.nbr.state = .exchange ∧
      (p.handleDd db ⟨ifaceMtu, 0, p.nbr.ddSeq, headers⟩).1.nbr.master = true := by
  have hmtu : ¬ (ifaceMtu ≠ 0 ∧ ifaceMtu < ifaceMtu) := by decide
  have ho : DbExchange.handleDd db p.routerId p.nbrId p.nbr ⟨ifaceMtu, 0, p.nbr.ddSeq, headers⟩ =
      negotiationDone db true (p.nbr.ddSeq + 1) (processDdHeaders db headers p.nbr) := by
    unfold DbExchange.handleDd
    rw [if_neg hmtu, hs]
    simp [Description.isInit, Description.init, Description.master, hlt]
  have hstate : (processDdHeaders db headers p.nbr).state = .exStart := hs
  simp only [Party.handleDd, ho]
  simp [negotiationDone, Party.act, sendExchangeDd, hstate, NeighborState.handle]

section Disagree
variable (runner : Runner) (routerId addr : Bool → Ipv4Addr) (seq next : Bool → UInt32) (db : Databases H K)

/-- A router that is outranked got the opening of the other one. -/
def Pair.enslaved (i : Bool) : Pair H K := (Pair.start runner routerId addr seq next).step (.deliver i 0 db)

theorem Pair.enslaved_spec {i : Bool} (hlt : routerId i < runner.neighborKey (addr !i) (routerId !i)) :
    ((Pair.enslaved runner routerId addr seq next db i).party i).nbr.state = .exchange ∧
    ((Pair.enslaved runner routerId addr seq next db i).party i).nbr.master = false ∧
    (Pair.enslaved runner routerId addr seq next db i).party (!i) =
      (Pair.start runner routerId addr seq next : Pair H K).party !i ∧
    (Pair.enslaved runner routerId addr seq next db i).inbox (!i) =
      [opening (seq i), ⟨ifaceMtu, 0, seq !i, db.headers⟩] := by
  have hslave := Party.handleDd_opening (p := (Pair.start runner routerId addr seq next : Pair H K).party i) db
    (seq !i) rfl hlt
  have hmove : Pair.enslaved runner routerId addr seq next db i = (Pair.start runner routerId addr seq next).move i
      (((Pair.start runner routerId addr seq next).party i).handleDd db (opening (seq !i))) := rfl
  rw [hmove, hslave]
  refine ⟨?_, ?_, ?_, ?_⟩
  · simp [negotiationDone, sendExchangeDd, Pair.start, startDdExchange, NeighborState.handle]
  · simp [negotiationDone, sendExchangeDd]
  · simp
  · simp [negotiationDone, sendExchangeDd, Pair.start, startDdExchange, Message.dd?, opening]

omit [DecidableEq K] in
/-- If one router is the slave, then the other one is the master. -/
theorem Pair.Agreed.other {s : Pair H K} (h : s.Agreed) {i : Bool} (hex : Exchanging (s.party i).nbr.state)
    (hex' : Exchanging (s.party !i).nbr.state) (hslave : (s.party i).nbr.master = false) :
    (s.party !i).nbr.master = true ∧ (s.party i).routerId < (s.party !i).routerId := by
  have hall : ∃ j, (s.party j).nbr.master = true ∧ (s.party !j).nbr.master = false ∧
      (s.party !j).routerId < (s.party j).routerId := by
    cases i with
    | false => exact h hex hex'
    | true => exact h hex' hex
  obtain ⟨j, hmaster, -, hlt⟩ := hall
  have hj : j = !i := by
    cases i <;> cases j <;> simp_all
  subst hj
  rw [Bool.not_not] at hlt
  exact ⟨hmaster, hlt⟩

variable {i : Bool} (hlt : routerId i < runner.neighborKey (addr !i) (routerId !i))

include hlt in
/-- Both routers are slaves if both are outranked. -/
theorem Pair.not_agreed_of_outranked (hlt' : routerId (!i) < runner.neighborKey (addr i) (routerId i)) :
    ¬ ((Pair.enslaved runner routerId addr seq next db i).step (.deliver (!i) 0 db)).Agreed := by
  obtain ⟨hstate, hmaster, hparty, hinbox⟩ := Pair.enslaved_spec runner routerId addr seq next db hlt
  have hslave := ((Pair.start runner routerId addr seq next : Pair H K).party !i).slave_of_opening db (seq i) rfl
    (by simpa [Pair.start] using hlt')
  rw [← hparty] at hslave
  have hmove : (Pair.enslaved runner routerId addr seq next db i).step (.deliver (!i) 0 db) =
      (Pair.enslaved runner routerId addr seq next db i).move (!i)
        (((Pair.enslaved runner routerId addr seq next db i).party !i).handleDd db (opening (seq i))) := by
    simp only [Pair.step, hinbox]
    rfl
  rw [hmove]
  intro h
  have hother := h.other (i := i) (by rw [Pair.party_move_not, hstate]; exact .inl rfl)
    (by rw [Pair.party_move, hslave.1]; exact .inl rfl) (by rw [Pair.party_move_not, hmaster])
  rw [Pair.party_move, hslave.2] at hother
  cases hother.1

include hlt in
/-- The router that is above for both is the master, whatever the Router IDs are. -/
theorem Pair.not_agreed_of_outranks (hlt' : runner.neighborKey (addr i) (routerId i) < routerId !i)
    (hids : ¬ routerId i < routerId !i) :
    ¬ ((Pair.enslaved runner routerId addr seq next db i).step (.deliver (!i) 1 db)).Agreed := by
  obtain ⟨hstate, hmaster, hparty, hinbox⟩ := Pair.enslaved_spec runner routerId addr seq next db hlt
  have hmaster' := ((Pair.start runner routerId addr seq next : Pair H K).party !i).handleDd_answer db db.headers rfl
    (by simpa [Pair.start] using hlt')
  rw [← hparty] at hmaster'
  have hseq : ((Pair.enslaved runner routerId addr seq next db i).party !i).nbr.ddSeq = seq !i := by
    rw [hparty]
    rfl
  rw [hseq] at hmaster'
  have hmove : (Pair.enslaved runner routerId addr seq next db i).step (.deliver (!i) 1 db) =
      (Pair.enslaved runner routerId addr seq next db i).move (!i)
        (((Pair.enslaved runner routerId addr seq next db i).party !i).handleDd db
          ⟨ifaceMtu, 0, seq !i, db.headers⟩) := by
    simp only [Pair.step, hinbox]
    rfl
  have hlow : ((Pair.enslaved runner routerId addr seq next db i).party i).routerId = routerId i :=
    ((Pair.inv_run (Pair.inv_start runner routerId addr seq next) [.deliver i 0 db]).ids i).1
  have hhigh : (((Pair.enslaved runner routerId addr seq next db i).step (.deliver (!i) 1 db)).party !i).routerId =
      routerId !i :=
    ((Pair.inv_run (Pair.inv_start runner routerId addr seq next)
      [.deliver i 0 db, .deliver (!i) 1 db]).ids !i).1
  rw [hmove] at hhigh ⊢
  intro h
  have hother := h.other (i := i) (by rw [Pair.party_move_not, hstate]; exact .inl rfl)
    (by rw [Pair.party_move, hmaster'.1]; exact .inl rfl) (by rw [Pair.party_move_not, hmaster])
  rw [hhigh, Pair.party_move_not, hlow] at hother
  exact hids hother.2

end Disagree

/-! ### The roles of two routers -/

/-- The routers of a pair come to different roles, with the higher Router ID for the master, in every course of their
negotiation if and only if their keys agree. -/
theorem negotiation_agrees [Inhabited K] (runner : Runner) (routerId addr : Bool → Ipv4Addr)
    (seq next : Bool → UInt32) :
    (∀ es : List (PairEvent H K), (es.foldl Pair.step (Pair.start runner routerId addr seq next)).Agreed) ↔
      KeysAgree routerId fun i => runner.neighborKey (addr !i) (routerId !i) := by
  constructor
  · intro h i hlt
    let db : Databases H K := ⟨[], fun _ => default, fun _ => false⟩
    constructor
    · intro hlt'
      simp only [Bool.not_not] at hlt'
      exact Pair.not_agreed_of_outranked runner routerId addr seq next db hlt hlt'
        (h [.deliver i 0 db, .deliver (!i) 0 db])
    · intro hlt'
      simp only [Bool.not_not] at hlt'
      by_contra hids
      exact Pair.not_agreed_of_outranks runner routerId addr seq next db hlt hlt' hids
        (h [.deliver i 0 db, .deliver (!i) 1 db])
  · intro hkeys es
    exact (Pair.inv_run (Pair.inv_start runner routerId addr seq next) es).agreed hkeys

/-- On a link that elects a Designated Router, both routers have a lower Router ID than the other one's address. -/
theorem not_negotiated_broadcast :
    ¬ ∀ es : List (PairEvent ℕ ℕ), (es.foldl Pair.step (Pair.start (.ospf true)
        (fun i => bif i then 0x02020202#32 else 0x01010101#32) (fun i => bif i then 0x0a000002#32 else 0x0a000001#32)
        (fun _ => 1) fun _ => 1)).Agreed := by
  intro h
  have hlow : (0x01010101#32 : Ipv4Addr) < 0x0a000002#32 := by decide
  have hhigh : (0x02020202#32 : Ipv4Addr) < 0x0a000001#32 := by decide
  exact Pair.not_agreed_of_outranked (i := false) (.ospf true) _ _ _ _ ⟨[], id, fun _ => false⟩ hlow hhigh
    (h [.deliver false 0 ⟨[], id, fun _ => false⟩, .deliver true 0 ⟨[], id, fun _ => false⟩])

end Pair

end Wren.Daemon.DbExchange
