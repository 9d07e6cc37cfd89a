import Wren.Daemon.Ospf.Frames
import Wren.Lib.Run

/-! Whom the OSPFv2 task spares while it helps a neighbour to restart. -/

namespace Wren.Daemon
open Std (ExtTreeMap)
open Wren.Core Wren.Ospf OrdMap

namespace Ospf
variable (s : Ospf)

/-! ### Packets by the neighbour they are handled for -/

/-- The interface and the key of the neighbour that a packet is handled for. -/
def receiver (ifindex : UInt32) (src : Ipv4Addr) (p : Packet) : Option (ℕ × Ipv4Addr) :=
  let idx := s.ifaces.findIdx fun i => i.ifindex = ifindex
  match s.iface? idx with
  | none => none
  | some i =>
    if ¬ s.hears ifindex ∨ p.header.routerId = s.cfg.routerId ∨ p.header.areaId ≠ i.area then none
    else if i.fsm.ifaceType.electsDr ∧ ¬ i.onLink src then none
    else some (idx, if i.fsm.ifaceType.electsDr then src else p.header.routerId)

def handleBody (idx : ℕ) (nbrId src : Ipv4Addr) (p : Packet) (now : ℕ) : Ospf :=
  match p.body with
  | .hello h => s.handleHello idx nbrId p.header.routerId src h now
  | .databaseDescription dd => s.handleDd idx nbrId dd
  | .linkStateRequest entries => s.handleLsr idx nbrId entries
  | .linkStateUpdate lsas => s.handleLsu idx nbrId lsas now
  | .linkStateAck headers => s.handleLsack idx nbrId headers

theorem step_packet (ifindex : UInt32) (src : Ipv4Addr) (p : Packet) (now : ℕ) :
    s.step (.packet ifindex src p now) =
      match s.receiver ifindex src p with
      | none => s
      | some r => s.handleBody r.1 r.2 src p now := by
  simp only [step, handlePacket, receiver]
  cases hhears : s.hears ifindex with
  | false =>
    cases s.iface? (s.ifaces.findIdx fun i => i.ifindex = ifindex) with
    | none => rfl
    | some i => simp
  | true =>
    cases s.iface? (s.ifaces.findIdx fun i => i.ifindex = ifindex) with
    | none => rfl
    | some i =>
      by_cases hown : p.header.routerId = s.cfg.routerId ∨ p.header.areaId ≠ i.area
      · simp [hown]
      · by_cases hoff : i.fsm.ifaceType.electsDr ∧ ¬ i.onLink src
        · simp [hown, hoff]
        · simp only [hown, hoff, not_true_eq_false, or_false, if_false, if_true]
          rfl

/-! ### What a neighbour is granted -/

/-- The period that an LSA asks for, where it is a Grace-LSA. -/
def graceOf (lsa : Lsa) : Option UInt32 :=
  if lsa.header.lsType = .opaqueLink ∧ opaqueTypeOf lsa.header.linkStateId = opaqueTypeGrace then
    match lsa.body with
    | .opq data => gracePeriod data
    | _ => none
  else none

def graceUntil (now : ℕ) (period : UInt32) : ℕ := now + min period.toNat maxGracePeriod

/-- A neighbour sent a Grace-LSA while it was Full. The grant is owed to it until it is back or says that it is. -/
structure Grant where
  deadline : ℕ
  owed : Bool

def Grant.waive (g : Grant) : Grant := { g with owed := false }

/-- By interface and key of the neighbour. -/
abbrev Grants := ℕ → Ipv4Addr → Option Grant

def setGrant (grants : Grants) (idx : ℕ) (k : Ipv4Addr) (g : Option Grant) : Grants :=
  fun i j => if i = idx ∧ j = k then g else grants i j

theorem setGrant_self (grants : Grants) (idx : ℕ) (k : Ipv4Addr) : setGrant grants idx k (grants idx k) = grants := by
  funext i j
  simp only [setGrant]
  split_ifs with hhere
  · rw [hhere.1, hhere.2]
  · rfl

def owedUntil : Option Grant → ℕ
  | some g => if g.owed then g.deadline else 0
  | none => 0

def noteGrace (now : ℕ) (full : Bool) (g : Option Grant) (lsa : Lsa) : Option Grant :=
  match graceOf lsa with
  | none => g
  | some period =>
    if maxAge ≤ lsa.header.lsAge then g.map Grant.waive
    else if full then some ⟨max (owedUntil g) (graceUntil now period), true⟩
    else g

def grantStep (now : ℕ) (grants : Grants) : Event → Grants
  | .packet ifindex src p _ =>
    match s.receiver ifindex src p with
    | none => grants
    | some r =>
      match p.body with
      | .hello _ => setGrant grants r.1 r.2 ((grants r.1 r.2).map Grant.waive)
      | .linkStateUpdate lsas =>
        match s.neighbor? r.1 r.2 with
        | none => grants
        | some n => setGrant grants r.1 r.2 (lsas.foldl (noteGrace now n.isFull) (grants r.1 r.2))
      | _ => grants
  | _ => grants

def Granted (now : ℕ) (g : Option Grant) : Prop := ∃ gr ∈ g, now < gr.deadline

def Owed (now : ℕ) (g : Option Grant) : Prop := ∃ gr ∈ g, gr.owed ∧ now < gr.deadline

/-- The event as it happens at a time. -/
def Event.timed (now : ℕ) : Event → Event
  | .packet ifindex src p _ => .packet ifindex src p now
  | .inactivity _ => .inactivity now
  | .wait _ => .wait now
  | ev => ev

/-- The task, the time, and what was granted so far. -/
structure Clocked where
  now : ℕ
  s : Ospf
  grants : Grants

namespace Clocked

/-- An event some seconds after the last one. -/
def step (c : Clocked) (e : ℕ × Event) : Clocked where
  now := c.now + e.1
  s := c.s.step (e.2.timed (c.now + e.1))
  grants := c.s.grantStep (c.now + e.1) c.grants e.2

/-- The neighbour on an interface that BFD means by an address. -/
def Meant (i : Iface) (peer k : Ipv4Addr) : Prop :=
  (i.neighbors.toList.find? fun e => e.2.addr = peer).map Prod.fst = some k

/-- The teardowns spare whom a grant is owed to, and nobody without a grant that lasts. -/
def Law (c : Clocked) (e : ℕ × Event) : Prop :=
  match e.2 with
  | .inactivity _ => ∀ (idx : ℕ) (k : Ipv4Addr) (n : OspfNeighbor), c.s.neighbor? idx k = some n →
      (Owed (c.now + e.1) (c.grants idx k) → (c.step e).s.neighbor? idx k ≠ none) ∧
      (c.s.cfg.deadInterval.toNat ≤ c.now + e.1 - n.lastSeen → ¬ Granted (c.now + e.1) (c.grants idx k) →
        (c.step e).s.neighbor? idx k = none)
  | .bfdDown peer => ∀ (idx : ℕ) (i : Iface) (k : Ipv4Addr), c.s.iface? idx = some i → k ∈ i.neighbors →
      (Owed (c.now + e.1) (c.grants idx k) → (c.step e).s.neighbor? idx k ≠ none) ∧
      (Meant i peer k → ¬ Granted (c.now + e.1) (c.grants idx k) → (c.step e).s.neighbor? idx k = none)
  | _ => True

/-- No Grace-LSA asks for less than what is owed already. -/
def Prolongs (now : ℕ) (full : Bool) : Option Grant → List Lsa → Prop
  | _, [] => True
  | g, lsa :: lsas =>
    (∀ period ∈ graceOf lsa, lsa.header.lsAge < maxAge → owedUntil g ≤ graceUntil now period) ∧
      Prolongs now full (noteGrace now full g lsa) lsas

/-- Grace-LSAs come from neighbours that are kept under their Router ID, which no other neighbour has; no other
neighbour takes the Router ID of one that is helped; BFD reports nobody whose time is over. -/
def Guard (c : Clocked) (e : ℕ × Event) : Prop :=
  match e.2 with
  | .packet ifindex src p _ =>
    match c.s.receiver ifindex src p with
    | none => True
    | some r =>
      match p.body with
      | .hello _ => p.header.routerId ∈ c.s.helping →
          ∃ n, c.s.neighbor? r.1 r.2 = some n ∧ n.routerId = p.header.routerId
      | .linkStateUpdate lsas => ∀ n, c.s.neighbor? r.1 r.2 = some n → (∃ lsa ∈ lsas, graceOf lsa ≠ none) →
          n.routerId = r.2 ∧
          (∀ (idx : ℕ) (k : Ipv4Addr) (m : OspfNeighbor), c.s.neighbor? idx k = some m → m.routerId = r.2 →
            idx = r.1 ∧ k = r.2) ∧
          Prolongs (c.now + e.1) n.isFull (c.grants r.1 r.2) lsas
      | _ => True
  | .bfdDown peer => ∀ (idx : ℕ) (k : Ipv4Addr) (n : OspfNeighbor) (h : GrHelper), c.s.neighbor? idx k = some n →
      n.addr = peer → c.s.helping[n.routerId]? = some h → c.now + e.1 < h.deadline
  | _ => True

end Clocked

/-! ### The invariant, over the faces of the neighbours -/

def face? (idx : ℕ) (k : Ipv4Addr) : Option Face := (s.neighbor? idx k).map OspfNeighbor.face

/-- Who is helped is the only neighbour of that Router ID and was granted it; whom a grant is owed to is helped. -/
structure Sparing (now : ℕ) (faces : ℕ → Ipv4Addr → Option Face) (helping : BTreeMap Ipv4Addr GrHelper)
    (grants : Grants) : Prop where
  granted : ∀ (idx : ℕ) (k : Ipv4Addr) (f : Face) (h : GrHelper), faces idx k = some f →
    helping[f.routerId]? = some h → ∃ g, grants idx k = some g ∧ h.deadline ≤ g.deadline
  single : ∀ (idx idx' : ℕ) (k k' : Ipv4Addr) (f f' : Face), faces idx k = some f → faces idx' k' = some f' →
    f'.routerId = f.routerId → f.routerId ∈ helping → idx' = idx ∧ k' = k
  owed : ∀ (idx : ℕ) (k : Ipv4Addr) (f : Face) (g : Grant), faces idx k = some f → grants idx k = some g → g.owed →
    now < g.deadline → ∃ h, helping[f.routerId]? = some h ∧ g.deadline ≤ h.deadline ∧ f.lastSeen ≤ h.seenAtEntry

namespace Sparing
variable {now : ℕ} {faces : ℕ → Ipv4Addr → Option Face} {helping : BTreeMap Ipv4Addr GrHelper} {grants : Grants}

theorem later (h : Sparing now faces helping grants) {now' : ℕ} (hle : now ≤ now') :
    Sparing now' faces helping grants where
  granted := h.granted
  single := h.single
  owed idx k f g hf hg howed hlt := h.owed idx k f g hf hg howed (by omega)

/-- Neighbours may go. -/
theorem fewer (h : Sparing now faces helping grants) {faces' : ℕ → Ipv4Addr → Option Face}
    (hsub : ∀ idx k f, faces' idx k = some f → faces idx k = some f) : Sparing now faces' helping grants where
  granted idx k f r hf := h.granted idx k f r (hsub idx k f hf)
  single idx idx' k k' f f' hf hf' := h.single idx idx' k k' f f' (hsub idx k f hf) (hsub idx' k' f' hf')
  owed idx k f g hf := h.owed idx k f g (hsub idx k f hf)

/-- A neighbour comes up, or is heard again. -/
theorem heard (h : Sparing now faces helping grants) (idx : ℕ) (k : Ipv4Addr) (f : Face)
    (hname : f.routerId ∈ helping → ∃ old, faces idx k = some old ∧ old.routerId = f.routerId) :
    Sparing now (fun i j => if i = idx ∧ j = k then some f else faces i j) helping
      (setGrant grants idx k ((grants idx k).map Grant.waive)) where
  granted i j f' r hf' hr := by
    simp only [setGrant]
    split_ifs at hf' ⊢ with hhere
    · cases hf'
      obtain ⟨old, hold, hrid⟩ := hname (ExtTreeMap.mem_iff_isSome_getElem?.mpr (by simp [hr]))
      obtain ⟨g, hg, hle⟩ := h.granted idx k old r hold (by rw [hrid]; exact hr)
      exact ⟨g.waive, by simp [hg], hle⟩
    · exact h.granted i j f' r hf' hr
  single i i' j j' f₁ f₂ hf₁ hf₂ heq hmem := by
    -- a name that is helped was that of the same entry before
    have hbefore : ∀ (i : ℕ) (j : Ipv4Addr) (g : Face), (if i = idx ∧ j = k then some f else faces i j) = some g →
        g.routerId ∈ helping → ∃ old, faces i j = some old ∧ old.routerId = g.routerId := by
      intro i j g hg hgmem
      split_ifs at hg with hhere
      · cases hg
        obtain ⟨rfl, rfl⟩ := hhere
        exact hname hgmem
      · exact ⟨g, hg, rfl⟩
    obtain ⟨o₁, ho₁, hr₁⟩ := hbefore i j f₁ hf₁ hmem
    obtain ⟨o₂, ho₂, hr₂⟩ := hbefore i' j' f₂ hf₂ (heq ▸ hmem)
    exact h.single i i' j j' o₁ o₂ ho₁ ho₂ (hr₂.trans (heq.trans hr₁.symm)) (hr₁ ▸ hmem)
  owed i j f' g hf' hg howed hlt := by
    simp only [setGrant] at hg
    split_ifs at hf' hg with hhere
    · obtain ⟨g', -, rfl⟩ := Option.map_eq_some_iff.mp hg
      cases howed
    · exact h.owed i j f' g hf' hg howed hlt

/-- A grant is no longer owed. -/
theorem waived (h : Sparing now faces helping grants) (idx : ℕ) (k : Ipv4Addr) :
    Sparing now faces helping (setGrant grants idx k ((grants idx k).map Grant.waive)) where
  granted i j f r hf hr := by
    obtain ⟨g, hg, hle⟩ := h.granted i j f r hf hr
    simp only [setGrant]
    split_ifs with hhere
    · obtain ⟨rfl, rfl⟩ := hhere
      exact ⟨g.waive, by simp [hg], hle⟩
    · exact ⟨g, hg, hle⟩
  single := h.single
  owed i j f g hf hg howed hlt := by
    simp only [setGrant] at hg
    split_ifs at hg with hhere
    · obtain ⟨g', -, rfl⟩ := Option.map_eq_some_iff.mp hg
      cases howed
    · exact h.owed i j f g hf hg howed hlt

/-- The only neighbour of a Router ID. -/
def Only (faces : ℕ → Ipv4Addr → Option Face) (idx : ℕ) (k rid : Ipv4Addr) : Prop :=
  ∀ (i : ℕ) (j : Ipv4Addr) (f : Face), faces i j = some f → f.routerId = rid → i = idx ∧ j = k

/-- The neighbour says that it is back. -/
theorem completed {idx : ℕ} {k rid : Ipv4Addr} {g : Option Grant} (honly : Only faces idx k rid)
    (h : Sparing now faces helping (setGrant grants idx k g)) :
    Sparing now faces (helping.erase rid) (setGrant grants idx k (g.map Grant.waive)) where
  granted i j f r hf hr := by
    rw [getElem?_erase] at hr
    split_ifs at hr
    obtain ⟨gr, hgr, hle⟩ := h.granted i j f r hf hr
    simp only [setGrant] at hgr ⊢
    split_ifs at hgr ⊢ with hhere
    · exact ⟨gr.waive, by simp [hgr], hle⟩
    · exact ⟨gr, hgr, hle⟩
  single i i' j j' f f' hf hf' heq hmem := by
    refine h.single i i' j j' f f' hf hf' heq ?_
    rw [ExtTreeMap.mem_iff_isSome_getElem?, getElem?_erase] at hmem
    split_ifs at hmem
    · cases hmem
    · exact ExtTreeMap.mem_iff_isSome_getElem?.mpr hmem
  owed i j f gr hf hgr howed hlt := by
    simp only [setGrant] at hgr
    split_ifs at hgr with hhere
    · obtain ⟨g', -, rfl⟩ := Option.map_eq_some_iff.mp hgr
      cases howed
    · have hset : setGrant grants idx k g i j = some gr := by
        simp only [setGrant, if_neg hhere]
        exact hgr
      rw [getElem?_erase, if_neg (fun hrid => hhere (honly i j f hf hrid))]
      exact h.owed i j f gr hf hset howed hlt

/-- The neighbour asks for more time. -/
theorem renewed {idx : ℕ} {k : Ipv4Addr} {f : Face} {g : Option Grant} {period : UInt32}
    (hf : faces idx k = some f) (honly : Only faces idx k f.routerId)
    (hlonger : owedUntil g ≤ graceUntil now period) (h : Sparing now faces helping (setGrant grants idx k g)) :
    Sparing now faces (helping.insert f.routerId ⟨graceUntil now period, f.lastSeen⟩)
      (setGrant grants idx k (some ⟨max (owedUntil g) (graceUntil now period), true⟩)) where
  granted i j f' r hf' hr := by
    by_cases hhere : i = idx ∧ j = k
    · obtain ⟨rfl, rfl⟩ := hhere
      rw [hf] at hf'
      cases hf'
      rw [getElem?_insert, if_pos rfl] at hr
      cases hr
      exact ⟨_, if_pos ⟨rfl, rfl⟩, le_max_right _ _⟩
    · rw [getElem?_insert, if_neg (fun hrid => hhere (honly i j f' hf' hrid))] at hr
      obtain ⟨gr, hgr, hle⟩ := h.granted i j f' r hf' hr
      simp only [setGrant, if_neg hhere] at hgr ⊢
      exact ⟨gr, hgr, hle⟩
  single i i' j j' f₁ f₂ hf₁ hf₂ heq hmem := by
    by_cases hrid : f₁.routerId = f.routerId
    · obtain ⟨rfl, rfl⟩ := honly i j f₁ hf₁ hrid
      exact honly i' j' f₂ hf₂ (heq.trans hrid)
    · refine h.single i i' j j' f₁ f₂ hf₁ hf₂ heq ?_
      rw [ExtTreeMap.mem_iff_isSome_getElem?, getElem?_insert, if_neg hrid] at hmem
      exact ExtTreeMap.mem_iff_isSome_getElem?.mpr hmem
  owed i j f' gr hf' hgr howed hlt := by
    simp only [setGrant] at hgr
    split_ifs at hgr with hhere
    · cases hgr
      obtain ⟨rfl, rfl⟩ := hhere
      rw [hf] at hf'
      cases hf'
      refine ⟨⟨graceUntil now period, f.lastSeen⟩, ?_, ?_, le_refl _⟩
      · rw [getElem?_insert, if_pos rfl]
      · exact max_le hlonger (le_refl _)
    · have hset : setGrant grants idx k g i j = some gr := by
        simp only [setGrant, if_neg hhere]
        exact hgr
      rw [getElem?_insert, if_neg (fun hrid => hhere (honly i j f' hf' hrid))]
      exact h.owed i j f' gr hf' hset howed hlt

/-- Whom a grant is owed to stays helped. -/
theorem upkeep (h : Sparing now faces helping grants) {helping' : BTreeMap Ipv4Addr GrHelper}
    (hsub : ∀ (rid : Ipv4Addr) (r : GrHelper), helping'[rid]? = some r → helping[rid]? = some r)
    (hkeep : ∀ (idx : ℕ) (k : Ipv4Addr) (f : Face) (r : GrHelper), faces idx k = some f →
      Only faces idx k f.routerId → helping[f.routerId]? = some r → now < r.deadline → f.lastSeen ≤ r.seenAtEntry →
      helping'[f.routerId]? = some r) : Sparing now faces helping' grants where
  granted idx k f r hf hr := h.granted idx k f r hf (hsub _ _ hr)
  single idx idx' k k' f f' hf hf' heq hmem := by
    refine h.single idx idx' k k' f f' hf hf' heq ?_
    obtain ⟨r, hr⟩ := Option.isSome_iff_exists.mp (ExtTreeMap.mem_iff_isSome_getElem?.mp hmem)
    exact ExtTreeMap.mem_iff_isSome_getElem?.mpr (by rw [hsub _ _ hr]; rfl)
  owed idx k f g hf hg howed hlt := by
    obtain ⟨r, hr, hle, hseen⟩ := h.owed idx k f g hf hg howed hlt
    have honly : Only faces idx k f.routerId := by
      intro i j f' hf' hrid
      exact h.single idx i k j f f' hf hf' hrid (ExtTreeMap.mem_iff_isSome_getElem?.mpr (by rw [hr]; rfl))
    exact ⟨r, hkeep idx k f r hf honly hr (by omega) hseen, hle, hseen⟩

end Sparing

/-! ### Neighbours by their Router ID -/

theorem mem_values {i : Iface} {n : OspfNeighbor} : n ∈ i.values ↔ ∃ k : Ipv4Addr, i.neighbors[k]? = some n := by
  simp only [Iface.values, List.mem_map]
  constructor
  · intro h
    obtain ⟨e, hmem, rfl⟩ := h
    exact ⟨e.1, ExtTreeMap.mem_toList_iff_getElem?_eq_some.mp hmem⟩
  · intro h
    obtain ⟨k, hk⟩ := h
    exact ⟨(k, n), ExtTreeMap.mem_toList_iff_getElem?_eq_some.mpr hk, rfl⟩

/-- The neighbours of all interfaces. -/
theorem exists_neighbor_iff (P : OspfNeighbor → Prop) :
    (∃ i ∈ s.ifaces, ∃ n ∈ i.values, P n) ↔ ∃ idx k n, s.neighbor? idx k = some n ∧ P n := by
  constructor
  · intro h
    obtain ⟨i, hi, n, hn, hP⟩ := h
    obtain ⟨idx, hidx, rfl⟩ := List.mem_iff_getElem.mp hi
    obtain ⟨k, hk⟩ := mem_values.mp hn
    exact ⟨idx, k, n, by simp [neighbor?, iface?, hidx, hk], hP⟩
  · intro h
    obtain ⟨idx, k, n, hn, hP⟩ := h
    obtain ⟨i, hi, hk⟩ := Option.bind_eq_some_iff.mp hn
    exact ⟨i, List.mem_of_getElem? hi, n, mem_values.mpr ⟨k, hk⟩, hP⟩

variable {s}

theorem face?_eq {idx : ℕ} {k : Ipv4Addr} {n : OspfNeighbor} (h : s.neighbor? idx k = some n) :
    s.face? idx k = some n.face := by
  rw [face?, h, Option.map_some]

theorem neighborCalled_of_only {idx : ℕ} {k : Ipv4Addr} {n : OspfNeighbor} (hn : s.neighbor? idx k = some n)
    (honly : Sparing.Only s.face? idx k n.routerId) : s.neighborCalled n.routerId = some n := by
  have hnamed : ∀ m, s.neighborCalled n.routerId = some m → m = n := by
    intro m hm
    obtain ⟨i, hi, hfind⟩ := List.exists_of_findSome?_eq_some hm
    have hrid : m.routerId = n.routerId := by
      have hfound := List.find?_some hfind
      exact of_decide_eq_true hfound
    obtain ⟨j, a, m', hm', heq, hrid'⟩ := (s.exists_neighbor_iff fun x => x = m ∧ x.routerId = n.routerId).mp
      ⟨i, hi, m, List.mem_of_find?_eq_some hfind, rfl, hrid⟩
    obtain ⟨rfl, rfl⟩ := honly j a m'.face (face?_eq hm') hrid'
    rw [hn] at hm'
    exact heq.symm.trans (Option.some.inj hm').symm
  cases hcalled : s.neighborCalled n.routerId with
  | some m => rw [hnamed m hcalled]
  | none =>
    obtain ⟨i, hi, m, hm, hrid⟩ := (s.exists_neighbor_iff fun x => x.routerId = n.routerId).mpr ⟨idx, k, n, hn, rfl⟩
    have hnone := List.findSome?_eq_none_iff.mp hcalled i hi
    exact absurd (decide_eq_true hrid) (by simpa using List.find?_eq_none.mp hnone m hm)

theorem neighborIsFull_of_only {idx : ℕ} {k : Ipv4Addr} {n : OspfNeighbor} (hn : s.neighbor? idx k = some n)
    (honly : Sparing.Only s.face? idx k n.routerId) : s.neighborIsFull n.routerId = n.isFull := by
  have hiff : s.neighborIsFull n.routerId = true ↔ n.isFull = true := by
    simp only [neighborIsFull, List.any_eq_true, decide_eq_true_eq]
    rw [s.exists_neighbor_iff fun m => m.routerId = n.routerId ∧ m.isFull = true]
    constructor
    · intro h
      obtain ⟨j, a, m, hm, hrid, hfull⟩ := h
      obtain ⟨rfl, rfl⟩ := honly j a m.face (face?_eq hm) hrid
      rw [hn] at hm
      cases hm
      exact hfull
    · intro h
      exact ⟨idx, k, n, hn, rfl, h⟩
  exact Bool.eq_iff_iff.mpr hiff

/-! ### Grace-LSAs among the LSAs of an update -/

theorem kept_handleLsa {lsa : Lsa} (h : graceOf lsa = none) (idx : ℕ) (k area : Ipv4Addr) (now : ℕ) (u : Update) :
    Kept OspfNeighbor.mark u.s (u.handleLsa idx k area now lsa).s := by
  simp only [Update.handleLsa]
  split
  · split
    next hgrace =>
      -- what looks like a Grace-LSA but does not decode is passed over
      have hnone : u.s.handleGraceLsa k lsa now = u.s := by
        rw [graceOf, if_pos hgrace] at h
        unfold handleGraceLsa
        split
        next data hbody =>
          rw [hbody] at h
          simp only [h]
        · rfl
      rw [hnone]
      exact .refl _
    · exact .refl _
  · split
    · exact .refl _
    · split
      · exact .takeLsa area now u lsa
      all_goals exact .refl _

theorem handleLsa_grace {lsa : Lsa} {period : UInt32} (h : graceOf lsa = some period) (idx : ℕ) (k area : Ipv4Addr)
    (now : ℕ) (u : Update) : (u.handleLsa idx k area now lsa).s = u.s.handleGraceLsa k lsa now := by
  unfold graceOf at h
  split_ifs at h with hgrace
  have hopaque : lsa.header.lsType.isOpaque = true := by
    rw [hgrace.1]
    rfl
  simp only [Update.handleLsa]
  rw [if_pos hopaque, if_pos hgrace]

theorem handleGraceLsa_eq {lsa : Lsa} {period : UInt32} (h : graceOf lsa = some period) (now : ℕ) {idx : ℕ}
    {k : Ipv4Addr} {n : OspfNeighbor} (hn : s.neighbor? idx k = some n) (hk : n.routerId = k)
    (honly : Sparing.Only s.face? idx k n.routerId) :
    s.handleGraceLsa k lsa now =
      if maxAge ≤ lsa.header.lsAge then { s with helping := s.helping.erase n.routerId }
      else if n.isFull then { s with helping := s.helping.insert n.routerId ⟨graceUntil now period, n.lastSeen⟩ }
      else s := by
  unfold graceOf at h
  split_ifs at h with hgrace
  unfold handleGraceLsa
  split at h
  next data hbody =>
    have hfull := neighborIsFull_of_only hn honly
    have hcalled := neighborCalled_of_only hn honly
    rw [hk] at hfull hcalled
    simp only [hbody, h, hfull, hcalled, hk, graceUntil, Option.map_some, Option.getD_some]
    cases n.isFull <;> simp
  · cases h

/-- What a neighbour's Grace-LSAs leave. -/
theorem sparing_handleLsas {idx : ℕ} {k : Ipv4Addr} {n : OspfNeighbor} (area : Ipv4Addr) (now : ℕ) (grants : Grants)
    (hn : s.neighbor? idx k = some n) (lsas : List Lsa) {u : Update} {g : Option Grant}
    (hmark : ∀ i j, (u.s.neighbor? i j).map OspfNeighbor.mark = (s.neighbor? i j).map OspfNeighbor.mark)
    (hgrace : (∃ lsa ∈ lsas, graceOf lsa ≠ none) →
      n.routerId = k ∧ Sparing.Only s.face? idx k k ∧ Clocked.Prolongs now n.isFull g lsas)
    (h : Sparing now s.face? u.s.helping (setGrant grants idx k g)) :
    (∀ i j, ((lsas.foldl (Update.handleLsa idx k area now) u).s.neighbor? i j).map OspfNeighbor.mark =
      (s.neighbor? i j).map OspfNeighbor.mark) ∧
    Sparing now s.face? (lsas.foldl (Update.handleLsa idx k area now) u).s.helping
      (setGrant grants idx k (lsas.foldl (noteGrace now n.isFull) g)) := by
  induction lsas generalizing u g with
  | nil => exact ⟨hmark, h⟩
  | cons lsa lsas ih =>
    rw [List.foldl_cons, List.foldl_cons]
    cases hperiod : graceOf lsa with
    | none =>
      have hkept := kept_handleLsa hperiod idx k area now u
      have hnote : noteGrace now n.isFull g lsa = g := by simp only [noteGrace, hperiod]
      rw [hnote]
      refine ih ?_ ?_ ?_
      · intro i j
        exact (hkept.neighbor i j).trans (hmark i j)
      · intro hex
        obtain ⟨a, ha, hane⟩ := hex
        obtain ⟨hk, honly, -, hrest⟩ := hgrace ⟨a, List.mem_cons_of_mem lsa ha, hane⟩
        rw [hnote] at hrest
        exact ⟨hk, honly, hrest⟩
      · rw [hkept.helping]
        exact h
    | some period =>
      obtain ⟨hk, honly, hlonger, hrest⟩ := hgrace ⟨lsa, List.mem_cons_self, by simp [hperiod]⟩
      -- the neighbour as the LSAs before left it
      have hm := hmark idx k
      rw [hn, Option.map_some] at hm
      obtain ⟨m, hm, hmm⟩ := Option.map_eq_some_iff.mp hm
      have hface : m.face = n.face := congrArg Prod.fst hmm
      have hstate : m.isFull = n.isFull := by
        have hst : m.state = n.state := congrArg Prod.snd hmm
        simp only [OspfNeighbor.isFull, hst]
      have hrid : m.routerId = n.routerId := congrArg Face.routerId hface
      have hseen : m.lastSeen = n.lastSeen := congrArg Face.lastSeen hface
      have hfaces : u.s.face? = s.face? := by
        funext i j
        have hij := congrArg (Option.map Prod.fst) (hmark i j)
        rw [Option.map_map, Option.map_map] at hij
        exact hij
      have honly' : Sparing.Only u.s.face? idx k m.routerId := by
        rw [hfaces, hrid, hk]
        exact honly
      have hstep := handleGraceLsa_eq hperiod now hm (hrid.trans hk) honly'
      rw [hstate, hrid, hseen] at hstep
      have hs : (u.handleLsa idx k area now lsa).s = _ := (handleLsa_grace hperiod idx k area now u).trans hstep
      have honlyn : Sparing.Only s.face? idx k n.routerId := by
        rw [hk]
        exact honly
      refine ih ?_ (fun _ => ⟨hk, honly, hrest⟩) ?_
      · intro i j
        rw [hs]
        split_ifs <;> exact hmark i j
      · rw [hs]
        simp only [noteGrace, hperiod]
        split_ifs with hmax hfull
        · exact Sparing.completed honlyn h
        · exact Sparing.renewed (face?_eq hn) honlyn (hlonger period hperiod (UInt16.not_le.mp hmax)) h
        · exact h

/-! ### Hellos -/

/-- What comes after a Hello was noted: an election where it calls for one, and what the neighbour's state asks for. -/
theorem kept_afterHello (t : Ospf) (idx : ℕ) (k : Ipv4Addr) (seen changed : Bool) (acts : List NeighborAction) :
    let elected :=
      if seen then t.runInterfaceEvent idx .backupSeen
      else if changed then t.runInterfaceEvent idx .neighborChange
      else (t, false)
    Kept OspfNeighbor.face t
      (if elected.2 then (elected.1.actAllOnNeighbor idx k acts).reevalAdjacencies idx
      else elected.1.actAllOnNeighbor idx k acts) := by
  intro elected
  have helected : Kept OspfNeighbor.face t elected.1 := by
    simp only [elected]
    split_ifs
    · exact .runInterfaceEvent t idx _
    · exact .runInterfaceEvent t idx _
    · exact .refl t
  have hacted := helected.trans (.actAllOnNeighbor elected.1 idx k acts)
  split
  · exact hacted.trans (.reevalAdjacencies _ idx)
  · exact hacted

theorem kept_handleHello {idx : ℕ} {i : Iface} (hi : s.iface? idx = some i) {h : Hello} (hmatch : s.helloMatches i h)
    (k routerId src : Ipv4Addr) (now : ℕ) :
    ∃ n : OspfNeighbor, n.face = ⟨routerId, src, now⟩ ∧
      Kept OspfNeighbor.face (s.modifyIface idx fun i => { i with neighbors := i.neighbors.insert k n })
        (s.handleHello idx k routerId src h now) := by
  let heard := s.heardNeighbor i k routerId src h now
  let ctx : NeighborContext := ⟨adjacencyOk i k, heard.requestList.isEmpty⟩
  let first := heard.state.handle .helloReceived ctx
  let ev : NeighborEvent := if s.cfg.routerId ∈ h.neighbors then .twoWayReceived else .oneWayReceived
  let second := first.1.handle ev ctx
  let n : OspfNeighbor := { heard with state := second.1 }
  have hafter := kept_afterHello (s.modifyIface idx fun i => { i with neighbors := i.neighbors.insert k n }) idx k
    (decide (i.fsm.state = .waiting ∧ (h.designatedRouter ≠ 0 ∨ h.backupDesignatedRouter ≠ 0)))
    (decide (heard.state.isBidirectional ≠ second.1.isBidirectional)) (first.2 ++ second.2)
  refine ⟨n, rfl, ?_⟩
  unfold handleHello
  simp only [hi, hmatch, Bool.not_true, decide_eq_true_eq] at hafter ⊢
  exact hafter

/-- A Hello is dropped, or shows the face of its sender. -/
theorem handleHello_cases (idx : ℕ) (k routerId src : Ipv4Addr) (h : Hello) (now : ℕ) :
    s.handleHello idx k routerId src h now = s ∨
      (s.handleHello idx k routerId src h now).helping = s.helping ∧
      (s.handleHello idx k routerId src h now).face? =
        fun i j => if i = idx ∧ j = k then some ⟨routerId, src, now⟩ else s.face? i j := by
  cases hi : s.iface? idx with
  | none =>
    left
    simp only [handleHello, hi]
  | some i =>
    cases hmatch : s.helloMatches i h with
    | false =>
      left
      simp only [handleHello, hi, hmatch, Bool.not_false, if_true]
    | true =>
      right
      obtain ⟨n, hface, hkept⟩ := kept_handleHello hi hmatch k routerId src now
      refine ⟨hkept.helping, ?_⟩
      funext j a
      refine (hkept.neighbor j a).trans ?_
      by_cases hj : j = idx
      · subst hj
        have hset : (s.modifyIface j fun i => { i with neighbors := i.neighbors.insert k n }).neighbor? j a =
            (i.neighbors.insert k n)[a]? := by
          simp only [neighbor?, iface?, modifyIface, List.getElem?_modify_eq] at hi ⊢
          rw [hi]
          rfl
        rw [hset, getElem?_insert]
        by_cases ha : a = k
        · rw [if_pos ha, if_pos ⟨rfl, ha⟩, Option.map_some, hface]
        · rw [if_neg ha, if_neg (fun hh => ha hh.2)]
          simp only [face?, neighbor?, hi, Option.bind_some]
      · rw [if_neg (fun hh => hj hh.1)]
        have hother : (s.modifyIface idx fun i => { i with neighbors := i.neighbors.insert k n }).iface? j = s.iface? j :=
          List.getElem?_modify_ne _ _ (Ne.symm hj)
        simp only [face?, neighbor?, hother]

/-! ### Teardowns -/

theorem views_removeNeighbor (idx : ℕ) (k : Ipv4Addr) (s : Ospf) :
    (s.removeNeighbor idx k).cfg = s.cfg ∧ (s.removeNeighbor idx k).helping = s.helping ∧
    ∀ j, ((s.removeNeighbor idx k).iface? j).map (Iface.views OspfNeighbor.face) = (s.iface? j).map fun i =>
      if j = idx then (i.views OspfNeighbor.face).erase k else i.views OspfNeighbor.face := by
  have hkept := Kept.elect (s.modifyIface idx fun i => { i with neighbors := i.neighbors.erase k }) idx .neighborChange
  refine ⟨hkept.cfg, hkept.helping, ?_⟩
  intro j
  refine (hkept.views j).trans ?_
  simp only [iface?, modifyIface, List.getElem?_modify, Option.map_eq_map]
  cases s.ifaces[j]? with
  | none => rfl
  | some i =>
    simp only [Option.map_some]
    by_cases hj : j = idx
    · rw [if_pos hj, if_pos hj.symm]
      exact congrArg some (erase_map _ _ _).symm
    · rw [if_neg hj, if_neg (Ne.symm hj)]

theorem views_removeAll (idx : ℕ) (dead : List Ipv4Addr) (s : Ospf) :
    (dead.foldl (removeNeighbor idx) s).cfg = s.cfg ∧ (dead.foldl (removeNeighbor idx) s).helping = s.helping ∧
    ∀ j, ((dead.foldl (removeNeighbor idx) s).iface? j).map (Iface.views OspfNeighbor.face) = (s.iface? j).map fun i =>
      if j = idx then dead.foldl (fun m k => m.erase k) (i.views OspfNeighbor.face)
      else i.views OspfNeighbor.face := by
  induction dead generalizing s with
  | nil => simp
  | cons k dead ih =>
    obtain ⟨hcfg, hhelping, hviews⟩ := views_removeNeighbor idx k s
    obtain ⟨hcfg', hhelping', hviews'⟩ := ih (removeNeighbor idx s k)
    refine ⟨hcfg'.trans hcfg, hhelping'.trans hhelping, ?_⟩
    intro j
    have hj := hviews j
    refine (hviews' j).trans ?_
    cases hi : (removeNeighbor idx s k).iface? j with
    | none =>
      rw [hi, Option.map_none] at hj
      rw [Option.map_none]
      symm
      simpa using hj.symm
    | some i =>
      rw [hi, Option.map_some] at hj
      obtain ⟨i₀, hi₀, heq⟩ := Option.map_eq_some_iff.mp hj.symm
      rw [hi₀, Option.map_some, Option.map_some, ← heq]
      split_ifs <;> rfl

/-- Who is gone from an interface is told by the faces there. -/
def ByFace (gone : Ospf → Iface → List Ipv4Addr) : Prop :=
  ∀ (s t : Ospf) (i j : Iface), t.cfg = s.cfg → t.helping = s.helping →
    j.views OspfNeighbor.face = i.views OspfNeighbor.face → gone t j = gone s i

theorem face?_removeNeighbors {gone : Ospf → Iface → List Ipv4Addr} (hgone : ByFace gone) (s : Ospf) :
    (s.removeNeighbors gone).1.helping = s.helping ∧
    (∀ idx k, s.iface? idx = none → (s.removeNeighbors gone).1.face? idx k = none) ∧
    ∀ (idx : ℕ) (i : Iface) (k : Ipv4Addr), s.iface? idx = some i →
      (s.removeNeighbors gone).1.face? idx k = if k ∈ gone s i then none else s.face? idx k := by
  -- after some of the interfaces, those are done and the others are as they were
  have hrun : ∀ m,
      let r := (List.range m).foldl (fun (r : Ospf × Bool) idx =>
        match r.1.iface? idx with
        | none => r
        | some i => ((gone r.1 i).foldl (removeNeighbor idx) r.1, r.2 || !(gone r.1 i).isEmpty)) (s, false)
      r.1.cfg = s.cfg ∧ r.1.helping = s.helping ∧
      ∀ j, (r.1.iface? j).map (Iface.views OspfNeighbor.face) = (s.iface? j).map fun i =>
        if j < m then (gone s i).foldl (fun m k => m.erase k) (i.views OspfNeighbor.face)
        else i.views OspfNeighbor.face := by
    intro m
    induction m with
    | zero => simp
    | succ m ih =>
      obtain ⟨hcfg, hhelping, hviews⟩ := ih
      rw [List.range_succ, List.foldl_append, List.foldl_cons, List.foldl_nil]
      generalize (List.range m).foldl _ (s, false) = r at hcfg hhelping hviews ⊢
      have hm := hviews m
      cases hi : r.1.iface? m with
      | none =>
        refine ⟨hcfg, hhelping, ?_⟩
        intro j
        rw [hviews j]
        rw [hi, Option.map_none] at hm
        have hnone : s.iface? m = none := by simpa using hm.symm
        by_cases hj : j = m
        · rw [hj, hnone]
          rfl
        · have hlt : j < m + 1 ↔ j < m := by omega
          simp only [hlt]
      | some i =>
        rw [hi, Option.map_some] at hm
        obtain ⟨i₀, hi₀, heq⟩ := Option.map_eq_some_iff.mp hm.symm
        rw [if_neg (Nat.lt_irrefl m)] at heq
        have hsame : gone r.1 i = gone s i₀ := hgone s r.1 i₀ i hcfg hhelping heq.symm
        obtain ⟨hcfg', hhelping', hviews'⟩ := views_removeAll m (gone r.1 i) r.1
        refine ⟨hcfg'.trans hcfg, hhelping'.trans hhelping, ?_⟩
        intro j
        refine (hviews' j).trans ?_
        by_cases hj : j = m
        · subst hj
          rw [hi, hi₀, Option.map_some, Option.map_some, if_pos rfl, if_pos (Nat.lt_succ_self j), hsame, heq]
        · have hlt : j < m + 1 ↔ j < m := by omega
          simp only [hlt, ← hviews j, if_neg hj]
  obtain ⟨-, hhelping, hviews⟩ := hrun s.ifaces.length
  refine ⟨hhelping, ?_, ?_⟩
  · intro idx k hi
    have hidx := hviews idx
    rw [hi, Option.map_none] at hidx
    rw [face?, map_neighbor?]
    rw [show ((s.removeNeighbors gone).1.iface? idx).map (Iface.views OspfNeighbor.face) = none from hidx]
    rfl
  intro idx i k hi
  have hlt : idx < s.ifaces.length := (List.getElem?_eq_some_iff.mp hi).1
  have hidx := hviews idx
  rw [hi, Option.map_some, if_pos hlt] at hidx
  have hface : s.face? idx k = (i.views OspfNeighbor.face)[k]? := by
    rw [face?, map_neighbor?, hi]
    rfl
  rw [hface, ← getElem?_foldl_erase, face?, map_neighbor?]
  show ((Option.map _ _).bind _) = _
  rw [show ((s.removeNeighbors gone).1.iface? idx).map (Iface.views OspfNeighbor.face) = _ from hidx]
  rfl

theorem deadNeighbors_eq (s : Ospf) (i : Iface) (now : ℕ) : s.deadNeighbors i now =
    ((i.views OspfNeighbor.face).toList.filter fun e =>
      s.cfg.deadInterval.toNat ≤ now - e.2.lastSeen ∧ ¬ e.2.routerId ∈ s.helping).map Prod.fst := by
  rw [Iface.views, ExtTreeMap.toList_map, List.filter_map, List.map_map]
  rfl

theorem neighborAt_eq (s : Ospf) (peer : Ipv4Addr) (i : Iface) : s.neighborAt peer i =
    (((i.views OspfNeighbor.face).toList.find? fun e => e.2.addr = peer).filter fun e =>
      ¬ e.2.routerId ∈ s.helping).toList.map Prod.fst := by
  rw [Iface.views, ExtTreeMap.toList_map, List.find?_map]
  show _ = (((i.neighbors.toList.find? fun e => decide (e.2.addr = peer)).map _).filter _).toList.map Prod.fst
  unfold neighborAt
  cases i.neighbors.toList.find? fun e => decide (e.2.addr = peer) with
  | none => rfl
  | some e =>
    by_cases hhelped : e.2.routerId ∈ s.helping
    · simp [Option.filter, hhelped, OspfNeighbor.face]
    · simp [Option.filter, hhelped, OspfNeighbor.face]

theorem byFace_deadNeighbors (now : ℕ) : ByFace fun s i => s.deadNeighbors i now := by
  intro s t i j hcfg hhelping hviews
  simp only [deadNeighbors_eq, hcfg, hhelping, hviews]

theorem byFace_neighborAt (peer : Ipv4Addr) : ByFace fun s i => s.neighborAt peer i := by
  intro s t i j hcfg hhelping hviews
  simp only [neighborAt_eq, hhelping, hviews]

/-! ### Steps and runs -/

theorem sparing_of_kept {now : ℕ} {s t : Ospf} {grants : Grants} (hkept : Kept OspfNeighbor.face s t)
    (h : Sparing now s.face? s.helping grants) : Sparing now t.face? t.helping grants := by
  have hfaces : t.face? = s.face? := by
    funext idx k
    exact hkept.neighbor idx k
  rw [hfaces, hkept.helping]
  exact h

namespace Clocked
variable {c : Clocked} {e : ℕ × Event}

def Inv (c : Clocked) : Prop := Sparing c.now c.s.face? c.s.helping c.grants

theorem inv_packet {ifindex : UInt32} {src : Ipv4Addr} {p : Packet} {at' dt : ℕ} (h : c.Inv)
    (hguard : c.Guard (dt, .packet ifindex src p at')) : (c.step (dt, .packet ifindex src p at')).Inv := by
  have hlater : Sparing (c.now + dt) c.s.face? c.s.helping c.grants := h.later (by omega)
  have hstep := c.s.step_packet ifindex src p (c.now + dt)
  show Sparing (c.now + dt) (c.s.step (.packet ifindex src p (c.now + dt))).face?
    (c.s.step (.packet ifindex src p (c.now + dt))).helping
    (c.s.grantStep (c.now + dt) c.grants (.packet ifindex src p at'))
  rw [hstep]
  simp only [Guard, grantStep] at hguard ⊢
  cases hr : c.s.receiver ifindex src p with
  | none =>
    simp only
    exact hlater
  | some r =>
    simp only [hr] at hguard ⊢
    unfold handleBody
    cases hbody : p.body with
    | hello hello =>
      simp only [hbody] at hguard ⊢
      have hheard := hlater.heard r.1 r.2 ⟨p.header.routerId, src, c.now + dt⟩ ?_
      · rcases handleHello_cases r.1 r.2 p.header.routerId src hello (c.now + dt) (s := c.s) with hsame | ⟨hhelping, hfaces⟩
        · rw [hsame]
          exact hlater.waived r.1 r.2
        · rw [hhelping, hfaces]
          exact hheard
      · intro hmem
        obtain ⟨n, hn, hrid⟩ := hguard hmem
        exact ⟨n.face, face?_eq hn, hrid⟩
    | databaseDescription dd => exact sparing_of_kept (.handleDd c.s r.1 r.2 dd) hlater
    | linkStateRequest entries => exact sparing_of_kept (.handleLsr c.s r.1 r.2 entries) hlater
    | linkStateAck headers => exact sparing_of_kept (.handleLsack c.s r.1 r.2 headers) hlater
    | linkStateUpdate lsas =>
      simp only [hbody] at hguard ⊢
      cases hn : c.s.neighbor? r.1 r.2 with
      | none =>
        have hsame : c.s.handleLsu r.1 r.2 lsas (c.now + dt) = c.s := by
          unfold handleLsu
          rw [hn]
          cases c.s.iface? r.1 <;> rfl
        rw [hsame]
        exact hlater
      | some n =>
        obtain ⟨i, hi, -⟩ := Option.bind_eq_some_iff.mp hn
        refine sparing_of_kept (.handleLsu c.s r.1 r.2 lsas (c.now + dt) hi hn) ?_
        have hread := sparing_handleLsas i.area (c.now + dt) c.grants hn lsas (u := .new c.s)
          (g := c.grants r.1 r.2) (fun _ _ => rfl) ?_ ?_
        · have hfaces : (c.s.readLsas r.1 r.2 i.area lsas (c.now + dt)).s.face? = c.s.face? := by
            funext j a
            have hj := congrArg (Option.map Prod.fst) (hread.1 j a)
            rw [Option.map_map, Option.map_map] at hj
            exact hj
          rw [hfaces]
          exact hread.2
        · intro hex
          obtain ⟨hk, honly, hlonger⟩ := hguard n hn hex
          refine ⟨hk, ?_, hlonger⟩
          intro j a f hf hrid
          obtain ⟨m, hm, rfl⟩ := Option.map_eq_some_iff.mp hf
          exact honly j a m hm hrid
        · rw [setGrant_self]
          exact hlater

/-- What neither brings packets nor tears down. -/
theorem kept_step {s : Ospf} {ev : Event} (hpacket : ∀ ifindex src p now, ev ≠ .packet ifindex src p now)
    (hinactivity : ∀ now, ev ≠ .inactivity now) (hbfd : ∀ peer, ev ≠ .bfdDown peer) :
    Kept OspfNeighbor.face s (s.step ev) := by
  cases ev with
  | packet ifindex src p now => exact absurd rfl (hpacket ifindex src p now)
  | inactivity now => exact absurd rfl (hinactivity now)
  | bfdDown peer => exact absurd rfl (hbfd peer)
  | wait now => exact .fireWaitTimers s now
  | age secs => exact ⟨rfl, rfl, fun _ => rfl⟩
  | hello => exact ⟨rfl, rfl, fun _ => rfl⟩
  | refresh => exact .refresh (fun _ _ => rfl) s
  | initRxmt => exact ⟨rfl, rfl, fun _ => rfl⟩
  | rxmt => exact ⟨rfl, rfl, fun _ => rfl⟩
  | redistribute r => exact .applyRedistribution (fun _ _ => rfl) s r

/-- What a teardown leaves, by whom it finds. -/
theorem teardown {gone : Ospf → Iface → List Ipv4Addr} (hgone : ByFace gone) (s : Ospf) :
    let r := s.removeNeighbors gone
    let t := if r.2 then r.1.reoriginateAndFlood else r.1
    t.helping = s.helping ∧ (∀ idx k, s.iface? idx = none → t.face? idx k = none) ∧
      ∀ (idx : ℕ) (i : Iface) (k : Ipv4Addr), s.iface? idx = some i →
        t.face? idx k = if k ∈ gone s i then none else s.face? idx k := by
  intro r t
  obtain ⟨hhelping, hnone, hsome⟩ := face?_removeNeighbors hgone s
  have hkept : Kept OspfNeighbor.face r.1 t := by
    simp only [t]
    split
    · exact .reoriginateAndFlood (fun _ _ => rfl) r.1
    · exact .refl r.1
  have hfaces : t.face? = r.1.face? := by
    funext idx k
    exact hkept.neighbor idx k
  rw [hfaces]
  exact ⟨hkept.helping.trans hhelping, hnone, hsome⟩

/-- After a teardown those are gone whom it found and who are not helped. -/
theorem sparing_teardown {now : ℕ} {gone : Ospf → Iface → List Ipv4Addr} (hgone : ByFace gone) {s : Ospf}
    {grants : Grants} (h : Sparing now s.face? s.helping grants) :
    let r := s.removeNeighbors gone
    let t := if r.2 then r.1.reoriginateAndFlood else r.1
    Sparing now t.face? t.helping grants := by
  intro r t
  obtain ⟨hhelping, hnone, hsome⟩ := teardown hgone s
  rw [show t.helping = s.helping from hhelping]
  refine h.fewer ?_
  intro idx k f hf
  cases hi : s.iface? idx with
  | none =>
    rw [show t.face? idx k = none from hnone idx k hi] at hf
    cases hf
  | some i =>
    rw [show t.face? idx k = _ from hsome idx i k hi] at hf
    split_ifs at hf
    exact hf

theorem neighbor?_eq_none_iff {s : Ospf} {idx : ℕ} {k : Ipv4Addr} : s.neighbor? idx k = none ↔ s.face? idx k = none := by
  rw [face?, Option.map_eq_none_iff]

/-- The upkeep of the helped before the silent are looked for. -/
theorem sparing_stopHelping {now : ℕ} {s : Ospf} {grants : Grants} (h : Sparing now s.face? s.helping grants) :
    Sparing now (s.stopHelping now).face? (s.stopHelping now).helping grants ∧
      ∀ (rid : Ipv4Addr) (r : GrHelper), (s.stopHelping now).helping[rid]? = some r → now < r.deadline := by
  have hget : ∀ (rid : Ipv4Addr) (r : GrHelper), (s.stopHelping now).helping[rid]? = some r ↔
      s.helping[rid]? = some r ∧ ¬ (∃ n ∈ s.neighborCalled rid, r.seenAtEntry < n.lastSeen) ∧ now < r.deadline := by
    intro rid r
    have hbool : ∀ h : GrHelper, (!((s.neighborCalled rid).any fun n => decide (h.seenAtEntry < n.lastSeen)) &&
        decide (now < h.deadline)) = true ↔
          ¬ (∃ n ∈ s.neighborCalled rid, h.seenAtEntry < n.lastSeen) ∧ now < h.deadline := by
      intro h
      cases s.neighborCalled rid with
      | none => simp
      | some n => simp
    simp only [stopHelping, ExtTreeMap.getElem?_filter']
    rw [Option.filter_eq_some_iff, hbool]
  refine ⟨h.upkeep ?_ ?_, ?_⟩
  · intro rid r hr
    exact ((hget rid r).mp hr).1
  · intro idx k f r hf honly hr hlt hseen
    obtain ⟨n, hn, rfl⟩ := Option.map_eq_some_iff.mp hf
    refine (hget _ r).mpr ⟨hr, ?_, hlt⟩
    intro hresumed
    obtain ⟨m, hm, hmore⟩ := hresumed
    have hcalled : s.neighborCalled n.face.routerId = some n := neighborCalled_of_only hn honly
    rw [hcalled] at hm
    cases hm
    exact absurd hmore (Nat.not_lt.mpr hseen)
  · intro rid r hr
    exact ((hget rid r).mp hr).2.2

theorem mem_deadNeighbors {s : Ospf} {i : Iface} {now : ℕ} {k : Ipv4Addr} : k ∈ s.deadNeighbors i now ↔
    ∃ n, i.neighbors[k]? = some n ∧ s.cfg.deadInterval.toNat ≤ now - n.lastSeen ∧ ¬ n.routerId ∈ s.helping :=
  mem_filter_toList i.neighbors (fun n => s.cfg.deadInterval.toNat ≤ now - n.lastSeen ∧ ¬ n.routerId ∈ s.helping) k

theorem mem_neighborAt {s : Ospf} {i : Iface} {peer k : Ipv4Addr} {n : OspfNeighbor} (hn : i.neighbors[k]? = some n) :
    k ∈ s.neighborAt peer i ↔ Meant i peer k ∧ ¬ n.routerId ∈ s.helping := by
  unfold neighborAt Meant
  cases hfind : i.neighbors.toList.find? fun e => decide (e.2.addr = peer) with
  | none => simp
  | some e =>
    have hheld : i.neighbors[e.1]? = some e.2 :=
      ExtTreeMap.mem_toList_iff_getElem?_eq_some.mp (List.mem_of_find?_eq_some hfind)
    by_cases hk : e.1 = k
    · have hen : e.2 = n := by
        rw [hk, hn] at hheld
        exact (Option.some.inj hheld).symm
      by_cases hhelped : n.routerId ∈ s.helping
      · simp [Option.filter, hen, hhelped]
      · simp [Option.filter, hen, hhelped, hk]
    · have hnot : (e.1 = k) = False := by simp [hk]
      by_cases hhelped : e.2.routerId ∈ s.helping
      · simp [Option.filter, hhelped, hnot]
      · simp [Option.filter, hhelped, hnot, Ne.symm hk]

theorem law_inactivity {at' dt : ℕ} (h : c.Inv) :
    (c.step (dt, .inactivity at')).Inv ∧ c.Law (dt, .inactivity at') := by
  have hlater : Sparing (c.now + dt) c.s.face? c.s.helping c.grants := h.later (by omega)
  obtain ⟨hkept, hlive⟩ := sparing_stopHelping hlater
  have hgone := byFace_deadNeighbors (c.now + dt)
  obtain ⟨-, -, hsome⟩ := teardown hgone (c.s.stopHelping (c.now + dt))
  refine ⟨sparing_teardown hgone hkept, ?_⟩
  intro idx k n hn
  obtain ⟨i, hi, hik⟩ := Option.bind_eq_some_iff.mp hn
  have hafter : (c.step (dt, .inactivity at')).s.face? idx k =
      if k ∈ (c.s.stopHelping (c.now + dt)).deadNeighbors i (c.now + dt) then none else some n.face :=
    (hsome idx i k hi).trans (by rw [show (c.s.stopHelping (c.now + dt)).face? idx k = some n.face from face?_eq hn])
  constructor
  · intro howed hnone
    obtain ⟨g, hg, hgo, hlt⟩ := howed
    obtain ⟨r, hr, -, -⟩ := hkept.owed idx k n.face g (face?_eq hn) hg hgo hlt
    rw [neighbor?_eq_none_iff, hafter] at hnone
    split_ifs at hnone with hdead
    obtain ⟨m, hm, -, hnot⟩ := mem_deadNeighbors.mp hdead
    rw [hik] at hm
    cases hm
    exact hnot (ExtTreeMap.mem_iff_isSome_getElem?.mpr (by rw [show n.routerId = n.face.routerId from rfl, hr]; rfl))
  · intro hsilent hnot
    rw [neighbor?_eq_none_iff, hafter, if_pos]
    refine mem_deadNeighbors.mpr ⟨n, hik, hsilent, ?_⟩
    intro hmem
    obtain ⟨r, hr⟩ := Option.isSome_iff_exists.mp (ExtTreeMap.mem_iff_isSome_getElem?.mp hmem)
    obtain ⟨g, hg, hle⟩ := hkept.granted idx k n.face r (face?_eq hn) hr
    have hlt := hlive n.routerId r hr
    exact hnot ⟨g, hg, by omega⟩

theorem law_bfdDown {peer : Ipv4Addr} {dt : ℕ} (h : c.Inv) (hguard : c.Guard (dt, .bfdDown peer)) :
    (c.step (dt, .bfdDown peer)).Inv ∧ c.Law (dt, .bfdDown peer) := by
  have hlater : Sparing (c.now + dt) c.s.face? c.s.helping c.grants := h.later (by omega)
  have hgone := byFace_neighborAt peer
  obtain ⟨-, -, hsome⟩ := teardown hgone c.s
  refine ⟨sparing_teardown hgone hlater, ?_⟩
  intro idx i k hi hmem
  obtain ⟨n, hik⟩ := Option.isSome_iff_exists.mp (ExtTreeMap.mem_iff_isSome_getElem?.mp hmem)
  have hn : c.s.neighbor? idx k = some n := by
    rw [neighbor?, hi]
    exact hik
  have hafter : (c.step (dt, .bfdDown peer)).s.face? idx k =
      if k ∈ c.s.neighborAt peer i then none else some n.face :=
    (hsome idx i k hi).trans (by rw [face?_eq hn])
  constructor
  · intro howed hnone
    obtain ⟨g, hg, hgo, hlt⟩ := howed
    obtain ⟨r, hr, -, -⟩ := hlater.owed idx k n.face g (face?_eq hn) hg hgo hlt
    rw [neighbor?_eq_none_iff, hafter] at hnone
    split_ifs at hnone with hdead
    obtain ⟨-, hnot⟩ := (mem_neighborAt hik).mp hdead
    exact hnot (ExtTreeMap.mem_iff_isSome_getElem?.mpr (by rw [show n.routerId = n.face.routerId from rfl, hr]; rfl))
  · intro hmeant hnot
    rw [neighbor?_eq_none_iff, hafter, if_pos]
    refine (mem_neighborAt hik).mpr ⟨hmeant, ?_⟩
    intro hhelped
    obtain ⟨r, hr⟩ := Option.isSome_iff_exists.mp (ExtTreeMap.mem_iff_isSome_getElem?.mp hhelped)
    obtain ⟨g, hg, hle⟩ := hlater.granted idx k n.face r (face?_eq hn) hr
    have haddr : n.addr = peer := by
      obtain ⟨e, he, hek⟩ := Option.map_eq_some_iff.mp hmeant
      have hheld : i.neighbors[e.1]? = some e.2 :=
        ExtTreeMap.mem_toList_iff_getElem?_eq_some.mp (List.mem_of_find?_eq_some he)
      rw [hek, hik] at hheld
      rw [Option.some.inj hheld]
      have hfound := List.find?_some he
      exact of_decide_eq_true hfound
    have hlt := hguard idx k n r hn haddr hr
    exact hnot ⟨g, hg, by omega⟩

/-- Every step within the guard keeps the law. -/
theorem law_step (h : c.Inv) (hguard : c.Guard e) : (c.step e).Inv ∧ c.Law e := by
  obtain ⟨dt, ev⟩ := e
  have hlater : Sparing (c.now + dt) c.s.face? c.s.helping c.grants := h.later (by omega)
  cases ev with
  | packet ifindex src p at' => exact ⟨inv_packet h hguard, trivial⟩
  | inactivity at' => exact law_inactivity h
  | bfdDown peer => exact law_bfdDown h hguard
  | _ =>
    refine ⟨?_, trivial⟩
    have hkept : ∀ {ev : Event}, (∀ ifindex src p now, ev ≠ .packet ifindex src p now) →
        (∀ now, ev ≠ .inactivity now) → (∀ peer, ev ≠ .bfdDown peer) →
        Sparing (c.now + dt) (c.s.step ev).face? (c.s.step ev).helping c.grants :=
      fun hpacket hinactivity hbfd => sparing_of_kept (kept_step hpacket hinactivity hbfd) hlater
    apply hkept
    all_goals simp [Event.timed]

/-- The task before it helps anybody. -/
def fresh (s : Ospf) (now : ℕ) : Clocked := ⟨now, { s with helping := ∅ }, fun _ _ => none⟩

theorem inv_fresh (s : Ospf) (now : ℕ) : (fresh s now).Inv where
  granted idx k f r hf hr := by simp [fresh] at hr
  single idx idx' k k' f f' hf hf' heq hmem := by simp [fresh] at hmem
  owed idx k f g hf hg := by simp [fresh] at hg

/-- In a run whose steps meet the guard every teardown spares whom a grant is owed to, and nobody without one. -/
theorem helping_run (s : Ospf) (now : ℕ) {es : List (ℕ × Event)} (h : Run.Every step Guard (fresh s now) es) :
    Run.Every step Law (fresh s now) es :=
  h.under Inv (fun _ _ hi hg => law_step hi hg) (inv_fresh s now)

/-- A Grace-LSA for two minutes. -/
def graceLsa : Lsa where
  header :=
    { lsAge := 0
      options := optE
      lsType := .opaqueLink
      linkStateId := 0x03000000
      advertisingRouter := 2
      lsSeq := initialSequenceNumber
      lsChecksum := 0
      length := 0 }
  body := .opq [0, 1, 0, 4, 0, 0, 0, 120, 0, 2, 0, 1, 1, 0, 0, 0]

/-- The neighbour asks for help. -/
def asking : Event := .packet 1 0x0a000002 ⟨⟨2, 0⟩, .linkStateUpdate [graceLsa]⟩ 0

/-- A router with a Full neighbour of Router ID 2, kept under a key. -/
def withNeighbor (ifaceType : InterfaceType) (key : Ipv4Addr) : Ospf where
  cfg := .default 1 ifaceType
  ifaces :=
    [{ ifindex := 1
       addr := 0x0a000001
       maskLen := 24
       area := 0
       isPassive := false
       fsm := .new 1 1 ifaceType
       neighbors := (∅ : BTreeMap Ipv4Addr OspfNeighbor).insert key { OspfNeighbor.new 2 0x0a000002 0 with state := .full }
       waitDeadline := none }]
  areas := (∅ : BTreeMap Ipv4Addr Area).insert 0 Area.new
  externalLsdb := .new
  externals := ∅
  originatedExternals := []
  originatedTranslated := []
  lsaSeqs := ∅
  lsaInstalledAt := ∅
  nextDdSeq := 0
  helping := ∅
  sent := []

theorem helping_run_point_to_point :
    Run.Every step Law (fresh (withNeighbor .pointToPoint 2) 0) [(0, asking), (50, .inactivity 0)] := by
  refine helping_run (withNeighbor .pointToPoint 2) 0 ⟨?_, trivial, trivial⟩
  have hreceiver : (fresh (withNeighbor .pointToPoint 2) 0).s.receiver 1 0x0a000002
      ⟨⟨2, 0⟩, .linkStateUpdate [graceLsa]⟩ = some (0, 2) := by
    decide +kernel
  have honly : ∀ (idx : ℕ) (k : Ipv4Addr) (n : OspfNeighbor),
      (fresh (withNeighbor .pointToPoint 2) 0).s.neighbor? idx k = some n → n.routerId = 2 ∧ idx = 0 ∧ k = 2 := by
    intro idx k n hn
    cases idx with
    | zero =>
      have hget : ((∅ : BTreeMap Ipv4Addr OspfNeighbor).insert 2
          { OspfNeighbor.new 2 0x0a000002 0 with state := .full })[k]? = some n := hn
      rw [getElem?_insert] at hget
      split_ifs at hget with hk
      · cases hget
        exact ⟨rfl, rfl, hk⟩
      · simp at hget
    | succ idx => cases hn
  simp only [Guard, asking, hreceiver]
  intro n hn _
  refine ⟨(honly 0 2 n hn).1, ?_, ?_, trivial⟩
  · intro idx k m hm _
    exact (honly idx k m hm).2
  · intro period _ _
    exact Nat.zero_le _

/-- On a link that elects a Designated Router neighbours are kept under their addresses: the Grace-LSA of a Full
neighbour is passed over there, and the neighbour is gone before its time. -/
theorem broadcast_not_helped : ¬ ∀ (s : Ospf) (now : ℕ) (es : List (ℕ × Event)), Run.Every step Law (fresh s now) es := by
  intro h
  let asked : Clocked := (fresh (withNeighbor .broadcast 0x0a000002) 0).step (0, asking)
  have hlaw : asked.Law (50, .inactivity 0) :=
    (h (withNeighbor .broadcast 0x0a000002) 0 [(0, asking), (50, .inactivity 0)]).2.1
  have hthere : (asked.s.neighbor? 0 0x0a000002).isSome = true := by decide +kernel
  have howed : (asked.grants 0 0x0a000002).any (fun g => g.owed && decide (50 < g.deadline)) = true := by decide +kernel
  have hgone : ((asked.step (50, .inactivity 0)).s.neighbor? 0 0x0a000002).isNone = true := by decide +kernel
  obtain ⟨n, hn⟩ := Option.isSome_iff_exists.mp hthere
  obtain ⟨g, hg, hlasts⟩ := (Option.any_eq_true _ _).mp howed
  rw [Bool.and_eq_true, decide_eq_true_eq] at hlasts
  have hnow : asked.now + 50 = 50 := rfl
  refine (hlaw 0 0x0a000002 n hn).1 ?_ (Option.isNone_iff_eq_none.mp hgone)
  exact ⟨g, hg, hlasts.1, by rw [hnow]; exact hlasts.2⟩

end Clocked
end Ospf
end Wren.Daemon
