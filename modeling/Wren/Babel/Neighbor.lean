import Wren.Babel.Table

/-! Babel's neighbour table: the history of the Hellos that were heard, and the cost of a link. -/

namespace Wren.Babel
open Std OrdMap Wren.Core

def nominalRxcost : UInt16 := 256

def countOnes (x : UInt16) : ℕ := (List.range 16).countP fun i => x.toBitVec.getLsbD i

/-- `history` has the most recent expected Hello in bit 0. -/
structure Neighbour where
  history : UInt16
  expectedSeqno : UInt16
  haveHello : Bool
  txcost : UInt16
  lastHello : ℕ
  lastIhu : ℕ
deriving DecidableEq

namespace Neighbour

def new : Neighbour := ⟨0, 0, false, metricInfinity, 0, 0⟩

/-- The Hellos that were missed are shifted in as zeros. A number that went backwards starts the history anew. -/
def onHello (n : Neighbour) (seqno : UInt16) (now : ℕ) : Neighbour :=
  let gap := seqno - n.expectedSeqno
  let shift := gap.toNat + 1
  { n with
    history :=
      if n.haveHello = false then 1
      else if gap < 0x8000 then if 16 ≤ shift then 1 else n.history <<< UInt16.ofNat shift ||| 1
      else 1
    haveHello := true
    expectedSeqno := seqno + 1
    lastHello := now }

def onIhu (n : Neighbour) (txcost : UInt16) (now : ℕ) : Neighbour := { n with txcost := txcost, lastIhu := now }

def rxcost (n : Neighbour) : UInt16 :=
  if n.haveHello = false then metricInfinity
  else if 2 ≤ countOnes (n.history &&& 0b111) then nominalRxcost
  else metricInfinity

def cost (n : Neighbour) : UInt16 :=
  if n.rxcost = metricInfinity ∨ n.txcost = metricInfinity then metricInfinity else n.txcost

/-- The way to a neighbour that has not reported its cost for too long has none. -/
def age (now ihuTimeout : ℕ) (n : Neighbour) : Neighbour :=
  if now - n.lastIhu > ihuTimeout then { n with txcost := metricInfinity } else n

end Neighbour

structure NeighbourTable where
  neighbours : BTreeMap IpAddr Neighbour

namespace NeighbourTable

def new : NeighbourTable := ⟨∅⟩

def onHello (t : NeighbourTable) (addr : IpAddr) (seqno : UInt16) (now : ℕ) : NeighbourTable :=
  ⟨t.neighbours.insert addr (((t.neighbours[addr]?).getD .new).onHello seqno now)⟩

def onIhu (t : NeighbourTable) (addr : IpAddr) (rxcost : UInt16) (now : ℕ) : NeighbourTable :=
  ⟨t.neighbours.insert addr (((t.neighbours[addr]?).getD .new).onIhu rxcost now)⟩

def rxcost (t : NeighbourTable) (addr : IpAddr) : UInt16 :=
  (t.neighbours[addr]?).elim metricInfinity Neighbour.rxcost

def cost (t : NeighbourTable) (addr : IpAddr) : UInt16 :=
  (t.neighbours[addr]?).elim metricInfinity Neighbour.cost

def contains (t : NeighbourTable) (addr : IpAddr) : Bool := t.neighbours.contains addr

def addresses (t : NeighbourTable) : List IpAddr := t.neighbours.keys

def forget (t : NeighbourTable) (addr : IpAddr) : NeighbourTable := ⟨t.neighbours.erase addr⟩

/-- The table without the neighbours that were not heard for too long, and those neighbours. -/
def expire (t : NeighbourTable) (now helloTimeout ihuTimeout : ℕ) : NeighbourTable × List IpAddr :=
  let aged := t.neighbours.map fun _ n => n.age now ihuTimeout
  let dead := (aged.toList.filter fun e => now - e.2.lastHello > helloTimeout).map Prod.fst
  (⟨dead.foldl (fun m a => m.erase a) aged⟩, dead)

end NeighbourTable

theorem getLsbD_shift (h : UInt16) {s j : ℕ} (hs : s < 16) (hj : j < 16) :
    (h <<< UInt16.ofNat s ||| 1).toBitVec.getLsbD j =
      (decide (j = 0) || (decide (s ≤ j) && h.toBitVec.getLsbD (j - s))) := by
  have hmod : ((UInt16.ofNat s).toBitVec % 16).toNat = s := by
    simp
    omega
  rw [UInt16.toBitVec_or, UInt16.toBitVec_shiftLeft, BitVec.getLsbD_or, BitVec.shiftLeft_eq', hmod,
    BitVec.getLsbD_shiftLeft]
  by_cases hsj : s ≤ j
  · simp [hj, hsj, Bool.or_comm, Nat.not_lt.mpr hsj]
  · simp [hj, hsj]

theorem countOnes_and (h : UInt16) :
    countOnes (h &&& 0b111) = [0, 1, 2].countP fun i => h.toBitVec.getLsbD i := by
  unfold countOnes
  rw [UInt16.toBitVec_and]
  simp [List.range_succ, BitVec.getLsbD_and, List.countP_cons]

/-- The Hellos of one neighbour since its numbers last started anew, the most recent first. -/
def heard (seqnos : List UInt16) (seqno : UInt16) : List UInt16 :=
  match seqnos with
  | [] => [seqno]
  | last :: seqnos => if seqno - (last + 1) < 0x8000 then seqno :: last :: seqnos else [seqno]

/-- How many Hellos were expected since each one of them. -/
def offsets : List UInt16 → List ℕ
  | [] => []
  | [_] => [0]
  | seqno :: last :: seqnos => 0 :: (offsets (last :: seqnos)).map fun j => j + (seqno - last).toNat

theorem toNat_sub_succ {a b : UInt16} (h : a - (b + 1) < 0x8000) : (a - (b + 1)).toNat + 1 = (a - b).toNat := by
  have hsplit : a - b = a - (b + 1) + 1 := by grind
  have hlt : (a - (b + 1)).toNat < 0x8000 := UInt16.lt_iff_toNat_lt.mp h
  rw [hsplit, UInt16.toNat_add]
  simp only [UInt16.reduceToNat]
  omega

namespace Neighbour

/-- The history has the bits of the Hellos that were heard. -/
structure Tracks (n : Neighbour) (seqnos : List UInt16) : Prop where
  haveHello : n.haveHello = true ↔ seqnos ≠ []
  expected : ∀ last ∈ seqnos.head?, n.expectedSeqno = last + 1
  history : ∀ j < 16, n.history.toBitVec.getLsbD j = true ↔ j ∈ offsets seqnos

theorem tracks_new : Tracks new [] where
  haveHello := by simp [new]
  expected := by simp
  history j hj := by simp [new, offsets]

theorem getLsbD_first (j : ℕ) (seqno : UInt16) :
    (1 : UInt16).toBitVec.getLsbD j = true ↔ j ∈ offsets [seqno] := by
  simp [offsets]

theorem Tracks.onHello {n : Neighbour} {seqnos : List UInt16} (h : n.Tracks seqnos) (seqno : UInt16) (now : ℕ) :
    (n.onHello seqno now).Tracks (heard seqnos seqno) := by
  cases seqnos with
  | nil =>
    have hhave : n.haveHello = false := by simpa using h.haveHello
    refine ⟨by simp [Neighbour.onHello, heard], by simp [Neighbour.onHello, heard], ?_⟩
    intro j hj
    simp only [Neighbour.onHello, hhave, if_true, heard]
    exact getLsbD_first j seqno
  | cons last seqnos =>
    have hhave : n.haveHello = true := h.haveHello.mpr (List.cons_ne_nil _ _)
    have hexpected : n.expectedSeqno = last + 1 := h.expected last (by simp)
    by_cases hgap : seqno - (last + 1) < 0x8000
    · have hheard : heard (last :: seqnos) seqno = seqno :: last :: seqnos := if_pos hgap
      have hshift : (seqno - (last + 1)).toNat + 1 = (seqno - last).toNat := toNat_sub_succ hgap
      refine ⟨by simp [Neighbour.onHello, hheard], by simp [Neighbour.onHello, hheard], ?_⟩
      intro j hj
      simp only [Neighbour.onHello, hhave, hexpected, hgap, Bool.true_eq_false, if_false, if_true, hheard, hshift, offsets]
      by_cases hfar : 16 ≤ (seqno - last).toNat
      · rw [if_pos hfar, List.mem_cons, List.mem_map]
        constructor
        · intro hbit
          exact Or.inl (by simpa using hbit)
        · rintro (rfl | ⟨k, -, rfl⟩)
          · rfl
          · omega
      · rw [if_neg hfar, getLsbD_shift n.history (Nat.not_le.mp hfar) hj, List.mem_cons, List.mem_map]
        have hold := h.history (j - (seqno - last).toNat) (by omega)
        simp only [Bool.or_eq_true, Bool.and_eq_true, decide_eq_true_eq, hold]
        refine or_congr_right ?_
        constructor
        · rintro ⟨hle, hmem⟩
          exact ⟨_, hmem, by omega⟩
        · rintro ⟨k, hmem, rfl⟩
          exact ⟨by omega, by rwa [Nat.add_sub_cancel]⟩
    · have hheard : heard (last :: seqnos) seqno = [seqno] := if_neg hgap
      refine ⟨by simp [Neighbour.onHello, hheard], by simp [Neighbour.onHello, hheard], ?_⟩
      intro j hj
      simp only [Neighbour.onHello, hhave, hexpected, hgap, hheard]
      exact getLsbD_first j seqno

theorem Tracks.rxcost {n : Neighbour} {seqnos : List UInt16} (h : n.Tracks seqnos) :
    n.rxcost = if 2 ≤ [0, 1, 2].countP (fun j => j ∈ offsets seqnos) then nominalRxcost else metricInfinity := by
  have hbits : [0, 1, 2].countP (fun i => n.history.toBitVec.getLsbD i) =
      [0, 1, 2].countP fun j => j ∈ offsets seqnos := by
    apply List.countP_congr
    intro j hj
    have hlt : j < 16 := by
      fin_cases hj <;> decide
    simpa using h.history j hlt
  unfold Neighbour.rxcost
  rw [countOnes_and, hbits]
  by_cases hnil : seqnos = []
  · have hhave : n.haveHello = false := by simpa [hnil] using h.haveHello
    rw [if_pos hhave, hnil]
    rfl
  · rw [if_neg (by simp [h.haveHello.mpr hnil])]

theorem Tracks.cost {n : Neighbour} {seqnos : List UInt16} (h : n.Tracks seqnos) :
    n.cost = if 2 ≤ [0, 1, 2].countP (fun j => j ∈ offsets seqnos) then n.txcost else metricInfinity := by
  unfold Neighbour.cost
  rw [h.rxcost]
  split_ifs with hheard hinf hinf
  · simp_all [nominalRxcost, metricInfinity]
  · rfl
  · rfl
  · exact absurd (Or.inl rfl) hinf

end Neighbour

inductive NeighbourOp where
  | hello (addr : IpAddr) (seqno : UInt16) (now : ℕ)
  | ihu (addr : IpAddr) (rxcost : UInt16) (now : ℕ)
  | forget (addr : IpAddr)
  | expire (now helloTimeout ihuTimeout : ℕ)

/-- What one neighbour has sent since it was last taken into the table. -/
structure Record where
  seqnos : List UInt16
  txcost : UInt16
  lastHello : ℕ
  lastIhu : ℕ

namespace Record

def new : Record := ⟨[], metricInfinity, 0, 0⟩

def note (addr : IpAddr) (r : Option Record) : NeighbourOp → Option Record
  | .hello a seqno now =>
    if a = addr then some { r.getD new with seqnos := heard (r.getD new).seqnos seqno, lastHello := now } else r
  | .ihu a rxcost now => if a = addr then some { r.getD new with txcost := rxcost, lastIhu := now } else r
  | .forget a => if a = addr then none else r
  | .expire now helloTimeout ihuTimeout =>
    r.bind fun r =>
      if now - r.lastHello > helloTimeout then none
      else if now - r.lastIhu > ihuTimeout then some { r with txcost := metricInfinity }
      else some r

/-- At least two of the last three Hellos expected of the neighbour have come. -/
def WellHeard (r : Record) : Prop := 2 ≤ [0, 1, 2].countP fun j => j ∈ offsets r.seqnos

instance : DecidablePred WellHeard := fun _ => inferInstanceAs (Decidable (_ ≤ _))

end Record

namespace NeighbourTable

def apply (t : NeighbourTable) : NeighbourOp → NeighbourTable
  | .hello addr seqno now => t.onHello addr seqno now
  | .ihu addr rxcost now => t.onIhu addr rxcost now
  | .forget addr => t.forget addr
  | .expire now helloTimeout ihuTimeout => (t.expire now helloTimeout ihuTimeout).1

def run (ops : List NeighbourOp) : NeighbourTable := ops.foldl apply new

/-- The entry of a neighbour, and what it stands for. -/
inductive Describes : Option Neighbour → Option Record → Prop
  | absent : Describes none none
  | entry {n : Neighbour} {r : Record} (tracks : n.Tracks r.seqnos) (txcost : n.txcost = r.txcost)
      (lastHello : n.lastHello = r.lastHello) (lastIhu : n.lastIhu = r.lastIhu) : Describes (some n) (some r)

theorem describes_new : Describes (some Neighbour.new) (some Record.new) := .entry Neighbour.tracks_new rfl rfl rfl

theorem Describes.getD {n : Option Neighbour} {r : Option Record} (h : Describes n r) :
    Describes (some (n.getD .new)) (some (r.getD .new)) := by
  cases h with
  | absent => exact describes_new
  | entry tracks txcost lastHello lastIhu => exact .entry tracks txcost lastHello lastIhu

theorem getElem?_expire (t : NeighbourTable) (now helloTimeout ihuTimeout : ℕ) (addr : IpAddr) :
    (t.expire now helloTimeout ihuTimeout).1.neighbours[addr]? =
      (t.neighbours[addr]?).bind fun n =>
        if now - n.lastHello > helloTimeout then none else some (n.age now ihuTimeout) := by
  have hlast : ∀ n : Neighbour, (n.age now ihuTimeout).lastHello = n.lastHello := by
    intro n
    unfold Neighbour.age
    split_ifs
    · rfl
    · rfl
  unfold expire
  dsimp only
  rw [getElem?_foldl_erase]
  simp only [mem_filter_toList _ (fun n : Neighbour => now - n.lastHello > helloTimeout), ExtTreeMap.getElem?_map]
  cases t.neighbours[addr]? with
  | none => simp
  | some n => simp [hlast]

theorem describes_apply {t : NeighbourTable} {addr : IpAddr} {r : Option Record}
    (h : Describes t.neighbours[addr]? r) (op : NeighbourOp) :
    Describes (t.apply op).neighbours[addr]? (Record.note addr r op) := by
  have hboth := h.getD
  cases op with
  | hello a seqno now =>
    simp only [apply, onHello, Record.note, getElem?_insert, @eq_comm _ addr a]
    split_ifs with ha
    · subst ha
      generalize (t.neighbours[a]?).getD .new = n at hboth ⊢
      cases hboth with
      | entry tracks txcost lastHello lastIhu => exact .entry (tracks.onHello seqno now) txcost rfl lastIhu
    · exact h
  | ihu a rxcost now =>
    simp only [apply, onIhu, Record.note, getElem?_insert, @eq_comm _ addr a]
    split_ifs with ha
    · subst ha
      generalize (t.neighbours[a]?).getD .new = n at hboth ⊢
      cases hboth with
      | entry tracks txcost lastHello lastIhu =>
        exact .entry ⟨tracks.haveHello, tracks.expected, tracks.history⟩ rfl lastHello rfl
    · exact h
  | forget a =>
    simp only [apply, forget, Record.note, getElem?_erase, @eq_comm _ addr a]
    split_ifs
    · exact .absent
    · exact h
  | expire now helloTimeout ihuTimeout =>
    simp only [apply, getElem?_expire, Record.note]
    generalize t.neighbours[addr]? = n at h ⊢
    cases h with
    | absent => exact .absent
    | @entry n r tracks txcost lastHello lastIhu =>
      simp only [Option.bind_some, lastHello, Neighbour.age, lastIhu]
      split_ifs
      · exact .absent
      · exact .entry ⟨tracks.haveHello, tracks.expected, tracks.history⟩ rfl rfl rfl
      · exact .entry tracks txcost lastHello lastIhu

/-- At any time a neighbour counts as heard exactly where two of the last three Hellos expected of it have come, by
the numbers of all those it sent since they last started anew; and the cost of the way to it is then the last one it
reported, unless that is too old. -/
theorem costs_run (ops : List NeighbourOp) (addr : IpAddr) :
    let t := run ops
    let r := ops.foldl (Record.note addr) none
    (t.contains addr = true ↔ r.isSome = true) ∧
    t.rxcost addr = (if ∃ a ∈ r, a.WellHeard then nominalRxcost else metricInfinity) ∧
    t.cost addr = r.elim metricInfinity fun a => if a.WellHeard then a.txcost else metricInfinity := by
  have hfold : ∀ (t : NeighbourTable) (r : Option Record), Describes t.neighbours[addr]? r →
      Describes (ops.foldl apply t).neighbours[addr]? (ops.foldl (Record.note addr) r) := by
    induction ops with
    | nil => exact fun _ _ h => h
    | cons op ops ih => exact fun t r h => ih _ _ (describes_apply h op)
  intro t r
  have hnew : Describes new.neighbours[addr]? none := by
    simpa [new] using Describes.absent
  have h : Describes t.neighbours[addr]? r := hfold new none hnew
  have hcontains : t.contains addr = (t.neighbours[addr]?).isSome := ExtTreeMap.contains_eq_isSome_getElem?
  rw [hcontains, rxcost, cost]
  generalize t.neighbours[addr]? = n at h
  generalize r = r at h
  cases h with
  | absent => simp
  | entry tracks txcost lastHello lastIhu =>
    refine ⟨by simp, ?_, ?_⟩
    · simp [tracks.rxcost, Record.WellHeard]
    · rw [Option.elim_some, tracks.cost, txcost]
      rfl

end NeighbourTable
end Wren.Babel
