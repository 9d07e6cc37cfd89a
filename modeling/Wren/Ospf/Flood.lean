import Wren.Ospf.Lsdb

/-! Recency of LSA instances, and what offering them in any order or to a neighbour leads to. -/

namespace Wren.Ospf
open Std

namespace LsaHeader

/-- What an instance is ranked by first. -/
def version (h : LsaHeader) : Int ×ₗ ℕ := toLex (h.lsSeq.toInt, h.lsChecksum.toNat)

theorem compareRecency_of_version_lt {h other : LsaHeader} (hlt : h.version < other.version) :
    h.compareRecency other = .lt := by
  rw [version, version, Prod.Lex.toLex_lt_toLex] at hlt
  rcases hlt with hseq | ⟨hseq, hsum⟩
  · have hcmp : compare h.lsSeq other.lsSeq = .lt := compare_eq_lt.mpr (Int32.lt_iff_toInt_lt.mpr hseq)
    simp [compareRecency, hcmp]
  · have heq : h.lsSeq = other.lsSeq := Int32.toInt_inj.mp hseq
    have hcmp : compare h.lsChecksum other.lsChecksum = .lt := compare_eq_lt.mpr (UInt16.lt_iff_toNat_lt.mpr hsum)
    simp [compareRecency, heq, hcmp]

/-- Swapping the instances swaps the answer. -/
theorem compareRecency_swap (h other : LsaHeader) :
    (h.compareRecency other).swap = other.compareRecency h := by
  have hseq : compare other.lsSeq h.lsSeq = (compare h.lsSeq other.lsSeq).swap := OrientedCmp.eq_swap
  have hsum : compare other.lsChecksum h.lsChecksum = (compare h.lsChecksum other.lsChecksum).swap :=
    OrientedCmp.eq_swap
  have hage : compare other.lsAge h.lsAge = (compare h.lsAge other.lsAge).swap := OrientedCmp.eq_swap
  unfold compareRecency
  rw [hseq, hsum, hage, max_comm other.lsAge.toNat, min_comm other.lsAge.toNat]
  cases compare h.lsSeq other.lsSeq with
  | lt => rfl
  | gt => rfl
  | eq =>
    cases compare h.lsChecksum other.lsChecksum with
    | lt => rfl
    | gt => rfl
    | eq =>
      cases decide (maxAge ≤ h.lsAge) <;> cases decide (maxAge ≤ other.lsAge)
      · dsimp only [Ordering.swap]
        split_ifs
        · exact Ordering.swap_swap
        · rfl
      · rfl
      · rfl
      · dsimp only [Ordering.swap]
        split_ifs
        · exact Ordering.swap_swap
        · rfl

@[simp] theorem compareRecency_self (h : LsaHeader) : h.compareRecency h = .eq := by
  have hswap := h.compareRecency_swap h
  cases hcmp : h.compareRecency h with
  | eq => rfl
  | lt =>
    rw [hcmp] at hswap
    cases hswap
  | gt =>
    rw [hcmp] at hswap
    cases hswap

theorem compareRecency_gt_iff (h other : LsaHeader) :
    h.compareRecency other = .gt ↔ other.compareRecency h = .lt := by
  rw [← h.compareRecency_swap other]
  cases h.compareRecency other <;> decide

end LsaHeader

inductive DiscardReason where
  | minLsArrival
  | maxSeqWrap
deriving DecidableEq

inductive FloodDecision where
  | install (selfOriginated : Bool)
  | impliedAck
  | directAck
  | sendBack
  | badLsReq
  | discard (reason : DiscardReason)
deriving DecidableEq

/-- What a router knows about the adjacency an LSA came over. -/
structure FloodInput where
  selfRouterId : Ipv4Addr
  dbCopyAgeSinceInstall : Option UInt16
  onRequestList : Bool
  onRetransmitList : Bool
  anyNeighborExchanging : Bool

def decideFlood (lsdb : Lsdb) (received : Lsa) (input : FloodInput) : FloodDecision :=
  let db := lsdb.header received.key
  if maxAge ≤ received.header.lsAge ∧ db = none ∧ input.anyNeighborExchanging = false then .directAck
  else
    let selfOriginated := received.header.advertisingRouter == input.selfRouterId
    match db with
    | none => .install selfOriginated
    | some dbHdr =>
      match received.header.compareRecency dbHdr with
      | .gt =>
        if ∃ since ∈ input.dbCopyAgeSinceInstall, since < minLsArrival then .discard .minLsArrival
        else .install selfOriginated
      | .eq =>
        if input.onRequestList then .badLsReq
        else if input.onRetransmitList then .impliedAck
        else .directAck
      | .lt =>
        if input.onRequestList then .badLsReq
        else if maxAge ≤ dbHdr.lsAge ∧ dbHdr.lsSeq = maxSequenceNumber then .discard .maxSeqWrap
        else .sendBack

theorem decideFlood_of_none {lsdb : Lsdb} {received : Lsa} (h : lsdb.get received.key = none)
    (hage : received.header.lsAge < maxAge) (input : FloodInput) :
    decideFlood lsdb received input = .install (received.header.advertisingRouter == input.selfRouterId) := by
  have hnot : ¬ maxAge ≤ received.header.lsAge := UInt16.not_le.mpr hage
  simp [decideFlood, Lsdb.header, h, hnot]

/-- The decision between two instances, away from the request list and the arrival limit. -/
theorem decideFlood_of_some {lsdb : Lsdb} {received own : Lsa} (h : lsdb.get received.key = some own)
    {input : FloodInput} (hreq : input.onRequestList = false)
    (hlate : ∀ since ∈ input.dbCopyAgeSinceInstall, minLsArrival ≤ since) :
    decideFlood lsdb received input =
      match received.header.compareRecency own.header with
      | .gt => .install (received.header.advertisingRouter == input.selfRouterId)
      | .eq => if input.onRetransmitList then .impliedAck else .directAck
      | .lt =>
        if maxAge ≤ own.header.lsAge ∧ own.header.lsSeq = maxSequenceNumber then .discard .maxSeqWrap
        else .sendBack := by
  have hno : ¬ ∃ since ∈ input.dbCopyAgeSinceInstall, since < minLsArrival := by
    rintro ⟨since, hmem, hlt⟩
    exact UInt16.not_lt.mpr (hlate since hmem) hlt
  have hheld : ¬ (maxAge ≤ received.header.lsAge ∧ some own.header = none ∧
      input.anyNeighborExchanging = false) := by simp
  simp only [decideFlood, Lsdb.header, h, Option.map_some, if_neg hheld, if_neg hno, hreq, Bool.false_eq_true,
    if_false]

namespace Lsdb

/-- A router acts on an LSA a neighbour sends. -/
def receive (db : Lsdb) (received : Lsa) (input : FloodInput) : Lsdb :=
  match decideFlood db received input with
  | .install _ => (db.install received).1
  | _ => db

/-- Router `a` offers its copy to `b`, which may send its own back. -/
def exchange (a b : Lsdb) (k : LsaKey) (inputA inputB : FloodInput) : Lsdb × Lsdb :=
  match a.get k with
  | none => (a, b)
  | some copy =>
    match decideFlood b copy inputB, b.get k with
    | .install _, _ => (a, (b.install copy).1)
    | .sendBack, some own => (a.receive own inputA, b)
    | _, _ => (a, b)

/-- A database that holds nothing more recent takes the copy of another. -/
theorem get_install_of_newer {db other : Lsdb} {k : LsaKey} {l : Lsa} (hl : other.get k = some l)
    (hnew : ∀ m, db.get k = some m → l.header.compareRecency m.header = .gt) :
    (db.install l).1.get k = some l := by
  rw [get_install, filled_get hl, if_pos ⟨(get_key hl).symm, hnew⟩]

theorem exchange_agrees {a b : Lsdb} {k : LsaKey} {copy : Lsa} (ha : a.get k = some copy) {inputA inputB : FloodInput}
    (hreqA : inputA.onRequestList = false) (hreqB : inputB.onRequestList = false)
    (hlateA : ∀ since ∈ inputA.dbCopyAgeSinceInstall, minLsArrival ≤ since)
    (hlateB : ∀ since ∈ inputB.dbCopyAgeSinceInstall, minLsArrival ≤ since) :
    (∃ l m, (exchange a b k inputA inputB).1.get k = some l ∧ (exchange a b k inputA inputB).2.get k = some m ∧
        l.header.compareRecency m.header = .eq) ∨
      (b.get k = none ∧ maxAge ≤ copy.header.lsAge) ∨
      ∃ own, b.get k = some own ∧ maxAge ≤ own.header.lsAge ∧ own.header.lsSeq = maxSequenceNumber := by
  have hkey := get_key ha
  cases hb : b.get k with
  | none =>
    by_cases hage : maxAge ≤ copy.header.lsAge
    · exact .inr (.inl ⟨rfl, hage⟩)
    · have hdec := decideFlood_of_none (by rw [hkey, hb]) (UInt16.not_le.mp hage) inputB
      refine .inl ⟨copy, copy, ?_, ?_, copy.header.compareRecency_self⟩
      · simp [exchange, ha, hdec]
      · simp only [exchange, ha, hdec]
        exact get_install_of_newer ha (fun m hm => by rw [hb] at hm; cases hm)
  | some own =>
    have hdec := decideFlood_of_some (by rw [hkey, hb]) hreqB hlateB
    cases hcmp : copy.header.compareRecency own.header with
    | gt =>
      rw [hcmp] at hdec
      refine .inl ⟨copy, copy, ?_, ?_, copy.header.compareRecency_self⟩
      · simp [exchange, ha, hdec]
      · simp only [exchange, ha, hdec]
        refine get_install_of_newer ha ?_
        intro m hm
        rw [hb] at hm
        cases hm
        exact hcmp
    | eq =>
      rw [hcmp] at hdec
      have hstay : exchange a b k inputA inputB = (a, b) := by
        simp only [exchange, ha, hdec, hb]
        cases inputB.onRetransmitList <;> rfl
      exact .inl ⟨copy, own, by rw [hstay, ha], by rw [hstay, hb], hcmp⟩
    | lt =>
      rw [hcmp] at hdec
      by_cases hwrap : maxAge ≤ own.header.lsAge ∧ own.header.lsSeq = maxSequenceNumber
      · exact .inr (.inr ⟨own, rfl, hwrap⟩)
      · have hnewer := (LsaHeader.compareRecency_gt_iff own.header copy.header).mpr hcmp
        have hheld : a.get own.key = some copy := by rw [get_key hb, ha]
        have hback := decideFlood_of_some hheld hreqA hlateA
        simp only [hnewer] at hback
        simp only [if_neg hwrap] at hdec
        have hexch : exchange a b k inputA inputB = ((a.install own).1, b) := by
          simp [exchange, receive, ha, hdec, hb, hback]
        refine .inl ⟨own, own, ?_, by rw [hexch, hb], own.header.compareRecency_self⟩
        rw [hexch]
        refine get_install_of_newer hb ?_
        intro m hm
        rw [ha] at hm
        cases hm
        exact hnewer

/-- The instances offered, as the database takes them. -/
def offered (ops : List Op) : List Lsa :=
  ops.filterMap fun
    | .install lsa => some lsa.filled
    | .age _ => none

/-- The database holds the greatest of the instances offered under a key, at some age. -/
def HoldsMax (db : Lsdb) (k : LsaKey) (l : List Lsa) : Prop :=
  (l = [] ∧ db.get k = none) ∨
    ∃ m ∈ l, (∀ o ∈ l, o ≠ m → o.header.version < m.header.version) ∧ ∃ age, db.get k = some (m.withAge age)

theorem version_withAge (m : Lsa) (age : UInt16) : (m.withAge age).header.version = m.header.version := rfl

theorem holdsMax_age {db : Lsdb} {k : LsaKey} {l : List Lsa} (h : db.HoldsMax k l) (secs : UInt16) :
    (db.age secs).1.HoldsMax k l := by
  rcases h with ⟨hl, hnone⟩ | ⟨m, hm, hmax, age, hget⟩
  · exact .inl ⟨hl, by rw [get_age, hnone, Option.map_none]⟩
  · refine .inr ⟨m, hm, hmax, (ageBy secs (m.withAge age)).header.lsAge, ?_⟩
    rw [get_age, hget, Option.map_some]
    rfl

theorem holdsMax_install {db : Lsdb} {k : LsaKey} {l : List Lsa} {lsa : Lsa} (h : db.HoldsMax k l)
    (hkey : lsa.key = k) (hnew : ∀ o ∈ l, o.header.version ≠ lsa.filled.header.version) :
    (db.install lsa).1.HoldsMax k (l ++ [lsa.filled]) := by
  have hself : ∀ n : Lsa, n.withAge n.header.lsAge = n := fun n => rfl
  rcases h with ⟨rfl, hnone⟩ | ⟨m, hm, hmax, age, hget⟩
  · refine .inr ⟨lsa.filled, by simp, by simp, lsa.filled.header.lsAge, ?_⟩
    rw [get_install, hself, if_pos ⟨hkey.symm, fun n hn => by rw [hnone] at hn; cases hn⟩]
  · rcases lt_or_gt_of_ne (hnew m hm) with hlt | hgt
    · -- the offered instance beats the one held, and so all before it
      have hcmp : lsa.filled.header.compareRecency (m.withAge age).header = .gt := by
        rw [LsaHeader.compareRecency_gt_iff]
        exact LsaHeader.compareRecency_of_version_lt hlt
      refine .inr ⟨lsa.filled, by simp, ?_, lsa.filled.header.lsAge, ?_⟩
      · intro o ho hne
        rcases List.mem_append.mp ho with ho | ho
        · by_cases hom : o = m
          · rw [hom]
            exact hlt
          · exact (hmax o ho hom).trans hlt
        · exact absurd (List.mem_singleton.mp ho) hne
      · rw [get_install, hself, if_pos]
        refine ⟨hkey.symm, ?_⟩
        intro n hn
        rw [hget] at hn
        cases hn
        exact hcmp
    · have hcmp : lsa.filled.header.compareRecency (m.withAge age).header = .lt :=
        LsaHeader.compareRecency_of_version_lt hgt
      refine .inr ⟨m, by simp [hm], ?_, age, ?_⟩
      · intro o ho hne
        rcases List.mem_append.mp ho with ho | ho
        · exact hmax o ho hne
        · rw [List.mem_singleton.mp ho]
          exact hgt
      · rw [get_install, if_neg, hget]
        rintro ⟨-, hgt'⟩
        have hbad := hgt' _ hget
        rw [hcmp] at hbad
        cases hbad

/-- Whatever the order and however much time passes, the greatest instance remains. -/
theorem holdsMax_foldl {k : LsaKey} (ops : List Op) (hkey : ∀ l ∈ offered ops, l.key = k)
    (hdist : ((offered ops).map fun l => l.header.version).Nodup) :
    (ops.foldl apply new).HoldsMax k (offered ops) := by
  induction ops using List.reverseRecOn with
  | nil => exact .inl ⟨rfl, get_new k⟩
  | append_singleton ops op ih =>
    have hsplit : offered (ops ++ [op]) = offered ops ++ offered [op] := List.filterMap_append
    rw [hsplit] at hkey hdist ⊢
    rw [List.map_append, List.nodup_append] at hdist
    have hold := ih (fun l hl => hkey l (by simp [hl])) hdist.1
    rw [List.foldl_append, List.foldl_cons, List.foldl_nil]
    cases op with
    | age secs =>
      have hnil : offered [Op.age secs] = [] := rfl
      rw [hnil, List.append_nil]
      exact holdsMax_age hold secs
    | install lsa =>
      have hone : offered [Op.install lsa] = [lsa.filled] := rfl
      rw [hone] at hkey hdist ⊢
      refine holdsMax_install hold ?_ ?_
      · rw [← lsa.key_filled]
        exact hkey _ (by simp)
      · intro o ho
        exact hdist.2.2 _ (List.mem_map_of_mem ho) _ (by simp)

/-- Instances of one LSA in any order leave the one with the greatest sequence number and checksum, and
a router that offers its copy to another ends up with the same instance, unless the copy was a
withdrawal of something unknown or the sequence numbers of the other are used up. -/
theorem confluent_and_agreeing :
    (∀ (k : LsaKey) (ops : List Op), (∀ l ∈ offered ops, l.key = k) → offered ops ≠ [] →
      ((offered ops).map fun l => l.header.version).Nodup →
      ∃ m ∈ offered ops, (∀ l ∈ offered ops, l ≠ m → l.header.version < m.header.version) ∧
        ∃ age, (ops.foldl apply new).get k = some (m.withAge age)) ∧
    ∀ (a b : Lsdb) (k : LsaKey) (copy : Lsa) (inputA inputB : FloodInput), a.get k = some copy →
      inputA.onRequestList = false → inputB.onRequestList = false →
      (∀ since ∈ inputA.dbCopyAgeSinceInstall, minLsArrival ≤ since) →
      (∀ since ∈ inputB.dbCopyAgeSinceInstall, minLsArrival ≤ since) →
      (∃ l m, (exchange a b k inputA inputB).1.get k = some l ∧ (exchange a b k inputA inputB).2.get k = some m ∧
          l.header.compareRecency m.header = .eq) ∨
        (b.get k = none ∧ maxAge ≤ copy.header.lsAge) ∨
        ∃ own, b.get k = some own ∧ maxAge ≤ own.header.lsAge ∧ own.header.lsSeq = maxSequenceNumber := by
  constructor
  · intro k ops hkey hne hdist
    rcases holdsMax_foldl ops hkey hdist with ⟨hnil, -⟩ | hmax
    · exact absurd hnil hne
    · exact hmax
  · intro a b k copy inputA inputB ha hreqA hreqB hlateA hlateB
    exact exchange_agrees ha hreqA hreqB hlateA hlateB

end Lsdb

namespace Sample

/-- An LSA of router 1 that another router sent, with the given sequence number. -/
def opaqueLsa (seq : Int32) : Lsa :=
  ⟨⟨0, 2, .opaqueArea, 1, 1, seq, 7, 20⟩, .opq []⟩

end Sample

/-- The older of two instances arrives last, after an hour. -/
theorem Lsdb.confluent_two_instances :
    ∃ m ∈ offered [.install (Sample.opaqueLsa 2), .age 3600, .install (Sample.opaqueLsa 1)],
      (∀ l ∈ offered [.install (Sample.opaqueLsa 2), .age 3600, .install (Sample.opaqueLsa 1)],
        l ≠ m → l.header.version < m.header.version) ∧
      ∃ age, ([.install (Sample.opaqueLsa 2), .age 3600, .install (Sample.opaqueLsa 1)].foldl apply new).get
        (Sample.opaqueLsa 1).key = some (m.withAge age) := by
  refine confluent_and_agreeing.1 _ _ ?_ ?_ ?_
  · decide
  · decide
  · decide

end Wren.Ospf
