import Wren.Isis.Pdu

/-! The link-state database of one level, and how sequence-number PDUs keep two of them in step. -/

namespace Wren.Isis
open OrdMap
open Std (ExtTreeMap)

inductive Install where
  | new
  | newer
  | same
  | haveNewer
deriving DecidableEq

def Install.changed : Install → Bool
  | new | newer => true
  | same | haveNewer => false

inductive SyncAction where
  | request
  | send
  | inSync
deriving DecidableEq

structure CsnpSync where
  request : List LspId
  send : List LspId
deriving DecidableEq

def maxLsps : ℕ := 65536

/-- Sequence number first, then a purge over a live instance, then the larger checksum. -/
def cmpRecency (a b : UInt32 × UInt16 × UInt16) : Ordering :=
  match compare a.1.toNat b.1.toNat with
  | .eq =>
    match a.2.1 == 0, b.2.1 == 0 with
    | true, false => .gt
    | false, true => .lt
    | _, _ => compare a.2.2.toNat b.2.2.toNat
  | other => other

def Lsp.version (l : Lsp) : UInt32 × UInt16 × UInt16 := (l.sequenceNumber, l.remainingLifetime, l.checksum)

def LspEntry.version (e : LspEntry) : UInt32 × UInt16 × UInt16 :=
  (e.sequenceNumber, e.remainingLifetime, e.checksum)

def recency (a b : Lsp) : Ordering := cmpRecency a.version b.version

def entryRecency (entry : LspEntry) (ours : Lsp) : Ordering := cmpRecency entry.version ours.version

def entryOf (l : Lsp) : LspEntry := ⟨l.remainingLifetime, l.lspId, l.sequenceNumber, l.checksum⟩

/-- Every LSP is stored under its own ID. -/
structure Lsdb where
  entries : BTreeMap LspId Lsp
  id_eq : ∀ (i : LspId) (l : Lsp), entries[i]? = some l → l.lspId = i

namespace Lsdb

def new : Lsdb where
  entries := ∅
  id_eq i l h := by simp at h

def get (db : Lsdb) (i : LspId) : Option Lsp := db.entries[i]?

def contains (db : Lsdb) (i : LspId) : Bool := (db.get i).isSome

def len (db : Lsdb) : ℕ := db.entries.size

/-- The LSPs in ascending order of their IDs. -/
def iter (db : Lsdb) : List Lsp := db.entries.toList.map Prod.snd

def put (db : Lsdb) (l : Lsp) : Lsdb where
  entries := db.entries.insert l.lspId l
  id_eq i m h := by
    rw [getElem?_insert] at h
    split_ifs at h with hi
    · cases h
      exact hi.symm
    · exact db.id_eq i m h

/-- Offer an LSP. A full database refuses a new one as if it were stale. -/
def install (db : Lsdb) (lsp : Lsp) : Lsdb × Install :=
  match db.get lsp.lspId with
  | none => if maxLsps ≤ db.len then (db, .haveNewer) else (db.put lsp, .new)
  | some existing =>
    match recency lsp existing with
    | .gt => (db.put lsp, .newer)
    | .eq => (db, .same)
    | .lt => (db, .haveNewer)

def remove (db : Lsdb) (i : LspId) : Lsdb where
  entries := db.entries.erase i
  id_eq j m h := by
    rw [getElem?_erase] at h
    split_ifs at h
    exact db.id_eq j m h

def ageBy (secs : UInt16) (l : Lsp) : Lsp :=
  { l with remainingLifetime := UInt16.ofNat (l.remainingLifetime.toNat - secs.toNat) }

/-- Every lifetime counts down, and those LSPs that reach zero by it are to be purged. -/
def age (db : Lsdb) (secs : UInt16) : Lsdb × List LspId :=
  ({ entries := db.entries.map fun _ l => ageBy secs l
     id_eq := by
      intro i l h
      rw [ExtTreeMap.getElem?_map] at h
      obtain ⟨m, hm, rfl⟩ := Option.map_eq_some_iff.mp h
      exact db.id_eq i m hm },
    (db.entries.toList.filter fun e =>
      e.2.remainingLifetime ≠ 0 ∧ (ageBy secs e.2).remainingLifetime = 0).map Prod.fst)

def summary (db : Lsdb) : List LspEntry := db.iter.map entryOf

/-- The entries from one ID to another. The bounds may not be the wrong way round. -/
def range (db : Lsdb) (start stop : LspId) : Option (List (LspId × Lsp)) :=
  if stop < start then none else some (db.entries.toList.filter fun e => start ≤ e.1 ∧ e.1 ≤ stop)

def summaryRange (db : Lsdb) (start stop : LspId) : Option (List LspEntry) :=
  (db.range start stop).map (·.map fun e => entryOf e.2)

def evaluateEntry (db : Lsdb) (entry : LspEntry) : SyncAction :=
  match db.get entry.lspId with
  | none => .request
  | some ours =>
    match entryRecency entry ours with
    | .gt => .request
    | .lt => .send
    | .eq => .inSync

/-- What to request and what to send after a CSNP. It has no result where the range lookup panics. -/
def evaluateCsnp (db : Lsdb) (entries : List LspEntry) (start stop : LspId) : Option CsnpSync := do
  let classed (a : SyncAction) := (entries.filter fun e => db.evaluateEntry e = a).map (·.lspId)
  let held ← db.range start stop
  let unlisted := (held.map Prod.fst).filter fun i => i ∉ entries.map (·.lspId)
  return ⟨classed .request, classed .send ++ unlisted⟩

end Lsdb

/-! ### Recency is a total preorder -/

/-- What recency compares: a larger rank is more recent. -/
def rank (v : UInt32 × UInt16 × UInt16) : ℕ ×ₗ ℕ ×ₗ ℕ :=
  toLex (v.1.toNat, toLex ((v.2.1 == 0).toNat, v.2.2.toNat))

theorem cmpRecency_eq_gt_iff (a b : UInt32 × UInt16 × UInt16) : cmpRecency a b = .gt ↔ rank b < rank a := by
  rw [rank, rank, Prod.Lex.toLex_lt_toLex, Prod.Lex.toLex_lt_toLex]
  dsimp only [cmpRecency]
  generalize (a.2.1 == 0) = za
  generalize (b.2.1 == 0) = zb
  rcases Nat.lt_trichotomy a.1.toNat b.1.toNat with h | h | h
  · rw [compare_lt_iff_lt.mpr h]
    have hnot : ¬ b.1.toNat < a.1.toNat := by omega
    have hne : ¬ b.1.toNat = a.1.toNat := by omega
    simp [hnot, hne]
  · rw [compare_eq_iff_eq.mpr h]
    cases za <;> cases zb <;> simp [h, Nat.compare_eq_gt]
  · rw [compare_gt_iff_gt.mpr h]
    simp [h]

theorem cmpRecency_swap (a b : UInt32 × UInt16 × UInt16) : (cmpRecency a b).swap = cmpRecency b a := by
  dsimp only [cmpRecency]
  generalize (a.2.1 == 0) = za
  generalize (b.2.1 == 0) = zb
  rcases Nat.lt_trichotomy a.1.toNat b.1.toNat with h | h | h
  · rw [compare_lt_iff_lt.mpr h, compare_gt_iff_gt.mpr h]
    rfl
  · rw [compare_eq_iff_eq.mpr h, compare_eq_iff_eq.mpr h.symm]
    cases za <;> cases zb <;> simp [Nat.compare_swap]
  · rw [compare_gt_iff_gt.mpr h, compare_lt_iff_lt.mpr h]
    rfl

theorem cmpRecency_eq_lt_iff (a b : UInt32 × UInt16 × UInt16) : cmpRecency a b = .lt ↔ rank a < rank b := by
  rw [← cmpRecency_eq_gt_iff, ← cmpRecency_swap b a, Ordering.swap_eq_lt]

/-- Instances of the same rank agree in all that recency looks at. -/
theorem rank_eq_iff (a b : UInt32 × UInt16 × UInt16) :
    rank a = rank b ↔ a.1 = b.1 ∧ (a.2.1 = 0 ↔ b.2.1 = 0) ∧ a.2.2 = b.2.2 := by
  have hzero : (a.2.1 == 0).toNat = (b.2.1 == 0).toNat ↔ (a.2.1 = 0 ↔ b.2.1 = 0) := by
    rw [← beq_iff_eq (a := a.2.1), ← beq_iff_eq (a := b.2.1)]
    cases a.2.1 == 0 <;> cases b.2.1 == 0 <;> simp
  rw [rank, rank, toLex.injective.eq_iff, Prod.mk.injEq, toLex.injective.eq_iff, Prod.mk.injEq, hzero,
    UInt32.toNat_inj, UInt16.toNat_inj]

/-! ### Lookups -/

namespace Lsdb

@[simp] theorem get_new (i : LspId) : new.get i = none := by simp [get, new]

theorem get_put (db : Lsdb) (l : Lsp) (i : LspId) : (db.put l).get i = if i = l.lspId then some l else db.get i :=
  getElem?_insert _ _ _ _

theorem get_remove (db : Lsdb) (i j : LspId) : (db.remove i).get j = if j = i then none else db.get j :=
  getElem?_erase _ _ _

theorem get_age (db : Lsdb) (secs : UInt16) (i : LspId) : (db.age secs).1.get i = (db.get i).map (ageBy secs) :=
  ExtTreeMap.getElem?_map

theorem lspId_of_get {db : Lsdb} {i : LspId} {l : Lsp} (h : db.get i = some l) : l.lspId = i := db.id_eq i l h

/-- What installing an LSP leaves under each ID, as long as the database is not full. -/
theorem get_install {db : Lsdb} {l : Lsp} (hroom : db.get l.lspId = none → db.len < maxLsps) (i : LspId) :
    (db.install l).1.get i =
      if i = l.lspId ∧ (∀ held, db.get l.lspId = some held → rank held.version < rank l.version) then some l
      else db.get i := by
  unfold install
  cases hheld : db.get l.lspId with
  | none =>
    rw [if_neg (by have := hroom hheld; omega), get_put]
    simp
  | some held =>
    have hgt := cmpRecency_eq_gt_iff l.version held.version
    have hput : rank held.version < rank l.version →
        (db.put l).get i = if i = l.lspId ∧ (∀ e, some held = some e → rank e.version < rank l.version) then some l
          else db.get i := by
      intro h
      rw [get_put]
      simp [h]
    have hkeep : ¬ rank held.version < rank l.version →
        db.get i = if i = l.lspId ∧ (∀ e, some held = some e → rank e.version < rank l.version) then some l
          else db.get i := by
      intro h
      simp [h]
    dsimp only [recency]
    cases hcmp : cmpRecency l.version held.version with
    | gt => exact hput (hgt.mp hcmp)
    | eq => exact hkeep fun h => by simp [hgt.mpr h] at hcmp
    | lt => exact hkeep fun h => by simp [hgt.mpr h] at hcmp

theorem mem_toList {db : Lsdb} {i : LspId} {l : Lsp} : (i, l) ∈ db.entries.toList ↔ db.get i = some l :=
  ExtTreeMap.mem_toList_iff_getElem?_eq_some

theorem mem_iter {db : Lsdb} {l : Lsp} : l ∈ db.iter ↔ db.get l.lspId = some l := by
  rw [iter, List.mem_map]
  constructor
  · rintro ⟨⟨i, m⟩, hmem, rfl⟩
    have hget := mem_toList.mp hmem
    rw [lspId_of_get hget]
    exact hget
  · intro h
    exact ⟨(l.lspId, l), mem_toList.mpr h, rfl⟩

theorem mem_summary {db : Lsdb} {e : LspEntry} : e ∈ db.summary ↔ ∃ l, db.get e.lspId = some l ∧ entryOf l = e := by
  rw [summary, List.mem_map]
  constructor
  · rintro ⟨l, hl, rfl⟩
    exact ⟨l, mem_iter.mp hl, rfl⟩
  · rintro ⟨l, hl, rfl⟩
    exact ⟨l, mem_iter.mpr hl, rfl⟩

/-- The IDs held, as a set. -/
def ids (db : Lsdb) : Finset LspId := db.entries.keys.toFinset

theorem mem_ids {db : Lsdb} {i : LspId} : i ∈ db.ids ↔ (db.get i).isSome := by
  rw [ids, List.mem_toFinset, ExtTreeMap.mem_keys, ← ExtTreeMap.isSome_getElem?_iff_mem]
  rfl

theorem card_ids (db : Lsdb) : db.ids.card = db.len := by
  rw [ids, List.toFinset_card_of_nodup ExtTreeMap.nodup_keys, ExtTreeMap.length_keys]
  rfl

theorem evaluateEntry_eq_request_iff (db : Lsdb) (e : LspEntry) :
    db.evaluateEntry e = .request ↔ ∀ ours, db.get e.lspId = some ours → rank ours.version < rank e.version := by
  unfold evaluateEntry
  cases db.get e.lspId with
  | none => simp
  | some ours =>
    have hgt := cmpRecency_eq_gt_iff e.version ours.version
    dsimp only [entryRecency]
    cases hcmp : cmpRecency e.version ours.version with
    | gt => simpa using hgt.mp hcmp
    | eq => simp [← hgt, hcmp]
    | lt => simp [← hgt, hcmp]

theorem evaluateEntry_eq_send_iff (db : Lsdb) (e : LspEntry) :
    db.evaluateEntry e = .send ↔ ∃ ours, db.get e.lspId = some ours ∧ rank e.version < rank ours.version := by
  unfold evaluateEntry
  cases db.get e.lspId with
  | none => simp
  | some ours =>
    have hlt := cmpRecency_eq_lt_iff e.version ours.version
    dsimp only [entryRecency]
    cases hcmp : cmpRecency e.version ours.version with
    | lt => simpa using hlt.mp hcmp
    | eq => simp [← hlt, hcmp]
    | gt => simp [← hlt, hcmp]

theorem evaluateCsnp_isSome_iff (db : Lsdb) (entries : List LspEntry) (start stop : LspId) :
    (db.evaluateCsnp entries start stop).isSome ↔ start ≤ stop := by
  rw [← not_lt]
  by_cases h : stop < start
  · simp [evaluateCsnp, range, h]
  · simp [evaluateCsnp, range, h]

/-- What a CSNP over an ordered range asks for and what it is sent. -/
theorem evaluateCsnp_spec (db : Lsdb) (entries : List LspEntry) {start stop : LspId} (h : start ≤ stop) :
    ∃ s, db.evaluateCsnp entries start stop = some s ∧
      (∀ i, i ∈ s.request ↔ ∃ e ∈ entries, e.lspId = i ∧ db.evaluateEntry e = .request) ∧
      ∀ i, i ∈ s.send ↔ (∃ e ∈ entries, e.lspId = i ∧ db.evaluateEntry e = .send) ∨
        (start ≤ i ∧ i ≤ stop ∧ (db.get i).isSome ∧ ∀ e ∈ entries, e.lspId ≠ i) := by
  have hrange : db.range start stop = some (db.entries.toList.filter fun e => start ≤ e.1 ∧ e.1 ≤ stop) :=
    if_neg (not_lt.mpr h)
  refine ⟨_, by rw [evaluateCsnp, hrange]; rfl, ?_, ?_⟩
  · intro i
    simp only [List.mem_map, List.mem_filter, decide_eq_true_eq]
    constructor
    · rintro ⟨e, ⟨he, ha⟩, rfl⟩
      exact ⟨e, he, rfl, ha⟩
    · rintro ⟨e, he, rfl, ha⟩
      exact ⟨e, ⟨he, ha⟩, rfl⟩
  · intro i
    have hheld : (∃ l, (i, l) ∈ db.entries.toList) ↔ (db.get i).isSome := by
      simp only [mem_toList, Option.isSome_iff_exists]
    simp only [List.mem_append, List.mem_map, List.mem_filter, decide_eq_true_eq, Prod.exists, exists_and_right,
      exists_eq_right, not_exists, not_and]
    rw [← hheld]
    constructor
    · rintro (⟨e, ⟨he, ha⟩, rfl⟩ | ⟨⟨⟨l, hl⟩, hstart, hstop⟩, hnone⟩)
      · exact Or.inl ⟨e, he, rfl, ha⟩
      · exact Or.inr ⟨hstart, hstop, ⟨l, hl⟩, fun e he => hnone e he⟩
    · rintro (⟨e, he, rfl, ha⟩ | ⟨hstart, hstop, ⟨l, hl⟩, hnone⟩)
      · exact Or.inl ⟨e, ⟨he, ha⟩, rfl⟩
      · exact Or.inr ⟨⟨⟨l, hl⟩, hstart, hstop⟩, fun e he => hnone e he⟩

end Lsdb

end Wren.Isis
