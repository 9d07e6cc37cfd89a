import Wren.Ospf.Checksum

/-! The link-state database and the flooding decision. -/

namespace Wren.Ospf
open OrdMap Std

/-- An LSA that was built here has no length yet: length and checksum are filled in. -/
def Lsa.filled (l : Lsa) : Lsa := if l.header.length = 0 then l.stamp else l

theorem Lsa.key_filled (l : Lsa) : l.filled.key = l.key := by
  unfold filled
  split_ifs
  · simp only [key, stamp, LsaHeader.key]
  · rfl

@[simp] theorem Lsa.filled_filled (l : Lsa) : l.filled.filled = l.filled := by
  by_cases h : l.header.length = 0
  · have hfill : l.filled = l.stamp := if_pos h
    rw [hfill, filled]
    split_ifs
    · exact l.stamp_stamp
    · rfl
  · have hfill : l.filled = l := if_neg h
    rw [hfill, hfill]

theorem Lsa.filled_withAge (l : Lsa) (age : UInt16) : (l.withAge age).filled = l.filled.withAge age := by
  unfold filled
  by_cases h : l.header.length = 0
  · rw [if_pos h, if_pos (by exact h), stamp_withAge]
  · rw [if_neg h, if_neg (by exact h)]

inductive Install where
  | new
  | newer
  | same
  | haveNewer
deriving DecidableEq

def Install.changed : Install → Bool
  | new | newer => true
  | same | haveNewer => false

/-- Every LSA is stored under its key, with its length and checksum filled in. -/
structure Lsdb where
  entries : BTreeMap LsaKey Lsa
  key_eq : ∀ (k : LsaKey) (l : Lsa), entries[k]? = some l → l.key = k
  filled_eq : ∀ (k : LsaKey) (l : Lsa), entries[k]? = some l → l.filled = l

namespace Lsdb

def new : Lsdb where
  entries := ∅
  key_eq k l h := by simp at h
  filled_eq k l h := by simp at h

def get (db : Lsdb) (k : LsaKey) : Option Lsa := db.entries[k]?

def header (db : Lsdb) (k : LsaKey) : Option LsaHeader := (db.get k).map Lsa.header

def put (db : Lsdb) (l : Lsa) : Lsdb where
  entries := db.entries.insert l.key l.filled
  key_eq k m h := by
    rw [getElem?_insert] at h
    split_ifs at h with hk
    · cases h
      rw [hk]
      exact l.key_filled
    · exact db.key_eq k m h
  filled_eq k m h := by
    rw [getElem?_insert] at h
    split_ifs at h with hk
    · cases h
      exact l.filled_filled
    · exact db.filled_eq k m h

def len (db : Lsdb) : ℕ := db.entries.size

/-- The LSAs of a type, in the order of their keys. -/
def iterType (db : Lsdb) (t : LsType) : List Lsa := (db.entries.toList.filter fun e => e.1.1 = t).map Prod.snd

/-- All LSAs. -/
def iter (db : Lsdb) : List Lsa := db.entries.toList.map Prod.snd

def remove (db : Lsdb) (k : LsaKey) : Lsdb where
  entries := db.entries.erase k
  key_eq a l h := by
    rw [getElem?_erase] at h
    split_ifs at h
    exact db.key_eq a l h
  filled_eq a l h := by
    rw [getElem?_erase] at h
    split_ifs at h
    exact db.filled_eq a l h

/-- Offer an LSA. It is kept if it is more recent than the instance held. -/
def install (db : Lsdb) (lsa : Lsa) : Lsdb × Install :=
  let lsa := lsa.filled
  match db.get lsa.key with
  | none => (db.put lsa, .new)
  | some existing =>
    match lsa.header.compareRecency existing.header with
    | .gt => (db.put lsa, .newer)
    | .eq => (db, .same)
    | .lt => (db, .haveNewer)

def ageBy (secs : UInt16) (l : Lsa) : Lsa :=
  l.withAge (min (UInt16.ofNat (min (l.header.lsAge.toNat + secs.toNat) 65535)) maxAge)

/-- Every LSA gets older, and those that reach MaxAge by it are to be flushed. -/
def age (db : Lsdb) (secs : UInt16) : Lsdb × List LsaKey :=
  ({ entries := db.entries.map fun _ l => ageBy secs l
     key_eq := by
      intro k l h
      rw [ExtTreeMap.getElem?_map] at h
      obtain ⟨m, hm, rfl⟩ := Option.map_eq_some_iff.mp h
      exact db.key_eq k m hm
     filled_eq := by
      intro k l h
      rw [ExtTreeMap.getElem?_map] at h
      obtain ⟨m, hm, rfl⟩ := Option.map_eq_some_iff.mp h
      rw [ageBy, Lsa.filled_withAge, db.filled_eq k m hm] },
    (db.entries.toList.filter fun e =>
      e.2.header.lsAge < maxAge ∧ maxAge ≤ (ageBy secs e.2).header.lsAge).map Prod.fst)

@[simp] theorem get_new (k : LsaKey) : new.get k = none := by
  simp [get, new]

theorem get_put (db : Lsdb) (l : Lsa) (k : LsaKey) :
    (db.put l).get k = if k = l.key then some l.filled else db.get k :=
  getElem?_insert _ _ _ _

theorem get_age (db : Lsdb) (secs : UInt16) (k : LsaKey) :
    (db.age secs).1.get k = (db.get k).map (ageBy secs) :=
  ExtTreeMap.getElem?_map

theorem get_remove (db : Lsdb) (k a : LsaKey) : (db.remove k).get a = if a = k then none else db.get a :=
  getElem?_erase _ _ _

theorem get_key {db : Lsdb} {k : LsaKey} {l : Lsa} (h : db.get k = some l) : l.key = k := db.key_eq k l h

theorem mem_iterType {db : Lsdb} {t : LsType} {l : Lsa} :
    l ∈ db.iterType t ↔ l.header.lsType = t ∧ db.get l.key = some l := by
  simp only [iterType, List.mem_map, List.mem_filter, decide_eq_true_eq]
  constructor
  · rintro ⟨⟨k, m⟩, ⟨hmem, ht⟩, rfl⟩
    have hget : db.get k = some m := ExtTreeMap.mem_toList_iff_getElem?_eq_some.mp hmem
    have hkey := get_key hget
    rw [← hkey] at hget ht
    exact ⟨ht, hget⟩
  · rintro ⟨ht, hget⟩
    exact ⟨(l.key, l), ⟨ExtTreeMap.mem_toList_iff_getElem?_eq_some.mpr hget, ht⟩, rfl⟩

theorem pairwise_iterType (db : Lsdb) (t : LsType) : (db.iterType t).Pairwise fun a b => compare a.key b.key = .lt := by
  rw [iterType, List.pairwise_map]
  have hkeys : ∀ e ∈ db.entries.toList, e.2.key = e.1 := by
    rintro ⟨k, l⟩ he
    exact get_key (ExtTreeMap.mem_toList_iff_getElem?_eq_some.mp he)
  refine ((ExtTreeMap.ordered_keys_toList (t := db.entries)).filter _).imp_of_mem ?_
  intro a b ha hb hlt
  rw [hkeys a (List.mem_of_mem_filter ha), hkeys b (List.mem_of_mem_filter hb)]
  exact hlt

theorem filled_get {db : Lsdb} {k : LsaKey} {l : Lsa} (h : db.get k = some l) : l.filled = l :=
  db.filled_eq k l h

/-- After an offer the database holds the LSA where there was none or an older one. -/
theorem get_install (db : Lsdb) (lsa : Lsa) (k : LsaKey) :
    (db.install lsa).1.get k =
      if k = lsa.key ∧ ∀ l, db.get k = some l → lsa.filled.header.compareRecency l.header = .gt then
        some lsa.filled
      else db.get k := by
  simp only [install, lsa.key_filled]
  by_cases hk : k = lsa.key
  · subst hk
    cases hget : db.get lsa.key with
    | none => simp [get_put, lsa.key_filled]
    | some existing =>
      cases hcmp : lsa.filled.header.compareRecency existing.header with
      | lt => simp [hget, hcmp]
      | eq => simp [hget, hcmp]
      | gt => simp [get_put, lsa.key_filled, hcmp]
  · have hput : (db.put lsa.filled).get k = db.get k := by simp [get_put, lsa.key_filled, hk]
    rw [if_neg (fun h => hk h.1)]
    cases db.get lsa.key with
    | none => exact hput
    | some existing =>
      cases hcmp : lsa.filled.header.compareRecency existing.header with
      | lt => simp [hcmp]
      | eq => simp [hcmp]
      | gt =>
        simp only [hcmp]
        exact hput

/-- The LSAs of a type with a property are the same ones in databases which agree on those. -/
theorem filter_iterType_congr {db db' : Lsdb} {t : LsType} {p : Lsa → Bool}
    (h : ∀ (k : LsaKey) (l : Lsa), k.1 = t → p l = true → (db.get k = some l ↔ db'.get k = some l)) :
    (db.iterType t).filter p = (db'.iterType t).filter p := by
  have hfilter : ∀ d : Lsdb, (d.iterType t).filter p =
      ((d.entries.filter fun k l => k.1 = t ∧ p l = true).toList.map Prod.snd) := by
    intro d
    rw [iterType, List.filter_map, List.filter_filter, ExtTreeMap.toList_filter]
    congr 1
    refine List.filter_congr ?_
    intro e _
    simp [and_comm]
  rw [hfilter, hfilter]
  congr 2
  refine ExtTreeMap.ext_getElem? ?_
  intro k
  rw [ExtTreeMap.getElem?_filter', ExtTreeMap.getElem?_filter']
  refine Option.ext ?_
  intro l
  simp only [Option.filter_eq_some_iff, decide_eq_true_eq]
  constructor
  · rintro ⟨hget, hk, hp⟩
    exact ⟨(h k l hk hp).mp hget, hk, hp⟩
  · rintro ⟨hget, hk, hp⟩
    exact ⟨(h k l hk hp).mpr hget, hk, hp⟩

/-- A database is offered an LSA, or gets older. -/
inductive Op where
  | install (lsa : Lsa)
  | age (secs : UInt16)

def apply (db : Lsdb) : Op → Lsdb
  | .install lsa => (db.install lsa).1
  | .age secs => (db.age secs).1

end Lsdb
end Wren.Ospf
