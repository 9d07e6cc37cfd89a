import Wren.Daemon.Ospf.Process
import Wren.Lib.Aging
import Wren.Lib.Run
import Wren.Ospfv3.Lsa

/-! What leaves the databases of the OSPF tasks when they age. -/

namespace Wren.Ospf
open Std (ExtTreeMap)
open OrdMap

/-- What is at MaxAge stays there. -/
theorem le_older {age : UInt16} (h : maxAge ≤ age) (secs : UInt16) :
    maxAge ≤ min (UInt16.ofNat (min (age.toNat + secs.toNat) 65535)) maxAge := by
  have hage := UInt16.le_iff_toNat_le.mp h
  have hmax : maxAge.toNat = 3600 := rfl
  have hlt := age.toNat_lt
  have hsum : maxAge ≤ UInt16.ofNat (min (age.toNat + secs.toNat) 65535) := by
    rw [UInt16.le_iff_toNat_le, UInt16.toNat_ofNat']
    omega
  show maxAge ≤ if UInt16.ofNat (min (age.toNat + secs.toNat) 65535) ≤ maxAge then _ else maxAge
  split_ifs
  · exact hsum
  · exact UInt16.le_refl _

namespace Lsdb

/-- A tick: what reaches MaxAge by it is removed. -/
def reap (secs : UInt16) (db : Lsdb) : Lsdb := (db.age secs).2.foldl remove (db.age secs).1

/-- No LSA is at MaxAge. -/
def Live (db : Lsdb) : Prop := Aging.Live (fun l : Lsa => maxAge ≤ l.header.lsAge) db.get

theorem get_reap (secs : UInt16) (db : Lsdb) (k : LsaKey) : (db.reap secs).get k = (db.get k).bind fun l =>
    if ¬ maxAge ≤ l.header.lsAge ∧ maxAge ≤ (ageBy secs l).header.lsAge then none else some (ageBy secs l) := by
  have hreported : k ∈ (db.age secs).2 ↔ ∃ l, db.get k = some l ∧ ¬ maxAge ≤ l.header.lsAge ∧
      maxAge ≤ (ageBy secs l).header.lsAge := by
    simp only [age, List.mem_map, List.mem_filter, decide_eq_true_eq, UInt16.not_le]
    constructor
    · intro h
      obtain ⟨e, ⟨hmem, hgone⟩, rfl⟩ := h
      exact ⟨e.2, ExtTreeMap.mem_toList_iff_getElem?_eq_some.mp hmem, hgone⟩
    · intro h
      obtain ⟨l, hl, hgone⟩ := h
      exact ⟨(k, l), ⟨ExtTreeMap.mem_toList_iff_getElem?_eq_some.mpr hl, hgone⟩, rfl⟩
  rw [reap, Aging.get_foldl_remove get_remove, get_age]
  cases hl : db.get k with
  | none => simp
  | some l => simp [hreported, hl]

theorem live_reap_iff (secs : UInt16) (db : Lsdb) : (db.reap secs).Live ↔ db.Live :=
  Aging.live_iff_of_reap (fun _ h => le_older h secs) (get_reap secs db)

/-- A live database stays so exactly where it takes no LSA at MaxAge. -/
theorem live_install_iff {db : Lsdb} (h : db.Live) (lsa : Lsa) : (db.install lsa).1.Live ↔
    (maxAge ≤ lsa.header.lsAge → ∃ l, db.get lsa.key = some l ∧ lsa.filled.header.compareRecency l.header ≠ .gt) := by
  have hage : lsa.filled.header.lsAge = lsa.header.lsAge := by
    unfold Lsa.filled
    split_ifs
    · simp only [Lsa.stamp]
    · rfl
  constructor
  · intro hlive hold
    by_contra hno
    simp only [not_exists, not_and, not_not] at hno
    rw [← hage] at hold
    refine hlive lsa.key lsa.filled ?_ hold
    rw [get_install, if_pos ⟨rfl, hno⟩]
  · intro hguard k l hl hold
    rw [get_install] at hl
    split_ifs at hl with hput
    · cases hl
      rw [hage] at hold
      obtain ⟨held, hheld, hnot⟩ := hguard hold
      exact hnot (hput.2 held (hput.1 ▸ hheld))
    · exact h k l hl hold

end Lsdb
end Wren.Ospf

namespace Wren.Ospfv3.Lsdb
open Std (ExtTreeMap)
open Wren.Ospf (maxAge le_older)

def reap (secs : UInt16) (db : Lsdb) : Lsdb := (db.age secs).2.foldl remove (db.age secs).1

def Live (db : Lsdb) : Prop := Aging.Live (fun l : Lsa => maxAge ≤ l.header.lsAge) db.get

theorem get_reap (secs : UInt16) (db : Lsdb) (k : LsaKey) : (db.reap secs).get k = (db.get k).bind fun l =>
    if ¬ maxAge ≤ l.header.lsAge ∧ maxAge ≤ (ageBy secs l).header.lsAge then none else some (ageBy secs l) := by
  have hreported : k ∈ (db.age secs).2 ↔ ∃ l, db.get k = some l ∧ ¬ maxAge ≤ l.header.lsAge ∧
      maxAge ≤ (ageBy secs l).header.lsAge := by
    simp only [age, List.mem_map, List.mem_filter, decide_eq_true_eq, UInt16.not_le]
    constructor
    · intro h
      obtain ⟨e, ⟨hmem, hgone⟩, rfl⟩ := h
      exact ⟨e.2, ExtTreeMap.mem_toList_iff_getElem?_eq_some.mp hmem, hgone⟩
    · intro h
      obtain ⟨l, hl, hgone⟩ := h
      exact ⟨(k, l), ⟨ExtTreeMap.mem_toList_iff_getElem?_eq_some.mpr hl, hgone⟩, rfl⟩
  rw [reap, Aging.get_foldl_remove get_remove, get_age]
  cases hl : db.get k with
  | none => simp
  | some l => simp [hreported, hl]

theorem live_reap_iff (secs : UInt16) (db : Lsdb) : (db.reap secs).Live ↔ db.Live :=
  Aging.live_iff_of_reap (fun _ h => le_older h secs) (get_reap secs db)

theorem live_install_iff {db : Lsdb} (h : db.Live) (lsa : Lsa) : (db.install lsa).1.Live ↔
    (maxAge ≤ lsa.header.lsAge → ∃ l, db.get lsa.key = some l ∧ lsa.header.compareRecency l.header ≠ .gt) := by
  constructor
  · intro hlive hold
    by_contra hno
    simp only [not_exists, not_and, not_not] at hno
    refine hlive lsa.key lsa ?_ hold
    rw [get_install, if_pos ⟨rfl, hno⟩]
  · intro hguard k l hl hold
    rw [get_install] at hl
    split_ifs at hl with hput
    · cases hl
      obtain ⟨held, hheld, hnot⟩ := hguard hold
      exact hnot (hput.2 held (hput.1 ▸ hheld))
    · exact h k l hl hold

end Wren.Ospfv3.Lsdb

namespace Wren.Daemon
open Std (ExtTreeMap)
open Wren.Ospf OrdMap

/-- The databases of the areas and the AS-external one, of either version. -/
structure Databases (D : Type) where
  areas : BTreeMap Ipv4Addr D
  external : D

namespace Databases

/-- LSAs are installed, wherever they come from, and the time goes on. -/
inductive Event (L : Type) where
  | install (area : Ipv4Addr) (lsa : L)
  | installExternal (lsa : L)
  | age (secs : UInt16)

section Generic
variable {D L : Type} (install : D → L → D) (reap : UInt16 → D → D)

def step (w : Databases D) : Event L → Databases D
  | .install area lsa => { w with areas := w.areas.modify area fun db => install db lsa }
  | .installExternal lsa => { w with external := install w.external lsa }
  | .age secs => { areas := w.areas.map fun _ db => reap secs db, external := reap secs w.external }

/-- Every one of the databases is such. -/
def All (P : D → Prop) (w : Databases D) : Prop :=
  (∀ (area : Ipv4Addr) (db : D), w.areas[area]? = some db → P db) ∧ P w.external

/-- After a tick of a second or more no LSA is at MaxAge. -/
def Reaped (Live : D → Prop) (w : Databases D) (ev : Event L) : Prop :=
  ∀ secs, ev = .age secs → 1 ≤ secs → (step install reap w ev).All Live

/-- No LSA is at MaxAge when such a tick comes. -/
def NoneLeft (Live : D → Prop) (w : Databases D) (ev : Event L) : Prop :=
  ∀ secs, ev = .age secs → 1 ≤ secs → w.All Live

/-- Nothing is installed that `Spared` does not allow. -/
def Spares (Spared : D → L → Prop) (w : Databases D) : Event L → Prop
  | .install area lsa => ∀ db ∈ w.areas[area]?, Spared db lsa
  | .installExternal lsa => Spared w.external lsa
  | .age _ => True

variable {install reap} {Live : D → Prop} {Spared : D → L → Prop}

theorem all_age_iff (hreap : ∀ secs db, Live (reap secs db) ↔ Live db) (w : Databases D) (secs : UInt16) :
    (step install reap w (.age secs)).All Live ↔ w.All Live := by
  simp only [step, All, ExtTreeMap.getElem?_map, Option.map_eq_some_iff, hreap]
  constructor
  · intro h
    exact ⟨fun area db hdb => (hreap secs db).mp (h.1 area _ ⟨db, hdb, rfl⟩), h.2⟩
  · intro h
    refine ⟨?_, h.2⟩
    intro area db hdb
    obtain ⟨db, hdb, rfl⟩ := hdb
    exact (hreap secs db).mpr (h.1 area db hdb)

theorem every_reaped_iff (hreap : ∀ secs db, Live (reap secs db) ↔ Live db) (w : Databases D) (es : List (Event L)) :
    Run.Every (step install reap) (Reaped install reap Live) w es ↔ Run.Every (step install reap) (NoneLeft Live) w es := by
  refine Run.every_congr (fun _ => True) (fun _ _ _ => trivial) ?_ trivial es
  intro w ev _
  constructor
  · intro h secs he hsecs
    have hafter := h secs he hsecs
    rw [he] at hafter
    exact (all_age_iff hreap w secs).mp hafter
  · intro h secs he hsecs
    rw [he]
    exact (all_age_iff hreap w secs).mpr (h secs he hsecs)

/-- As long as nothing is left at MaxAge by an install, nothing ever is. -/
theorem all_run (hreap : ∀ secs db, Live (reap secs db) ↔ Live db)
    (hinstall : ∀ db lsa, Live db → Spared db lsa → Live (install db lsa)) {w : Databases D} (hw : w.All Live)
    {es : List (Event L)} (hes : Run.Every (step install reap) (Spares Spared) w es) :
    (es.foldl (step install reap) w).All Live := by
  refine hes.invariant (All Live) hw ?_
  intro w ev h hspared
  cases ev with
  | install area lsa =>
    refine ⟨?_, h.2⟩
    intro a db hdb
    rw [step, getElem?_modify] at hdb
    split_ifs at hdb with ha
    · obtain ⟨held, hheld, rfl⟩ := Option.map_eq_some_iff.mp hdb
      rw [ha] at hheld
      exact hinstall held lsa (h.1 area held hheld) (hspared held hheld)
    · exact h.1 a db hdb
  | installExternal lsa => exact ⟨h.1, hinstall _ lsa h.2 hspared⟩
  | age secs => exact (all_age_iff hreap w secs).mpr h

end Generic

/-! ### The two versions -/

def step2 : Databases Ospf.Lsdb → Event Lsa → Databases Ospf.Lsdb := step (fun db lsa => (db.install lsa).1) Lsdb.reap

def step3 : Databases Ospfv3.Lsdb → Event Ospfv3.Lsa → Databases Ospfv3.Lsdb :=
  step (fun db lsa => (db.install lsa).1) Ospfv3.Lsdb.reap

abbrev Reaped2 : Databases Ospf.Lsdb → Event Lsa → Prop := Reaped (fun db lsa => (db.install lsa).1) Lsdb.reap Lsdb.Live

abbrev Reaped3 : Databases Ospfv3.Lsdb → Event Ospfv3.Lsa → Prop :=
  Reaped (fun db lsa => (db.install lsa).1) Ospfv3.Lsdb.reap Ospfv3.Lsdb.Live

/-- An LSA at MaxAge is not kept by the database. -/
def Spared2 (db : Ospf.Lsdb) (lsa : Lsa) : Prop :=
  maxAge ≤ lsa.header.lsAge → ∃ l, db.get lsa.key = some l ∧ lsa.filled.header.compareRecency l.header ≠ .gt

def Spared3 (db : Ospfv3.Lsdb) (lsa : Ospfv3.Lsa) : Prop :=
  maxAge ≤ lsa.header.lsAge → ∃ l, db.get lsa.key = some l ∧ lsa.header.compareRecency l.header ≠ .gt

theorem live_run2 {w : Databases Ospf.Lsdb} (hw : w.All Lsdb.Live) {es : List (Event Lsa)}
    (hes : Run.Every step2 (Spares Spared2) w es) : (es.foldl step2 w).All Lsdb.Live :=
  all_run Lsdb.live_reap_iff (fun _ lsa hlive hspared => (Lsdb.live_install_iff hlive lsa).mpr hspared) hw hes

theorem live_run3 {w : Databases Ospfv3.Lsdb} (hw : w.All Ospfv3.Lsdb.Live) {es : List (Event Ospfv3.Lsa)}
    (hes : Run.Every step3 (Spares Spared3) w es) : (es.foldl step3 w).All Ospfv3.Lsdb.Live :=
  all_run Ospfv3.Lsdb.live_reap_iff (fun _ lsa hlive hspared => (Ospfv3.Lsdb.live_install_iff hlive lsa).mpr hspared)
    hw hes

end Databases

namespace Ospf
open Wren.Core
open Databases (Spares Spared2 Spared3 step2 step3 Reaped2 Reaped3)
variable (s : Ospf)

/-- The databases of the task. -/
def held : Databases Lsdb := ⟨s.areas.map fun _ a => a.lsdb, s.externalLsdb⟩

/-- After a tick of a second or more the task holds no LSA at MaxAge. -/
def Reaped (s : Ospf) (ev : Event) : Prop := ∀ secs, ev = .age secs → 1 ≤ secs → (s.step ev).held.All Lsdb.Live

/-- The task holds no LSA at MaxAge when such a tick comes. -/
def NoneLeft (s : Ospf) (ev : Event) : Prop := ∀ secs, ev = .age secs → 1 ≤ secs → s.held.All Lsdb.Live

theorem held_ageLsdbs (secs : UInt16) : (s.ageLsdbs secs).held = step2 s.held (.age secs) := by
  have hareas : ((s.ageLsdbs secs).areas.map fun _ a => a.lsdb) =
      (s.areas.map fun _ a => a.lsdb).map fun _ db => db.reap secs := by
    refine ExtTreeMap.ext_getElem? ?_
    intro area
    simp only [ageLsdbs, Lsdb.reap, ExtTreeMap.getElem?_map, Option.map_map]
    rfl
  rw [held, hareas]
  rfl

theorem reaped_iff_noneLeft (ev : Event) : s.Reaped ev ↔ s.NoneLeft ev := by
  unfold Reaped NoneLeft
  constructor
  · intro h secs he hsecs
    have hafter := h secs he hsecs
    rw [he, step, held_ageLsdbs] at hafter
    exact (Databases.all_age_iff Lsdb.live_reap_iff s.held secs).mp hafter
  · intro h secs he hsecs
    rw [he, step, held_ageLsdbs]
    exact (Databases.all_age_iff Lsdb.live_reap_iff s.held secs).mpr (h secs he hsecs)

/-- The databases of either version, and those of the task, are free of what is at MaxAge after every tick of a run
exactly where they were before it; this is so as long as nothing enters them at MaxAge. -/
theorem ticks_reap_iff (s : Ospf) (es : List Event) :
    (Run.Every step Reaped s es ↔ Run.Every step NoneLeft s es) ∧
    (∀ (w : Databases Lsdb) (es : List (Databases.Event Lsa)),
      Run.Every step2 Reaped2 w es ↔ Run.Every step2 (Databases.NoneLeft Lsdb.Live) w es) ∧
    (∀ (w : Databases Ospfv3.Lsdb) (es : List (Databases.Event Ospfv3.Lsa)),
      Run.Every step3 Reaped3 w es ↔ Run.Every step3 (Databases.NoneLeft Ospfv3.Lsdb.Live) w es) ∧
    (∀ (w : Databases Lsdb) (es : List (Databases.Event Lsa)), w.All Lsdb.Live →
      Run.Every step2 (Spares Spared2) w es → (es.foldl step2 w).All Lsdb.Live) ∧
    (∀ (w : Databases Ospfv3.Lsdb) (es : List (Databases.Event Ospfv3.Lsa)), w.All Ospfv3.Lsdb.Live →
      Run.Every step3 (Spares Spared3) w es → (es.foldl step3 w).All Ospfv3.Lsdb.Live) := by
  refine ⟨?_, ?_, ?_, ?_, ?_⟩
  · exact Run.every_congr (fun _ => True) (fun _ _ _ => trivial) (fun s ev _ => s.reaped_iff_noneLeft ev) trivial es
  · exact Databases.every_reaped_iff Lsdb.live_reap_iff
  · exact Databases.every_reaped_iff Ospfv3.Lsdb.live_reap_iff
  · exact fun _ _ hw hes => Databases.live_run2 hw hes
  · exact fun _ _ hw hes => Databases.live_run3 hw hes

/-- The link of a router in the backbone. -/
def backboneLink : Link where
  ifindex := 1
  addr := 0x0a000001
  maskLen := 24
  area := 0
  isPassive := false

/-- 10.9.0.0/16. -/
def announced : Prefix where
  addr := .v4 0x0a090000
  len := 16
  len_le := by decide
  masked := by decide

def announcedRoute : Route where
  pfx := announced
  table := 254
  nexthops := []
  protocol := .static
  preference := 10
  metric := 0
  source := 0
  communities := []
  largeCommunities := []
  extCommunities := []

/-- A router that announced a destination and withdraws it. -/
def withdrew : Ospf :=
  ((start (.default 1 .pointToPoint) [backboneLink] ∅).step (.redistribute (.announce announcedRoute))).step
    (.redistribute (.withdraw announced))

/-- An external is withdrawn: its LSA enters the database at MaxAge, where no tick reports it. -/
theorem withdrawn_external_stays :
    ¬ ∀ (cfg : OspfConfig) (links : List Link) (redistribute : BTreeMap Prefix UInt32) (es : List Event),
      Run.Every step Reaped (start cfg links redistribute) es := by
  intro h
  have hrun := h (.default 1 .pointToPoint) [backboneLink] ∅
    [.redistribute (.announce announcedRoute), .redistribute (.withdraw announced), .age 60]
  have hlive : (withdrew.step (.age 60)).externalLsdb.Live := (hrun.2.2.1 60 rfl (by decide)).2
  have hheld : ((withdrew.step (.age 60)).externalLsdb.get ⟨.asExternal, 0x0a090000, 1⟩).any
      (fun l => maxAge ≤ l.header.lsAge) = true := by
    decide +kernel
  obtain ⟨l, hl, hold⟩ := (Option.any_eq_true _ _).mp hheld
  exact hlive _ l hl (decide_eq_true_eq.mp hold)

end Ospf
end Wren.Daemon
