import Wren.Lib.OrdMap
import Wren.Lib.Run

/-! The multicast trees that a router is part of: the shared ones of the groups, which the rendezvous
point is the root of, and those of single sources. -/

namespace Wren.Pim
open OrdMap
open Std (ExtTreeMap ExtTreeSet)

abbrev Ipv4Addr := BitVec 32

/-- The source of a tree, unless it is a shared one, and the group. -/
abbrev TreeKey := Option Ipv4Addr × Ipv4Addr

instance transOrdTreeKey : Std.TransOrd TreeKey := inferInstance

structure RpfInfo where
  ifindex : UInt32
  /-- Nobody, for a destination on the link itself. -/
  neighbor : Option Ipv4Addr

/-- The way to a destination. To our own addresses there is none. -/
abbrev RpfLookup := Ipv4Addr → Option RpfInfo

inductive TreeKind where
  | sharedStarG
  | sourceSG

structure JoinPruneAction where
  join : Bool
  kind : TreeKind
  group : Ipv4Addr
  /-- The root of the tree. -/
  target : Ipv4Addr
  rpfIfindex : UInt32
  upstreamNeighbor : Ipv4Addr

/-- The tree that an action is about. -/
def JoinPruneAction.key (a : JoinPruneAction) : TreeKey :=
  match a.kind with
  | .sharedStarG => (none, a.group)
  | .sourceSG => (some a.target, a.group)

structure Entry where
  /-- The interfaces with local members. -/
  localOifs : BTreeSet UInt32
  /-- Until when the Joins received on interfaces hold. -/
  joinOifs : BTreeMap UInt32 ℕ
  /-- The interface towards the root. -/
  iif : Option UInt32
  upstreamNeighbor : Option Ipv4Addr
  upstreamJoined : Bool

namespace Entry

def new : Entry where
  localOifs := ∅
  joinOifs := ∅
  iif := none
  upstreamNeighbor := none
  upstreamJoined := false

/-- Both kinds of interfaces together, but for the one towards the root. -/
def oifs (e : Entry) : BTreeSet UInt32 :=
  let oifs := insertAll e.localOifs e.joinOifs.keys
  e.iif.elim oifs oifs.erase

def isEmpty (e : Entry) : Bool := e.localOifs.isEmpty && e.joinOifs.isEmpty

theorem mem_oifs (e : Entry) (i : UInt32) : i ∈ e.oifs ↔ (i ∈ e.localOifs ∨ i ∈ e.joinOifs) ∧ e.iif ≠ some i := by
  unfold oifs
  cases e.iif with
  | none => simp
  | some iif =>
    dsimp only [Option.elim]
    rw [ExtTreeSet.mem_erase, mem_insertAll, ExtTreeMap.mem_keys, ne_eq, Std.LawfulEqCmp.compare_eq_iff_eq, ne_eq,
      Option.some.injEq, and_comm]

/-- Only the Joins that still hold. -/
def aged (now : ℕ) (e : Entry) : Entry := { e with joinOifs := e.joinOifs.filter fun _ deadline => now < deadline }

theorem aged_new (now : ℕ) : new.aged now = new := by
  have hjoin : (new.aged now).joinOifs = ∅ := by
    apply ExtTreeMap.ext_getElem?
    intro i
    unfold aged
    rw [ExtTreeMap.getElem?_filter']
    rfl
  unfold aged new
  exact congrArg (fun joins => ({ new with joinOifs := joins } : Entry)) hjoin

theorem isEmpty_iff (e : Entry) : e.isEmpty = true ↔ e.localOifs = ∅ ∧ e.joinOifs = ∅ := by
  unfold isEmpty
  rw [Bool.and_eq_true, ExtTreeSet.isEmpty_iff, ExtTreeMap.isEmpty_iff]

@[simp] theorem oifs_new : new.oifs = ∅ := rfl

/-- Take up the present way to the root, and drop the interface on it. -/
def route (info : Option RpfInfo) (e : Entry) : Entry where
  localOifs := info.elim e.localOifs fun i => e.localOifs.erase i.ifindex
  joinOifs := info.elim e.joinOifs fun i => e.joinOifs.erase i.ifindex
  iif := info.map RpfInfo.ifindex
  upstreamNeighbor := info.bind RpfInfo.neighbor
  upstreamJoined := e.upstreamJoined

theorem mem_route_localOifs (info : Option RpfInfo) (e : Entry) (i : UInt32) :
    i ∈ (e.route info).localOifs ↔ i ∈ e.localOifs ∧ info.map RpfInfo.ifindex ≠ some i := by
  cases info with
  | none => simp [route]
  | some info =>
    dsimp only [route, Option.elim, Option.map]
    rw [mem_erase, ne_eq, ne_eq, Option.some.injEq, @eq_comm _ i, and_comm]

theorem getElem?_route_joinOifs (info : Option RpfInfo) (e : Entry) (i : UInt32) :
    (e.route info).joinOifs[i]? = if info.map RpfInfo.ifindex = some i then none else e.joinOifs[i]? := by
  cases info with
  | none => simp [route]
  | some info =>
    dsimp only [route, Option.elim, Option.map]
    rw [getElem?_erase]
    simp only [Option.some.injEq, @eq_comm _ i]

@[simp] theorem route_new_localOifs (info : Option RpfInfo) : (new.route info).localOifs = ∅ := by
  cases info with
  | none => rfl
  | some i => exact ExtTreeSet.erase_empty

@[simp] theorem route_new_joinOifs (info : Option RpfInfo) : (new.route info).joinOifs = ∅ := by
  cases info with
  | none => rfl
  | some i => exact ExtTreeMap.erase_empty

theorem oifs_route_of_isEmpty {info : Option RpfInfo} {e : Entry} (h : (e.route info).isEmpty = true) :
    (e.route info).oifs = ∅ := by
  obtain ⟨hlocal, hjoin⟩ := (isEmpty_iff _).mp h
  apply ExtTreeSet.ext_mem
  intro i
  rw [mem_oifs, hlocal, hjoin]
  simp

end Entry

/-- What becomes of an entry that is brought in line with the way to its root, and the Joins and Prunes sent for it. -/
structure Touched (info : Option RpfInfo) (e : Entry) (after : Option Entry) (flags : List Bool) : Prop where
  localOifs : (after.getD .new).localOifs = (e.route info).localOifs
  joinOifs : (after.getD .new).joinOifs = (e.route info).joinOifs
  oifs : (after.getD .new).oifs = (e.route info).oifs
  iif : ∀ e' ∈ after, e'.iif = info.map RpfInfo.ifindex
  upstreamJoined : (after.getD .new).upstreamJoined = (info.isSome && !(e.route info).oifs.isEmpty)
  flags : flags = if info.isSome = true ∧ (after.getD .new).upstreamJoined ≠ e.upstreamJoined then
    [(after.getD .new).upstreamJoined] else []

/-- The Joins and Prunes among some actions that are about one tree. -/
def flags (key : TreeKey) (acts : List JoinPruneAction) : List Bool :=
  (acts.filter fun a => a.key = key).map JoinPruneAction.join

theorem snd_key (a : JoinPruneAction) : a.key.2 = a.group := by
  unfold JoinPruneAction.key
  cases a.kind <;> rfl

theorem flags_ne_nil (key : TreeKey) (acts : List JoinPruneAction) : flags key acts ≠ [] ↔ ∃ a ∈ acts, a.key = key := by
  unfold flags
  rw [ne_eq, List.map_eq_nil_iff, List.filter_eq_nil_iff]
  simp

@[simp] theorem flags_nil (key : TreeKey) : flags key [] = [] := rfl

@[simp] theorem flags_append (key : TreeKey) (acts acts' : List JoinPruneAction) :
    flags key (acts ++ acts') = flags key acts ++ flags key acts' := by
  unfold flags
  rw [List.filter_append, List.map_append]

/-- The Tree Information Base. -/
structure TreeTable where
  rp : Ipv4Addr
  joinHoldtime : ℕ
  entries : BTreeMap TreeKey Entry

namespace TreeTable

def new (rp : Ipv4Addr) (joinHoldtime : ℕ) : TreeTable where
  rp
  joinHoldtime
  entries := ∅

def target (t : TreeTable) (key : TreeKey) : Ipv4Addr := key.1.getD t.rp

/-- The entry of a tree. One that is not there is like a new one. -/
def entry (t : TreeTable) (key : TreeKey) : Entry := t.entries[key]?.getD .new

def ensureEntry (key : TreeKey) (rpf : RpfLookup) (t : TreeTable) : TreeTable :=
  match t.entries[key]? with
  | some _ => t
  | none =>
    let info := rpf (t.target key)
    let e := { Entry.new with iif := info.map RpfInfo.ifindex, upstreamNeighbor := info.bind RpfInfo.neighbor }
    { t with entries := t.entries.insert key e }

def action (t : TreeTable) (key : TreeKey) (info : RpfInfo) (join : Bool) : JoinPruneAction where
  join
  kind := if key.1.isSome then .sourceSG else .sharedStarG
  group := key.2
  target := t.target key
  rpfIfindex := info.ifindex
  upstreamNeighbor := info.neighbor.getD (t.target key)

/-- Whether an upstream Join is held afterwards, and what has to be sent for it. -/
def settle (t : TreeTable) (key : TreeKey) (info : Option RpfInfo) (wantJoin wasJoined : Bool) : Bool × List JoinPruneAction :=
  match info with
  | some i =>
    if wantJoin && !wasJoined then (true, [t.action key i true])
    else if !wantJoin && wasJoined then (false, [t.action key i false])
    else (wasJoined, [])
  | none => (false, [])

@[simp] theorem key_action (t : TreeTable) (key : TreeKey) (info : RpfInfo) (join : Bool) :
    (t.action key info join).key = key := by
  obtain ⟨source, group⟩ := key
  cases source <;> rfl

@[simp] theorem join_action (t : TreeTable) (key : TreeKey) (info : RpfInfo) (join : Bool) :
    (t.action key info join).join = join := rfl

theorem settle_spec (t : TreeTable) (key : TreeKey) (info : Option RpfInfo) (wantJoin wasJoined : Bool) :
    (t.settle key info wantJoin wasJoined).1 = (info.isSome && wantJoin) ∧
      (∀ a ∈ (t.settle key info wantJoin wasJoined).2, a.key = key) ∧
      (t.settle key info wantJoin wasJoined).2.map JoinPruneAction.join =
        if info.isSome = true ∧ (info.isSome && wantJoin) ≠ wasJoined then [info.isSome && wantJoin] else [] := by
  cases info with
  | none => simp [settle]
  | some i =>
    cases wantJoin <;> cases wasJoined <;> simp [settle]

/-- Bring an entry in line with the way to its root, and remove it if nothing is left in it. -/
def reconcile (key : TreeKey) (rpf : RpfLookup) (t : TreeTable) : TreeTable × List JoinPruneAction :=
  match t.entries[key]? with
  | none => (t, [])
  | some e =>
    let info := rpf (t.target key)
    let e := e.route info
    let settled := t.settle key info (!e.oifs.isEmpty) e.upstreamJoined
    ({ t with
        entries :=
          if e.isEmpty then t.entries.erase key else t.entries.insert key { e with upstreamJoined := settled.1 } },
      settled.2)

theorem key_of_mem_reconcile {key : TreeKey} {rpf : RpfLookup} {t : TreeTable} {a : JoinPruneAction}
    (h : a ∈ (t.reconcile key rpf).2) : a.key = key := by
  unfold reconcile at h
  cases hkey : t.entries[key]? with
  | none =>
    rw [hkey] at h
    cases h
  | some e =>
    rw [hkey] at h
    exact (settle_spec t key _ _ _).2.1 a h

theorem flags_reconcile_ne {key k : TreeKey} (hne : k ≠ key) (rpf : RpfLookup) (t : TreeTable) :
    flags k (t.reconcile key rpf).2 = [] := by
  unfold flags
  rw [List.filter_eq_nil_iff.mpr, List.map_nil]
  intro a ha hk
  exact hne ((of_decide_eq_true hk).symm.trans (key_of_mem_reconcile ha))

theorem getElem?_reconcile_ne {key k : TreeKey} (hne : k ≠ key) (rpf : RpfLookup) (t : TreeTable) :
    (t.reconcile key rpf).1.entries[k]? = t.entries[k]? := by
  unfold reconcile
  cases t.entries[key]? with
  | none => rfl
  | some e =>
    dsimp only
    split_ifs
    · rw [getElem?_erase, if_neg hne]
    · rw [getElem?_insert, if_neg hne]

@[simp] theorem rp_reconcile (key : TreeKey) (rpf : RpfLookup) (t : TreeTable) : (t.reconcile key rpf).1.rp = t.rp := by
  unfold reconcile
  cases t.entries[key]? with
  | none => rfl
  | some e => rfl

@[simp] theorem joinHoldtime_reconcile (key : TreeKey) (rpf : RpfLookup) (t : TreeTable) :
    (t.reconcile key rpf).1.joinHoldtime = t.joinHoldtime := by
  unfold reconcile
  cases t.entries[key]? with
  | none => rfl
  | some e => rfl

theorem touched_reconcile (key : TreeKey) (rpf : RpfLookup) (t : TreeTable) :
    Touched (rpf (t.target key)) (t.entry key) (t.reconcile key rpf).1.entries[key]? (flags key (t.reconcile key rpf).2) := by
  have hflags : flags key (t.reconcile key rpf).2 = (t.reconcile key rpf).2.map JoinPruneAction.join := by
    unfold flags
    rw [List.filter_eq_self.mpr]
    exact fun a ha => decide_eq_true (key_of_mem_reconcile ha)
  rw [hflags]
  unfold reconcile entry
  cases hkey : t.entries[key]? with
  | none =>
    have hempty : (Entry.new.route (rpf (t.target key))).isEmpty = true := by
      rw [Entry.isEmpty_iff, Entry.route_new_localOifs, Entry.route_new_joinOifs]
      exact ⟨rfl, rfl⟩
    have hoifs := Entry.oifs_route_of_isEmpty hempty
    dsimp only
    rw [hkey]
    constructor
    · exact (Entry.route_new_localOifs _).symm
    · exact (Entry.route_new_joinOifs _).symm
    · exact hoifs.symm
    · intro e' he'
      cases he'
    · rw [Option.getD_none, hoifs]
      cases rpf (t.target key) <;> rfl
    · exact (if_neg fun h => h.2 rfl).symm
  | some e =>
    obtain ⟨hheld, -, hsent⟩ := t.settle_spec key (rpf (t.target key)) (!(e.route (rpf (t.target key))).oifs.isEmpty) e.upstreamJoined
    dsimp only
    rw [Option.getD_some]
    by_cases hempty : (e.route (rpf (t.target key))).isEmpty = true
    · have hoifs := Entry.oifs_route_of_isEmpty hempty
      obtain ⟨hlocal, hjoin⟩ := (Entry.isEmpty_iff _).mp hempty
      rw [if_pos hempty, getElem?_erase, if_pos rfl]
      constructor
      · exact hlocal.symm
      · exact hjoin.symm
      · exact hoifs.symm
      · intro e' he'
        cases he'
      · rw [Option.getD_none, hoifs]
        cases rpf (t.target key) <;> rfl
      · have hgone : ((rpf (t.target key)).isSome && !(e.route (rpf (t.target key))).oifs.isEmpty) = false := by
          rw [hoifs]
          cases rpf (t.target key) <;> rfl
        rw [hgone] at hsent
        exact hsent
    · rw [if_neg hempty, getElem?_insert, if_pos rfl]
      constructor
      · rfl
      · rfl
      · rfl
      · intro e' he'
        cases he'
        rfl
      · exact hheld
      · rw [← hheld] at hsent
        exact hsent

/-- What becomes of an entry depends on what it holds, and not on the way to its root before. -/
theorem touched_reconcile_of {key : TreeKey} {t t' : TreeTable} {e : Entry} (rpf : RpfLookup) (hrp : t'.rp = t.rp)
    (hlocal : (t'.entry key).localOifs = e.localOifs) (hjoin : (t'.entry key).joinOifs = e.joinOifs)
    (hheld : (t'.entry key).upstreamJoined = e.upstreamJoined) :
    Touched (rpf (t.target key)) e (t'.reconcile key rpf).1.entries[key]? (flags key (t'.reconcile key rpf).2) := by
  have htarget : t'.target key = t.target key := by
    unfold target
    rw [hrp]
  have hroute : (t'.entry key).route (rpf (t.target key)) = e.route (rpf (t.target key)) := by
    unfold Entry.route
    rw [hlocal, hjoin, hheld]
  have htouched := touched_reconcile key rpf t'
  rw [htarget] at htouched
  constructor
  · rw [htouched.localOifs, hroute]
  · rw [htouched.joinOifs, hroute]
  · rw [htouched.oifs, hroute]
  · exact htouched.iif
  · rw [htouched.upstreamJoined, hroute]
  · rw [htouched.flags, hheld]

/-- Change an entry, if it is there. -/
def edit (key : TreeKey) (f : Entry → Entry) (t : TreeTable) : TreeTable := { t with entries := t.entries.modify key f }

section Edit
variable {key : TreeKey} {f : Entry → Entry}

theorem getElem?_edit_ne {k : TreeKey} (hne : k ≠ key) (f : Entry → Entry) (t : TreeTable) :
    (t.edit key f).entries[k]? = t.entries[k]? := by
  unfold edit
  dsimp only
  rw [getElem?_modify, if_neg hne]

/-- A change that leaves a new entry as it is can be told of an entry whether it is there or not. -/
theorem entry_edit (key : TreeKey) (hf : f .new = .new) (t : TreeTable) : (t.edit key f).entry key = f (t.entry key) := by
  unfold edit entry
  dsimp only
  rw [getElem?_modify, if_pos rfl]
  cases t.entries[key]? with
  | none => exact hf.symm
  | some e => rfl

theorem entry_ensureEntry_edit (key : TreeKey) (f : Entry → Entry) (rpf : RpfLookup) (t : TreeTable) :
    (((t.ensureEntry key rpf).edit key f).entry key) = f ((t.ensureEntry key rpf).entry key) := by
  unfold edit entry ensureEntry
  cases hkey : t.entries[key]? with
  | some e =>
    dsimp only
    rw [getElem?_modify, if_pos rfl, hkey]
    rfl
  | none =>
    dsimp only
    rw [getElem?_modify, if_pos rfl, getElem?_insert, if_pos rfl]
    rfl

theorem getElem?_ensureEntry_ne {k : TreeKey} (hne : k ≠ key) (rpf : RpfLookup) (t : TreeTable) :
    (t.ensureEntry key rpf).entries[k]? = t.entries[k]? := by
  unfold ensureEntry
  cases t.entries[key]? with
  | some e => rfl
  | none =>
    dsimp only
    rw [getElem?_insert, if_neg hne]

/-- An entry is made for a tree, if there is none, without anything in it. -/
theorem entry_ensureEntry (key : TreeKey) (rpf : RpfLookup) (t : TreeTable) :
    ((t.ensureEntry key rpf).entry key).localOifs = (t.entry key).localOifs ∧
      ((t.ensureEntry key rpf).entry key).joinOifs = (t.entry key).joinOifs ∧
      ((t.ensureEntry key rpf).entry key).upstreamJoined = (t.entry key).upstreamJoined ∧
      ((t.ensureEntry key rpf).entry key).iif =
        (t.entries[key]?).elim ((rpf (t.target key)).map RpfInfo.ifindex) Entry.iif := by
  unfold ensureEntry entry
  cases hkey : t.entries[key]? with
  | some e =>
    dsimp only
    rw [hkey]
    exact ⟨rfl, rfl, rfl, rfl⟩
  | none =>
    dsimp only
    rw [getElem?_insert, if_pos rfl]
    exact ⟨rfl, rfl, rfl, rfl⟩

@[simp] theorem rp_ensureEntry (key : TreeKey) (rpf : RpfLookup) (t : TreeTable) : (t.ensureEntry key rpf).rp = t.rp := by
  unfold ensureEntry
  cases t.entries[key]? <;> rfl

@[simp] theorem joinHoldtime_ensureEntry (key : TreeKey) (rpf : RpfLookup) (t : TreeTable) :
    (t.ensureEntry key rpf).joinHoldtime = t.joinHoldtime := by
  unfold ensureEntry
  cases t.entries[key]? <;> rfl

end Edit

def onMembership (ifindex : UInt32) (group : Ipv4Addr) (source : Option Ipv4Addr) (present : Bool) (rpf : RpfLookup)
    (t : TreeTable) : TreeTable × List JoinPruneAction :=
  let key := (source, group)
  let edited :=
    if present then (t.ensureEntry key rpf).edit key fun e => { e with localOifs := e.localOifs.insert ifindex }
    else t.edit key fun e => { e with localOifs := e.localOifs.erase ifindex }
  edited.reconcile key rpf

/-- A Join on the interface towards the root is not taken. -/
def onReceivedJoin (now : ℕ) (recvIfindex : UInt32) (group : Ipv4Addr) (source : Option Ipv4Addr) (rpf : RpfLookup)
    (t : TreeTable) : TreeTable × List JoinPruneAction :=
  let key := (source, group)
  let edited := (t.ensureEntry key rpf).edit key fun e =>
    if e.iif ≠ some recvIfindex then { e with joinOifs := e.joinOifs.insert recvIfindex (now + t.joinHoldtime) } else e
  edited.reconcile key rpf

def onReceivedPrune (recvIfindex : UInt32) (group : Ipv4Addr) (source : Option Ipv4Addr) (rpf : RpfLookup) (t : TreeTable) :
    TreeTable × List JoinPruneAction :=
  let key := (source, group)
  let edited := t.edit key fun e => { e with joinOifs := e.joinOifs.erase recvIfindex }
  edited.reconcile key rpf

/-- Age out the Joins of one entry. -/
def age (now : ℕ) (rpf : RpfLookup) (key : TreeKey) (t : TreeTable) : TreeTable × List JoinPruneAction :=
  (t.edit key (Entry.aged now)).reconcile key rpf

def ageNext (now : ℕ) (rpf : RpfLookup) (acc : TreeTable × List JoinPruneAction) (key : TreeKey) :
    TreeTable × List JoinPruneAction :=
  let aged := acc.1.age now rpf key
  (aged.1, acc.2 ++ aged.2)

def expire (now : ℕ) (rpf : RpfLookup) (t : TreeTable) : TreeTable × List JoinPruneAction :=
  t.entries.keys.foldl (ageNext now rpf) (t, [])

section Expire
variable {now : ℕ} {rpf : RpfLookup} {t : TreeTable} {key : TreeKey}

theorem touched_age (now : ℕ) (rpf : RpfLookup) (t : TreeTable) (key : TreeKey) :
    Touched (rpf (t.target key)) ((t.entry key).aged now) (t.age now rpf key).1.entries[key]?
      (flags key (t.age now rpf key).2) := by
  have htouched := touched_reconcile key rpf (t.edit key (Entry.aged now))
  rw [entry_edit key (Entry.aged_new now)] at htouched
  exact htouched

/-- What a fold over the entries shows of one tree. -/
def view (s : TreeTable × List JoinPruneAction) (k : TreeKey) : Option Entry × List Bool := (s.1.entries[k]?, flags k s.2)

theorem view_ageNext_ne (now : ℕ) (rpf : RpfLookup) (acc : TreeTable × List JoinPruneAction) (key k : TreeKey)
    (hne : k ≠ id key) : view (ageNext now rpf acc key) k = view acc k := by
  unfold view ageNext age
  dsimp only [id] at hne ⊢
  rw [getElem?_reconcile_ne hne, getElem?_edit_ne hne, flags_append, flags_reconcile_ne hne, List.append_nil]

theorem rp_age (now : ℕ) (rpf : RpfLookup) (key : TreeKey) (t : TreeTable) : (t.age now rpf key).1.rp = t.rp :=
  rp_reconcile key rpf (t.edit key (Entry.aged now))

/-- A tick touches the entries that are there, each as if it were alone. -/
theorem touched_expire (now : ℕ) (rpf : RpfLookup) (h : key ∈ t.entries) :
    Touched (rpf (t.target key)) ((t.entry key).aged now) (t.expire now rpf).1.entries[key]?
      (flags key (t.expire now rpf).2) := by
  have hnodup : (t.entries.keys.map id).Nodup := by
    rw [List.map_id]
    exact ExtTreeMap.nodup_keys
  have hkeep : ∀ (s : TreeTable × List JoinPruneAction) (k : TreeKey), s.1.rp = t.rp → (ageNext now rpf s k).1.rp = t.rp :=
    fun s k hs => (rp_age now rpf k s.1).trans hs
  have hstart : ((t, []) : TreeTable × List JoinPruneAction).1.rp = t.rp := rfl
  obtain ⟨s, hrp, hsame, hlast⟩ := Run.foldl_view_of_mem view (view_ageNext_ne now rpf) hkeep hnodup hstart
    (ExtTreeMap.mem_keys.mpr h)
  have htouched := touched_age now rpf s.1 key
  have htarget : s.1.target key = t.target key := by
    unfold target
    rw [hrp]
  have hbefore : s.1.entries[key]? = t.entries[key]? ∧ flags key s.2 = [] := Prod.mk.inj hsame
  have hentry : s.1.entry key = t.entry key := by
    unfold entry
    rw [hbefore.1]
  have hafter : (t.expire now rpf).1.entries[key]? = (s.1.age now rpf key).1.entries[key]? ∧
      flags key (t.expire now rpf).2 = flags key (s.2 ++ (s.1.age now rpf key).2) := Prod.mk.inj hlast
  rw [flags_append, hbefore.2, List.nil_append] at hafter
  rw [hafter.1, hafter.2, ← htarget, ← hentry]
  exact htouched

theorem expire_of_notMem (now : ℕ) (rpf : RpfLookup) (h : key ∉ t.entries) :
    (t.expire now rpf).1.entries[key]? = none ∧ flags key (t.expire now rpf).2 = [] := by
  have hkey : key ∉ t.entries.keys.map id := by
    rw [List.map_id, ExtTreeMap.mem_keys]
    exact h
  have hsame := Run.foldl_view_of_notMem view (view_ageNext_ne now rpf) t.entries.keys (t, []) key hkey
  have hafter : (t.expire now rpf).1.entries[key]? = t.entries[key]? ∧ flags key (t.expire now rpf).2 = [] :=
    Prod.mk.inj hsame
  rw [hafter.1, hafter.2]
  exact ⟨ExtTreeMap.getElem?_eq_none h, rfl⟩

end Expire

/-- Where the packets of a source go out that come in on an interface. There is no such list for a group that
nobody asked for. -/
def oifsFor (source group : Ipv4Addr) (arrivedOn : UInt32) (t : TreeTable) : Option (BTreeSet UInt32) :=
  match t.entries[((some source, group) : TreeKey)]?, t.entries[((none, group) : TreeKey)]? with
  | none, none => none
  | sg, star =>
    let oifs := insertAll (insertAll ∅ (sg.elim [] fun e => e.oifs.toList)) (star.elim [] fun e => e.oifs.toList)
    some (oifs.erase arrivedOn)

/-- An interface that the tree of a source or the shared tree goes out on. -/
def Wanted (oifs : TreeKey → BTreeSet UInt32) (source group : Ipv4Addr) (arrivedOn i : UInt32) : Prop :=
  (i ∈ oifs (some source, group) ∨ i ∈ oifs (none, group)) ∧ i ≠ arrivedOn

theorem mem_oifsFor (source group : Ipv4Addr) (arrivedOn : UInt32) (t : TreeTable) (i : UInt32) :
    i ∈ (t.oifsFor source group arrivedOn).getD ∅ ↔ Wanted (fun key => (t.entry key).oifs) source group arrivedOn i := by
  unfold oifsFor Wanted entry
  dsimp only
  cases t.entries[((some source, group) : TreeKey)]? with
  | none =>
    cases t.entries[((none, group) : TreeKey)]? with
    | none => simp
    | some star =>
      dsimp only [Option.getD, Option.elim]
      rw [mem_erase, mem_insertAll, mem_insertAll, ExtTreeSet.mem_toList, Entry.oifs_new, and_comm]
      simp
  | some sg =>
    cases t.entries[((none, group) : TreeKey)]? with
    | none =>
      dsimp only [Option.getD, Option.elim]
      rw [mem_erase, mem_insertAll, mem_insertAll, ExtTreeSet.mem_toList, Entry.oifs_new, and_comm]
      simp
    | some star =>
      dsimp only [Option.getD, Option.elim]
      rw [mem_erase, mem_insertAll, mem_insertAll, ExtTreeSet.mem_toList, ExtTreeSet.mem_toList, and_comm]
      simp

end TreeTable
end Wren.Pim
