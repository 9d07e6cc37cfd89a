import Wren.Pim.Tree

/-! What members, Joins and Prunes ask of a tree over time, and what its entry still has of it. -/

namespace Wren.Pim
open OrdMap
open Std (ExtTreeMap ExtTreeSet)

inductive Op where
  | membership (ifindex : UInt32) (group : Ipv4Addr) (source : Option Ipv4Addr) (present : Bool)
  | receivedJoin (now : ℕ) (recvIfindex : UInt32) (group : Ipv4Addr) (source : Option Ipv4Addr)
  | receivedPrune (recvIfindex : UInt32) (group : Ipv4Addr) (source : Option Ipv4Addr)
  | expire (now : ℕ)

/-- An operation, and the ways that it finds. -/
structure Step where
  op : Op
  rpf : RpfLookup

def TreeTable.apply (t : TreeTable) (s : Step) : TreeTable × List JoinPruneAction :=
  match s.op with
  | .membership ifindex group source present => t.onMembership ifindex group source present s.rpf
  | .receivedJoin now recvIfindex group source => t.onReceivedJoin now recvIfindex group source s.rpf
  | .receivedPrune recvIfindex group source => t.onReceivedPrune recvIfindex group source s.rpf
  | .expire now => t.expire now s.rpf

/-- The tree that an operation names. -/
def Op.key? : Op → Option TreeKey
  | .membership _ group source _ => some (source, group)
  | .receivedJoin _ _ group source => some (source, group)
  | .receivedPrune _ group source => some (source, group)
  | .expire _ => none

theorem Op.expire_of_key? {op : Op} (h : op.key? = none) : ∃ now, op = .expire now := by
  cases op with
  | expire now => exact ⟨now, rfl⟩
  | membership ifindex group source present => cases h
  | receivedJoin now recvIfindex group source => cases h
  | receivedPrune recvIfindex group source => cases h

/-- The entry of a tree is brought in line with the way to its root. A tick does that to all there are. -/
def Op.touches (t : TreeTable) (key : TreeKey) (op : Op) : Bool := op.key?.elim (t.entries.contains key) (key = ·)

namespace TreeTable

/-- The entry of a tree with what an operation tells of it. -/
def told (t : TreeTable) (s : Step) (key : TreeKey) : Entry :=
  let e := t.entry key
  match s.op with
  | .membership ifindex _ _ present =>
    { e with localOifs := if present then e.localOifs.insert ifindex else e.localOifs.erase ifindex }
  | .receivedJoin now recvIfindex _ _ =>
    if (t.entries[key]?).elim ((s.rpf (t.target key)).map RpfInfo.ifindex) Entry.iif ≠ some recvIfindex then
      { e with joinOifs := e.joinOifs.insert recvIfindex (now + t.joinHoldtime) }
    else e
  | .receivedPrune recvIfindex _ _ => { e with joinOifs := e.joinOifs.erase recvIfindex }
  | .expire now => e.aged now

theorem upstreamJoined_told (t : TreeTable) (s : Step) (key : TreeKey) :
    (t.told s key).upstreamJoined = (t.entry key).upstreamJoined := by
  unfold told
  cases s.op with
  | receivedJoin now recvIfindex group source =>
    dsimp only
    split_ifs <;> rfl
  | membership ifindex group source present => rfl
  | receivedPrune recvIfindex group source => rfl
  | expire now => rfl

theorem touched_onMembership (ifindex : UInt32) (key : TreeKey) (present : Bool) (rpf : RpfLookup) (t : TreeTable) :
    Touched (rpf (t.target key)) (t.told ⟨.membership ifindex key.2 key.1 present, rpf⟩ key)
      (t.onMembership ifindex key.2 key.1 present rpf).1.entries[key]?
      (flags key (t.onMembership ifindex key.2 key.1 present rpf).2) := by
  unfold onMembership
  cases present with
  | true =>
    obtain ⟨hlocal, hjoin, hheld, -⟩ := entry_ensureEntry key rpf t
    have hentry := entry_ensureEntry_edit key (fun e => { e with localOifs := e.localOifs.insert ifindex }) rpf t
    apply touched_reconcile_of rpf
    · exact rp_ensureEntry key rpf t
    · exact (congrArg Entry.localOifs hentry).trans (congrArg (·.insert ifindex) hlocal)
    · exact (congrArg Entry.joinOifs hentry).trans hjoin
    · exact (congrArg Entry.upstreamJoined hentry).trans hheld
  | false =>
    have hnew : ({ Entry.new with localOifs := Entry.new.localOifs.erase ifindex } : Entry) = .new :=
      congrArg (fun locals => ({ Entry.new with localOifs := locals } : Entry)) ExtTreeSet.erase_empty
    have hentry := entry_edit key (f := fun e => { e with localOifs := e.localOifs.erase ifindex }) hnew t
    apply touched_reconcile_of rpf
    · rfl
    · exact congrArg Entry.localOifs hentry
    · exact congrArg Entry.joinOifs hentry
    · exact congrArg Entry.upstreamJoined hentry

theorem touched_onReceivedJoin (now : ℕ) (recvIfindex : UInt32) (key : TreeKey) (rpf : RpfLookup) (t : TreeTable) :
    Touched (rpf (t.target key)) (t.told ⟨.receivedJoin now recvIfindex key.2 key.1, rpf⟩ key)
      (t.onReceivedJoin now recvIfindex key.2 key.1 rpf).1.entries[key]?
      (flags key (t.onReceivedJoin now recvIfindex key.2 key.1 rpf).2) := by
  obtain ⟨hlocal, hjoin, hheld, hiif⟩ := entry_ensureEntry key rpf t
  have hentry := entry_ensureEntry_edit key (fun e =>
    if e.iif ≠ some recvIfindex then { e with joinOifs := e.joinOifs.insert recvIfindex (now + t.joinHoldtime) } else e) rpf t
  rw [hiif] at hentry
  unfold onReceivedJoin told
  dsimp only at hentry ⊢
  apply touched_reconcile_of rpf
  · exact rp_ensureEntry key rpf t
  · refine (congrArg Entry.localOifs hentry).trans ?_
    split_ifs
    · exact hlocal
    · exact hlocal
  · refine (congrArg Entry.joinOifs hentry).trans ?_
    split_ifs
    · exact congrArg (·.insert recvIfindex (now + t.joinHoldtime)) hjoin
    · exact hjoin
  · refine (congrArg Entry.upstreamJoined hentry).trans ?_
    split_ifs
    · exact hheld
    · exact hheld

theorem touched_onReceivedPrune (recvIfindex : UInt32) (key : TreeKey) (rpf : RpfLookup) (t : TreeTable) :
    Touched (rpf (t.target key)) (t.told ⟨.receivedPrune recvIfindex key.2 key.1, rpf⟩ key)
      (t.onReceivedPrune recvIfindex key.2 key.1 rpf).1.entries[key]?
      (flags key (t.onReceivedPrune recvIfindex key.2 key.1 rpf).2) := by
  have hnew : ({ Entry.new with joinOifs := Entry.new.joinOifs.erase recvIfindex } : Entry) = .new :=
    congrArg (fun joins => ({ Entry.new with joinOifs := joins } : Entry)) ExtTreeMap.erase_empty
  have hentry := entry_edit key (f := fun e => { e with joinOifs := e.joinOifs.erase recvIfindex }) hnew t
  unfold onReceivedPrune
  apply touched_reconcile_of rpf
  · rfl
  · exact congrArg Entry.localOifs hentry
  · exact congrArg Entry.joinOifs hentry
  · exact congrArg Entry.upstreamJoined hentry

/-- Each operation brings the entries that it touches in line, with what it tells of them. -/
theorem touched_apply {t : TreeTable} {s : Step} {key : TreeKey} (h : s.op.touches t key = true) :
    Touched (s.rpf (t.target key)) (t.told s key) (t.apply s).1.entries[key]? (flags key (t.apply s).2) := by
  obtain ⟨op, rpf⟩ := s
  cases op with
  | membership ifindex group source present =>
    obtain rfl : key = (source, group) := of_decide_eq_true h
    exact t.touched_onMembership ifindex (source, group) present rpf
  | receivedJoin now recvIfindex group source =>
    obtain rfl : key = (source, group) := of_decide_eq_true h
    exact t.touched_onReceivedJoin now recvIfindex (source, group) rpf
  | receivedPrune recvIfindex group source =>
    obtain rfl : key = (source, group) := of_decide_eq_true h
    exact t.touched_onReceivedPrune recvIfindex (source, group) rpf
  | expire now => exact touched_expire now rpf (ExtTreeMap.contains_iff_mem.mp h)

/-- The other entries stay. -/
theorem untouched_apply {t : TreeTable} {s : Step} {key : TreeKey} (h : s.op.touches t key = false) :
    (t.apply s).1.entries[key]? = t.entries[key]? ∧ flags key (t.apply s).2 = [] := by
  obtain ⟨op, rpf⟩ := s
  cases op with
  | membership ifindex group source present =>
    have hne : key ≠ (source, group) := of_decide_eq_false h
    unfold apply onMembership
    dsimp only
    rw [getElem?_reconcile_ne hne, flags_reconcile_ne hne]
    refine ⟨?_, rfl⟩
    split_ifs
    · rw [getElem?_edit_ne hne, getElem?_ensureEntry_ne hne]
    · rw [getElem?_edit_ne hne]
  | receivedJoin now recvIfindex group source =>
    have hne : key ≠ (source, group) := of_decide_eq_false h
    unfold apply onReceivedJoin
    dsimp only
    rw [getElem?_reconcile_ne hne, flags_reconcile_ne hne, getElem?_edit_ne hne, getElem?_ensureEntry_ne hne]
    exact ⟨rfl, rfl⟩
  | receivedPrune recvIfindex group source =>
    have hne : key ≠ (source, group) := of_decide_eq_false h
    unfold apply onReceivedPrune
    dsimp only
    rw [getElem?_reconcile_ne hne, flags_reconcile_ne hne, getElem?_edit_ne hne]
    exact ⟨rfl, rfl⟩
  | expire now =>
    have hnot : key ∉ t.entries := by
      intro hmem
      have htouch : (Op.expire now).touches t key = true := ExtTreeMap.contains_iff_mem.mpr hmem
      rw [htouch] at h
      cases h
    obtain ⟨hgone, hflags⟩ := expire_of_notMem now rpf hnot
    exact ⟨hgone.trans (ExtTreeMap.getElem?_eq_none hnot).symm, hflags⟩

end TreeTable

/-- The interfaces that want a tree: those whose members joined and did not leave, and those whose last Join has not
been aged out and was not followed by a Prune. -/
structure Wants where
  members : BTreeSet UInt32
  joins : BTreeMap UInt32 ℕ

namespace Wants

def none : Wants where
  members := ∅
  joins := ∅

def member (ifindex : UInt32) (present : Bool) (w : Wants) : Wants :=
  { w with members := if present then w.members.insert ifindex else w.members.erase ifindex }

def join (ifindex : UInt32) (deadline : ℕ) (w : Wants) : Wants := { w with joins := w.joins.insert ifindex deadline }

def prune (ifindex : UInt32) (w : Wants) : Wants := { w with joins := w.joins.erase ifindex }

def age (now : ℕ) (w : Wants) : Wants := { w with joins := w.joins.filter fun _ deadline => now < deadline }

/-- What an operation makes of the wants for a tree, where it names that one or is a tick. -/
def after (holdtime : ℕ) (op : Op) (w : Wants) : Wants :=
  match op with
  | .membership ifindex _ _ present => w.member ifindex present
  | .receivedJoin now recvIfindex _ _ => w.join recvIfindex (now + holdtime)
  | .receivedPrune recvIfindex _ _ => w.prune recvIfindex
  | .expire now => w.age now

/-- What an operation leaves of the wants, apart from the one that it tells of itself. -/
def rest (op : Op) (w : Wants) : Wants :=
  match op with
  | .membership ifindex _ _ _ => w.member ifindex false
  | .receivedJoin _ recvIfindex _ _ => w.prune recvIfindex
  | .receivedPrune recvIfindex _ _ => w.prune recvIfindex
  | .expire now => w.age now

/-- An interface wants the tree. -/
def On (w : Wants) (i : UInt32) : Prop := i ∈ w.members ∨ i ∈ w.joins

end Wants

/-- What has happened to each tree so far. -/
structure History where
  wants : TreeKey → Wants
  /-- The interface towards the root, when the entry was touched last. -/
  seen : TreeKey → Option UInt32
  /-- All Joins and Prunes sent. -/
  sent : TreeKey → List Bool

namespace History

def start : History where
  wants := fun _ => Wants.none
  seen := fun _ => none
  sent := fun _ => []

def note (h : History) (t : TreeTable) (s : Step) : History where
  wants key := if s.op.key?.elim true (key = ·) then (h.wants key).after t.joinHoldtime s.op else h.wants key
  seen key := if s.op.touches t key then (s.rpf (t.target key)).map RpfInfo.ifindex else h.seen key
  sent key := h.sent key ++ flags key (t.apply s).2

end History

/-- A router, and what happened to it. -/
abbrev World := TreeTable × History

namespace World

def start (rp : Ipv4Addr) (holdtime : ℕ) : World := (.new rp holdtime, .start)

def step : World → Step → World := Run.observe (fun t s => (t.apply s).1) History.note

/-- The interface towards the root that a step finds. -/
def iif (w : World) (s : Step) (key : TreeKey) : Option UInt32 := (s.rpf (w.1.target key)).map RpfInfo.ifindex

/-- The entries that a step touches are as what happened to them has it, and Joins and Prunes take turns. -/
structure Exact (w : World) (s : Step) : Prop where
  oifs : ∀ key, s.op.touches w.1 key = true →
    ∀ i, i ∈ ((w.step s).1.entry key).oifs ↔ ((w.step s).2.wants key).On i ∧ w.iif s key ≠ some i
  upstreamJoined : ∀ key, s.op.touches w.1 key = true →
    (((w.step s).1.entry key).upstreamJoined = true ↔
      ((w.step s).1.entry key).oifs ≠ ∅ ∧ (s.rpf (w.1.target key)).isSome = true)
  sent : ∀ key, (false :: (w.step s).2.sent key).IsChain (· ≠ ·)

/-- Where the way to the root of a touched entry has left an interface, nothing there wants the tree any longer, and no
Join comes in on it. A root towards which a Join is held still has a way. -/
structure Steady (w : World) (s : Step) : Prop where
  stays : ∀ key, s.op.touches w.1 key = true → ∀ i, w.2.seen key = some i → w.iif s key ≠ some i →
    ¬ ((w.2.wants key).rest s.op).On i ∧ ∀ now, s.op = .receivedJoin now i key.2 key.1 → key ∉ w.1.entries
  resolves : ∀ key, s.op.touches w.1 key = true → (w.1.entry key).upstreamJoined = true →
    (s.rpf (w.1.target key)).isSome = true

/-- An entry has all that is wanted of its tree, but for the interface towards the root. -/
structure Tracks (w : World) (key : TreeKey) : Prop where
  members : ∀ i, i ∈ (w.1.entry key).localOifs ↔ i ∈ (w.2.wants key).members ∧ w.2.seen key ≠ some i
  joins : ∀ i, (w.1.entry key).joinOifs[i]? = if w.2.seen key = some i then none else (w.2.wants key).joins[i]?
  iif : ∀ e ∈ w.1.entries[key]?, e.iif = w.2.seen key
  sent : (false :: w.2.sent key).IsChain (· ≠ ·)
  last : (w.2.sent key).getLastD false = (w.1.entry key).upstreamJoined

section Step
variable {w : World} {s : Step} {key : TreeKey}

theorem wants_step (w : World) (s : Step) (key : TreeKey) : (w.step s).2.wants key =
    if s.op.key?.elim true (key = ·) then (w.2.wants key).after w.1.joinHoldtime s.op else w.2.wants key := rfl

theorem seen_step (w : World) (s : Step) (key : TreeKey) :
    (w.step s).2.seen key = if s.op.touches w.1 key then w.iif s key else w.2.seen key := rfl

theorem sent_step (w : World) (s : Step) (key : TreeKey) :
    (w.step s).2.sent key = w.2.sent key ++ flags key (w.1.apply s).2 := rfl

theorem fst_step (w : World) (s : Step) : (w.step s).1 = (w.1.apply s).1 := rfl

theorem wants_step_of_touches (h : s.op.touches w.1 key = true) :
    (w.step s).2.wants key = (w.2.wants key).after w.1.joinHoldtime s.op := by
  rw [wants_step, if_pos]
  unfold Op.touches at h
  cases hkey : s.op.key? with
  | none => rfl
  | some k =>
    rw [hkey] at h
    exact h

/-- A tree that an operation does not name is wanted as before. -/
theorem wants_step_of_ne {k : TreeKey} (hkey : s.op.key? = some k) (hne : key ≠ k) :
    (w.step s).2.wants key = w.2.wants key := by
  rw [wants_step, if_neg]
  rw [hkey]
  exact fun heq => hne (of_decide_eq_true heq)

/-- Where the way to the root has not left an interface, the entry has what is wanted there. -/
theorem Tracks.agrees (hw : w.Tracks key) {i : UInt32} (hseen : w.2.seen key ≠ some i) :
    (i ∈ (w.1.entry key).localOifs ↔ i ∈ (w.2.wants key).members) ∧
      (w.1.entry key).joinOifs[i]? = (w.2.wants key).joins[i]? := by
  have hjoins := hw.joins i
  rw [if_neg hseen] at hjoins
  exact ⟨(hw.members i).trans (and_iff_left hseen), hjoins⟩

theorem Tracks.lacks (hw : w.Tracks key) {i : UInt32} (hseen : w.2.seen key = some i) :
    i ∉ (w.1.entry key).localOifs ∧ (w.1.entry key).joinOifs[i]? = none := by
  have hjoins := hw.joins i
  rw [if_pos hseen] at hjoins
  exact ⟨fun hmem => ((hw.members i).mp hmem).2 hseen, hjoins⟩

/-- Away from the interface towards the root, a touched entry gets all that is wanted of its tree. -/
theorem told_of_steady (hw : w.Tracks key) (h : w.Steady s) (htouch : s.op.touches w.1 key = true) {i : UInt32}
    (hi : w.iif s key ≠ some i) :
    (i ∈ (w.1.told s key).localOifs ↔ i ∈ ((w.step s).2.wants key).members) ∧
      (w.1.told s key).joinOifs[i]? = ((w.step s).2.wants key).joins[i]? := by
  rw [wants_step_of_touches htouch]
  have hstays := h.stays key htouch i
  unfold TreeTable.told
  cases hop : s.op with
  | membership ifindex group source present =>
    rw [hop] at hstays
    dsimp only [Wants.after, Wants.member]
    by_cases hseen : w.2.seen key = some i
    · obtain ⟨hlocal, hjoin⟩ := hw.lacks hseen
      have hrest := (hstays hseen hi).1
      dsimp only [Wants.On, Wants.rest, Wants.member] at hrest
      rw [not_or, if_neg (by decide), mem_erase] at hrest
      refine ⟨?_, hjoin.trans (ExtTreeMap.getElem?_eq_none hrest.2).symm⟩
      cases present with
      | true =>
        rw [if_pos rfl, if_pos rfl, mem_insert, mem_insert]
        tauto
      | false =>
        rw [if_neg (by decide), if_neg (by decide), mem_erase, mem_erase]
        tauto
    · obtain ⟨hlocal, hjoin⟩ := hw.agrees hseen
      refine ⟨?_, hjoin⟩
      cases present with
      | true => rw [if_pos rfl, if_pos rfl, mem_insert, mem_insert, hlocal]
      | false => rw [if_neg (by decide), if_neg (by decide), mem_erase, mem_erase, hlocal]
  | receivedJoin now recvIfindex group source =>
    rw [hop] at hstays
    have hkey : key = (source, group) := by
      unfold Op.touches at htouch
      rw [hop] at htouch
      exact of_decide_eq_true htouch
    dsimp only [Wants.after, Wants.join]
    have hinsert : recvIfindex = i → (w.1.entries[key]?).elim ((s.rpf (w.1.target key)).map RpfInfo.ifindex) Entry.iif ≠
        some recvIfindex := by
      rintro rfl
      cases hentry : w.1.entries[key]? with
      | none => exact hi
      | some e =>
        intro hiif
        have hseen : w.2.seen key = some recvIfindex := (hw.iif e hentry).symm.trans hiif
        have hgone := (hstays hseen hi).2 now (by rw [hkey])
        exact hgone (ExtTreeMap.mem_iff_isSome_getElem?.mpr (by rw [hentry]; rfl))
    have hlocal : i ∈ (w.1.entry key).localOifs ↔ i ∈ (w.2.wants key).members := by
      by_cases hseen : w.2.seen key = some i
      · have hrest := (hstays hseen hi).1
        dsimp only [Wants.On, Wants.rest, Wants.prune] at hrest
        rw [not_or] at hrest
        exact iff_of_false (hw.lacks hseen).1 hrest.1
      · exact (hw.agrees hseen).1
    by_cases hrecv : recvIfindex = i
    · rw [if_pos (hinsert hrecv), hrecv, getElem?_insert, getElem?_insert, if_pos rfl, if_pos rfl]
      exact ⟨hlocal, rfl⟩
    · have hjoin : (w.1.entry key).joinOifs[i]? = (w.2.wants key).joins[i]? := by
        by_cases hseen : w.2.seen key = some i
        · have hrest := (hstays hseen hi).1
          dsimp only [Wants.On, Wants.rest, Wants.prune] at hrest
          rw [not_or] at hrest
          have hnone := ExtTreeMap.getElem?_eq_none hrest.2
          rw [getElem?_erase, if_neg fun heq => hrecv heq.symm] at hnone
          rw [hnone, (hw.lacks hseen).2]
        · exact (hw.agrees hseen).2
      have hother : ((w.2.wants key).joins.insert recvIfindex (now + w.1.joinHoldtime))[i]? = (w.2.wants key).joins[i]? := by
        rw [getElem?_insert, if_neg fun heq => hrecv heq.symm]
      rw [hother]
      split_ifs
      · dsimp only
        rw [getElem?_insert, if_neg fun heq => hrecv heq.symm]
        exact ⟨hlocal, hjoin⟩
      · exact ⟨hlocal, hjoin⟩
  | receivedPrune recvIfindex group source =>
    rw [hop] at hstays
    dsimp only [Wants.after, Wants.prune]
    rw [getElem?_erase, getElem?_erase]
    by_cases hseen : w.2.seen key = some i
    · obtain ⟨hlocal, hjoin⟩ := hw.lacks hseen
      have hrest := (hstays hseen hi).1
      dsimp only [Wants.On, Wants.rest, Wants.prune] at hrest
      rw [not_or] at hrest
      have hnone := ExtTreeMap.getElem?_eq_none hrest.2
      rw [getElem?_erase] at hnone
      refine ⟨iff_of_false hlocal hrest.1, ?_⟩
      rw [hnone, hjoin, ite_self]
    · obtain ⟨hlocal, hjoin⟩ := hw.agrees hseen
      exact ⟨hlocal, by rw [hjoin]⟩
  | expire now =>
    rw [hop] at hstays
    dsimp only [Wants.after, Wants.age, Entry.aged]
    rw [ExtTreeMap.getElem?_filter', ExtTreeMap.getElem?_filter']
    by_cases hseen : w.2.seen key = some i
    · obtain ⟨hlocal, hjoin⟩ := hw.lacks hseen
      have hrest := (hstays hseen hi).1
      dsimp only [Wants.On, Wants.rest, Wants.age] at hrest
      rw [not_or] at hrest
      have hnone := ExtTreeMap.getElem?_eq_none hrest.2
      rw [ExtTreeMap.getElem?_filter'] at hnone
      refine ⟨iff_of_false hlocal hrest.1, ?_⟩
      rw [hnone, hjoin]
      rfl
    · obtain ⟨hlocal, hjoin⟩ := hw.agrees hseen
      exact ⟨hlocal, by rw [hjoin]⟩

theorem Tracks.touched (hw : w.Tracks key) (h : w.Steady s) (htouch : s.op.touches w.1 key = true) :
    (w.step s).Tracks key := by
  have htouched := TreeTable.touched_apply htouch
  have hseen : (w.step s).2.seen key = w.iif s key := by rw [seen_step, if_pos htouch]
  have hwas : (w.1.told s key).upstreamJoined = (w.2.sent key).getLastD false :=
    (w.1.upstreamJoined_told s key).trans hw.last.symm
  have hflags := htouched.flags
  rw [hwas] at hflags
  constructor
  · intro i
    rw [hseen, fst_step, TreeTable.entry, htouched.localOifs, Entry.mem_route_localOifs]
    exact and_congr_left fun hi => (told_of_steady hw h htouch hi).1
  · intro i
    rw [hseen, fst_step, TreeTable.entry, htouched.joinOifs, Entry.getElem?_route_joinOifs]
    by_cases hi : w.iif s key = some i
    · rw [if_pos (by exact hi), if_pos hi]
    · rw [if_neg (by exact hi), if_neg hi]
      exact (told_of_steady hw h htouch hi).2
  · intro e he
    rw [hseen]
    exact htouched.iif e he
  · rw [sent_step, hflags]
    split_ifs with hsent
    · rw [← List.cons_append, List.isChain_append]
      refine ⟨hw.sent, List.isChain_singleton _, ?_⟩
      intro x hx y hy
      rw [List.getLast?_cons, ← List.getLastD_eq_getLast?, Option.mem_some_iff] at hx
      rw [List.head?_cons, Option.mem_some_iff] at hy
      rw [← hx, ← hy]
      exact hsent.2.symm
    · rw [List.append_nil]
      exact hw.sent
  · rw [sent_step, hflags, fst_step, TreeTable.entry]
    split_ifs with hsent
    · rw [List.getLastD_concat]
    · rw [List.append_nil]
      by_cases hway : (s.rpf (w.1.target key)).isSome = true
      · by_contra hne
        exact hsent ⟨hway, fun heq => hne heq.symm⟩
      · rw [htouched.upstreamJoined, Bool.eq_false_iff.mpr hway, Bool.false_and, hw.last]
        by_contra hheld
        exact hway (h.resolves key htouch (Bool.eq_true_of_not_eq_false hheld))

theorem Tracks.untouched (hw : w.Tracks key) (htouch : s.op.touches w.1 key = false) : (w.step s).Tracks key := by
  obtain ⟨hsame, hflags⟩ := TreeTable.untouched_apply htouch
  have hentry : (w.step s).1.entry key = w.1.entry key := by
    unfold TreeTable.entry
    rw [fst_step, hsame]
  have hseen : (w.step s).2.seen key = w.2.seen key := by
    rw [seen_step, htouch]
    rfl
  have hsent : (w.step s).2.sent key = w.2.sent key := by rw [sent_step, hflags, List.append_nil]
  have hwants : ((w.step s).2.wants key).members = (w.2.wants key).members ∧
      ∀ i, (w.1.entry key).joinOifs[i]? = if w.2.seen key = some i then none else ((w.step s).2.wants key).joins[i]? := by
    unfold Op.touches at htouch
    cases hkey : s.op.key? with
    | some k =>
      rw [hkey] at htouch
      rw [wants_step_of_ne hkey (of_decide_eq_false htouch)]
      exact ⟨rfl, hw.joins⟩
    | none =>
      obtain ⟨now, hop⟩ := Op.expire_of_key? hkey
      rw [hkey] at htouch
      have hage : (w.step s).2.wants key = (w.2.wants key).age now := by
        rw [wants_step, if_pos (by rw [hkey]; rfl), hop]
        rfl
      have hnew : w.1.entry key = .new := by
        unfold TreeTable.entry
        rw [ExtTreeMap.getElem?_eq_none_of_contains_eq_false htouch, Option.getD_none]
      rw [hage]
      refine ⟨rfl, fun i => ?_⟩
      have hjoins := hw.joins i
      rw [hnew] at hjoins ⊢
      dsimp only [Wants.age]
      rw [ExtTreeMap.getElem?_filter']
      split_ifs at hjoins ⊢
      · exact hjoins
      · rw [← hjoins]
        rfl
  constructor
  · intro i
    rw [hentry, hseen, hwants.1]
    exact hw.members i
  · intro i
    rw [hentry, hseen]
    exact hwants.2 i
  · intro e he
    rw [fst_step, hsame] at he
    rw [hseen]
    exact hw.iif e he
  · rw [hsent]
    exact hw.sent
  · rw [hsent, hentry]
    exact hw.last

/-- What a step shows of the entries that it touches. -/
theorem exact_of_tracks (hw : ∀ key, w.Tracks key) (h : w.Steady s) (hnext : ∀ key, (w.step s).Tracks key) : w.Exact s := by
  constructor
  · intro key htouch i
    have htouched := TreeTable.touched_apply htouch
    have hoifs : i ∈ ((w.step s).1.entry key).oifs ↔ i ∈ ((w.1.told s key).route (s.rpf (w.1.target key))).oifs := by
      rw [fst_step, TreeTable.entry, htouched.oifs]
    rw [hoifs, Entry.mem_oifs, Entry.mem_route_localOifs, ExtTreeMap.mem_iff_isSome_getElem?,
      Entry.getElem?_route_joinOifs]
    constructor
    · rintro ⟨hin, hi⟩
      change (s.rpf (w.1.target key)).map RpfInfo.ifindex ≠ some i at hi
      obtain ⟨hmember, hjoin⟩ := told_of_steady (hw key) h htouch hi
      refine ⟨?_, hi⟩
      rw [if_neg hi, hjoin, ← ExtTreeMap.mem_iff_isSome_getElem?] at hin
      exact hin.imp (fun hlocal => hmember.mp hlocal.1) id
    · rintro ⟨hwant, hi⟩
      change (s.rpf (w.1.target key)).map RpfInfo.ifindex ≠ some i at hi
      obtain ⟨hmember, hjoin⟩ := told_of_steady (hw key) h htouch hi
      refine ⟨?_, hi⟩
      rw [if_neg hi, hjoin, ← ExtTreeMap.mem_iff_isSome_getElem?]
      exact hwant.imp (fun hlocal => ⟨hmember.mpr hlocal, hi⟩) id
  · intro key htouch
    have htouched := TreeTable.touched_apply htouch
    rw [fst_step, TreeTable.entry, htouched.oifs, htouched.upstreamJoined, Bool.and_eq_true, Bool.not_eq_true',
      Bool.eq_false_iff, ne_eq, ExtTreeSet.isEmpty_iff, and_comm]
  · exact fun key => (hnext key).sent

theorem tracks_start (rp : Ipv4Addr) (holdtime : ℕ) (key : TreeKey) : (start rp holdtime).Tracks key := by
  constructor
  · intro i
    exact iff_of_false (by simp [start, TreeTable.entry, TreeTable.new, Entry.new]) (by simp [start, History.start, Wants.none])
  · intro i
    simp [start, TreeTable.entry, TreeTable.new, Entry.new, History.start, Wants.none]
  · intro e he
    simp [start, TreeTable.new] at he
  · exact List.isChain_singleton false
  · simp [start, TreeTable.entry, TreeTable.new, Entry.new, History.start]

end Step

/-- In every run whose steps find steady ways, all entries are what their members, Joins and Prunes make of them. -/
theorem exact_of_steady (rp : Ipv4Addr) (holdtime : ℕ) (steps : List Step)
    (h : Run.Every step Steady (start rp holdtime) steps) : Run.Every step Exact (start rp holdtime) steps := by
  have hstep : ∀ (w : World) (s : Step), (∀ key, w.Tracks key) → w.Steady s →
      (∀ key, (w.step s).Tracks key) ∧ w.Exact s := by
    intro w s hw hs
    have hnext : ∀ key, (w.step s).Tracks key := by
      intro key
      cases htouch : s.op.touches w.1 key with
      | true => exact (hw key).touched hs htouch
      | false => exact (hw key).untouched htouch
    exact ⟨hnext, exact_of_tracks hw hs hnext⟩
  exact h.under (fun w => ∀ key, w.Tracks key) hstep (tracks_start rp holdtime)

/-- Ways that never change are steady. -/
theorem every_steady_of_fixed (rp : Ipv4Addr) (holdtime : ℕ) (info : RpfInfo) (ops : List Op) :
    Run.Every step Steady (start rp holdtime) (ops.map fun op => ⟨op, fun _ => some info⟩) := by
  have hfixed : Run.Every step (fun _ s => s.rpf = fun _ => some info) (start rp holdtime)
      (ops.map fun op => ⟨op, fun _ => some info⟩) := by
    apply Run.every_of_forall (Q := fun s => s.rpf = fun _ => some info)
    · exact fun _ _ h => h
    · intro s hs
      obtain ⟨op, -, rfl⟩ := List.mem_map.mp hs
      rfl
  have hstep : ∀ (w : World) (s : Step), (∀ key i, w.2.seen key = some i → i = info.ifindex) →
      s.rpf = (fun _ => some info) →
      (∀ key i, (w.step s).2.seen key = some i → i = info.ifindex) ∧ w.Steady s := by
    intro w s hw hs
    have hiif : ∀ key, w.iif s key = some info.ifindex := by
      intro key
      unfold iif
      rw [hs]
      rfl
    constructor
    · intro key i hi
      rw [seen_step, hiif] at hi
      split_ifs at hi
      · exact (Option.some.inj hi).symm
      · exact hw key i hi
    · constructor
      · intro key _ i hseen hmoved
        rw [hiif, hw key i hseen] at hmoved
        exact absurd rfl hmoved
      · intro key _ _
        rw [hs]
        rfl
  exact hfixed.under (fun w => ∀ key i, w.2.seen key = some i → i = info.ifindex) hstep fun key i hi => by cases hi

/-- A member, a Join, a Prune and a tick, with the root always on the same interface. -/
def quiet : List Op :=
  [.membership 2 0xEF010101 none true, .receivedJoin 0 3 0xEF010101 none, .receivedPrune 3 0xEF010101 none, .expire 5000]

theorem exact_of_steady_quiet :
    Run.Every step Exact (start 0x0A000909 210000) (quiet.map fun op => ⟨op, fun _ => some ⟨1, none⟩⟩) :=
  exact_of_steady 0x0A000909 210000 (quiet.map fun op => ⟨op, fun _ => some ⟨1, none⟩⟩)
    (every_steady_of_fixed 0x0A000909 210000 ⟨1, none⟩ quiet)

/-- The way to the root moves to the interface of a member, and back. -/
def detour : List Step :=
  [⟨.membership 2 0xEF010101 none true, fun _ => some ⟨1, none⟩⟩, ⟨.membership 3 0xEF010101 none true, fun _ => some ⟨2, none⟩⟩,
    ⟨.membership 4 0xEF010101 none true, fun _ => some ⟨1, none⟩⟩]

/-- The member is still there, and gets nothing any longer. -/
theorem member_lost_on_detour : ¬ ∀ (rp : Ipv4Addr) (holdtime : ℕ) (steps : List Step),
    Run.Every step Exact (start rp holdtime) steps := by
  intro hall
  obtain ⟨-, -, hlast, -⟩ := hall 0x0A000909 210000 detour
  have hmember := hlast.oifs (none, 0xEF010101) rfl 2
  have hwanted : (2 : UInt32) ∈ (((detour.foldl step (start 0x0A000909 210000)).2.wants (none, 0xEF010101)).members) := by
    decide +kernel
  have hlost : (2 : UInt32) ∉ ((detour.foldl step (start 0x0A000909 210000)).1.entry (none, 0xEF010101)).oifs := by
    decide +kernel
  have hway : (some 1 : Option UInt32) ≠ some 2 := by decide
  exact hlost (hmember.mpr ⟨Or.inl hwanted, hway⟩)

end World
end Wren.Pim
