import Wren.Lib.OrdMap

/-! The groups with listeners on one link, as a querier learns them from reports. Times are in
milliseconds. -/

namespace Wren.Igmp
open OrdMap

/-- The addresses of one family. Control groups never leave the link, and are not tracked. -/
class MulticastAddr (α : Type) where
  isControl : α → Bool

abbrev Ipv4Addr := BitVec 32

instance : MulticastAddr Ipv4Addr := ⟨fun a => a >>> 8 = 0xE00000⟩

inductive FilterMode where
  /-- Only the listed sources. -/
  | incl
  /-- All sources but the listed ones. -/
  | excl
deriving DecidableEq

structure GroupMembership (α : Type) [Ord α] where
  mode : FilterMode
  sources : BTreeSet α
  deadline : ℕ

structure TimerConfig where
  robustness : UInt8
  queryInterval : ℕ
  queryResponseInterval : ℕ
  lastMemberQueryInterval : ℕ
  lastMemberQueryCount : UInt8

namespace TimerConfig

def default : TimerConfig where
  robustness := 2
  queryInterval := 125000
  queryResponseInterval := 10000
  lastMemberQueryInterval := 1000
  lastMemberQueryCount := 2

variable (cfg : TimerConfig)

def groupMembershipInterval : ℕ := cfg.queryInterval * max cfg.robustness.toNat 1 + cfg.queryResponseInterval

def lastMemberInterval : ℕ := cfg.lastMemberQueryInterval * max cfg.lastMemberQueryCount.toNat 1

end TimerConfig

inductive MembershipEvent (α : Type) where
  | joined (group : α)
  | updated (group : α)
  | left (group : α)
  | querying (group : α)
deriving DecidableEq

def MembershipEvent.group {α : Type} : MembershipEvent α → α
  | joined g | updated g | left g | querying g => g

inductive RecordType where
  | isInclude
  | isExclude
  | toInclude
  | toExclude
  | allowNew
  | blockOld
deriving DecidableEq

def RecordType.fromU8 : UInt8 → Option RecordType
  | 1 => some isInclude
  | 2 => some isExclude
  | 3 => some toInclude
  | 4 => some toExclude
  | 5 => some allowNew
  | 6 => some blockOld
  | _ => none

structure GroupRecord where
  recordType : UInt8
  multicast : Ipv4Addr
  sources : List Ipv4Addr

def GroupRecord.typed (rec : GroupRecord) : Option RecordType := RecordType.fromU8 rec.recordType

inductive Message where
  | query
  | v3Report (records : List GroupRecord)
  | v2Report (group : Ipv4Addr)
  | v1Report (group : Ipv4Addr)
  | v2Leave (group : Ipv4Addr)

structure MembershipTable (α : Type) [Ord α] where
  groups : BTreeMap α (GroupMembership α)
  cfg : TimerConfig

namespace MembershipTable
variable {α : Type} [Ord α] [Std.TransOrd α]

def new (cfg : TimerConfig) : MembershipTable α := ⟨∅, cfg⟩

def get (table : MembershipTable α) (group : α) : Option (GroupMembership α) := table.groups[group]?

def put (table : MembershipTable α) (group : α) (entry : GroupMembership α) : MembershipTable α :=
  { table with groups := table.groups.insert group entry }

/-- Keep the group for as long as its last listeners have to answer. -/
def leaveGroup (table : MembershipTable α) (now : ℕ) (group : α) :
    MembershipTable α × Option (MembershipEvent α) :=
  match table.get group with
  | none => (table, none)
  | some m =>
    (table.put group { m with deadline := min m.deadline (now + table.cfg.lastMemberInterval) }, some (.querying group))

def expire (table : MembershipTable α) (now : ℕ) : MembershipTable α × List (MembershipEvent α) :=
  let expired := (table.groups.toList.filter fun e => e.2.deadline ≤ now).map Prod.fst
  ({ table with groups := expired.foldl (fun groups g => groups.erase g) table.groups }, expired.map .left)

/-- What a leave may do to a group: it stays in its mode, and wants no new source. -/
def Shrinks : Option (GroupMembership α) → Option (GroupMembership α) → Prop
  | none, none => True
  | some m, some m' => m'.mode = m.mode ∧ ∀ s ∈ m'.sources, s ∈ m.sources
  | _, _ => False

@[refl] theorem Shrinks.refl (o : Option (GroupMembership α)) : Shrinks o o := by
  cases o with
  | none => trivial
  | some m => exact ⟨rfl, fun _ hs => hs⟩

theorem Shrinks.trans {o o' o'' : Option (GroupMembership α)} (h : Shrinks o o') (h' : Shrinks o' o'') :
    Shrinks o o'' := by
  cases o <;> cases o' <;> cases o'' <;> simp only [Shrinks] at h h' ⊢
  exact ⟨h'.1.trans h.1, fun s hs => h.2 s (h'.2 s hs)⟩

/-- What the events say of the groups: one without an event is as before, one that is only queried
has shrunk, and one that was reported is there. -/
structure Told (table table' : MembershipTable α) (events : List (MembershipEvent α)) : Prop where
  silent : ∀ g, (∀ ev ∈ events, ev.group ≠ g) → table'.get g = table.get g
  queried : ∀ g, .joined g ∉ events → .updated g ∉ events → Shrinks (table.get g) (table'.get g)
  reported : ∀ g, .joined g ∈ events ∨ .updated g ∈ events → (table'.get g).isSome = true
  stays : ∀ g, .left g ∉ events

theorem told_nil (table : MembershipTable α) : Told table table [] :=
  ⟨fun _ _ => rfl, fun g _ _ => .refl (table.get g), fun _ h => by simp at h, fun _ h => by simp at h⟩

theorem Told.append {t t' t'' : MembershipTable α} {evs evs' : List (MembershipEvent α)} (h : Told t t' evs)
    (h' : Told t' t'' evs') : Told t t'' (evs ++ evs') := by
  constructor
  · intro g hg
    have hfirst := h.silent g fun ev hev => hg ev (List.mem_append_left _ hev)
    exact (h'.silent g fun ev hev => hg ev (List.mem_append_right _ hev)).trans hfirst
  · intro g hjoined hupdated
    rw [List.mem_append, not_or] at hjoined hupdated
    exact (h.queried g hjoined.1 hupdated.1).trans (h'.queried g hjoined.2 hupdated.2)
  · intro g hg
    by_cases hlast : .joined g ∈ evs' ∨ .updated g ∈ evs'
    · exact h'.reported g hlast
    · rw [not_or] at hlast
      have hshrinks := h'.queried g hlast.1 hlast.2
      have hfirst : (t'.get g).isSome = true := by
        refine h.reported g ?_
        simp only [List.mem_append, hlast.1, hlast.2, or_false] at hg
        exact hg
      cases hm : t'.get g with
      | none => simp [hm] at hfirst
      | some m =>
        cases hm' : t''.get g with
        | none => simp [hm, hm', Shrinks] at hshrinks
        | some m' => rfl
  · intro g hg
    obtain hg | hg := List.mem_append.mp hg
    · exact h.stays g hg
    · exact h'.stays g hg

theorem told_queried {table table' : MembershipTable α} {group : α} (hne : ∀ g, g ≠ group → table'.get g = table.get g)
    (h : Shrinks (table.get group) (table'.get group)) : Told table table' [.querying group] := by
  constructor
  · intro g hg
    exact hne g fun heq => hg (.querying group) (by simp) heq.symm
  · intro g _ _
    by_cases hg : g = group
    · rwa [hg]
    · rw [hne g hg]
  · intro g hg
    simp at hg
  · intro g hg
    simp at hg

section
variable [Std.LawfulEqOrd α] [DecidableEq α]

@[simp] theorem get_put (table : MembershipTable α) (g group : α) (m : GroupMembership α) :
    (table.put group m).get g = if g = group then some m else table.get g := getElem?_insert table.groups group g m

@[simp] theorem get_leaveGroup (table : MembershipTable α) (now : ℕ) (g group : α) :
    (table.leaveGroup now group).1.get g =
      if g = group then
        (table.get group).map fun m => { m with deadline := min m.deadline (now + table.cfg.lastMemberInterval) }
      else table.get g := by
  unfold leaveGroup
  cases hm : table.get group with
  | none =>
    split_ifs with hg
    · rw [hg, hm]
      rfl
    · rfl
  | some m => rw [get_put, Option.map_some]

omit [Std.LawfulEqOrd α] [DecidableEq α] in
theorem event_leaveGroup (table : MembershipTable α) (now : ℕ) (group : α) :
    (table.leaveGroup now group).2 = (table.get group).map fun _ => .querying group := by
  unfold leaveGroup
  cases table.get group <;> rfl

theorem told_leaveGroup (table : MembershipTable α) (now : ℕ) (group : α) :
    Told table (table.leaveGroup now group).1 (table.leaveGroup now group).2.toList := by
  rw [event_leaveGroup]
  cases hm : table.get group with
  | none =>
    have hsame : (table.leaveGroup now group).1 = table := by
      unfold leaveGroup
      rw [hm]
    rw [hsame]
    exact told_nil table
  | some m =>
    refine told_queried ?_ ?_
    · intro g hg
      rw [get_leaveGroup, if_neg hg]
    · rw [get_leaveGroup, if_pos rfl, hm]
      exact ⟨rfl, fun _ hs => hs⟩

theorem told_put (table : MembershipTable α) (group : α) (m : GroupMembership α) {ev : MembershipEvent α}
    (hev : ev = .joined group ∨ ev = .updated group) : Told table (table.put group m) [ev] := by
  have hgroup : ev.group = group := by
    obtain rfl | rfl := hev <;> rfl
  constructor
  · intro g hg
    rw [get_put, if_neg fun heq => hg ev (by simp) (hgroup.trans heq.symm)]
  · intro g hjoined hupdated
    have hne : g ≠ group := by
      rintro rfl
      obtain rfl | rfl := hev
      · simp at hjoined
      · simp at hupdated
    rw [get_put, if_neg hne]
  · intro g hg
    have heq : g = group := by
      obtain rfl | rfl := hev <;> simpa using hg
    rw [get_put, if_pos heq]
    rfl
  · intro g hg
    obtain rfl | rfl := hev <;> simp at hg

/-- Groups past their time leave, each with its event, and the others stay as they are. -/
theorem get_expire (table : MembershipTable α) (now : ℕ) (g : α) :
    (table.expire now).1.get g = if .left g ∈ (table.expire now).2 then none else table.get g := by
  simp only [expire, get, getElem?_foldl_erase, List.mem_map, MembershipEvent.left.injEq, exists_eq_right]

end

variable [MulticastAddr α]

def applyRecord (table : MembershipTable α) (now : ℕ) (group : α) (rtype : Option RecordType) (sources : List α) :
    MembershipTable α × Option (MembershipEvent α) :=
  if MulticastAddr.isControl group then (table, none)
  else
    let deadline := now + table.cfg.groupMembershipInterval
    let reported : MembershipEvent α := if (table.get group).isSome then .updated group else .joined group
    match rtype with
    | some .isExclude | some .toExclude => (table.put group ⟨.excl, insertAll ∅ sources, deadline⟩, some reported)
    | some .isInclude | some .toInclude =>
      if sources.isEmpty then table.leaveGroup now group
      else (table.put group ⟨.incl, insertAll ∅ sources, deadline⟩, some reported)
    | some .allowNew =>
      let entry := (table.get group).getD ⟨.incl, ∅, deadline⟩
      let kept := if entry.mode = .incl then insertAll entry.sources sources else entry.sources
      (table.put group ⟨entry.mode, kept, deadline⟩, some reported)
    | some .blockOld =>
      match table.get group with
      | none => (table, none)
      | some entry =>
        match entry.mode with
        | .incl =>
          let kept := eraseAll entry.sources sources
          if kept.isEmpty then (table.put group { entry with sources := kept }).leaveGroup now group
          else (table.put group ⟨.incl, kept, deadline⟩, some (.updated group))
        | .excl => (table.put group ⟨.excl, insertAll entry.sources sources, deadline⟩, some (.updated group))
    | none => (table, none)

def joinAnySource (table : MembershipTable α) (now : ℕ) (group : α) : MembershipTable α × Option (MembershipEvent α) :=
  table.applyRecord now group (some .toExclude) []

/-- The records of a report, one after the other. -/
def applyRecords (table : MembershipTable Ipv4Addr) (now : ℕ) :
    List GroupRecord → MembershipTable Ipv4Addr × List (MembershipEvent Ipv4Addr)
  | [] => (table, [])
  | rec :: rest =>
    let (table, ev) := table.applyRecord now rec.multicast rec.typed rec.sources
    let (table, evs) := table.applyRecords now rest
    (table, ev.toList ++ evs)

def apply (table : MembershipTable Ipv4Addr) (now : ℕ) :
    Message → MembershipTable Ipv4Addr × List (MembershipEvent Ipv4Addr)
  | .v3Report records => table.applyRecords now records
  | .v2Report g | .v1Report g =>
    let (table, ev) := table.joinAnySource now g
    (table, ev.toList)
  | .v2Leave g =>
    let (table, ev) := table.leaveGroup now g
    (table, ev.toList)
  | .query => (table, [])

variable [Std.LawfulEqOrd α] [DecidableEq α]

theorem told_applyRecord (table : MembershipTable α) (now : ℕ) (group : α) (rtype : Option RecordType)
    (sources : List α) :
    Told table (table.applyRecord now group rtype sources).1 (table.applyRecord now group rtype sources).2.toList := by
  have hreported : ∀ o : Option (GroupMembership α),
      (if o.isSome then MembershipEvent.updated group else .joined group) = .joined group ∨
        (if o.isSome then MembershipEvent.updated group else .joined group) = .updated group := by
    intro o
    cases o with
    | none => exact .inl rfl
    | some m => exact .inr rfl
  have hev := hreported (table.get group)
  simp only [applyRecord]
  generalize (if (table.get group).isSome = true then _ else _) = reported at hev ⊢
  by_cases hcontrol : MulticastAddr.isControl group = true
  · rw [if_pos hcontrol]
    exact told_nil table
  · rw [if_neg hcontrol]
    split
    · exact told_put table group _ hev
    · exact told_put table group _ hev
    · split_ifs
      · exact told_leaveGroup table now group
      · exact told_put table group _ hev
    · split_ifs
      · exact told_leaveGroup table now group
      · exact told_put table group _ hev
    · exact told_put table group _ hev
    · split
      · exact told_nil table
      · next m hm =>
        split
        · split_ifs
          · -- The last source is gone: the group waits, and has lost sources.
            rw [event_leaveGroup, get_put, if_pos rfl]
            refine told_queried ?_ ?_
            · intro g hg
              rw [get_leaveGroup, if_neg hg, get_put, if_neg hg]
            · rw [get_leaveGroup, if_pos rfl, get_put, if_pos rfl, hm]
              exact ⟨rfl, fun s hs => ((mem_eraseAll _ _ s).mp hs).1⟩
          · exact told_put table group _ (.inr rfl)
        · exact told_put table group _ (.inr rfl)
    · exact told_nil table

theorem told_applyRecords (table : MembershipTable Ipv4Addr) (now : ℕ) (records : List GroupRecord) :
    Told table (table.applyRecords now records).1 (table.applyRecords now records).2 := by
  induction records generalizing table with
  | nil => exact told_nil table
  | cons rec rest ih => exact (told_applyRecord table now rec.multicast rec.typed rec.sources).append (ih _)

theorem told_apply (table : MembershipTable Ipv4Addr) (now : ℕ) (msg : Message) :
    Told table (table.apply now msg).1 (table.apply now msg).2 := by
  cases msg with
  | query => exact told_nil table
  | v3Report records => exact told_applyRecords table now records
  | v2Report g => exact told_applyRecord table now g (some .toExclude) []
  | v1Report g => exact told_applyRecord table now g (some .toExclude) []
  | v2Leave g => exact told_leaveGroup table now g

end MembershipTable
end Wren.Igmp
