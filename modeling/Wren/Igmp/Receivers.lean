import Wren.Igmp.Membership
import Wren.Lib.Run

/-! Hosts that listen to a group on one link, and what the querier makes of their reports. -/

namespace Wren.Igmp
open OrdMap

variable {α : Type} [Ord α] [Std.TransOrd α]

/-- What a host wants of a group. One that wants nothing includes no source. -/
structure Filter (α : Type) [Ord α] where
  mode : FilterMode
  sources : BTreeSet α

structure Report (α : Type) where
  rtype : RecordType
  sources : List α

namespace Filter

def silent : Filter α := ⟨.incl, ∅⟩

def Wants (f : Filter α) (s : α) : Prop :=
  match f.mode with
  | .incl => s ∈ f.sources
  | .excl => s ∉ f.sources

instance (f : Filter α) (s : α) : Decidable (f.Wants s) :=
  decidable_of_iff (f.mode = .incl ∧ s ∈ f.sources ∨ f.mode = .excl ∧ s ∉ f.sources) (by
    unfold Wants
    cases f.mode <;> simp)

/-- A record of sources, unless there are none. -/
def unlessEmpty (rtype : RecordType) (sources : List α) : List (Report α) :=
  if sources.isEmpty then [] else [⟨rtype, sources⟩]

/-- The answer to a query. -/
def answer (f : Filter α) : List (Report α) :=
  match f.mode with
  | .incl => unlessEmpty .isInclude f.sources.toList
  | .excl => [⟨.isExclude, f.sources.toList⟩]

/-- What is reported when the filter changes. -/
def change (f f' : Filter α) : List (Report α) :=
  let came := f'.sources.toList.filter (· ∉ f.sources)
  let went := f.sources.toList.filter (· ∉ f'.sources)
  match f.mode, f'.mode with
  | .incl, .incl => unlessEmpty .allowNew came ++ unlessEmpty .blockOld went
  | .excl, .excl => unlessEmpty .allowNew went ++ unlessEmpty .blockOld came
  | .excl, .incl => [⟨.toInclude, f'.sources.toList⟩]
  | .incl, .excl => [⟨.toExclude, f'.sources.toList⟩]

/-- The filter of a host of which we know `f` and hear a report. -/
def hear (f : Filter α) (r : Report α) : Filter α :=
  match r.rtype, f.mode with
  | .isInclude, _ | .toInclude, _ => ⟨.incl, insertAll ∅ r.sources⟩
  | .isExclude, _ | .toExclude, _ => ⟨.excl, insertAll ∅ r.sources⟩
  | .allowNew, .incl | .blockOld, .excl => { f with sources := insertAll f.sources r.sources }
  | .blockOld, .incl | .allowNew, .excl => { f with sources := eraseAll f.sources r.sources }

end Filter

/-- A source of a group that the querier forwards. -/
def MembershipTable.Wants (table : MembershipTable α) (group s : α) : Prop :=
  ∃ m, table.get group = some m ∧ (Filter.mk m.mode m.sources).Wants s

instance (table : MembershipTable α) (group s : α) : Decidable (table.Wants group s) :=
  decidable_of_iff (∃ m ∈ table.get group, (Filter.mk m.mode m.sources).Wants s) (by
    simp [MembershipTable.Wants])

/-- The hosts of a link with their filters for one group, the reports on their way, and what the
querier was told by each since it has tracked the group. -/
structure Lan (η α : Type) [Ord α] where
  table : MembershipTable α
  filters : η → Filter α
  queues : η → List (Report α)
  heard : η → Filter α

inductive LanEvent (η α : Type) [Ord α] where
  | change (h : η) (f : Filter α)
  | answer (h : η)
  | deliver (h : η) (now : ℕ)
  | expire (now : ℕ)

namespace Lan
variable {η : Type} [DecidableEq η] [DecidableEq α] [MulticastAddr α]

def new (cfg : TimerConfig) : Lan η α := ⟨.new cfg, fun _ => .silent, fun _ => [], fun _ => .silent⟩

def send (lan : Lan η α) (h : η) (reports : List (Report α)) : Lan η α :=
  { lan with queues := Function.update lan.queues h (lan.queues h ++ reports) }

/-- Whether the time of the group is over. -/
def due (lan : Lan η α) (group : α) (now : ℕ) : Bool := (lan.table.get group).any (·.deadline ≤ now)

def step (group : α) (lan : Lan η α) : LanEvent η α → Lan η α
  | .change h f => { lan.send h ((lan.filters h).change f) with filters := Function.update lan.filters h f }
  | .answer h => lan.send h (lan.filters h).answer
  | .deliver h now =>
    match lan.queues h with
    | [] => lan
    | r :: rest =>
      { lan with
        table := (lan.table.applyRecord now group (some r.rtype) r.sources).1
        queues := Function.update lan.queues h rest
        heard := Function.update lan.heard h ((lan.heard h).hear r) }
  | .expire now =>
    { lan with
      table := (lan.table.expire now).1
      heard := if lan.due group now then fun _ => .silent else lan.heard }

/-- Hosts that listen report again before the time of the group is over. -/
def Timely (group : α) (lan : Lan η α) : LanEvent η α → Prop
  | .expire now => lan.due group now = true → ∀ h, lan.filters h = .silent
  | _ => True

/-- A report of one host takes nothing from another, and what it allows is not blocked. -/
def Spares (group : α) (lan : Lan η α) : LanEvent η α → Prop
  | .deliver h _ =>
    ∀ r ∈ (lan.queues h).head?,
      match r.rtype with
      | .isExclude | .toExclude | .blockOld => ∀ h', h' ≠ h → ∀ s ∈ r.sources, ¬ (lan.heard h').Wants s
      | .isInclude | .toInclude => r.sources ≠ [] → ∀ h', h' ≠ h → ∀ s, (lan.heard h').Wants s → s ∈ r.sources
      | .allowNew => ∀ m, lan.table.get group = some m → m.mode = .excl → ∀ s ∈ r.sources, s ∉ m.sources
  | _ => True

/-- Every source that a host wants is wanted by the querier, once it has all reports. -/
def Served (group : α) (lan : Lan η α) : Prop :=
  (∀ h, lan.queues h = []) → ∀ h s, (lan.filters h).Wants s → lan.table.Wants group s

end Lan

namespace Filter

theorem hear_unlessEmpty (f : Filter α) (rtype : RecordType) (hrtype : rtype = .allowNew ∨ rtype = .blockOld) (l : List α) :
    (unlessEmpty rtype l).foldl hear f = f.hear ⟨rtype, l⟩ := by
  unfold unlessEmpty
  split_ifs with hl
  · rw [List.isEmpty_iff.mp hl]
    obtain ⟨mode, sources⟩ := f
    obtain rfl | rfl := hrtype <;> cases mode <;> rfl
  · rfl

variable [Std.LawfulEqOrd α]

theorem ofList_toList (s : BTreeSet α) : insertAll ∅ s.toList = s := by
  apply Std.ExtTreeSet.ext_mem
  intro a
  simp

/-- Who hears the answer to a query knows the filter. -/
theorem foldl_hear_answer (f : Filter α) : f.answer.foldl hear f = f := by
  obtain ⟨mode, sources⟩ := f
  cases mode with
  | excl => simp [answer, hear, ofList_toList]
  | incl =>
    unfold answer unlessEmpty
    split_ifs
    · rfl
    · simp [hear, ofList_toList]

/-- Who hears of a change knows the new filter. -/
theorem foldl_hear_change (f f' : Filter α) : (f.change f').foldl hear f = f' := by
  obtain ⟨mode, sources⟩ := f
  obtain ⟨mode', sources'⟩ := f'
  cases mode with
  | incl =>
    cases mode' with
    | incl =>
      simp only [change, List.foldl_append, hear_unlessEmpty _ _ (.inl rfl), hear_unlessEmpty _ _ (.inr rfl), hear]
      congr 1
      apply Std.ExtTreeSet.ext_mem
      intro a
      simp only [mem_insertAll, mem_eraseAll, List.mem_filter, Std.ExtTreeSet.mem_toList, decide_eq_true_eq]
      tauto
    | excl => simp [change, hear, ofList_toList]
  | excl =>
    cases mode' with
    | incl => simp [change, hear, ofList_toList]
    | excl =>
      simp only [change, List.foldl_append, hear_unlessEmpty _ _ (.inl rfl), hear_unlessEmpty _ _ (.inr rfl), hear]
      congr 1
      apply Std.ExtTreeSet.ext_mem
      intro a
      simp only [mem_insertAll, mem_eraseAll, List.mem_filter, Std.ExtTreeSet.mem_toList, decide_eq_true_eq]
      tauto

/-- A filter that may have missed what was said before. -/
def Behind (f g : Filter α) : Prop := f = g ∨ f.mode = .incl ∧ (g.mode = .incl → ∀ s ∈ f.sources, s ∈ g.sources)

theorem Behind.hear {f g : Filter α} (h : Behind f g) (r : Report α) : Behind (f.hear r) (g.hear r) := by
  obtain rfl | ⟨hf, hsub⟩ := h
  · exact .inl rfl
  · obtain ⟨fm, fs⟩ := f
    obtain ⟨gm, gs⟩ := g
    obtain rfl : fm = .incl := hf
    obtain ⟨rtype, l⟩ := r
    cases rtype with
    | isInclude => exact .inl rfl
    | toInclude => exact .inl rfl
    | isExclude => exact .inl rfl
    | toExclude => exact .inl rfl
    | allowNew =>
      refine .inr ⟨rfl, ?_⟩
      cases gm with
      | excl => intro h; simp [Filter.hear] at h
      | incl =>
        intro _ s hs
        simp only [Filter.hear, mem_insertAll] at hs ⊢
        exact hs.imp_left (hsub rfl s)
    | blockOld =>
      refine .inr ⟨rfl, ?_⟩
      cases gm with
      | excl => intro h; simp [Filter.hear] at h
      | incl =>
        intro _ s hs
        simp only [Filter.hear, mem_eraseAll] at hs ⊢
        exact ⟨hsub rfl s hs.1, hs.2⟩

theorem Behind.foldl_hear {f g : Filter α} (h : Behind f g) (reports : List (Report α)) :
    Behind (reports.foldl Filter.hear f) (reports.foldl Filter.hear g) := by
  induction reports generalizing f g with
  | nil => exact h
  | cons r reports ih => exact ih (h.hear r)

/-- Where a host ends up silent, so does what is heard of it from now on. -/
theorem foldl_hear_silent {f : Filter α} {reports : List (Report α)} (h : reports.foldl hear f = silent) :
    reports.foldl hear silent = silent := by
  have hstart : (silent : Filter α).Behind f := .inr ⟨rfl, fun _ s hs => by simp [silent] at hs⟩
  have hend := hstart.foldl_hear reports
  rw [h] at hend
  obtain heq | ⟨hmode, hsub⟩ := hend
  · exact heq
  · generalize reports.foldl hear silent = known at hmode hsub ⊢
    obtain ⟨mode, sources⟩ := known
    obtain rfl : mode = .incl := hmode
    have hnone : sources = ∅ := by
      apply Std.ExtTreeSet.ext_mem
      intro a
      exact iff_of_false (fun ha => by simpa [silent] using hsub rfl a ha) (by simp)
    rw [hnone]
    rfl

omit [Std.LawfulEqOrd α] in
theorem not_wants_silent (s : α) : ¬ (silent : Filter α).Wants s := by
  simp [silent, Wants]

theorem wants_hear_iff (f : Filter α) (r : Report α) (s : α) :
    (f.hear r).Wants s ↔
      match r.rtype with
      | .isInclude | .toInclude => s ∈ r.sources
      | .isExclude | .toExclude => s ∉ r.sources
      | .allowNew => f.Wants s ∨ s ∈ r.sources
      | .blockOld => f.Wants s ∧ s ∉ r.sources := by
  obtain ⟨mode, sources⟩ := f
  obtain ⟨rtype, l⟩ := r
  cases rtype <;> cases mode <;> simp [hear, Wants]
  tauto

end Filter

namespace MembershipTable
variable {table : MembershipTable α} {group : α}

theorem wants_iff_of_get {m : GroupMembership α} (h : table.get group = some m) (s : α) :
    table.Wants group s ↔ (Filter.mk m.mode m.sources).Wants s := by
  simp [Wants, h]

variable [Std.LawfulEqOrd α] [DecidableEq α]

theorem wants_put (m : GroupMembership α) (s : α) :
    (table.put group m).Wants group s ↔ (Filter.mk m.mode m.sources).Wants s :=
  wants_iff_of_get (by simp) s

theorem wants_leaveGroup (now : ℕ) (s : α) : (table.leaveGroup now group).1.Wants group s ↔ table.Wants group s := by
  unfold Wants
  rw [get_leaveGroup, if_pos rfl]
  cases table.get group <;> simp

theorem wants_expire_iff (now : ℕ) (s : α) :
    (table.expire now).1.Wants group s ↔
      table.Wants group s ∧ (table.get group).any (·.deadline ≤ now) = false := by
  have hleft : .left group ∈ (table.expire now).2 ↔ ∃ m, table.get group = some m ∧ m.deadline ≤ now := by
    simp only [expire, List.mem_map, MembershipEvent.left.injEq, exists_eq_right]
    rw [← List.mem_map]
    exact mem_filter_toList table.groups (fun m : GroupMembership α => m.deadline ≤ now) group
  unfold Wants
  rw [get_expire]
  cases hm : table.get group with
  | none => simp
  | some m =>
    rw [hm] at hleft
    by_cases hdue : m.deadline ≤ now
    · rw [if_pos (hleft.mpr ⟨m, rfl, hdue⟩)]
      simp [hdue]
    · have hstays : .left group ∉ (table.expire now).2 := by
        intro h
        obtain ⟨m', hm', hdue'⟩ := hleft.mp h
        obtain rfl := Option.some.inj hm'
        exact hdue hdue'
      rw [if_neg hstays]
      simp [hdue]

variable [MulticastAddr α] (hcontrol : MulticastAddr.isControl group = false)

include hcontrol in
/-- What a querier forwards of a group after a record. -/
theorem wants_applyRecord_iff (now : ℕ) (r : Report α) (s : α) :
    (table.applyRecord now group (some r.rtype) r.sources).1.Wants group s ↔
      match r.rtype with
      | .isExclude | .toExclude => s ∉ r.sources
      | .isInclude | .toInclude => if r.sources = [] then table.Wants group s else s ∈ r.sources
      | .allowNew => table.Wants group s ∨ s ∈ r.sources ∧ ∀ m, table.get group = some m → m.mode = .incl
      | .blockOld => table.Wants group s ∧ s ∉ r.sources := by
  have hinclude : ∀ d : ℕ, ∀ ev : MembershipEvent α,
      (if r.sources.isEmpty then table.leaveGroup now group
        else (table.put group ⟨.incl, insertAll ∅ r.sources, d⟩, some ev)).1.Wants group s ↔
        if r.sources = [] then table.Wants group s else s ∈ r.sources := by
    intro d ev
    simp only [List.isEmpty_iff]
    split_ifs with hnone
    · exact wants_leaveGroup now s
    · simp [wants_put, Filter.Wants]
  obtain ⟨rtype, l⟩ := r
  unfold applyRecord
  rw [if_neg (by simp [hcontrol])]
  cases rtype with
  | isExclude => simp [wants_put, Filter.Wants]
  | toExclude => simp [wants_put, Filter.Wants]
  | isInclude => exact hinclude _ _
  | toInclude => exact hinclude _ _
  | allowNew =>
    simp only [wants_put]
    cases hm : table.get group with
    | none => simp [Filter.Wants, Wants, hm]
    | some m =>
      obtain ⟨mode, sources, deadline⟩ := m
      rw [wants_iff_of_get hm]
      cases mode <;> simp [Filter.Wants]
  | blockOld =>
    cases hm : table.get group with
    | none => simp [Wants, hm]
    | some m =>
      obtain ⟨mode, sources, deadline⟩ := m
      rw [wants_iff_of_get hm]
      cases mode with
      | incl =>
        dsimp only
        split_ifs
        · rw [wants_leaveGroup, wants_put]
          simp [Filter.Wants]
        · simp [wants_put, Filter.Wants]
      | excl => simp [wants_put, Filter.Wants]

end MembershipTable

namespace Lan
variable {η : Type} {group : α} {lan : Lan η α}

/-- What was told of each host is its filter but for the reports on their way, and the querier
wants what it was told. -/
structure Tracked (group : α) (lan : Lan η α) : Prop where
  filters : ∀ h, (lan.queues h).foldl Filter.hear (lan.heard h) = lan.filters h
  served : ∀ h s, (lan.heard h).Wants s → lan.table.Wants group s

theorem tracked_new (cfg : TimerConfig) : (new cfg : Lan η α).Tracked group :=
  ⟨fun _ => rfl, fun _ s h => absurd h (Filter.not_wants_silent s)⟩

variable [DecidableEq η]

/-- Reports that lead from the filter so far to the one a host has now may be sent. -/
theorem Tracked.send (hlan : lan.Tracked group) (h : η) {reports : List (Report α)} {f : Filter α}
    (hf : reports.foldl Filter.hear (lan.filters h) = f) :
    Tracked group { lan.send h reports with filters := Function.update lan.filters h f } := by
  constructor
  · intro h'
    by_cases heq : h' = h
    · subst heq
      simp [Lan.send, List.foldl_append, hlan.filters, hf]
    · simp [Lan.send, heq, hlan.filters]
  · exact hlan.served

variable [Std.LawfulEqOrd α] [DecidableEq α] [MulticastAddr α] (hcontrol : MulticastAddr.isControl group = false)

include hcontrol in
/-- A report that spares the other hosts leaves the querier with all it was told. -/
theorem Tracked.deliver (hlan : lan.Tracked group) {h : η} {now : ℕ} (hspares : Spares group lan (.deliver h now)) :
    (step group lan (.deliver h now)).Tracked group := by
  cases hqueue : lan.queues h with
  | nil => simpa only [step, hqueue] using hlan
  | cons r rest =>
    have hr := hspares r (by simp [hqueue])
    simp only [step, hqueue]
    constructor
    · intro h'
      by_cases heq : h' = h
      · subst heq
        have hfilter := hlan.filters h'
        rw [hqueue] at hfilter
        simpa using hfilter
      · simp [heq, hlan.filters]
    · intro h' s hwants
      -- What the reporting host wants now, or what another host wanted before.
      have hcases : h' = h ∧ ((lan.heard h).hear r).Wants s ∨ h' ≠ h ∧ (lan.heard h').Wants s := by
        by_cases heq : h' = h
        · subst heq
          left
          simpa using hwants
        · right
          simpa [heq] using hwants
      rw [Filter.wants_hear_iff] at hcases
      rw [MembershipTable.wants_applyRecord_iff hcontrol]
      obtain ⟨rtype, l⟩ := r
      have hexclude : (∀ h', h' ≠ h → ∀ s ∈ l, ¬ (lan.heard h').Wants s) →
          h' = h ∧ s ∉ l ∨ h' ≠ h ∧ (lan.heard h').Wants s → s ∉ l := by
        intro hothers hsource
        obtain ⟨-, hs⟩ | ⟨hne, hs⟩ := hsource
        · exact hs
        · exact fun hl => hothers h' hne s hl hs
      have hinclude : (l ≠ [] → ∀ h', h' ≠ h → ∀ s, (lan.heard h').Wants s → s ∈ l) →
          h' = h ∧ s ∈ l ∨ h' ≠ h ∧ (lan.heard h').Wants s → if l = [] then lan.table.Wants group s else s ∈ l := by
        intro hothers hsource
        split_ifs with hnone
        · obtain ⟨-, hs⟩ | ⟨-, hs⟩ := hsource
          · simp [hnone] at hs
          · exact hlan.served h' s hs
        · obtain ⟨-, hs⟩ | ⟨hne, hs⟩ := hsource
          · exact hs
          · exact hothers hnone h' hne s hs
      cases rtype with
      | isExclude => exact hexclude hr hcases
      | toExclude => exact hexclude hr hcases
      | isInclude => exact hinclude hr hcases
      | toInclude => exact hinclude hr hcases
      | allowNew =>
        obtain ⟨-, hs | hl⟩ | ⟨-, hs⟩ := hcases
        · exact .inl (hlan.served h s hs)
        · by_cases hexcl : ∃ m, lan.table.get group = some m ∧ m.mode = .excl
          · obtain ⟨m, hm, hmode⟩ := hexcl
            left
            rw [MembershipTable.wants_iff_of_get hm, hmode]
            exact hr m hm hmode s hl
          · right
            refine ⟨hl, ?_⟩
            intro m hm
            cases hmode : m.mode with
            | incl => rfl
            | excl => exact absurd ⟨m, hm, hmode⟩ hexcl
        · exact .inl (hlan.served h' s hs)
      | blockOld =>
        obtain ⟨-, hs, hl⟩ | ⟨hne, hs⟩ := hcases
        · exact ⟨hlan.served h s hs, hl⟩
        · exact ⟨hlan.served h' s hs, fun hl => hr h' hne s hl hs⟩

/-- When its time is over while nobody listens, the group may go. -/
theorem Tracked.expire (hlan : lan.Tracked group) {now : ℕ} (htimely : Timely group lan (.expire now)) :
    (step group lan (.expire now)).Tracked group := by
  by_cases hdue : lan.due group now = true
  · simp only [step, hdue, if_true]
    constructor
    · intro h
      rw [htimely hdue h]
      exact Filter.foldl_hear_silent ((hlan.filters h).trans (htimely hdue h))
    · intro h s hs
      exact absurd hs (Filter.not_wants_silent s)
  · rw [Bool.not_eq_true] at hdue
    simp only [step, hdue, Bool.false_eq_true, if_false]
    constructor
    · exact hlan.filters
    · intro h s hs
      exact (MembershipTable.wants_expire_iff now s).mpr ⟨hlan.served h s hs, hdue⟩

include hcontrol in
theorem tracked_step (hlan : lan.Tracked group) {e : LanEvent η α} (htimely : Timely group lan e)
    (hspares : Spares group lan e) : (step group lan e).Tracked group := by
  cases e with
  | change h f => exact hlan.send h (Filter.foldl_hear_change (lan.filters h) f)
  | answer h =>
    have hsent := hlan.send h (Filter.foldl_hear_answer (lan.filters h))
    rw [Function.update_eq_self] at hsent
    exact hsent
  | deliver h now => exact hlan.deliver hcontrol hspares
  | expire now => exact hlan.expire htimely

/-- No host is starved in a run whose reports each spare the other hosts. -/
theorem served_of_spares (hcontrol : MulticastAddr.isControl group = false) (cfg : TimerConfig)
    (es : List (LanEvent η α)) (htimely : Run.Every (step group) (Timely group) (new cfg) es)
    (hspares : Run.Every (step group) (Spares group) (new cfg) es) : (es.foldl (step group) (new cfg)).Served group := by
  have hlan := (htimely.and hspares).invariant (Tracked group) (tracked_new cfg)
    fun lan e hlan h => tracked_step hcontrol hlan h.1 h.2
  intro hnone h s hwants
  have hfilter := hlan.filters h
  rw [hnone h] at hfilter
  rw [← hfilter] at hwants
  exact hlan.served h s hwants

/-- One host wants any source of a group and another one source. -/
def twoHosts : List (LanEvent Bool Ipv4Addr) :=
  [.change true ⟨.excl, ∅⟩, .deliver true 0, .change false ⟨.incl, insertAll ∅ [0x0A000001]⟩, .deliver false 10]

theorem served_of_spares_twoHosts :
    (twoHosts.foldl (step 0xEF010101) (new .default)).Served 0xEF010101 := by
  refine served_of_spares rfl .default twoHosts ⟨trivial, trivial, trivial, trivial, trivial⟩
    ⟨trivial, ?_, trivial, ?_, trivial⟩
  · intro r hr
    have hsent : ∀ r ∈ (((twoHosts.take 1).foldl (step 0xEF010101) (new .default)).queues true).head?,
        r.rtype = .toExclude ∧ r.sources = [] := by
      decide +kernel
    obtain ⟨hrtype, hsources⟩ := hsent r hr
    rw [hrtype]
    intro h' _ s hs
    simp [hsources] at hs
  · intro r hr
    have hsent : ∀ r ∈ (((twoHosts.take 3).foldl (step 0xEF010101) (new .default)).queues false).head?, r.rtype = .allowNew := by
      decide +kernel
    have hblocks : (((twoHosts.take 3).foldl (step 0xEF010101) (new .default)).table.get 0xEF010101).map
        (fun m => m.sources.isEmpty) = some true := by
      decide +kernel
    rw [hsent r hr]
    intro m hm _ s _
    have hget : ((twoHosts.take 3).foldl (step 0xEF010101) (new .default)).table.get 0xEF010101 = some m := hm
    rw [hget, Option.map_some] at hblocks
    exact (isEmpty_iff_forall m.sources).mp (Option.some.inj hblocks) s

/-- The second host answers a query, and the first one is not served any more. -/
theorem answer_starves :
    ¬ ∀ (cfg : TimerConfig) (es : List (LanEvent Bool Ipv4Addr)),
      Run.Every (step 0xEF010101) (Timely 0xEF010101) (new cfg) es →
        (es.foldl (step 0xEF010101) (new cfg)).Served 0xEF010101 := by
  intro hall
  have htimely : Run.Every (step 0xEF010101) (Timely 0xEF010101) (new .default)
      (twoHosts ++ [.answer false, .deliver false 20]) :=
    ⟨trivial, trivial, trivial, trivial, trivial, trivial, trivial⟩
  have hserved := hall .default (twoHosts ++ [.answer false, .deliver false 20]) htimely
  have hwanted := hserved (by decide +kernel) true 0x0A000002 (by decide +kernel)
  exact absurd hwanted (by decide +kernel)

end Lan
end Wren.Igmp
