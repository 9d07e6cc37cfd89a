import Wren.Daemon.Bgp.AdjRibOut

/-! What the aggregates of the configuration make of the originated routes, and the commands that keep a
session up to date about it. -/

namespace Wren.Daemon.Bgp
open Wren.Core Wren.Bgp Wren.Daemon OrdMap Replica

variable {originated : BTreeMap Prefix OriginEntry}

namespace Aggregate

/-- A strictly more specific network inside it is originated. -/
def Active (originated : BTreeMap Prefix OriginEntry) (a : Aggregate) : Prop :=
  ∃ c, c ∈ originated ∧ covers a.pfx c = true

/-- What is advertised for an active aggregate. -/
def route (a : Aggregate) : OriginRoute := ⟨a.pfx, [], [], [], true⟩

/-- The aggregate stands for a network that is originated. -/
def Replaces (originated : BTreeMap Prefix OriginEntry) (a : Aggregate) (p : Prefix) : Prop :=
  a.summaryOnly = true ∧ p ∈ originated ∧ covers a.pfx p = true

theorem Replaces.active {a : Aggregate} {p : Prefix} (h : a.Replaces originated p) : a.Active originated :=
  ⟨p, h.2.1, h.2.2⟩

theorem contributors_eq_nil_iff {a : Aggregate} :
    (originated.toList.map Prod.fst).filter (fun c => covers a.pfx c) = [] ↔ ¬ a.Active originated := by
  rw [List.filter_eq_nil_iff, Std.ExtTreeMap.map_fst_toList_eq_keys]
  simp [Active]

end Aggregate

theorem covers_self (p : Prefix) : covers p p = false := by
  simp [covers]

/-! ### One aggregate -/

section AddAggregate
variable {out : BTreeMap Prefix OriginRoute} {a : Aggregate} {p : Prefix}

theorem getElem?_addAggregate_self (h : a.Active originated) :
    (addAggregate originated out a)[a.pfx]? = some a.route := by
  unfold addAggregate
  rw [if_neg (fun hnil => Aggregate.contributors_eq_nil_iff.mp hnil h), getElem?_insert, if_pos rfl]
  rfl

theorem getElem?_addAggregate_of_replaces (h : a.Replaces originated p) :
    (addAggregate originated out a)[p]? = none := by
  have hne : p ≠ a.pfx := by
    rintro rfl
    have hself := h.2.2
    rw [covers_self] at hself
    cases hself
  unfold addAggregate
  dsimp only
  rw [if_neg (fun hnil => Aggregate.contributors_eq_nil_iff.mp hnil h.active), getElem?_insert, if_neg hne,
    if_pos h.1, getElem?_foldl_erase, if_pos]
  rw [List.mem_filter, Std.ExtTreeMap.map_fst_toList_eq_keys, Std.ExtTreeMap.mem_keys]
  exact h.2

theorem getElem?_addAggregate_of_other (hne : a.Active originated → p ≠ a.pfx) (h : ¬ a.Replaces originated p) :
    (addAggregate originated out a)[p]? = out[p]? := by
  unfold addAggregate
  dsimp only
  split_ifs with hnil hsummary
  · rfl
  · have hp := hne (not_not.mp (mt Aggregate.contributors_eq_nil_iff.mpr hnil))
    rw [getElem?_insert, if_neg hp, getElem?_foldl_erase, if_neg]
    rw [List.mem_filter, Std.ExtTreeMap.map_fst_toList_eq_keys, Std.ExtTreeMap.mem_keys]
    exact fun hmem => h ⟨hsummary, hmem⟩
  · have hp := hne (not_not.mp (mt Aggregate.contributors_eq_nil_iff.mpr hnil))
    rw [getElem?_insert, if_neg hp]

end AddAggregate

/-! ### All aggregates -/

/-- Of the aggregates that say something of a network the last one is heard: here all of them advertise it. -/
theorem getElem?_foldl_of_active {l : List Aggregate} {p : Prefix} (out : BTreeMap Prefix OriginRoute)
    (hset : ∃ a ∈ l, a.Active originated ∧ a.pfx = p) (hclear : ∀ a ∈ l, ¬ a.Replaces originated p) :
    (l.foldl (addAggregate originated) out)[p]? = some ⟨p, [], [], [], true⟩ := by
  induction l using List.reverseRecOn with
  | nil =>
    obtain ⟨a, ha, -⟩ := hset
    cases ha
  | append_singleton l b ih =>
    rw [List.foldl_append, List.foldl_cons, List.foldl_nil]
    by_cases hb : b.Active originated ∧ b.pfx = p
    · rw [← hb.2]
      exact getElem?_addAggregate_self hb.1
    · rw [getElem?_addAggregate_of_other (fun hact heq => hb ⟨hact, heq.symm⟩) (hclear b (by simp))]
      refine ih ?_ fun a ha => hclear a (by simp [ha])
      obtain ⟨a, ha, hact⟩ := hset
      rcases List.mem_append.mp ha with hl | hl
      · exact ⟨a, hl, hact⟩
      · rw [List.mem_singleton.mp hl] at hact
        exact absurd hact hb

theorem getElem?_foldl_of_replaces {l : List Aggregate} {p : Prefix} (out : BTreeMap Prefix OriginRoute)
    (hset : ∀ a ∈ l, a.Active originated → a.pfx ≠ p) (hclear : ∃ a ∈ l, a.Replaces originated p) :
    (l.foldl (addAggregate originated) out)[p]? = none := by
  induction l using List.reverseRecOn with
  | nil =>
    obtain ⟨a, ha, -⟩ := hclear
    cases ha
  | append_singleton l b ih =>
    rw [List.foldl_append, List.foldl_cons, List.foldl_nil]
    by_cases hb : b.Replaces originated p
    · exact getElem?_addAggregate_of_replaces hb
    · rw [getElem?_addAggregate_of_other (fun hact => (hset b (by simp) hact).symm) hb]
      refine ih (fun a ha => hset a (by simp [ha])) ?_
      obtain ⟨a, ha, hrep⟩ := hclear
      rcases List.mem_append.mp ha with hl | hl
      · exact ⟨a, hl, hrep⟩
      · rw [List.mem_singleton.mp hl] at hrep
        exact absurd hrep hb

theorem getElem?_foldl_of_other {l : List Aggregate} {p : Prefix} (out : BTreeMap Prefix OriginRoute)
    (hset : ∀ a ∈ l, a.Active originated → a.pfx ≠ p) (hclear : ∀ a ∈ l, ¬ a.Replaces originated p) :
    (l.foldl (addAggregate originated) out)[p]? = out[p]? := by
  induction l using List.reverseRecOn with
  | nil => rfl
  | append_singleton l b ih =>
    rw [List.foldl_append, List.foldl_cons, List.foldl_nil,
      getElem?_addAggregate_of_other (fun hact => (hset b (by simp) hact).symm) (hclear b (by simp))]
    exact ih (fun a ha => hset a (by simp [ha])) fun a ha => hclear a (by simp [ha])

/-- What is to be advertised for a network: the route of an active aggregate, or its own unless an aggregate
stands for it. -/
inductive Summarised (originated : BTreeMap Prefix OriginEntry) (aggregates : List Aggregate) (p : Prefix) :
    OriginRoute → Prop
  | aggregate (a : Aggregate) (ha : a ∈ aggregates) (hact : a.Active originated) (hp : a.pfx = p) :
    Summarised originated aggregates p ⟨p, [], [], [], true⟩
  | own (e : OriginEntry) (he : originated[p]? = some e)
    (hset : ∀ a ∈ aggregates, a.Active originated → a.pfx ≠ p)
    (hclear : ∀ a ∈ aggregates, a.Active originated → a.summaryOnly = true → covers a.pfx p = false) :
    Summarised originated aggregates p (e.route p)

/-- An active aggregate whose own network is originated, inside one that leaves only itself. -/
def Nested (originated : BTreeMap Prefix OriginEntry) (aggregates : List Aggregate) : Prop :=
  ∃ a ∈ aggregates, ∃ b ∈ aggregates, a.Active originated ∧ b.Replaces originated a.pfx

theorem summarised_iff {aggregates : List Aggregate} (h : ¬ Nested originated aggregates) (p : Prefix)
    (r : OriginRoute) :
    (effectiveOrigination originated aggregates)[p]? = some r ↔ Summarised originated aggregates p r := by
  unfold effectiveOrigination
  by_cases hset : ∃ a ∈ aggregates, a.Active originated ∧ a.pfx = p
  · obtain ⟨a, ha, hact, rfl⟩ := hset
    rw [getElem?_foldl_of_active _ ⟨a, ha, hact, rfl⟩ fun b hb hrep => h ⟨a, ha, b, hb, hact, hrep⟩,
      Option.some.injEq]
    constructor
    · rintro rfl
      exact .aggregate a ha hact rfl
    · rintro (_ | ⟨e, -, hset, -⟩)
      · rfl
      · exact absurd rfl (hset a ha hact)
  · have hset' : ∀ a ∈ aggregates, a.Active originated → a.pfx ≠ p :=
      fun a ha hact heq => hset ⟨a, ha, hact, heq⟩
    by_cases hclear : ∃ a ∈ aggregates, a.Replaces originated p
    · rw [getElem?_foldl_of_replaces _ hset' hclear]
      refine iff_of_false (by simp) ?_
      obtain ⟨b, hb, hrep⟩ := hclear
      rintro (⟨a, ha, hact, hp⟩ | ⟨e, -, -, hclear⟩)
      · exact hset' a ha hact hp
      · have hcovers := hclear b hb hrep.active hrep.1
        rw [hrep.2.2] at hcovers
        cases hcovers
    · have hclear' : ∀ a ∈ aggregates, ¬ a.Replaces originated p := fun a ha hrep => hclear ⟨a, ha, hrep⟩
      rw [getElem?_foldl_of_other _ hset' hclear', Std.ExtTreeMap.getElem?_map, Option.map_eq_some_iff]
      constructor
      · rintro ⟨e, he, rfl⟩
        refine .own e he hset' ?_
        intro a ha _ hsummary
        by_contra hcovers
        refine hclear' a ha ⟨hsummary, ?_, by simpa using hcovers⟩
        rw [Std.ExtTreeMap.mem_iff_isSome_getElem?, he]
        rfl
      · rintro (⟨a, ha, hact, hp⟩ | ⟨e, he, -, -⟩)
        · exact absurd hp (hset' a ha hact)
        · exact ⟨e, he, rfl⟩

/-- The order of the aggregates matters exactly if one is nested in another. -/
theorem effectiveOrigination_perm_iff {aggregates : List Aggregate} :
    (∀ l, aggregates.Perm l → effectiveOrigination originated l = effectiveOrigination originated aggregates) ↔
      ¬ Nested originated aggregates := by
  constructor
  · rintro h ⟨a, ha, b, hb, hact, hrep⟩
    have hlast : ∀ c ∈ aggregates, effectiveOrigination originated aggregates =
        addAggregate originated (effectiveOrigination originated (aggregates.erase c)) c := by
      intro c hc
      have hperm : aggregates.Perm (aggregates.erase c ++ [c]) :=
        (List.perm_cons_erase hc).trans (List.perm_append_singleton c _).symm
      rw [← h _ hperm, effectiveOrigination, List.foldl_append]
      rfl
    have hadv : (effectiveOrigination originated aggregates)[a.pfx]? = some a.route := by
      rw [hlast a ha]
      exact getElem?_addAggregate_self hact
    rw [hlast b hb, getElem?_addAggregate_of_replaces hrep] at hadv
    cases hadv
  · intro h l hl
    have hl' : ¬ Nested originated l := by
      rintro ⟨a, ha, b, hb, hnested⟩
      exact h ⟨a, hl.mem_iff.mpr ha, b, hl.mem_iff.mpr hb, hnested⟩
    have hsame : ∀ p r, Summarised originated l p r ↔ Summarised originated aggregates p r := by
      intro p r
      constructor
      · rintro (⟨a, ha, hact, hp⟩ | ⟨e, he, hset, hclear⟩)
        · exact .aggregate a (hl.mem_iff.mpr ha) hact hp
        · exact .own e he (fun a ha => hset a (hl.mem_iff.mp ha)) fun a ha => hclear a (hl.mem_iff.mp ha)
      · rintro (⟨a, ha, hact, hp⟩ | ⟨e, he, hset, hclear⟩)
        · exact .aggregate a (hl.mem_iff.mp ha) hact hp
        · exact .own e he (fun a ha => hset a (hl.mem_iff.mpr ha)) fun a ha => hclear a (hl.mem_iff.mpr ha)
    apply Std.ExtTreeMap.ext_getElem?
    intro p
    apply Option.ext
    intro r
    rw [summarised_iff hl', summarised_iff h, hsame]

/-! ### Redistribution -/

/-- What a command says of the originated routes. -/
def originDeltas : SessionCmd → List (Delta Prefix OriginRoute)
  | .advertise routes => routes.map fun r => ⟨r.pfx, some r⟩
  | .withdraw prefixes => prefixes.map fun p => ⟨p, none⟩
  | _ => []

namespace Central

/-- The commands that a message makes the task push to every session. -/
def pushed (s : Central) (r : Redistribution) : List SessionCmd :=
  (s.redistributed r).elim [] fun originated => s.originationCmds (effectiveOrigination originated s.aggregates)

theorem applyRedistribution_sessions (s : Central) (r : Redistribution) (q : IpAddr) :
    (s.applyRedistribution r).sessions[q]? = (s.sessions[q]?).map fun h => h.push (s.pushed r) := by
  unfold applyRedistribution pushed
  cases s.redistributed r with
  | none => cases s.sessions[q]? <;> simp [SessionHandle.push]
  | some originated => simp [fanout]

theorem applyRedistribution_aggregates (s : Central) (r : Redistribution) :
    (s.applyRedistribution r).aggregates = s.aggregates := by
  unfold applyRedistribution
  cases s.redistributed r <;> rfl

theorem applyRedistribution_advertised {s : Central}
    (h : s.advertised = effectiveOrigination s.originated s.aggregates) (r : Redistribution) :
    (s.applyRedistribution r).advertised =
      effectiveOrigination (s.applyRedistribution r).originated s.aggregates := by
  unfold applyRedistribution
  cases s.redistributed r with
  | none => exact h
  | some originated => rfl

/-- The commands take what was advertised before to what is advertised now. -/
theorem replay_originationCmds (s : Central) {next : BTreeMap Prefix OriginRoute} (hk : Keyed next) :
    replay (fun p => s.advertised[p]?) ((s.originationCmds next).flatMap originDeltas) = fun p => next[p]? := by
  have hcmds : (s.originationCmds next).flatMap originDeltas =
      (s.changed next).map (fun r => ⟨r.pfx, some r⟩) ++ (s.retired next).map fun p => ⟨p, none⟩ := by
    unfold originationCmds
    split_ifs with h₁ h₂ h₂ <;> simp [h₁, h₂, originDeltas]
  have hset : (s.changed next).map (fun r => (⟨r.pfx, some r⟩ : Delta Prefix OriginRoute)) =
      next.toList.filterMap fun e =>
        (if s.advertised[e.2.pfx]? ≠ some e.2 then some e.2 else none).map fun r => ⟨e.1, some r⟩ := by
    rw [changed, ← List.filterMap_eq_map, List.filter_map, List.filterMap_map, List.filterMap_filter]
    refine List.filterMap_congr ?_
    intro e he
    have hpfx := hk e.1 e.2 (Std.ExtTreeMap.mem_toList_iff_getElem?_eq_some.mp he)
    by_cases hold : s.advertised[e.1]? = some e.2 <;> simp [hold, hpfx]
  funext p
  rw [hcmds, replay_append, replay_clear, hset, replay_filterMap _ Prod.fst _ (nodup_keys_toList next), find?_toList]
  by_cases hret : p ∈ s.retired next
  · rw [if_pos hret]
    exact (Std.ExtTreeMap.getElem?_eq_none (mem_retired.mp hret).2).symm
  · rw [if_neg hret]
    cases hnext : next[p]? with
    | none =>
      have hnot : p ∉ next := by
        rw [Std.ExtTreeMap.mem_iff_isSome_getElem?, hnext]
        exact Bool.false_ne_true
      have hold : p ∉ s.advertised := fun hmem => hret (mem_retired.mpr ⟨hmem, hnot⟩)
      exact Std.ExtTreeMap.getElem?_eq_none hold
    | some r =>
      have hpfx := hk p r hnext
      by_cases hold : s.advertised[p]? = some r
      · simp [hpfx, hold]
      · simp [hpfx, hold]

/-- A configured network keeps its entry. -/
theorem applyRedistribution_configured {s : Central} {p : Prefix} {e : OriginEntry} (h : s.originated[p]? = some e)
    (hconf : e.configured = true) (r : Redistribution) : (s.applyRedistribution r).originated[p]? = some e := by
  unfold applyRedistribution
  cases hr : s.redistributed r with
  | none => exact h
  | some originated =>
    change originated[p]? = some e
    cases r with
    | announce route =>
      have hne : p = route.pfx → False := by
        rintro rfl
        simp [redistributed, h, hconf] at hr
      have hins : ∃ v, originated = s.originated.insert route.pfx v := by
        simp only [redistributed] at hr
        split at hr
        · split_ifs at hr
          exact ⟨_, (Option.some.inj hr).symm⟩
        · exact ⟨_, (Option.some.inj hr).symm⟩
      obtain ⟨v, rfl⟩ := hins
      rw [getElem?_insert, if_neg hne, h]
    | withdraw x =>
      have hne : p ≠ x := by
        rintro rfl
        simp [redistributed, h, hconf] at hr
      simp only [redistributed] at hr
      split_ifs at hr
      rw [← Option.some.inj hr, getElem?_erase, if_neg hne, h]

/-- After any messages a session has been told what is advertised now, and no configured network has changed. -/
structure KeptInformed (originated : BTreeMap Prefix OriginEntry) (aggregates : List Aggregate) : Prop where
  commands : ∀ (s : Central) (rs : List Redistribution) (q : IpAddr) (hd : SessionHandle),
    s.originated = originated → s.aggregates = aggregates →
    s.advertised = effectiveOrigination originated aggregates → s.sessions[q]? = some hd →
    ∃ cmds, (rs.foldl applyRedistribution s).sessions[q]? = some (hd.push cmds) ∧
      replay (fun p => s.advertised[p]?) (cmds.flatMap originDeltas) = fun p =>
        (effectiveOrigination (rs.foldl applyRedistribution s).originated aggregates)[p]?
  configured : ∀ (s : Central) (rs : List Redistribution) (p : Prefix) (e : OriginEntry),
    s.originated = originated → originated[p]? = some e → e.configured = true →
    (rs.foldl applyRedistribution s).originated[p]? = some e

theorem replay_pushed (s : Central) (rs : List Redistribution) :
    replay (fun p => s.advertised[p]?) ((log applyRedistribution pushed s rs).flatMap originDeltas) =
      fun p => (rs.foldl applyRedistribution s).advertised[p]? := by
  induction rs generalizing s with
  | nil => rfl
  | cons r rs ih =>
    have hone : replay (fun p => s.advertised[p]?) ((s.pushed r).flatMap originDeltas) =
        fun p => (s.applyRedistribution r).advertised[p]? := by
      unfold pushed applyRedistribution
      cases s.redistributed r with
      | none => rfl
      | some originated => exact s.replay_originationCmds (keyed_effectiveOrigination originated s.aggregates)
    rw [log, List.flatMap_append, replay_append, hone, ih, List.foldl_cons]

theorem sessions_foldl_applyRedistribution (s : Central) (rs : List Redistribution) (q : IpAddr) :
    (rs.foldl applyRedistribution s).sessions[q]? =
      (s.sessions[q]?).map fun h => h.push (log applyRedistribution pushed s rs) := by
  induction rs generalizing s with
  | nil =>
    have hsame : (fun h : SessionHandle => h.push []) = id := by
      funext h
      simp [SessionHandle.push]
    rw [log, hsame, Option.map_id]
    rfl
  | cons r rs ih =>
    rw [List.foldl_cons, ih, applyRedistribution_sessions, Option.map_map]
    cases s.sessions[q]? <;> simp [log, SessionHandle.push]

theorem advertised_foldl_applyRedistribution {s : Central}
    (h : s.advertised = effectiveOrigination s.originated s.aggregates) (rs : List Redistribution) :
    (rs.foldl applyRedistribution s).advertised =
      effectiveOrigination (rs.foldl applyRedistribution s).originated s.aggregates := by
  induction rs generalizing s with
  | nil => exact h
  | cons r rs ih =>
    have hagg := s.applyRedistribution_aggregates r
    have hone := applyRedistribution_advertised h r
    rw [← hagg] at hone ⊢
    exact ih hone

theorem keptInformed (originated : BTreeMap Prefix OriginEntry) (aggregates : List Aggregate) :
    KeptInformed originated aggregates where
  commands := by
    rintro s rs q hd rfl rfl hadv hq
    refine ⟨log applyRedistribution pushed s rs, ?_, ?_⟩
    · rw [sessions_foldl_applyRedistribution, hq]
      rfl
    · rw [replay_pushed, advertised_foldl_applyRedistribution hadv]
  configured := by
    rintro s rs p e rfl he hconf
    induction rs generalizing s with
    | nil => exact he
    | cons r rs ih => exact ih _ (applyRedistribution_configured he hconf r)

end Central

/-- The advertised routes are those of the aggregates and of what these leave, in whatever order they are
listed, and sessions are kept up to date about them. -/
structure Aggregates (originated : BTreeMap Prefix OriginEntry) (aggregates : List Aggregate) : Prop where
  exact : ∀ p r, (effectiveOrigination originated aggregates)[p]? = some r ↔
    Summarised originated aggregates p r
  anyOrder : ∀ l, aggregates.Perm l →
    effectiveOrigination originated l = effectiveOrigination originated aggregates
  informed : Central.KeptInformed originated aggregates

/-- Aggregation is exact unless an active aggregate that is also originated lies inside one that leaves only
itself. -/
theorem aggregates_iff (originated : BTreeMap Prefix OriginEntry) (aggregates : List Aggregate) :
    Aggregates originated aggregates ↔ ¬ Nested originated aggregates := by
  constructor
  · intro h
    exact effectiveOrigination_perm_iff.mp h.anyOrder
  · intro h
    exact ⟨summarised_iff h, effectiveOrigination_perm_iff.mpr h, Central.keptInformed originated aggregates⟩

namespace Sample

def net10_1 : Prefix := ⟨.v4 0x0a010000, 16, by decide, by decide⟩
def net10_1_1 : Prefix := ⟨.v4 0x0a010100, 24, by decide, by decide⟩

/-- 10.1.0.0/16 and 10.1.1.0/24, both configured. -/
def inside : BTreeMap Prefix OriginEntry :=
  ((∅ : BTreeMap Prefix OriginEntry).insert net10_1 ⟨[], [], [], true⟩).insert net10_1_1 ⟨[], [], [], true⟩

end Sample

/-- The inner aggregate comes first, and the outer one takes its route away again. -/
theorem not_forall_aggregates : ¬ ∀ (originated : BTreeMap Prefix OriginEntry) (aggregates : List Aggregate),
    (aggregates.map Aggregate.pfx).Nodup → Aggregates originated aggregates := by
  intro h
  let inner : Aggregate := ⟨Sample.net10_1, false⟩
  let outer : Aggregate := ⟨Sample.net10, true⟩
  have hagg := h Sample.inside [inner, outer] (by decide)
  have hin : ∀ p, p ∈ Sample.inside ↔ Sample.net10_1_1 = p ∨ Sample.net10_1 = p := by
    simp [Sample.inside]
  have hact : inner.Active Sample.inside := ⟨Sample.net10_1_1, (hin _).mpr (.inl rfl), by decide⟩
  have hrep : outer.Replaces Sample.inside Sample.net10_1 := ⟨rfl, (hin _).mpr (.inr rfl), by decide⟩
  have hsome := (hagg.exact Sample.net10_1 _).mpr (.aggregate inner (by simp) hact rfl)
  rw [effectiveOrigination, List.foldl_cons, List.foldl_cons, List.foldl_nil,
    getElem?_addAggregate_of_replaces hrep] at hsome
  cases hsome

end Wren.Daemon.Bgp
