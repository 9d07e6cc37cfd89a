import Wren.Daemon.Ospf.Stages
import Wren.Lib.Run
import Wren.Ospf.ShortestPaths

/-! The books of own LSAs list own LSAs, and so the task never touches an LSA of another router but to install a newer
instance of it, or to age it. -/

namespace Wren.Daemon
open Wren.Core Wren.Ospf OrdMap

namespace Ospf

/-- The key of an LSA of this type that the router originates. -/
def Own (rid : Ipv4Addr) (t : LsType) (k : LsaKey) : Prop := k.1 = t ∧ k.2.2 = rid

def routerKey (s : Ospf) : LsaKey := (.router, s.cfg.routerId, s.cfg.routerId)

structure Area.Booked (rid : Ipv4Addr) (a : Area) : Prop where
  networks : ∀ k ∈ a.originatedNetworks, Own rid .network k
  summaries : ∀ k ∈ a.originatedSummaries, Own rid .summaryNetwork k
  nssa : ∀ k ∈ a.originatedNssa, Own rid .nssa k

/-- The books list own LSAs, each those of its kind. -/
structure Booked (s : Ospf) : Prop where
  areas : ∀ (area : Ipv4Addr) (a : Area), s.areas[area]? = some a → a.Booked s.cfg.routerId
  externals : ∀ k ∈ s.originatedExternals, Own s.cfg.routerId .asExternal k
  translated : ∀ k ∈ s.originatedTranslated, Own s.cfg.routerId .asExternal k

section Keys
variable (s : Ospf)

theorem own_networkLsas (area : Ipv4Addr) : ∀ l ∈ s.networkLsas area, Own s.cfg.routerId .network l.key := by
  intro l hl
  obtain ⟨i, -, hbuild⟩ := List.mem_filterMap.mp hl
  unfold buildNetworkLsa at hbuild
  split at hbuild
  · cases hbuild
  · dsimp only at hbuild
    split at hbuild
    · cases hbuild
    · cases hbuild
      exact ⟨rfl, rfl⟩

theorem own_externalLsas (t : LsType) (options : UInt8) :
    ∀ l ∈ s.externalLsas t options, Own s.cfg.routerId t l.key := by
  intro l hl
  obtain ⟨e, -, hbuild⟩ := List.mem_filterMap.mp hl
  split at hbuild
  · cases hbuild
    exact ⟨rfl, rfl⟩
  · cases hbuild

theorem own_summaryLsas (want : BTreeMap Prefix UInt32) (area : Ipv4Addr) :
    ∀ l ∈ s.summaryLsas want area, Own s.cfg.routerId .summaryNetwork l.key := by
  intro l hl
  obtain ⟨e, -, rfl⟩ := List.mem_map.mp hl
  exact ⟨rfl, rfl⟩

theorem own_translatedLsas : ∀ l ∈ s.translatedLsas, Own s.cfg.routerId .asExternal l.key := by
  intro l hl
  obtain ⟨seven, -, hbuild⟩ := List.mem_filterMap.mp hl
  unfold translate at hbuild
  split at hbuild
  · cases hbuild
    exact ⟨rfl, rfl⟩
  · cases hbuild

theorem own_nssaDefaultLsa : Own s.cfg.routerId .nssa s.nssaDefaultLsa.key := ⟨rfl, rfl⟩

/-- What holds of the keys of a list holds of a book of it. -/
theorem forall_keySet {P : LsaKey → Prop} {lsas : List Lsa} (h : ∀ l ∈ lsas, P l.key) : ∀ k ∈ keySet lsas, P k := by
  intro k hk
  obtain ⟨l, hl, rfl⟩ := mem_keySet.mp hk
  exact h l hl

end Keys

section Booked
variable {s t : Ospf}

theorem SameCore.booked (h : SameCore s t) (hs : Booked s) : Booked t where
  areas := by
    rw [h.areas, h.cfg]
    exact hs.areas
  externals := by
    rw [h.originatedExternals, h.cfg]
    exact hs.externals
  translated := by
    rw [h.originatedTranslated, h.cfg]
    exact hs.translated

theorem Booked.modifyAreas (h : Booked s) (area : Ipv4Addr) {f : Area → Area}
    (hf : ∀ a : Area, s.areas[area]? = some a → a.Booked s.cfg.routerId → (f a).Booked s.cfg.routerId) (seqs : Seqs) :
    Booked { s with lsaSeqs := seqs, areas := s.areas.modify area f } where
  areas := by
    intro b a ha
    rw [getElem?_modify] at ha
    split_ifs at ha with hb
    · obtain ⟨a', ha', rfl⟩ := Option.map_eq_some_iff.mp ha
      subst hb
      exact hf a' ha' (h.areas b a' ha')
    · exact h.areas b a ha
  externals := h.externals
  translated := h.translated

theorem Booked.areaPass (h : Booked s) (area : Ipv4Addr) (lsas : List Lsa) (retired : List LsaKey) {note : Area → Area}
    (hnote : ∀ a : Area, a.Booked s.cfg.routerId → (note a).Booked s.cfg.routerId) :
    Booked (s.areaPass area lsas retired note) := by
  refine (sameCore_areaPass s area lsas retired note).booked (h.modifyAreas area ?_ _)
  intro a _ ha
  exact hnote _ ⟨ha.networks, ha.summaries, ha.nssa⟩

/-- What holds of the books of all areas holds of what a pass takes for the book of its area. -/
theorem Booked.forall_book (h : Booked s) {book : Area → List LsaKey} {P : LsaKey → Prop}
    (hbook : ∀ a : Area, a.Booked s.cfg.routerId → ∀ k ∈ book a, P k) (area : Ipv4Addr) :
    ∀ k ∈ ((s.areas[area]?).map book).getD [], P k := by
  intro k hk
  cases ha : s.areas[area]? with
  | none => simp [ha] at hk
  | some a =>
    rw [ha] at hk
    exact hbook a (h.areas area a ha) k hk

end Booked

/-! ### What a stage touches -/

/-- Only LSAs with these keys differ, and their sequence numbers. -/
structure Differ (K : Ipv4Addr → LsaKey → Prop) (s t : Ospf) : Prop where
  area : ∀ area k, ¬ K area k → (t.areaLsdb area).get k = (s.areaLsdb area).get k
  external : ∀ k, ¬ K asScope k → t.externalLsdb.get k = s.externalLsdb.get k
  nextSeq : ∀ scope k, ¬ K scope k → nextSeq t.lsaSeqs scope k = nextSeq s.lsaSeqs scope k

section Differ
variable {K : Ipv4Addr → LsaKey → Prop} {s t u : Ospf}

theorem Differ.refl (K : Ipv4Addr → LsaKey → Prop) (s : Ospf) : Differ K s s :=
  ⟨fun _ _ _ => rfl, fun _ _ => rfl, fun _ _ _ => rfl⟩

theorem Differ.trans (h : Differ K s t) (h' : Differ K t u) : Differ K s u where
  area a k hk := (h'.area a k hk).trans (h.area a k hk)
  external k hk := (h'.external k hk).trans (h.external k hk)
  nextSeq scope k hk := (h'.nextSeq scope k hk).trans (h.nextSeq scope k hk)

theorem Differ.mono {K' : Ipv4Addr → LsaKey → Prop} (h : Differ K s t) (hK : ∀ scope k, K scope k → K' scope k) :
    Differ K' s t where
  area a k hk := h.area a k fun hno => hk (hK a k hno)
  external k hk := h.external k fun hno => hk (hK asScope k hno)
  nextSeq scope k hk := h.nextSeq scope k fun hno => hk (hK scope k hno)

theorem SameCore.differ (h : SameCore s t) : Differ K s t where
  area a k _ := by rw [h.areaLsdb]
  external k _ := by rw [h.externalLsdb]
  nextSeq scope k _ := by rw [h.lsaSeqs]

variable (s) in
theorem areaLsdb_areaPass (area : Ipv4Addr) (lsas : List Lsa) (retired : List LsaKey) {note : Area → Area}
    (hnote : ∀ a : Area, (note a).lsdb = a.lsdb) (b : Ipv4Addr) :
    (s.areaPass area lsas retired note).areaLsdb b =
      if b = area ∧ area ∈ s.areas then (Pass.run area ⟨s.areaLsdb area, s.lsaSeqs, []⟩ lsas retired).lsdb
      else s.areaLsdb b := by
  rw [(sameCore_areaPass s area lsas retired note).areaLsdb]
  unfold areaLsdb
  rw [getElem?_modify]
  by_cases hb : b = area
  · subst hb
    rw [if_pos rfl]
    cases ha : s.areas[b]? with
    | none =>
      have hnot : ¬ (b = b ∧ b ∈ s.areas) := by
        rw [Std.ExtTreeMap.mem_iff_isSome_getElem?, ha]
        simp
      rw [if_neg hnot, Option.map_none]
    | some a =>
      have hin : b = b ∧ b ∈ s.areas := by
        rw [Std.ExtTreeMap.mem_iff_isSome_getElem?, ha]
        simp
      rw [if_pos hin, Option.map_some, Option.map_some, Option.getD_some, hnote]
  · rw [if_neg hb, if_neg (fun h => hb h.1)]

theorem lsaSeqs_areaPass (s : Ospf) (area : Ipv4Addr) (lsas : List Lsa) (retired : List LsaKey) (note : Area → Area) :
    (s.areaPass area lsas retired note).lsaSeqs =
      (Pass.run area ⟨s.areaLsdb area, s.lsaSeqs, []⟩ lsas retired).seqs :=
  (sameCore_areaPass s area lsas retired note).lsaSeqs

theorem differ_areaPass (s : Ospf) (area : Ipv4Addr) {lsas : List Lsa} {retired : List LsaKey} {note : Area → Area}
    {K : LsaKey → Prop} (hlsas : ∀ l ∈ lsas, K l.key) (hretired : ∀ k ∈ retired, K k)
    (hnote : ∀ a : Area, (note a).lsdb = a.lsdb) :
    Differ (fun scope k => scope = area ∧ K k) s (s.areaPass area lsas retired note) := by
  have hrun : Pass.Unchanged area K _ _ := Pass.unchanged_run hlsas hretired ⟨s.areaLsdb area, s.lsaSeqs, []⟩
  refine ⟨?_, ?_, ?_⟩
  · intro b k hk
    rw [areaLsdb_areaPass s area lsas retired hnote]
    split_ifs with hb
    · obtain ⟨rfl, -⟩ := hb
      exact hrun.get k fun h => hk ⟨rfl, h⟩
    · rfl
  · intro k _
    rw [(sameCore_areaPass s area lsas retired note).externalLsdb]
  · intro scope k hk
    rw [lsaSeqs_areaPass]
    exact hrun.nextSeq scope k hk

variable (s) in
theorem externalLsdb_externalPass (lsas : List Lsa) (retired : List LsaKey) {note : Ospf → Ospf}
    (hnote : ∀ t, (note t).externalLsdb = t.externalLsdb) : (s.externalPass lsas retired note).externalLsdb =
      (Pass.run asScope ⟨s.externalLsdb, s.lsaSeqs, []⟩ lsas retired).lsdb :=
  (sameCore_externalPass s lsas retired note).externalLsdb.trans (hnote _)

variable (s) in
theorem lsaSeqs_externalPass (lsas : List Lsa) (retired : List LsaKey) {note : Ospf → Ospf}
    (hnote : ∀ t, (note t).lsaSeqs = t.lsaSeqs) : (s.externalPass lsas retired note).lsaSeqs =
      (Pass.run asScope ⟨s.externalLsdb, s.lsaSeqs, []⟩ lsas retired).seqs :=
  (sameCore_externalPass s lsas retired note).lsaSeqs.trans (hnote _)

theorem differ_externalPass (s : Ospf) {lsas : List Lsa} {retired : List LsaKey} {note : Ospf → Ospf}
    {K : LsaKey → Prop} (hlsas : ∀ l ∈ lsas, K l.key) (hretired : ∀ k ∈ retired, K k)
    (hnote : ∀ t, (note t).externalLsdb = t.externalLsdb ∧ (note t).lsaSeqs = t.lsaSeqs ∧ (note t).areas = t.areas) :
    Differ (fun scope k => scope = asScope ∧ K k) s (s.externalPass lsas retired note) := by
  have hrun : Pass.Unchanged asScope K _ _ := Pass.unchanged_run hlsas hretired ⟨s.externalLsdb, s.lsaSeqs, []⟩
  refine ⟨?_, ?_, ?_⟩
  · intro b k _
    unfold areaLsdb
    rw [(sameCore_externalPass s lsas retired note).areas, (hnote _).2.2]
  · intro k hk
    rw [externalLsdb_externalPass s lsas retired fun t => (hnote t).1]
    exact hrun.get k fun h => hk ⟨rfl, h⟩
  · intro scope k hk
    rw [lsaSeqs_externalPass s lsas retired fun t => (hnote t).2.1]
    exact hrun.nextSeq scope k hk

/-- A pass in each of some areas, over LSAs with these keys. -/
theorem differ_areaFold (hs : Booked s) {f : Ospf → Ipv4Addr → Ospf} {K : LsaKey → Prop} (areas : List Ipv4Addr)
    (hf : ∀ t area, t.cfg = s.cfg → Booked t → ∃ lsas retired note, f t area = t.areaPass area lsas retired note ∧
      (∀ l ∈ lsas, K l.key) ∧ (∀ k ∈ retired, K k) ∧ (∀ a : Area, (note a).lsdb = a.lsdb) ∧
      ∀ a : Area, a.Booked s.cfg.routerId → (note a).Booked s.cfg.routerId) :
    Booked (areas.foldl f s) ∧ Differ (fun _ k => K k) s (areas.foldl f s) := by
  have hall : (areas.foldl f s).cfg = s.cfg ∧ Booked (areas.foldl f s) ∧ Differ (fun _ k => K k) s (areas.foldl f s) := by
    have hstart : s.cfg = s.cfg ∧ Booked s ∧ Differ (fun _ k => K k) s s := ⟨rfl, hs, .refl _ s⟩
    refine List.foldlRecOn areas f (motive := fun t => t.cfg = s.cfg ∧ Booked t ∧ Differ (fun _ k => K k) s t) hstart ?_
    rintro t ⟨hcfg, hbooked, hdiffer⟩ area _
    obtain ⟨lsas, retired, note, heq, hlsas, hretired, hlsdb, hnote⟩ := hf t area hcfg hbooked
    rw [heq]
    refine ⟨(Steady.areaPass t area _ _ _).cfg.trans hcfg, hbooked.areaPass area _ _ ?_, hdiffer.trans ?_⟩
    · rw [hcfg]
      exact hnote
    · exact (differ_areaPass t area hlsas hretired hlsdb).mono fun _ _ h => h.2
  exact hall.2

end Differ

section Stage
variable {s t : Ospf} (hs : Booked s)
include hs

theorem differ_routers (areas : List Ipv4Addr) : Booked (areas.foldl reoriginateInto s) ∧
    Differ (fun _ k => k = s.routerKey ∨ Own s.cfg.routerId .network k) s
      (areas.foldl reoriginateInto s) := by
  refine differ_areaFold hs areas ?_
  intro t area hcfg hbooked
  have hnetworks := own_networkLsas t area
  rw [hcfg] at hnetworks
  refine ⟨_, _, fun a => { a with originatedNetworks := keySet (t.networkLsas area) }, rfl, ?_, ?_, fun _ => rfl, ?_⟩
  · intro l hl
    rcases List.mem_cons.mp hl with rfl | hl
    · refine .inl ?_
      rw [routerKey, ← hcfg]
      rfl
    · exact .inr (hnetworks l hl)
  · intro k hk
    refine .inr (hcfg ▸ hbooked.forall_book (P := Own t.cfg.routerId .network) ?_ area k (List.mem_of_mem_filter hk))
    exact fun a ha => ha.networks
  · exact fun a ha => ⟨forall_keySet hnetworks, ha.summaries, ha.nssa⟩

theorem differ_nssa (areas : List Ipv4Addr) : Booked (areas.foldl originateNssaInto s) ∧
    Differ (fun _ => Own s.cfg.routerId .nssa) s (areas.foldl originateNssaInto s) := by
  refine differ_areaFold hs areas ?_
  intro t area hcfg hbooked
  have hlsas := own_externalLsas t .nssa optNp
  rw [hcfg] at hlsas
  refine ⟨_, _, fun a => { a with originatedNssa := keySet (t.externalLsas .nssa optNp) }, rfl, hlsas, ?_, fun _ => rfl, ?_⟩
  · intro k hk
    refine hcfg ▸ hbooked.forall_book (P := Own t.cfg.routerId .nssa) ?_ area k (List.mem_of_mem_filter hk)
    exact fun a ha => ha.nssa
  · exact fun a ha => ⟨ha.networks, ha.summaries, forall_keySet hlsas⟩

theorem differ_summaries (want : Ipv4Addr → BTreeMap Prefix UInt32) (areas : List Ipv4Addr) :
    Booked (areas.foldl (originateSummariesInto want) s) ∧
      Differ (fun _ => Own s.cfg.routerId .summaryNetwork) s (areas.foldl (originateSummariesInto want) s) := by
  refine differ_areaFold hs areas ?_
  intro t area hcfg hbooked
  have hlsas := own_summaryLsas t (want area) area
  rw [hcfg] at hlsas
  refine ⟨_, _, fun a => { a with originatedSummaries := keySet (t.summaryLsas (want area) area) }, rfl, hlsas, ?_, fun _ => rfl, ?_⟩
  · intro k hk
    refine hcfg ▸ hbooked.forall_book (P := Own t.cfg.routerId .summaryNetwork) ?_ area k (List.mem_of_mem_filter hk)
    exact fun a ha => ha.summaries
  · exact fun a ha => ⟨ha.networks, forall_keySet hlsas, ha.nssa⟩

theorem differ_nssaDefault : Booked s.originateNssaDefault ∧
    Differ (fun _ => Own s.cfg.routerId .nssa) s s.originateNssaDefault := by
  refine differ_areaFold hs _ ?_
  intro t area hcfg _
  refine ⟨_, _, _, rfl, ?_, fun k hk => by simp at hk, fun _ => rfl, fun a ha => ha⟩
  intro l hl
  obtain rfl := List.mem_singleton.mp hl
  exact ⟨rfl, congrArg OspfConfig.routerId hcfg⟩

theorem differ_externals : Booked s.originateAsExternals ∧
    Differ (fun scope k => scope = asScope ∧ Own s.cfg.routerId .asExternal k) s s.originateAsExternals := by
  constructor
  · refine (sameCore_externalPass s _ _ _).booked ?_
    exact ⟨hs.areas, forall_keySet (own_externalLsas s _ _), hs.translated⟩
  · refine differ_externalPass s (own_externalLsas s _ _) ?_ fun _ => ⟨rfl, rfl, rfl⟩
    exact fun k hk => hs.externals k (List.mem_of_mem_filter hk)

theorem differ_translated : Booked s.translateNssa ∧
    Differ (fun scope k => scope = asScope ∧ Own s.cfg.routerId .asExternal k) s s.translateNssa := by
  simp only [translateNssa]
  constructor
  · refine (sameCore_externalPass s _ _ _).booked ?_
    exact ⟨hs.areas, hs.externals, forall_keySet (own_translatedLsas s)⟩
  · refine differ_externalPass s (own_translatedLsas s) ?_ fun _ => ⟨rfl, rfl, rfl⟩
    exact fun k hk => hs.translated k (List.mem_of_mem_filter hk)

end Stage

theorem Stage.booked {s t : Ospf} (h : Stage s t) (hs : Booked s) : Booked t := by
  cases h with
  | routers => exact (differ_routers hs _).1
  | externals => exact (differ_externals hs).1
  | nssa => exact (differ_nssa hs _).1
  | summaries => exact (differ_summaries hs _ _).1
  | nssaDefault => exact (differ_nssaDefault hs).1
  | translated => exact (differ_translated hs).1

/-- What the router originates carries its Router ID. -/
theorem Stage.differ {s t : Ospf} (h : Stage s t) (hs : Booked s) :
    Differ (fun _ k => k.2.2 = s.cfg.routerId) s t := by
  cases h with
  | routers => exact (differ_routers hs _).2.mono fun _ _ h => h.elim (fun he => by rw [he]; rfl) And.right
  | externals => exact (differ_externals hs).2.mono fun _ _ h => h.2.2
  | nssa => exact (differ_nssa hs _).2.mono fun _ _ h => h.2
  | summaries => exact (differ_summaries hs _ _).2.mono fun _ _ h => h.2
  | nssaDefault => exact (differ_nssaDefault hs).2.mono fun _ _ h => h.2
  | translated => exact (differ_translated hs).2.mono fun _ _ h => h.2.2

/-- The type-7 LSAs of other routers stay as they are. -/
theorem Differ.sevens {s t : Ospf} (h : Differ (fun _ k => k.2.2 = s.cfg.routerId) s t) (hcfg : t.cfg = s.cfg)
    (area : Ipv4Addr) : t.sevens area = s.sevens area := by
  unfold Ospf.sevens
  rw [hcfg]
  refine Lsdb.filter_iterType_congr ?_
  intro k l _ hp
  have hother : l.header.advertisingRouter ≠ s.cfg.routerId := (of_decide_eq_true hp).1
  by_cases hk : k.2.2 = s.cfg.routerId
  · constructor
    · intro hget
      exact absurd ((congrArg (fun k => k.2.2) (Lsdb.get_key hget)).trans hk) hother
    · intro hget
      exact absurd ((congrArg (fun k => k.2.2) (Lsdb.get_key hget)).trans hk) hother
  · rw [h.area area k hk]

theorem Differ.translatedLsas {s t : Ospf} (h : Differ (fun _ k => k.2.2 = s.cfg.routerId) s t) (hsteady : Steady s t) :
    t.translatedLsas = s.translatedLsas := by
  unfold Ospf.translatedLsas nssaAreas
  rw [hsteady.keys, hsteady.cfg]
  have htranslate : t.translate = s.translate := by
    funext seven
    unfold translate selfHeader
    rw [hsteady.cfg]
  rw [htranslate]
  congr 2
  funext area
  exact h.sevens hsteady.cfg area

/-! ### Runs -/

theorem Booked.reclaim {s : Ospf} (h : Booked s) (scope : Ipv4Addr) (lsa : Lsa) : Booked (s.reclaim scope lsa).1 := by
  simp only [Ospf.reclaim]
  split
  · exact (SameCore.floodOn _ _ _ _).booked ⟨h.areas, h.externals, h.translated⟩
  · exact ⟨h.areas, h.externals, h.translated⟩

theorem Booked.installForeign {s : Ospf} (h : Booked s) (scope area : Ipv4Addr) (now : ℕ) (lsa : Lsa) :
    Booked (s.installForeign scope area now lsa) := by
  simp only [Ospf.installForeign]
  split
  · exact ⟨h.areas, h.externals, h.translated⟩
  · have hmodified := h.modifyAreas area (f := fun a => { a with lsdb := (a.lsdb.install lsa).1 })
      (fun a _ ha => ⟨ha.networks, ha.summaries, ha.nssa⟩) s.lsaSeqs
    exact ⟨hmodified.areas, hmodified.externals, hmodified.translated⟩

theorem Read.booked {area : Ipv4Addr} {now : ℕ} {u v : Update} {lsa : Lsa} (h : Read area now u lsa v)
    (hu : Booked u.s) : Booked v.s := by
  cases h with
  | rest hsame => exact hsame.booked hu
  | reclaim t hsame _ _ heq =>
    rw [heq]
    exact (hsame.booked hu).reclaim _ _
  | foreign t hsame _ _ _ _ heq =>
    rw [heq]
    exact (hsame.booked hu).installForeign _ _ _ _

theorem booked_beforeSummaries {s : Ospf} (h : Booked s) (idx : ℕ) (nbrId : Ipv4Addr) (lsas : List Lsa) (now : ℕ) :
    Booked (s.beforeSummaries idx nbrId lsas now) :=
  beforeSummaries_preserves (fun hsame => hsame.booked) (fun hstage => hstage.booked) (fun hread => hread.booked)
    idx nbrId lsas now h

theorem booked_step (s : Ospf) (e : Event) (h : Booked s) : Booked (step s e) := by
  refine step_preserves (fun hsame => hsame.booked) (fun hstage => hstage.booked) (fun hread => hread.booked) ?_ ?_ s e h
  · intro s secs hs
    refine ⟨?_, hs.externals, hs.translated⟩
    intro area a ha
    obtain ⟨a', ha', rfl⟩ := Option.map_eq_some_iff.mp ((Std.ExtTreeMap.getElem?_map ..).symm.trans ha)
    have hbooked := hs.areas area a' ha'
    exact ⟨hbooked.networks, hbooked.summaries, hbooked.nssa⟩
  · intro s externals hs
    exact ⟨hs.areas, hs.externals, hs.translated⟩

/-- The task before it has originated anything. -/
def blank (cfg : OspfConfig) (links : List Link) (redistribute : BTreeMap Prefix UInt32) : Ospf where
  cfg
  ifaces := links.map (startIface cfg)
  areas := links.foldl (fun m l => m.insert l.area .new) ∅
  externalLsdb := .new
  externals := redistribute
  originatedExternals := []
  originatedTranslated := []
  lsaSeqs := ∅
  lsaInstalledAt := ∅
  nextDdSeq := 0x01000000
  helping := ∅
  sent := []

section Blank
variable (cfg : OspfConfig) (links : List Link) (redistribute : BTreeMap Prefix UInt32)

theorem start_eq : start cfg links redistribute = (blank cfg links redistribute).refresh := rfl

theorem areas_blank {area : Ipv4Addr} {a : Area} (h : (blank cfg links redistribute).areas[area]? = some a) : a = .new := by
  have hnew : ∀ (l : List Link) (m : BTreeMap Ipv4Addr Area),
      (∀ (area : Ipv4Addr) (a : Area), m[area]? = some a → a = .new) →
      ∀ (area : Ipv4Addr) (a : Area), (l.foldl (fun m l => m.insert l.area .new) m)[area]? = some a → a = .new := by
    intro l
    induction l with
    | nil => exact fun m h => h
    | cons link l ih =>
      intro m h
      refine ih _ ?_
      intro area a ha
      rw [getElem?_insert] at ha
      split_ifs at ha
      · exact (Option.some.inj ha).symm
      · exact h area a ha
  exact hnew links ∅ (by simp) area a h

theorem areaLsdb_blank (area : Ipv4Addr) : (blank cfg links redistribute).areaLsdb area = .new := by
  unfold areaLsdb
  cases ha : (blank cfg links redistribute).areas[area]? with
  | none => rfl
  | some a => rw [areas_blank cfg links redistribute ha, Option.map_some, Option.getD_some, Area.new]

theorem booked_blank : Booked (blank cfg links redistribute) where
  areas := by
    intro area a ha
    obtain rfl := areas_blank cfg links redistribute ha
    exact ⟨by simp [Area.new], by simp [Area.new], by simp [Area.new]⟩
  externals := by simp [blank]
  translated := by simp [blank]

theorem booked_start : Booked (start cfg links redistribute) :=
  (Stages.walk.refresh _).preserves (fun hsame => hsame.booked) (fun hstage => hstage.booked) (booked_blank ..)

end Blank

theorem booked_run {s : Ospf} (h : Booked s) (es : List Event) : Booked (es.foldl step s) :=
  (Run.every_true step s es).invariant Booked h fun s e hs _ => booked_step s e hs

end Ospf
end Wren.Daemon
