import Wren.Daemon.Ospf.Counters
import Wren.Daemon.Ospf.Quiescence

/-! What a Router-LSA says of the AS-external LSAs that the router originates. -/

namespace Wren.Ospf

/-- A Router-LSA tells that the router is an AS boundary router. -/
def Lsa.tellsAsbr (l : Lsa) : Bool :=
  match l.body with
  | .router r => r.flags &&& Daemon.Ospf.rtrFlagE ≠ 0
  | _ => false

@[simp] theorem Lsa.tellsAsbr_withSeq (l : Lsa) (seq : Int32) : (l.withSeq seq).filled.tellsAsbr = l.tellsAsbr := by
  unfold tellsAsbr
  rw [filled_body]
  rfl

end Wren.Ospf

namespace Wren.Daemon
open Wren.Core Wren.Ospf OrdMap

namespace Ospf

theorem tellsAsbr_buildRouterLsa (s : Ospf) (area : Ipv4Addr) : (s.buildRouterLsa area).tellsAsbr = s.isAsbr := by
  have hflags : ∀ abr asbr : Bool, decide
      (((if abr then rtrFlagB else 0) ||| (if asbr then rtrFlagE else 0)) &&& rtrFlagE ≠ 0) = asbr := by decide
  exact hflags s.isAbr s.isAsbr

/-- The AS-external LSAs of what is redistributed. -/
abbrev redistributed (s : Ospf) : List Lsa := s.externalLsas .asExternal optE

/-- A destination of IPv4 with this network is redistributed. -/
def Redistributes (s : Ospf) (net : Ipv4Addr) : Prop := ∃ l ∈ s.externals.toList, l.1.addr = .v4 net

/-- A type-7 LSA of another router in an NSSA is about this network. -/
def Hears (s : Ospf) (net : Ipv4Addr) : Prop :=
  ∃ area ∈ s.nssaAreas, ∃ l ∈ s.sevens area, l.header.linkStateId = net ∧ (s.translate l).isSome = true

/-- The key of an own AS-external LSA. -/
def externalKey (s : Ospf) (net : Ipv4Addr) : LsaKey := (.asExternal, net, s.cfg.routerId)

section Keys
variable (s : Ospf)

theorem mem_redistributed {l : Lsa} : l ∈ s.redistributed ↔ ∃ e ∈ s.externals.toList, ∃ net, e.1.addr = .v4 net ∧
    l = ⟨s.selfHeader .asExternal net optE, externalBody (lenToMask e.1.len) e.2⟩ := by
  unfold redistributed externalLsas
  rw [List.mem_filterMap]
  constructor
  · rintro ⟨e, he, hbuild⟩
    split at hbuild
    next net haddr => exact ⟨e, he, net, haddr, (Option.some.inj hbuild).symm⟩
    · cases hbuild
  · rintro ⟨e, he, net, haddr, rfl⟩
    refine ⟨e, he, ?_⟩
    rw [haddr]

theorem externalKey_mem_redistributed (net : Ipv4Addr) :
    s.externalKey net ∈ keySet s.redistributed ↔ s.Redistributes net := by
  rw [mem_keySet]
  constructor
  · rintro ⟨l, hl, hkey⟩
    obtain ⟨e, he, net', haddr, rfl⟩ := (s.mem_redistributed).mp hl
    have hnet : net' = net := congrArg (fun k : LsaKey => k.2.1) hkey
    exact ⟨e, he, hnet ▸ haddr⟩
  · rintro ⟨e, he, haddr⟩
    exact ⟨_, (s.mem_redistributed).mpr ⟨e, he, net, haddr, rfl⟩, rfl⟩

theorem mem_translatedLsas {l : Lsa} : l ∈ s.translatedLsas ↔
    ∃ area ∈ s.nssaAreas, ∃ seven ∈ s.sevens area, s.translate seven = some l := by
  simp only [translatedLsas, List.mem_filterMap, List.mem_flatMap]
  constructor
  · rintro ⟨seven, ⟨area, harea, hseven⟩, hl⟩
    exact ⟨area, harea, seven, hseven, hl⟩
  · rintro ⟨area, harea, seven, hseven, hl⟩
    exact ⟨seven, ⟨area, harea, hseven⟩, hl⟩

/-- A translation has the network of what it translates. -/
theorem translate_spec {seven l : Lsa} (h : s.translate seven = some l) :
    l.key = s.externalKey seven.header.linkStateId ∧ l.header.lsAge = 0 ∧ l.body = seven.body := by
  unfold translate at h
  split at h
  next e hbody =>
    cases h
    exact ⟨rfl, rfl, hbody.symm⟩
  · cases h

theorem externalKey_mem_translatedLsas (net : Ipv4Addr) :
    s.externalKey net ∈ keySet s.translatedLsas ↔ s.Hears net := by
  rw [mem_keySet]
  constructor
  · rintro ⟨l, hl, hkey⟩
    obtain ⟨area, harea, seven, hseven, htranslate⟩ := (s.mem_translatedLsas).mp hl
    rw [(s.translate_spec htranslate).1] at hkey
    exact ⟨area, harea, seven, hseven, congrArg (fun k : LsaKey => k.2.1) hkey, by rw [htranslate]; rfl⟩
  · rintro ⟨area, harea, seven, hseven, rfl, hsome⟩
    obtain ⟨l, hl⟩ := Option.isSome_iff_exists.mp hsome
    exact ⟨l, (s.mem_translatedLsas).mpr ⟨area, harea, seven, hseven, hl⟩, (s.translate_spec hl).1⟩

theorem translatedLsas_eq_nil (h : ∀ net, ¬ s.Hears net) : s.translatedLsas = [] := by
  refine List.eq_nil_iff_forall_not_mem.mpr ?_
  intro l hl
  obtain ⟨area, harea, seven, hseven, htranslate⟩ := (s.mem_translatedLsas).mp hl
  exact h _ ⟨area, harea, seven, hseven, rfl, by rw [htranslate]; rfl⟩

theorem own_externalKey {k : LsaKey} (h : Own s.cfg.routerId .asExternal k) : k = s.externalKey k.2.1 :=
  Prod.ext h.1 (Prod.ext rfl h.2)

/-- Whatever of IPv4 is redistributed, something is. -/
theorem Redistributes.isAsbr {s : Ospf} {net : Ipv4Addr} (h : s.Redistributes net) : s.isAsbr = true := by
  obtain ⟨e, he, -⟩ := h
  have hin : e.1 ∈ s.externals := by
    rw [Std.ExtTreeMap.mem_iff_isSome_getElem?, Std.ExtTreeMap.mem_toList_iff_getElem?_eq_some.mp he]
    rfl
  have hne : s.externals ≠ ∅ := by
    intro he
    rw [he] at hin
    exact Std.ExtTreeMap.not_mem_empty hin
  unfold Ospf.isAsbr
  rw [Std.ExtTreeMap.isEmpty_eq_false_iff.mpr hne]
  rfl

end Keys

/-- The Router-LSAs tell of what is redistributed, and nothing is translated where nothing is redistributed. -/
structure Tells (s : Ospf) : Prop where
  bit : ∀ area l, (s.areaLsdb area).get s.routerKey = some l → l.tellsAsbr = s.isAsbr
  quiet : s.isAsbr = false → s.originatedTranslated = []

/-- What is redistributed is in the book, and alive. -/
structure Listed (s : Ospf) : Prop where
  book : s.originatedExternals = keySet s.redistributed
  alive : ∀ l ∈ s.redistributed, ∃ m, s.externalLsdb.get l.key = some m ∧ m.header.lsAge < maxAge

/-- Whoever translates redistributes something too. -/
def Heard (s : Ospf) : Prop := s.isAbr = true → s.isAsbr = false → s.translatedLsas = []

/-- Nothing that is redistributed was translated but no more is. -/
def Apart (s : Ospf) : Prop :=
  ∀ l ∈ s.redistributed, l.key ∈ s.originatedTranslated → l.key ∈ keySet s.translatedLsas

/-- The E bit of every live own Router-LSA is set exactly if an own AS-external LSA is alive. -/
def AsbrBit (s : Ospf) : Prop :=
  ∀ area k l, (s.areaLsdb area).get k = some l → Own s.cfg.routerId .router k → l.header.lsAge < maxAge →
    (l.tellsAsbr = true ↔ ∃ k' m, s.externalLsdb.get k' = some m ∧ Own s.cfg.routerId .asExternal k' ∧
      m.header.lsAge < maxAge)

section Stage
variable {m : ℕ} {s t : Ospf}

theorem redistributed_congr (h : Steady s t) : t.redistributed = s.redistributed := by
  unfold redistributed externalLsas selfHeader
  rw [h.cfg, h.externals]

theorem routerKey_congr (h : Steady s t) : t.routerKey = s.routerKey := by
  unfold routerKey
  rw [h.cfg]

/-- Where no own Router-LSA differs, the bit does not. -/
theorem bit_of_differ {K : Ipv4Addr → LsaKey → Prop} (hsteady : Steady s t) (hdiffer : Differ K s t)
    (hK : ∀ area, ¬ K area s.routerKey)
    (hs : ∀ area l, (s.areaLsdb area).get s.routerKey = some l → l.tellsAsbr = s.isAsbr) :
    ∀ area l, (t.areaLsdb area).get t.routerKey = some l → l.tellsAsbr = t.isAsbr := by
  intro area l hl
  rw [routerKey_congr hsteady, hdiffer.area area _ (hK area)] at hl
  rw [hsteady.isAsbr]
  exact hs area l hl

theorem bit_routers (hs : Counted (m + 1) s) : ∀ area l,
    ((s.areas.keys.foldl reoriginateInto s).areaLsdb area).get (s.areas.keys.foldl reoriginateInto s).routerKey = some l →
      l.tellsAsbr = (s.areas.keys.foldl reoriginateInto s).isAsbr := by
  have hsteady := (Stage.routers s).steady
  intro area l hl
  rw [routerKey_congr hsteady] at hl
  by_cases harea : area ∈ s.areas.keys
  · obtain ⟨t, seq, ht, hget, -⟩ := get_routers hs harea
    rw [hget] at hl
    obtain rfl := Option.some.inj hl
    rw [Lsa.tellsAsbr_withSeq, tellsAsbr_buildRouterLsa, ht.isAsbr, hsteady.isAsbr]
  · have hnew : (s.areas.keys.foldl reoriginateInto s).areaLsdb area = .new :=
      areaLsdb_of_notMem (by rwa [hsteady.keys])
    rw [hnew, Lsdb.get_new] at hl
    cases hl

theorem Stage.bit (h : Stage s t) (hs : Counted (m + s.load) s)
    (hbit : ∀ area l, (s.areaLsdb area).get s.routerKey = some l → l.tellsAsbr = s.isAsbr) :
    ∀ area l, (t.areaLsdb area).get t.routerKey = some l → l.tellsAsbr = t.isAsbr := by
  have hsteady := h.steady
  have hother : ∀ ty : LsType, ty ≠ .router → ¬ Own s.cfg.routerId ty s.routerKey :=
    fun ty hty hk => hty hk.1.symm
  cases h with
  | routers =>
    refine bit_routers (m := m) (hs.mono ?_)
    unfold Ospf.load
    omega
  | externals =>
    exact bit_of_differ hsteady (differ_externals hs.booked).2 (fun _ hk => hother _ (by decide) hk.2) hbit
  | nssa => exact bit_of_differ hsteady (differ_nssa hs.booked _).2 (fun _ => hother _ (by decide)) hbit
  | summaries => exact bit_of_differ hsteady (differ_summaries hs.booked _ _).2 (fun _ => hother _ (by decide)) hbit
  | nssaDefault => exact bit_of_differ hsteady (differ_nssaDefault hs.booked).2 (fun _ => hother _ (by decide)) hbit
  | translated =>
    exact bit_of_differ hsteady (differ_translated hs.booked).2 (fun _ hk => hother _ (by decide) hk.2) hbit

/-- What of the AS-external LSAs a stage changes. -/
theorem Stage.aside (h : Stage s t) : Aside s t ∨ t = s.originateAsExternals ∨ s.isAbr = true ∧ t = s.translateNssa := by
  cases h with
  | routers => exact .inl (.areaFold isPass_reoriginateInto _ s)
  | externals => exact .inr (.inl rfl)
  | nssa => exact .inl (.areaFold isPass_originateNssaInto _ s)
  | summaries => exact .inl (.areaFold (isPass_originateSummariesInto _) _ s)
  | nssaDefault => exact .inl (.areaFold isPass_nssaDefault _ s)
  | translated habr => exact .inr (.inr ⟨habr, rfl⟩)

theorem room_redistributed (hs : Counted (m + s.load) s) {k : LsaKey} (hk : Own s.cfg.routerId .asExternal k) :
    Room s.externalLsdb s.lsaSeqs asScope k (m + 1 + s.redistributed.countP fun l => l.key = k) := by
  refine (hs.external k hk).mono ?_
  have hcount : (s.redistributed.countP fun l => l.key = k) ≤ 33 := countP_externalLsas s .asExternal optE k
  unfold load
  omega

theorem room_translated (hs : Counted (m + s.load) s) {k : LsaKey} (hk : Own s.cfg.routerId .asExternal k) :
    Room s.externalLsdb s.lsaSeqs asScope k (m + 1 + s.translatedLsas.countP fun l => l.key = k) := by
  refine (hs.external k hk).mono ?_
  have hcount := List.countP_le_length (p := fun l : Lsa => l.key = k) (l := s.translatedLsas)
  unfold load
  omega

theorem translatedLsas_congr (h : Stage s t) (hs : Booked s) : t.translatedLsas = s.translatedLsas :=
  (h.differ hs).translatedLsas h.steady

theorem originatedTranslated_translateNssa (s : Ospf) :
    s.translateNssa.originatedTranslated = keySet s.translatedLsas :=
  (sameCore_externalPass s _ _ _).originatedTranslated

theorem originatedExternals_originateAsExternals (s : Ospf) :
    s.originateAsExternals.originatedExternals = keySet s.redistributed :=
  (sameCore_externalPass s _ _ _).originatedExternals

theorem Stage.heard (h : Stage s t) (hs : Booked s) (hheard : Heard s) : Heard t := by
  unfold Heard
  rw [h.steady.isAbr, h.steady.isAsbr, translatedLsas_congr h hs]
  exact hheard

theorem Stage.apart (h : Stage s t) (hs : Booked s) (hapart : Apart s) : Apart t := by
  unfold Apart
  rw [redistributed_congr h.steady, translatedLsas_congr h hs]
  rcases h.aside with haside | rfl | ⟨-, rfl⟩
  · rw [haside.originatedTranslated]
    exact hapart
  · have hbook : s.originateAsExternals.originatedTranslated = s.originatedTranslated :=
      (sameCore_externalPass s _ _ _).originatedTranslated
    rw [hbook]
    exact hapart
  · rw [originatedTranslated_translateNssa]
    exact fun _ _ hin => hin

theorem Stage.tells (h : Stage s t) (hs : Counted (m + s.load) s) (hheard : Heard s) (htells : Tells s) : Tells t where
  bit := h.bit hs htells.bit
  quiet hno := by
    rw [h.steady.isAsbr] at hno
    rcases h.aside with haside | rfl | ⟨habr, rfl⟩
    · rw [haside.originatedTranslated]
      exact htells.quiet hno
    · have hbook : s.originateAsExternals.originatedTranslated = s.originatedTranslated :=
        (sameCore_externalPass s _ _ _).originatedTranslated
      rw [hbook]
      exact htells.quiet hno
    · rw [originatedTranslated_translateNssa, hheard habr hno]
      rfl

theorem listed_originateAsExternals (hs : Counted (m + s.load) s) : Listed s.originateAsExternals where
  book := by
    rw [originatedExternals_originateAsExternals, redistributed_congr (Stage.externals s).steady]
  alive l hl := by
    rw [redistributed_congr (Stage.externals s).steady] at hl
    have hown := own_externalLsas s .asExternal optE l hl
    have hin : l.key ∈ keySet s.redistributed := mem_keySet.mpr ⟨l, hl, rfl⟩
    cases (passed_externalPass hs.externalsNodup (fun t => { t with originatedExternals := keySet s.redistributed }) (fun _ => And.intro rfl rfl)
        (room_redistributed hs hown)).1 with
    | wanted lsa seq hmem _ hget =>
      obtain ⟨e, -, net, -, rfl⟩ := (s.mem_redistributed).mp hmem
      refine ⟨_, hget, ?_⟩
      rw [Lsa.filled_lsAge]
      show (0 : UInt16) < maxAge
      decide
    | retired hnot => exact absurd hin hnot
    | same hnot => exact absurd hin hnot

theorem Stage.listed (h : Stage s t) (hs : Counted (m + s.load) s) (hapart : Apart s) (hlisted : Listed s) : Listed t := by
  have hsteady := h.steady
  rcases h.aside with haside | rfl | ⟨-, rfl⟩
  · constructor
    · rw [haside.originatedExternals, redistributed_congr hsteady]
      exact hlisted.book
    · rw [haside.externalLsdb, redistributed_congr hsteady]
      exact hlisted.alive
  · exact listed_originateAsExternals hs
  · constructor
    · have hbook : s.translateNssa.originatedExternals = s.originatedExternals :=
        (sameCore_externalPass s _ _ _).originatedExternals
      rw [hbook, redistributed_congr hsteady]
      exact hlisted.book
    · intro l hl
      rw [redistributed_congr hsteady] at hl
      have hown := own_externalLsas s .asExternal optE l hl
      obtain ⟨m, hheld, hlive⟩ := hlisted.alive l hl
      cases (passed_externalPass hs.translatedNodup (fun t => { t with originatedTranslated := keySet s.translatedLsas }) (fun _ => And.intro rfl rfl)
        (room_translated hs hown)).1 with
      | wanted lsa seq hmem _ hget =>
        obtain ⟨area, -, seven, -, htranslate⟩ := (s.mem_translatedLsas).mp hmem
        refine ⟨_, hget, ?_⟩
        rw [Lsa.filled_lsAge]
        show lsa.header.lsAge < maxAge
        rw [(s.translate_spec htranslate).2.1]
        decide
      | retired hnot hin => exact absurd (hapart l hl (List.mem_of_mem_filter hin)) hnot
      | same _ _ hget => exact ⟨m, hget.trans hheld, hlive⟩

end Stage

section Rest
variable {s t : Ospf}

theorem SameCore.translatedLsas (h : SameCore s t) : t.translatedLsas = s.translatedLsas :=
  h.differ.translatedLsas (.of_sameCore h)

theorem SameCore.heard (h : SameCore s t) (hs : Heard s) : Heard t := by
  unfold Heard
  rw [h.isAbr, h.isAsbr, h.translatedLsas]
  exact hs

theorem SameCore.apart (h : SameCore s t) (hs : Apart s) : Apart t := by
  unfold Apart
  rw [redistributed_congr (.of_sameCore h), h.originatedTranslated, h.translatedLsas]
  exact hs

theorem SameCore.tells (h : SameCore s t) (hs : Tells s) : Tells t where
  bit area l := by
    rw [h.areaLsdb, routerKey_congr (.of_sameCore h), h.isAsbr]
    exact hs.bit area l
  quiet := by
    rw [h.isAsbr, h.originatedTranslated]
    exact hs.quiet

theorem SameCore.listed (h : SameCore s t) (hs : Listed s) : Listed t where
  book := by
    rw [h.originatedExternals, redistributed_congr (.of_sameCore h)]
    exact hs.book
  alive := by
    rw [redistributed_congr (.of_sameCore h), h.externalLsdb]
    exact hs.alive

end Rest

/-! ### Stages -/

section Stages
variable {n m : ℕ} {s t : Ospf}

theorem Stages.tells (h : Stages n s t) (hs : Counted (m + n * s.load) s) (hheard : Heard s) (htells : Tells s) :
    Counted m t ∧ Tells t := by
  have hall := h.counted (P := fun t => Heard t ∧ Tells t)
    (fun hsame ht => ⟨hsame.heard ht.1, hsame.tells ht.2⟩)
    (fun hc hstage ht => ⟨hstage.heard hc.booked ht.1, hstage.tells hc ht.1 ht.2⟩) hs ⟨hheard, htells⟩
  exact ⟨hall.1, hall.2.2⟩

theorem Stages.listed (h : Stages n s t) (hs : Counted (m + n * s.load) s) (hapart : Apart s) (hlisted : Listed s) :
    Listed t := by
  have hall := h.counted (P := fun t => Apart t ∧ Listed t)
    (fun hsame ht => ⟨hsame.apart ht.1, hsame.listed ht.2⟩)
    (fun hc hstage ht => ⟨hstage.apart hc.booked ht.1, hstage.listed hc ht.1 ht.2⟩) hs ⟨hapart, hlisted⟩
  exact hall.2.2

theorem Stages.translatedLsas (h : Stages n s t) (hs : Booked s) : t.translatedLsas = s.translatedLsas := by
  have hall : Booked t ∧ t.translatedLsas = s.translatedLsas := by
    refine h.preserves (P := fun t => Booked t ∧ t.translatedLsas = s.translatedLsas) ?_ ?_ ⟨hs, rfl⟩
    · intro u v hsame hu
      exact ⟨hsame.booked hu.1, hsame.translatedLsas.trans hu.2⟩
    · intro u v hstage hu
      exact ⟨hstage.booked hu.1, (translatedLsas_congr hstage hu.1).trans hu.2⟩
  exact hall.2

theorem Stages.load (h : Stages n s t) (hs : Booked s) : t.load = s.load := by
  unfold Ospf.load
  rw [h.translatedLsas hs]

theorem Stages.heard_iff (h : Stages n s t) (hs : Booked s) : Heard t ↔ Heard s := by
  unfold Heard
  rw [h.steady.isAbr, h.steady.isAsbr, h.translatedLsas hs]

end Stages

/-! ### Reading an update, and getting older -/

theorem books_reclaim (s : Ospf) (scope : Ipv4Addr) (lsa : Lsa) :
    (s.reclaim scope lsa).1.originatedExternals = s.originatedExternals ∧
      (s.reclaim scope lsa).1.originatedTranslated = s.originatedTranslated := by
  simp only [reclaim]
  split <;> exact ⟨rfl, rfl⟩

/-- What is in the books stays as it is when an own LSA comes in. -/
theorem get_reclaim {s : Ospf} {scope : Ipv4Addr} {lsa : Lsa} {k : LsaKey} (hk : k ∈ s.originatedExternals) :
    (s.reclaim scope lsa).1.externalLsdb.get k = s.externalLsdb.get k := by
  simp only [reclaim]
  split
  next retired hretired =>
    unfold retiredSelfExternal at hretired
    split at hretired
    · cases hretired
    next hcond =>
      obtain rfl := Option.some.inj hretired
      have hne : k ≠ lsa.key := by
        rintro rfl
        simp [hk] at hcond
      show (s.externalLsdb.install (lsa.withAge maxAge)).1.get k = _
      rw [Lsdb.get_install, if_neg fun h => hne h.1]
  · rfl

theorem steady_reclaim (s : Ospf) (scope : Ipv4Addr) (lsa : Lsa) : Steady s (s.reclaim scope lsa).1 := by
  simp only [reclaim]
  split
  · have hfirst : ∀ (seqs : Seqs) (db : Lsdb), Steady s { s with lsaSeqs := seqs, externalLsdb := db } :=
      fun _ _ => ⟨rfl, rfl, rfl, rfl⟩
    exact (hfirst _ _).trans (.of_sameCore (SameCore.floodOn _ _ _ _))
  · exact ⟨rfl, rfl, rfl, rfl⟩

theorem areas_reclaim (s : Ospf) (scope : Ipv4Addr) (lsa : Lsa) : (s.reclaim scope lsa).1.areas = s.areas := by
  simp only [reclaim]
  split <;> rfl

section Read
variable {s : Ospf} {area : Ipv4Addr} {now : ℕ} {u v : Update} {lsa : Lsa}

theorem Read.steady (h : Read area now u lsa v) : Steady u.s v.s := by
  cases h with
  | rest hsame => exact .of_sameCore hsame
  | reclaim t hsame _ _ heq =>
    rw [heq]
    exact (Steady.of_sameCore hsame).trans (steady_reclaim t _ _)
  | foreign t hsame _ _ _ _ heq =>
    rw [heq]
    exact (Steady.of_sameCore hsame).trans (steady_installForeign t _ _ _ _)

theorem Read.books (h : Read area now u lsa v) : v.s.originatedExternals = u.s.originatedExternals ∧
    v.s.originatedTranslated = u.s.originatedTranslated := by
  cases h with
  | rest hsame => exact ⟨hsame.originatedExternals, hsame.originatedTranslated⟩
  | reclaim t hsame _ _ heq =>
    rw [heq, (books_reclaim t _ _).1, (books_reclaim t _ _).2]
    exact ⟨hsame.originatedExternals, hsame.originatedTranslated⟩
  | foreign t hsame _ _ _ _ heq =>
    rw [heq, (books_installForeign t _ _ _ _).1, (books_installForeign t _ _ _ _).2]
    exact ⟨hsame.originatedExternals, hsame.originatedTranslated⟩

theorem Read.tells (h : Read area now u lsa v) (hu : Tells u.s) : Tells v.s where
  bit := by
    cases h with
    | rest hsame => exact (hsame.tells hu).bit
    | reclaim t hsame _ _ heq =>
      have ht := (hsame.tells hu).bit
      intro b l hl
      have hareas : v.s.areaLsdb b = t.areaLsdb b := by
        unfold areaLsdb
        rw [heq, areas_reclaim]
      rw [hareas, heq, routerKey_congr (steady_reclaim t _ _)] at hl
      rw [heq, (steady_reclaim t _ _).isAsbr]
      exact ht b l hl
    | foreign t hsame hother _ _ _ heq =>
      rw [heq]
      refine bit_of_differ (steady_installForeign t _ _ _ _) (differ_installForeign t _ _ _ _) ?_ (hsame.tells hu).bit
      intro _ hk
      have hadv : t.cfg.routerId = lsa.header.advertisingRouter := congrArg (fun k : LsaKey => k.2.2) hk
      rw [hsame.cfg] at hadv
      exact hother hadv.symm
  quiet := by
    rw [h.steady.isAsbr, h.books.2]
    exact hu.quiet

theorem Read.listed (h : Read area now u lsa v) (hu : Listed u.s) : Listed v.s := by
  have hbook : v.s.originatedExternals = keySet v.s.redistributed := by
    rw [h.books.1, redistributed_congr h.steady]
    exact hu.book
  refine ⟨hbook, ?_⟩
  rw [redistributed_congr h.steady]
  intro l hl
  obtain ⟨m, hheld, hlive⟩ := hu.alive l hl
  refine ⟨m, ?_, hlive⟩
  have hin : l.key ∈ u.s.originatedExternals := by
    rw [hu.book]
    exact mem_keySet.mpr ⟨l, hl, rfl⟩
  cases h with
  | rest hsame => rwa [hsame.externalLsdb]
  | reclaim t hsame _ _ heq =>
    rw [← hsame.originatedExternals] at hin
    rw [heq, get_reclaim hin, hsame.externalLsdb]
    exact hheld
  | foreign t hsame hother _ _ _ heq =>
    have hne : l.key ≠ lsa.key := by
      intro he
      have hadv : l.key.2.2 = lsa.header.advertisingRouter := congrArg (fun k : LsaKey => k.2.2) he
      rw [(own_externalLsas u.s .asExternal optE l hl).2] at hadv
      exact hother hadv.symm
    rw [heq, (differ_installForeign t _ _ _ _).external _ hne, hsame.externalLsdb]
    exact hheld

/-- Whatever an update brings, what the router says of its externals stays as it is while the update is read. -/
theorem Reads.spec {lsas : List Lsa} {u : Ospf} (h : Reads lsas s u) : Steady s u ∧
    (u.originatedTranslated = s.originatedTranslated) ∧ (Tells s → Tells u) ∧ (Listed s → Listed u) := by
  induction h with
  | start => exact ⟨.refl s, rfl, id, id⟩
  | next _ _ hread ih =>
    obtain ⟨hsteady, hbook, htells, hlisted⟩ := ih
    exact ⟨hsteady.trans hread.steady, hread.books.2.trans hbook, fun hs => hread.tells (htells hs),
      fun hs => hread.listed (hlisted hs)⟩

end Read

theorem tells_ageLsdbs {s : Ospf} (hs : Tells s) (secs : UInt16) : Tells (s.ageLsdbs secs) where
  bit area l hl := by
    obtain ⟨l', hl', rfl⟩ := get_ageLsdbs hl
    exact hs.bit area l' hl'
  quiet := hs.quiet

theorem listed_ageLsdbs {s : Ospf} (hs : Listed s) {secs : UInt16}
    (hspared : ∀ k l, s.externalLsdb.get k = some l → Own s.cfg.routerId .asExternal k → l.header.lsAge < maxAge →
      (Lsdb.ageBy secs l).header.lsAge < maxAge) : Listed (s.ageLsdbs secs) where
  book := hs.book
  alive l hl := by
    obtain ⟨m, hheld, hlive⟩ := hs.alive l hl
    have hyoung := hspared l.key m hheld (own_externalLsas s .asExternal optE l hl) hlive
    refine ⟨Lsdb.ageBy secs m, ?_, hyoung⟩
    rw [externalLsdb_ageLsdbs, Lsdb.get_reap, hheld]
    exact if_neg fun h => absurd hyoung (UInt16.not_lt.mpr h.2)

/-! ### Runs -/

/-- If anything is redistributed, something of IPv4 is, and so it is where type-7 LSAs are translated. -/
structure Speaks (s : Ospf) : Prop where
  ipv4 : s.isAsbr = true → ∃ net, s.Redistributes net
  heard : s.isAbr = true → (∃ net, s.Hears net) → s.isAsbr = true

theorem Speaks.toHeard {s : Ospf} (h : Speaks s) : Heard s := by
  intro habr hno
  refine s.translatedLsas_eq_nil ?_
  intro net hhears
  rw [h.heard habr ⟨net, hhears⟩] at hno
  cases hno

/-- What is asked of a step: it leaves the router translating only where it redistributes; no type-7 LSA goes that was
translated under the network of something redistributed; no own AS-external LSA ages out before it is refreshed; and the
sequence numbers do not run out. -/
structure AsbrGuard (s : Ospf) (e : Event) : Prop where
  speaks : Speaks (step s e)
  apart : (∀ r, e ≠ .redistribute r) → ∀ net, (step s e).Redistributes net →
    s.externalKey net ∈ s.originatedTranslated → (step s e).Hears net
  spared : ∀ secs, e = .age secs → ∀ k l, s.externalLsdb.get k = some l → Own s.cfg.routerId .asExternal k →
    l.header.lsAge < maxAge → (Lsdb.ageBy secs l).header.lsAge < maxAge
  router : ∀ area, (nextSeq s.lsaSeqs area s.routerKey).toInt + (15 * (step s e).load : ℕ) < 2 ^ 31
  external : ∀ k, Own s.cfg.routerId .asExternal k →
    (nextSeq s.lsaSeqs asScope k).toInt + (15 * (step s e).load : ℕ) < 2 ^ 31
  received : ∀ lsa ∈ e.lsas, lsa.header.advertisingRouter = s.cfg.routerId →
    lsa.header.lsSeq.toInt + 1 + (15 * (step s e).load : ℕ) < 2 ^ 31

structure AsbrInv (s : Ospf) : Prop where
  counted : Counted 0 s
  tells : Tells s
  listed : Listed s

theorem AsbrInv.asbrBit {s : Ospf} (hs : AsbrInv s) (hspeaks : Speaks s) : AsbrBit s := by
  intro area k l hget hk _
  rw [hs.counted.only area k l hget hk] at hget
  rw [hs.tells.bit area l hget]
  constructor
  · intro hasbr
    obtain ⟨net, hnet⟩ := hspeaks.ipv4 hasbr
    obtain ⟨l', hl', -⟩ := mem_keySet.mp ((s.externalKey_mem_redistributed net).mpr hnet)
    obtain ⟨m, hheld, hlive⟩ := hs.listed.alive l' hl'
    exact ⟨l'.key, m, hheld, own_externalLsas s .asExternal optE l' hl', hlive⟩
  · rintro ⟨k', m, hheld, hown, hlive⟩
    rcases hs.counted.covered k' m hheld hown hlive with hin | hin
    · rw [hs.listed.book, s.own_externalKey hown, externalKey_mem_redistributed] at hin
      exact hin.isAsbr
    · by_contra hno
      rw [hs.tells.quiet (Bool.eq_false_iff.mpr hno)] at hin
      cases hin

section Redistribute
variable {m : ℕ} {s : Ospf}

/-- The NSSA part of it does not touch the AS-external LSAs. -/
theorem listed_originateExternals (hs : Counted (m + s.load) s) : Listed s.originateExternals := by
  rw [originateExternals_eq]
  have hlisted := listed_originateAsExternals hs
  have haside := (Stage.nssa s.originateAsExternals).aside
  have hsteady := (Stage.nssa s.originateAsExternals).steady
  have hnssa : Aside s.originateAsExternals s.originateAsExternals.originateNssa :=
    .areaFold isPass_originateNssaInto _ _
  constructor
  · rw [hnssa.originatedExternals, redistributed_congr hsteady]
    exact hlisted.book
  · rw [hnssa.externalLsdb, redistributed_congr hsteady]
    exact hlisted.alive

theorem quiet_originateSummaries (hs : Booked s) (habr : s.isAbr = true) :
    s.originateSummaries.originatedTranslated = keySet s.translatedLsas := by
  have hfirst := Stage.summaries s habr
  have hsecond := Stage.nssaDefault _ (hfirst.steady.isAbr.trans habr)
  have hbooked := hfirst.booked hs
  unfold originateSummaries
  rw [if_pos habr, originatedTranslated_translateNssa, translatedLsas_congr hsecond hbooked, translatedLsas_congr hfirst hs]

/-- Everything is said anew. -/
theorem tells_reoriginateAndFlood (hs : Counted (m + 4 * s.load) s) (hheard : Heard s) :
    Tells s.reoriginateAndFlood := by
  have hfirst := Stage.routers s
  have hrouted : Counted (m + 3 * s.load) (s.areas.keys.foldl reoriginateInto s) :=
    hfirst.counted (hs.mono (by omega))
  have hload := hfirst.load hs.booked
  have hlater := hfirst.heard hs.booked hheard
  have hbit := bit_routers (s := s) (m := m) (hs.mono (by unfold load; omega))
  rw [← hload] at hrouted
  have hstages := Stages.originateSummaries (s.areas.keys.foldl reoriginateInto s)
  have hall := hstages.counted (P := fun t => ∀ area l, (t.areaLsdb area).get t.routerKey = some l → l.tellsAsbr = t.isAsbr)
    (fun hsame ht area l => by
      rw [hsame.areaLsdb, routerKey_congr (.of_sameCore hsame), hsame.isAsbr]
      exact ht area l)
    (fun hc hstage ht => hstage.bit hc ht) hrouted hbit
  refine ⟨hall.2, ?_⟩
  intro hno
  have hno' : (s.areas.keys.foldl reoriginateInto s).isAsbr = false := by rwa [← hstages.steady.isAsbr]
  by_cases habr : (s.areas.keys.foldl reoriginateInto s).isAbr = true
  · show (s.areas.keys.foldl reoriginateInto s).originateSummaries.originatedTranslated = []
    rw [quiet_originateSummaries hrouted.booked habr, hlater habr hno']
    rfl
  · refine hall.1.border ?_
    rw [hstages.steady.isAbr]
    exact Bool.eq_false_iff.mpr habr

theorem asbrInv_redistribute {r : Redistribution} (hs : AsbrInv s)
    (hcounted : Counted (15 * (s.applyRedistribution r).load) s) (hspeaks : Speaks (s.applyRedistribution r)) :
    AsbrInv (s.applyRedistribution r) := by
  simp only [applyRedistribution] at hcounted hspeaks ⊢
  split
  · exact hs
  next externals hchanged =>
    simp only [hchanged] at hcounted hspeaks
    generalize hu : ({ s with externals } : Ospf) = u at hcounted hspeaks ⊢
    have hset : ∀ {n : ℕ}, Counted n s → Counted n u := fun h => hu ▸ h.setExternals externals
    have hmiddle : Stages 4 u (if u.isAsbr = s.isAsbr then u else u.reoriginateAndFlood) := by
      split
      · exact .refl 4 u
      · exact .reoriginateAndFlood u
    generalize hv : (if u.isAsbr = s.isAsbr then u else u.reoriginateAndFlood) = v at hcounted hspeaks hmiddle ⊢
    have hlast := Stages.originateExternals v
    have hbooked := (hset hs.counted).booked
    have hload : v.originateExternals.load = u.load := (hmiddle.trans hlast).load hbooked
    rw [hload] at hcounted
    have hcu : Counted (2 * u.load + 4 * u.load) u := (hset hcounted).mono (by omega)
    have hheard : Heard u := ((hmiddle.trans hlast).heard_iff hbooked).mp hspeaks.toHeard
    have hcv : Counted (2 * u.load) v :=
      (hmiddle.counted (P := fun _ => True) (fun _ _ => trivial) (fun _ _ _ => trivial) hcu trivial).1
    have hloadv : v.load = u.load := hmiddle.load hbooked
    have htells : Tells v := by
      rw [← hv]
      split
      next hsame =>
        have hfields : u.areas = s.areas ∧ u.cfg = s.cfg ∧ u.originatedTranslated = s.originatedTranslated := by
          rw [← hu]
          exact ⟨rfl, rfl, rfl⟩
        constructor
        · intro area l hl
          rw [hsame]
          refine hs.tells.bit area l ?_
          unfold areaLsdb routerKey at hl ⊢
          rwa [hfields.1, hfields.2.1] at hl
        · rw [hsame, hfields.2.2]
          exact hs.tells.quiet
      · exact tells_reoriginateAndFlood hcu hheard
    have hheardv : Heard v := (hmiddle.heard_iff hbooked).mpr hheard
    have hdone := hlast.tells (m := 0) (hcv.mono (by rw [hloadv]; omega)) hheardv htells
    exact ⟨hdone.1, hdone.2, listed_originateExternals (m := 0) (hcv.mono (by rw [hloadv]; omega))⟩

end Redistribute

theorem asbrInv_step (s : Ospf) (e : Event) (hs : AsbrInv s) (hg : AsbrGuard s e) : AsbrInv (step s e) := by
  have hwide : Counted (15 * (step s e).load) s := hs.counted.widen hg.router hg.external
  by_cases hage : ∃ secs, e = .age secs
  · obtain ⟨secs, rfl⟩ := hage
    exact ⟨hs.counted.ageLsdbs secs, tells_ageLsdbs hs.tells secs, listed_ageLsdbs hs.listed (hg.spared secs rfl)⟩
  by_cases hset : ∃ r, e = .redistribute r
  · obtain ⟨r, rfl⟩ := hset
    exact asbrInv_redistribute hs hwide hg.speaks
  obtain ⟨u, hreads, hstages⟩ := Stages.walk.step s e (fun secs h => hage ⟨secs, h⟩) fun r h => hset ⟨r, h⟩
  obtain ⟨hsteady, hbook, htells, hlisted⟩ := hreads.spec
  have hcu : Counted (15 * (step s e).load) u := hreads.counted hg.received hwide
  rw [hstages.load hcu.booked] at hcu
  have hcu' : Counted (0 + 15 * u.load) u := by rwa [Nat.zero_add]
  have hheard : Heard u := (hstages.heard_iff hcu.booked).mp hg.speaks.toHeard
  have hapart : Apart u := by
    intro l hl hin
    have hlast : l ∈ (step s e).redistributed := by rwa [redistributed_congr hstages.steady]
    have hown := own_externalLsas (step s e) .asExternal optE l hlast
    have hkey := own_externalKey (step s e) hown
    have hcfg : (step s e).externalKey l.key.2.1 = s.externalKey l.key.2.1 := by
      rw [externalKey, hstages.steady.cfg, hsteady.cfg, externalKey]
    have hnet : (step s e).Redistributes l.key.2.1 := by
      rw [← externalKey_mem_redistributed, ← hkey]
      exact mem_keySet.mpr ⟨l, hlast, rfl⟩
    rw [hbook, hkey, hcfg] at hin
    have hhears := hg.apart (fun r h => hset ⟨r, h⟩) _ hnet hin
    rw [← externalKey_mem_translatedLsas, ← hkey, hstages.translatedLsas hcu.booked] at hhears
    exact hhears
  have hdone := hstages.tells hcu' hheard (htells hs.tells)
  exact ⟨hdone.1, hdone.2, hstages.listed hcu' hapart (hlisted hs.listed)⟩

section Start
variable (cfg : OspfConfig) (links : List Link) (redistribute : BTreeMap Prefix UInt32)

theorem translatedLsas_blank : (blank cfg links redistribute).translatedLsas = [] := by
  refine translatedLsas_eq_nil _ ?_
  rintro net ⟨area, -, l, hl, -⟩
  have hsevens : (blank cfg links redistribute).sevens area = [] := by
    unfold sevens
    rw [areaLsdb_blank]
    rfl
  rw [hsevens] at hl
  cases hl

theorem counted_blank : Counted (6 * (blank cfg links redistribute).load) (blank cfg links redistribute) := by
  have hload : (blank cfg links redistribute).load = 34 := by
    unfold Ospf.load
    rw [translatedLsas_blank]
    rfl
  have hseq : ∀ scope k, (nextSeq (blank cfg links redistribute).lsaSeqs scope k).toInt + (6 * 34 : ℕ) < 2 ^ 31 := by
    intro scope k
    have hinit : nextSeq (blank cfg links redistribute).lsaSeqs scope k = initialSequenceNumber := by
      unfold nextSeq
      rw [blank, Std.ExtTreeMap.getElem?_empty]
      rfl
    rw [hinit]
    decide
  rw [hload]
  constructor
  · exact booked_blank cfg links redistribute
  · exact List.nodup_nil
  · exact List.nodup_nil
  · intro area
    refine ⟨?_, hseq _ _⟩
    intro l hl
    rw [areaLsdb_blank, Lsdb.get_new] at hl
    cases hl
  · intro area k l hl
    rw [areaLsdb_blank, Lsdb.get_new] at hl
    cases hl
  · intro k _
    refine ⟨?_, hseq _ _⟩
    intro l hl
    rw [blank, Lsdb.get_new] at hl
    cases hl
  · intro k l hl
    rw [blank, Lsdb.get_new] at hl
    cases hl
  · exact fun _ => rfl

/-- The first refresh says everything. -/
theorem asbrInv_start : AsbrInv (start cfg links redistribute) := by
  have hs := counted_blank cfg links redistribute
  rw [start_eq]
  generalize hblank : blank cfg links redistribute = s at hs ⊢
  have hnone : s.translatedLsas = [] := by
    rw [← hblank]
    exact translatedLsas_blank cfg links redistribute
  have hbook : s.originatedTranslated = [] := by
    rw [← hblank]
    rfl
  have hheard : Heard s := fun _ _ => hnone
  have hapart : Apart s := by
    intro l _ hin
    rw [hbook] at hin
    cases hin
  have hfirst := Stages.originateExternals s
  have hload := hfirst.load hs.booked
  obtain ⟨hcounted, hapart'⟩ := hfirst.counted (m := 4 * s.load) (P := Apart) (fun hsame => hsame.apart)
    (fun hc hstage => hstage.apart hc.booked) (hs.mono (by omega)) hapart
  rw [← hload] at hcounted
  have hlisted : Listed s.originateExternals := listed_originateExternals (m := 0) (hs.mono (by omega))
  have hcounted' : Counted (0 + 4 * s.originateExternals.load) s.originateExternals := hcounted.mono (by omega)
  have hlast := Stages.reoriginateAndFlood s.originateExternals
  have htells : Tells s.originateExternals.reoriginateAndFlood :=
    tells_reoriginateAndFlood hcounted' ((hfirst.heard_iff hs.booked).mpr hheard)
  have hdone := hlast.counted (P := fun _ => True) (fun _ _ => trivial) (fun _ _ _ => trivial) hcounted' trivial
  exact ⟨hdone.1, htells, hlast.listed hcounted' hapart' hlisted⟩

end Start

/-- The E bit is right after every step of a run whose steps all keep to the guard. -/
theorem asbrBit_run (cfg : OspfConfig) (links : List Link) (redistribute : BTreeMap Prefix UInt32) (es : List Event)
    (hstart : Speaks (start cfg links redistribute))
    (hrun : Run.Every step AsbrGuard (start cfg links redistribute) es) :
    AsbrBit (es.foldl step (start cfg links redistribute)) := by
  have hall : AsbrInv (es.foldl step (start cfg links redistribute)) ∧
      Speaks (es.foldl step (start cfg links redistribute)) :=
    hrun.invariant (fun s => AsbrInv s ∧ Speaks s) ⟨asbrInv_start cfg links redistribute, hstart⟩
      fun s e hs hg => ⟨asbrInv_step s e hs.1 hg, hg.speaks⟩
  exact hall.1.asbrBit hall.2

/-- Where none of the sequence numbers is high, none is that comes next. -/
theorem nextSeq_add_lt {seqs : Seqs} {n : ℕ} (h : ∀ v ∈ seqs.toList, v.2.toInt + n < 2 ^ 31)
    (hinit : initialSequenceNumber.toInt + n < 2 ^ 31) (scope : Ipv4Addr) (k : LsaKey) :
    (nextSeq seqs scope k).toInt + n < 2 ^ 31 := by
  unfold nextSeq
  cases hv : seqs[(scope, k)]? with
  | none => exact hinit
  | some v =>
    have hmem : ((scope, k), v) ∈ seqs.toList := Std.ExtTreeMap.mem_toList_iff_getElem?_eq_some.mpr hv
    have hroom := h ((scope, k), v) hmem
    rw [Option.getD_some]
    exact hroom

/-- A router in the backbone before it redistributes anything. -/
def silent : Ospf := start (.default 1 .pointToPoint) [backboneLink] ∅

theorem asbrGuard_announce : AsbrGuard silent (.redistribute (.announce announcedRoute)) := by
  have hload : (step silent (.redistribute (.announce announcedRoute))).load = 34 := by decide +kernel
  have hin : (announced, (20 : UInt32)) ∈ (step silent (.redistribute (.announce announcedRoute))).externals.toList := by
    decide +kernel
  have hinner : (step silent (.redistribute (.announce announcedRoute))).isAbr = false := by decide +kernel
  have hseqs : ∀ v ∈ silent.lsaSeqs.toList, v.2.toInt + (15 * 34 : ℕ) < 2 ^ 31 := by decide +kernel
  have hreceived : (Event.redistribute (.announce announcedRoute)).lsas = [] := rfl
  constructor
  · constructor
    · intro _
      exact ⟨0x0a090000, (announced, 20), hin, rfl⟩
    · intro habr
      rw [hinner] at habr
      cases habr
  · exact fun h => absurd rfl (h _)
  · intro secs he
    cases he
  · intro area
    rw [hload]
    exact nextSeq_add_lt hseqs (by decide) area _
  · intro k _
    rw [hload]
    exact nextSeq_add_lt hseqs (by decide) asScope k
  · intro lsa hlsa
    rw [hreceived] at hlsa
    cases hlsa

theorem asbrBit_run_announce : AsbrBit ([.redistribute (.announce announcedRoute)].foldl step silent) := by
  have hspeaks : Speaks silent := by
    have hno : silent.isAsbr = false := by decide +kernel
    have hinner : silent.isAbr = false := by decide +kernel
    constructor
    · intro h
      rw [hno] at h
      cases h
    · intro h
      rw [hinner] at h
      cases h
  exact asbrBit_run (.default 1 .pointToPoint) [backboneLink] ∅ [.redistribute (.announce announcedRoute)] hspeaks
    ⟨asbrGuard_announce, trivial⟩

/-- Area 1 is an NSSA. -/
def nssaConfig : OspfConfig := { OspfConfig.default 1 .pointToPoint with nssaAreas := [1] }

/-- A Hello that reaches the router in the NSSA. -/
def nssaHello : Event := .packet 2 0x0a000102 ⟨⟨2, 1⟩, .hello
  { networkMask := lenToMask 24
    helloInterval := 10
    options := optNp
    routerPriority := 1
    deadInterval := 40
    designatedRouter := 0
    backupDesignatedRouter := 0
    neighbors := [] }⟩ 0

/-- A type-7 LSA for 10.9.0.0/16. -/
def seven : Lsa where
  header :=
    { lsAge := 0
      options := optNp
      lsType := .nssa
      linkStateId := 0x0a090000
      advertisingRouter := 2
      lsSeq := initialSequenceNumber
      lsChecksum := 0
      length := 0 }
  body := externalBody (lenToMask 16) 20

/-- An area border router that redistributes nothing, and has heard the type-7 LSA. -/
def translator : Ospf :=
  [nssaHello, .packet 2 0x0a000102 ⟨⟨2, 1⟩, .linkStateUpdate [seven]⟩ 0].foldl step
    (start nssaConfig [backboneLink, areaLink] ∅)

/-- It translates the LSA and does not say that it is an AS boundary router. -/
theorem translator_keeps_silent :
    ¬ ∀ (cfg : OspfConfig) (links : List Link) (redistribute : BTreeMap Prefix UInt32) (es : List Event),
      AsbrBit (es.foldl step (start cfg links redistribute)) := by
  intro h
  have hrouter : ((translator.areaLsdb 0).get (.router, 1, 1)).any (fun l =>
      l.header.lsAge < maxAge ∧ l.tellsAsbr = false) = true := by
    decide +kernel
  have hexternal : (translator.externalLsdb.get (.asExternal, 0x0a090000, 1)).any (fun l =>
      l.header.lsAge < maxAge) = true := by
    decide +kernel
  obtain ⟨l, hl, hrest⟩ := (Option.any_eq_true _ _).mp hrouter
  obtain ⟨hlive, hclear⟩ := of_decide_eq_true hrest
  obtain ⟨m, hm, hyoung⟩ := (Option.any_eq_true _ _).mp hexternal
  have hbit := (h nssaConfig [backboneLink, areaLink] ∅
    [nssaHello, .packet 2 0x0a000102 ⟨⟨2, 1⟩, .linkStateUpdate [seven]⟩ 0] 0 (.router, 1, 1) l hl ⟨rfl, rfl⟩ hlive).mpr
      ⟨_, m, hm, ⟨rfl, rfl⟩, of_decide_eq_true hyoung⟩
  rw [hclear] at hbit
  cases hbit

end Ospf
end Wren.Daemon
