import Wren.Daemon.Ospf.Books
import Wren.Daemon.Ospf.Reaping

/-! The sequence numbers of own LSAs. While they do not run out, whatever the router originates is more recent than what
it holds, and the LSAs it says no more are aged out. -/

namespace Wren.Ospf

/-- An instance which is more recent has no lower sequence number. -/
theorem LsaHeader.lsSeq_le_of_compareRecency {h other : LsaHeader} (hgt : h.compareRecency other = .gt) :
    other.lsSeq ≤ h.lsSeq := by
  unfold compareRecency at hgt
  cases hcmp : compare h.lsSeq other.lsSeq with
  | lt =>
    rw [hcmp] at hgt
    cases hgt
  | eq =>
    rw [Std.LawfulEqOrd.eq_of_compare hcmp]
    exact Int32.le_refl _
  | gt =>
    have hlt : other.lsSeq < h.lsSeq := Std.compare_eq_gt.mp hcmp
    exact Int32.le_of_lt hlt

end Wren.Ospf

namespace Wren.Daemon
open Wren.Core Wren.Ospf OrdMap

namespace Ospf

/-- The next instance of an LSA is more recent than what is held of it, and this many more can follow. -/
structure Room (lsdb : Lsdb) (seqs : Seqs) (scope : Ipv4Addr) (k : LsaKey) (n : ℕ) : Prop where
  fresh : Fresh lsdb seqs scope k
  room : (nextSeq seqs scope k).toInt + n < 2 ^ 31

namespace Room
variable {lsdb lsdb' : Lsdb} {seqs seqs' : Seqs} {scope : Ipv4Addr} {k : LsaKey} {n m : ℕ}

theorem mono (h : Room lsdb seqs scope k n) (hmn : m ≤ n) : Room lsdb seqs scope k m where
  fresh := h.fresh
  room := by
    have hroom := h.room
    omega

/-- What the database holds of the LSA does not differ, nor does its sequence number. -/
theorem congr (h : Room lsdb seqs scope k n) (hget : lsdb'.get k = lsdb.get k)
    (hnext : nextSeq seqs' scope k = nextSeq seqs scope k) : Room lsdb' seqs' scope k n where
  fresh := by
    intro l hl
    rw [hget] at hl
    rw [hnext]
    exact h.fresh l hl
  room := by
    rw [hnext]
    exact h.room

theorem originate {p : Pass} {lsa : Lsa} (h : Room p.lsdb p.seqs scope lsa.key (n + 1)) :
    Room (p.originate scope lsa).lsdb (p.originate scope lsa).seqs scope lsa.key n := by
  have hroom := h.room
  have hadd : (nextSeq p.seqs scope lsa.key).toInt + 1 < 2 ^ 31 := by omega
  have hnext : nextSeq (p.originate scope lsa).seqs scope lsa.key = nextSeq p.seqs scope lsa.key + 1 := by
    rw [Pass.nextSeq_originate, if_pos ⟨rfl, rfl⟩]
  constructor
  · intro l hl
    rw [Pass.get_originate h.fresh] at hl
    obtain rfl := Option.some.inj hl
    rw [hnext, Lsa.filled_lsSeq]
    exact lt_add_one hadd
  · rw [hnext, toInt_add_one hadd]
    omega

end Room

/-! ### What a pass makes of an LSA -/

/-- It is the last of those wanted under its key, or was retired, or is as before. -/
inductive Passed (p q : Pass) (lsas : List Lsa) (retired : List LsaKey) (k : LsaKey) : Prop
  | wanted (lsa : Lsa) (seq : Int32) : lsa ∈ lsas → lsa.key = k → q.lsdb.get k = some (lsa.withSeq seq).filled →
    Passed p q lsas retired k
  | retired : k ∉ keySet lsas → k ∈ retired → (∀ l, q.lsdb.get k = some l → l.header.lsAge = maxAge) →
    Passed p q lsas retired k
  | same : k ∉ keySet lsas → k ∉ retired → q.lsdb.get k = p.lsdb.get k → Passed p q lsas retired k

section Passed
variable {scope : Ipv4Addr} {k : LsaKey} {n : ℕ}

theorem room_originateAll {lsas : List Lsa} {p : Pass}
    (h : Room p.lsdb p.seqs scope k (n + lsas.countP fun l => l.key = k)) :
    Room (lsas.foldl (Pass.originate scope) p).lsdb (lsas.foldl (Pass.originate scope) p).seqs scope k n ∧
      ((∃ lsa ∈ lsas, lsa.key = k ∧ ∃ seq, (lsas.foldl (Pass.originate scope) p).lsdb.get k =
          some (lsa.withSeq seq).filled) ∨
        k ∉ keySet lsas ∧ (lsas.foldl (Pass.originate scope) p).lsdb.get k = p.lsdb.get k) := by
  induction lsas generalizing p with
  | nil => exact ⟨h, .inr ⟨by simp [keySet], rfl⟩⟩
  | cons a l ih =>
    rw [List.foldl_cons]
    rw [List.countP_cons] at h
    by_cases hk : a.key = k
    · subst hk
      have hroom : Room p.lsdb p.seqs scope a.key ((n + l.countP fun l => l.key = a.key) + 1) := by
        simpa [Nat.add_assoc] using h
      obtain ⟨hlast, hget⟩ := ih hroom.originate
      refine ⟨hlast, .inl ?_⟩
      rcases hget with ⟨lsa, hmem, hkey, hget⟩ | ⟨-, hsame⟩
      · exact ⟨lsa, List.mem_cons_of_mem a hmem, hkey, hget⟩
      · exact ⟨a, List.mem_cons_self, rfl, _, hsame.trans (Pass.get_originate hroom.fresh)⟩
    · have hother : Pass.Unchanged scope (· = a.key) p (p.originate scope a) := Pass.unchanged_originate rfl
      have hroom : Room p.lsdb p.seqs scope k (n + l.countP fun l => l.key = k) := by simpa [hk] using h
      have hfirst := hother.get k (Ne.symm hk)
      obtain ⟨hlast, hget⟩ := ih (hroom.congr hfirst (hother.nextSeq scope k fun h => hk h.2.symm))
      refine ⟨hlast, ?_⟩
      rcases hget with ⟨lsa, hmem, hkey, hget⟩ | ⟨hnot, hsame⟩
      · exact .inl ⟨lsa, List.mem_cons_of_mem a hmem, hkey, hget⟩
      · refine .inr ⟨?_, hsame.trans hfirst⟩
        intro hin
        obtain ⟨lsa, hmem, hkey⟩ := mem_keySet.mp hin
        rcases List.mem_cons.mp hmem with rfl | hmem
        · exact hk hkey
        · exact hnot (mem_keySet.mpr ⟨lsa, hmem, hkey⟩)

theorem room_flushAll {retired : List LsaKey} (hnodup : retired.Nodup) {p : Pass}
    (h : Room p.lsdb p.seqs scope k (n + 1)) :
    Room (retired.foldl (Pass.flush scope) p).lsdb (retired.foldl (Pass.flush scope) p).seqs scope k n ∧
      (k ∈ retired → ∀ l, (retired.foldl (Pass.flush scope) p).lsdb.get k = some l → l.header.lsAge = maxAge) ∧
      (k ∉ retired → (retired.foldl (Pass.flush scope) p).lsdb.get k = p.lsdb.get k) := by
  have hadd : (nextSeq p.seqs scope k).toInt + 1 < 2 ^ 31 := by
    have hroom := h.room
    omega
  by_cases hk : k ∈ retired
  · cases hheld : p.lsdb.get k with
    | some l =>
      obtain ⟨hget, hnext⟩ := Pass.flushAll_spec hnodup hk hheld h.fresh
      have hage : ∀ m, (retired.foldl (Pass.flush scope) p).lsdb.get k = some m →
          m.header.lsAge = maxAge ∧ m.header.lsSeq = nextSeq p.seqs scope k := by
        intro m hm
        rw [hget] at hm
        obtain rfl := Option.some.inj hm
        rw [Lsa.filled_lsAge, Lsa.filled_lsSeq]
        exact ⟨rfl, rfl⟩
      refine ⟨⟨?_, ?_⟩, fun _ m hm => (hage m hm).1, fun hnot => absurd hk hnot⟩
      · intro m hm
        rw [hnext, (hage m hm).2]
        exact lt_add_one hadd
      · have hroom := h.room
        rw [hnext, toInt_add_one hadd]
        omega
    | none =>
      obtain ⟨hnone, hnext⟩ := Pass.flushAll_none retired hheld
      refine ⟨(h.congr (hnone.trans hheld.symm) hnext).mono (by omega), ?_, fun hnot => absurd hk hnot⟩
      intro _ m hm
      rw [hnone] at hm
      cases hm
  · have hother : Pass.Unchanged scope (· ∈ retired) p (retired.foldl (Pass.flush scope) p) :=
      Pass.unchanged_foldl retired (fun a ha _ => Pass.unchanged_flush ha) p
    have hget := hother.get k hk
    exact ⟨(h.congr hget (hother.nextSeq scope k fun h => hk h.2)).mono (by omega), fun hin => absurd hin hk, fun _ => hget⟩

/-- A pass, with room for what it originates under a key and for one LSA that it flushes. -/
theorem Pass.passed {lsas : List Lsa} {retired : List LsaKey} (hnodup : retired.Nodup)
    (hdisj : ∀ k ∈ retired, k ∉ keySet lsas) {p : Pass}
    (h : Room p.lsdb p.seqs scope k (n + 1 + lsas.countP fun l => l.key = k)) :
    Passed p (p.run scope lsas retired) lsas retired k ∧
      Room (p.run scope lsas retired).lsdb (p.run scope lsas retired).seqs scope k n := by
  obtain ⟨hroom, hfirst⟩ := room_originateAll h
  obtain ⟨hlast, hretired, hsame⟩ := room_flushAll hnodup hroom
  refine ⟨?_, hlast⟩
  rcases hfirst with ⟨lsa, hmem, hkey, seq, hget⟩ | ⟨hnot, hget⟩
  · have hkept : k ∉ retired := fun hin => hdisj k hin (mem_keySet.mpr ⟨lsa, hmem, hkey⟩)
    exact .wanted lsa seq hmem hkey ((hsame hkept).trans hget)
  · by_cases hk : k ∈ retired
    · exact .retired hnot hk (hretired hk)
    · exact .same hnot hk ((hsame hk).trans hget)

end Passed

theorem disjoint_retired (lsas : List Lsa) (prev : List LsaKey) :
    ∀ k ∈ prev.filter (· ∉ keySet lsas), k ∉ keySet lsas := by
  intro k hk
  exact of_decide_eq_true (List.mem_filter.mp hk).2

/-! ### One area of many -/

theorem areas_areaPass (s : Ospf) (area : Ipv4Addr) (lsas : List Lsa) (retired : List LsaKey) (note : Area → Area)
    (b : Ipv4Addr) : (s.areaPass area lsas retired note).areas[b]? = if b = area then (s.areas[area]?).map fun a =>
      note { a with lsdb := (Pass.run area ⟨s.areaLsdb area, s.lsaSeqs, []⟩ lsas retired).lsdb } else s.areas[b]? := by
  rw [(sameCore_areaPass s area lsas retired note).areas, getElem?_modify]
  split_ifs with hb
  · rw [hb]
  · rfl

/-- In every state this is a pass over the area. -/
def IsPass (f : Ospf → Ipv4Addr → Ospf) : Prop := ∀ t a, ∃ lsas retired note, f t a = t.areaPass a lsas retired note

theorem isPass_reoriginateInto : IsPass reoriginateInto := by
  intro t a
  simp only [reoriginateInto]
  exact ⟨_, _, _, rfl⟩

theorem isPass_originateNssaInto : IsPass originateNssaInto := by
  intro t a
  simp only [originateNssaInto]
  exact ⟨_, _, _, rfl⟩

theorem isPass_originateSummariesInto (want : Ipv4Addr → BTreeMap Prefix UInt32) : IsPass (originateSummariesInto want) := by
  intro t a
  simp only [originateSummariesInto]
  exact ⟨_, _, _, rfl⟩

theorem isPass_nssaDefault : IsPass fun t a => t.areaPass a [t.nssaDefaultLsa] [] id := fun _ _ => ⟨_, _, _, rfl⟩

theorem view_areaPass {f : Ospf → Ipv4Addr → Ospf} (hf : IsPass f) (t : Ospf) (a b : Ipv4Addr) (hb : b ≠ a) :
    ((f t a).areas[b]?, nextSeq (f t a).lsaSeqs b) = (t.areas[b]?, nextSeq t.lsaSeqs b) := by
  obtain ⟨lsas, retired, note, heq⟩ := hf t a
  have hseqs : nextSeq (f t a).lsaSeqs b = nextSeq t.lsaSeqs b := by
    funext k
    rw [heq, lsaSeqs_areaPass]
    exact (Pass.unchanged_run (K := fun _ => True) (fun _ _ => trivial) (fun _ _ => trivial) _).nextSeq b k
      fun h => hb h.1
  rw [hseqs, heq, areas_areaPass, if_neg hb]

/-- A pass in each of some areas is in each of them what it is there in a state which looks there as the first one. -/
theorem areaFold_at {f : Ospf → Ipv4Addr → Ospf} (hf : IsPass f)
    {G : Ospf → Prop} (hG : ∀ t a, G t → G (f t a)) {areas : List Ipv4Addr} (hnodup : areas.Nodup) {s : Ospf} (hs : G s)
    {area : Ipv4Addr} (harea : area ∈ areas) : ∃ t, G t ∧ t.areas[area]? = s.areas[area]? ∧
      nextSeq t.lsaSeqs area = nextSeq s.lsaSeqs area ∧
      (areas.foldl f s).areas[area]? = (f t area).areas[area]? ∧
      nextSeq (areas.foldl f s).lsaSeqs area = nextSeq (f t area).lsaSeqs area := by
  obtain ⟨t, ht, hbefore, hafter⟩ := Run.foldl_view_of_mem (fun t a => (t.areas[a]?, nextSeq t.lsaSeqs a)) (view_areaPass hf) hG
    (by rwa [List.map_id']) hs harea
  exact ⟨t, ht, congrArg Prod.fst hbefore, congrArg Prod.snd hbefore, congrArg Prod.fst hafter, congrArg Prod.snd hafter⟩

/-- Elsewhere nothing differs. -/
theorem areaFold_off {f : Ospf → Ipv4Addr → Ospf} (hf : IsPass f)
    (s : Ospf) {areas : List Ipv4Addr} {area : Ipv4Addr} (harea : area ∉ areas) :
    (areas.foldl f s).areas[area]? = s.areas[area]? ∧
      nextSeq (areas.foldl f s).lsaSeqs area = nextSeq s.lsaSeqs area := by
  have hview := Run.foldl_view_of_notMem (fun t a => (t.areas[a]?, nextSeq t.lsaSeqs a)) (view_areaPass hf) areas s area
    (by rwa [List.map_id'])
  exact ⟨congrArg Prod.fst hview, congrArg Prod.snd hview⟩

/-- The AS-external LSAs and the books of them are the same. -/
structure Aside (s t : Ospf) : Prop where
  externalLsdb : t.externalLsdb = s.externalLsdb
  originatedExternals : t.originatedExternals = s.originatedExternals
  originatedTranslated : t.originatedTranslated = s.originatedTranslated

theorem Aside.areaFold {f : Ospf → Ipv4Addr → Ospf} (hf : IsPass f) (areas : List Ipv4Addr) (s : Ospf) :
    Aside s (areas.foldl f s) := by
  refine List.foldlRecOn areas f (motive := Aside s) ⟨rfl, rfl, rfl⟩ ?_
  intro t ht a _
  obtain ⟨lsas, retired, note, heq⟩ := hf t a
  have hcore := sameCore_areaPass t a lsas retired note
  rw [heq]
  exact ⟨hcore.externalLsdb.trans ht.externalLsdb, hcore.originatedExternals.trans ht.originatedExternals,
    hcore.originatedTranslated.trans ht.originatedTranslated⟩

theorem areaLsdb_congr {s t : Ospf} {area : Ipv4Addr} (h : t.areas[area]? = s.areas[area]?) :
    t.areaLsdb area = s.areaLsdb area := by
  unfold areaLsdb
  rw [h]

/-- Where the router has no area there is nothing. -/
theorem areaLsdb_of_notMem {s : Ospf} {area : Ipv4Addr} (h : area ∉ s.areas.keys) : s.areaLsdb area = .new := by
  have hnone : s.areas[area]? = none := by
    cases ha : s.areas[area]? with
    | none => rfl
    | some a =>
      have hin : area ∈ s.areas := by
        rw [Std.ExtTreeMap.mem_iff_isSome_getElem?, ha]
        rfl
      exact absurd (Std.ExtTreeMap.mem_keys.mpr hin) h
  unfold areaLsdb
  rw [hnone]
  rfl

/-! ### How often an LSA is originated -/

/-- An address is the network of no more prefixes than there are lengths. -/
theorem countP_network_le {β : Type} (m : BTreeMap Prefix β) (net : Ipv4Addr) :
    (m.toList.countP fun e => e.1.addr = .v4 net) ≤ 33 := by
  have hmem : ∀ e ∈ m.toList.filter fun e => e.1.addr = .v4 net, e.1.addr = .v4 net := by
    intro e he
    exact of_decide_eq_true (List.mem_filter.mp he).2
  have hkeys : ((m.toList.filter fun e => e.1.addr = .v4 net).map Prod.fst).Nodup :=
    (nodup_keys_toList m).sublist (List.filter_sublist.map Prod.fst)
  have hlens : ((m.toList.filter fun e => e.1.addr = .v4 net).map fun e => e.1.len.toNat).Nodup := by
    refine List.Nodup.map_on ?_ hkeys.of_map
    intro a ha b hb hlen
    have haddr : a.1.addr = b.1.addr := (hmem a ha).trans (hmem b hb).symm
    have hpfx : a.1 = b.1 := Prefix.key_injective (Prod.ext (congrArg IpAddr.key haddr) (UInt8.toNat_inj.mp hlen))
    exact List.inj_on_of_nodup_map hkeys ha hb hpfx
  have hsub : ((m.toList.filter fun e => e.1.addr = .v4 net).map fun e => e.1.len.toNat) ⊆ List.range 33 := by
    intro n hn
    obtain ⟨e, he, rfl⟩ := List.mem_map.mp hn
    have hle := UInt8.le_iff_toNat_le.mp e.1.len_le
    have hmax : (e.1.addr.maxLen).toNat = 32 := by rw [hmem e he]; rfl
    rw [List.mem_range]
    omega
  have hlength := (hlens.subperm hsub).length_le
  rw [List.length_map, List.length_range] at hlength
  rwa [List.countP_eq_length_filter]

theorem countP_externalLsas (s : Ospf) (t : LsType) (options : UInt8) (k : LsaKey) :
    ((s.externalLsas t options).countP fun l => l.key = k) ≤ 33 := by
  unfold externalLsas
  rw [List.countP_filterMap]
  refine le_trans (List.countP_mono_left ?_) (countP_network_le s.externals k.2.1)
  intro e _ he
  split at he
  next net haddr =>
    have hkey : (Lsa.key ⟨s.selfHeader t net options, externalBody (lenToMask e.1.len) e.2⟩) = k := by simpa using he
    have hnet : net = k.2.1 := congrArg (fun k : LsaKey => k.2.1) hkey
    rw [decide_eq_true_eq, haddr, hnet]
  · simp at he

/-- In a stage no AS-external LSA is originated more often than this, the flushing of it included. -/
def load (s : Ospf) : ℕ := s.translatedLsas.length + 34

theorem load_eq {s t : Ospf} (h : Differ (fun _ k => k.2.2 = s.cfg.routerId) s t) (hsteady : Steady s t) :
    t.load = s.load := by
  unfold load
  rw [h.translatedLsas hsteady]

/-! ### Router-LSAs and AS-external LSAs -/

/-- The sequence numbers of the own Router-LSAs and AS-external LSAs have room, and the books list every own AS-external
LSA that is alive. -/
structure Counted (m : ℕ) (s : Ospf) : Prop where
  booked : Booked s
  externalsNodup : s.originatedExternals.Nodup
  translatedNodup : s.originatedTranslated.Nodup
  router : ∀ area, Room (s.areaLsdb area) s.lsaSeqs area s.routerKey m
  only : ∀ area k l, (s.areaLsdb area).get k = some l → Own s.cfg.routerId .router k → k = s.routerKey
  external : ∀ k, Own s.cfg.routerId .asExternal k → Room s.externalLsdb s.lsaSeqs asScope k m
  covered : ∀ k l, s.externalLsdb.get k = some l → Own s.cfg.routerId .asExternal k → l.header.lsAge < maxAge →
    k ∈ s.originatedExternals ∨ k ∈ s.originatedTranslated
  border : s.isAbr = false → s.originatedTranslated = []

section Counted
variable {m n : ℕ} {s t : Ospf}

theorem Counted.mono (h : Counted m s) (hnm : n ≤ m) : Counted n s where
  booked := h.booked
  externalsNodup := h.externalsNodup
  translatedNodup := h.translatedNodup
  router area := (h.router area).mono hnm
  only := h.only
  external k hk := (h.external k hk).mono hnm
  covered := h.covered
  border := h.border

theorem SameCore.counted (h : SameCore s t) (hs : Counted m s) : Counted m t where
  booked := h.booked hs.booked
  externalsNodup := by
    rw [h.originatedExternals]
    exact hs.externalsNodup
  translatedNodup := by
    rw [h.originatedTranslated]
    exact hs.translatedNodup
  router area := by
    rw [h.areaLsdb, h.lsaSeqs, routerKey, h.cfg]
    exact hs.router area
  only area k l := by
    rw [h.areaLsdb, routerKey, h.cfg]
    exact hs.only area k l
  external k := by
    rw [h.externalLsdb, h.lsaSeqs, h.cfg]
    exact hs.external k
  covered k l := by
    rw [h.externalLsdb, h.cfg, h.originatedExternals, h.originatedTranslated]
    exact hs.covered k l
  border := by
    rw [h.isAbr, h.originatedTranslated]
    exact hs.border

/-- LSAs of other kinds, and of other routers, do not count. -/
theorem Counted.of_differ {K : Ipv4Addr → LsaKey → Prop} (hs : Counted m s) (hbooked : Booked t) (hsteady : Steady s t)
    (hdiffer : Differ K s t) (hrouter : ∀ area k, Own s.cfg.routerId .router k → ¬ K area k)
    (hexternal : ∀ k, Own s.cfg.routerId .asExternal k → ¬ K asScope k)
    (hbooks : t.originatedExternals = s.originatedExternals ∧ t.originatedTranslated = s.originatedTranslated) :
    Counted m t where
  booked := hbooked
  externalsNodup := by
    rw [hbooks.1]
    exact hs.externalsNodup
  translatedNodup := by
    rw [hbooks.2]
    exact hs.translatedNodup
  router area := by
    have hnot := hrouter area s.routerKey ⟨rfl, rfl⟩
    rw [routerKey, hsteady.cfg]
    exact (hs.router area).congr (hdiffer.area area _ hnot) (hdiffer.nextSeq area _ hnot)
  only area k l hget hk := by
    rw [hsteady.cfg] at hk
    rw [hdiffer.area area k (hrouter area k hk)] at hget
    rw [routerKey, hsteady.cfg]
    exact hs.only area k l hget hk
  external k hk := by
    rw [hsteady.cfg] at hk
    exact (hs.external k hk).congr (hdiffer.external k (hexternal k hk)) (hdiffer.nextSeq asScope k (hexternal k hk))
  covered k l hget hk hlive := by
    rw [hsteady.cfg] at hk
    rw [hdiffer.external k (hexternal k hk)] at hget
    rw [hbooks.1, hbooks.2]
    exact hs.covered k l hget hk hlive
  border := by
    rw [hsteady.isAbr, hbooks.2]
    exact hs.border

end Counted

/-! ### Stages -/

section Stage
variable {m : ℕ} {s : Ospf}

/-- The Router-LSA of an area is what the stage originates there. -/
theorem get_routers (hs : Counted (m + 1) s) {area : Ipv4Addr} (harea : area ∈ s.areas.keys) :
    ∃ (t : Ospf) (seq : Int32), Steady s t ∧ ((s.areas.keys.foldl reoriginateInto s).areaLsdb area).get s.routerKey =
        some ((t.buildRouterLsa area).withSeq seq).filled ∧
      Room ((s.areas.keys.foldl reoriginateInto s).areaLsdb area) (s.areas.keys.foldl reoriginateInto s).lsaSeqs area
        s.routerKey m := by
  obtain ⟨t, ⟨hsteady, hbooked⟩, hthere, hseqs, hlast, hnext⟩ :=
    areaFold_at isPass_reoriginateInto (G := fun t => Steady s t ∧ Booked t)
      (fun t a ht => ⟨ht.1.trans (.reoriginateInto t a), (differ_routers ht.2 [a]).1⟩)
      Std.ExtTreeMap.nodup_keys ⟨.refl s, hs.booked⟩ harea
  have hkey : t.routerKey = s.routerKey := by rw [routerKey, hsteady.cfg, routerKey]
  have hbefore : Room (t.areaLsdb area) t.lsaSeqs area t.routerKey (m + 1) := by
    rw [hkey]
    exact (hs.router area).congr (by rw [areaLsdb_congr hthere]) (congrFun hseqs _)
  have hin : area ∈ t.areas := by rwa [← Std.ExtTreeMap.mem_keys, hsteady.keys]
  have hnetworks : ∀ k, Own t.cfg.routerId .network k → k ≠ t.routerKey := by
    intro k hk he
    rw [he] at hk
    cases hk.1
  have hprev : ∀ k ∈ ((t.areas[area]?).map Area.originatedNetworks).getD [], k ≠ t.routerKey :=
    hbooked.forall_book (fun a ha k hk => hnetworks k (ha.networks k hk)) area
  -- The networks that are originated and flushed after it leave the Router-LSA alone.
  have hrest : Pass.Unchanged area (· ≠ t.routerKey)
      (Pass.originate area ⟨t.areaLsdb area, t.lsaSeqs, []⟩ (t.buildRouterLsa area))
      (Pass.run area (Pass.originate area ⟨t.areaLsdb area, t.lsaSeqs, []⟩ (t.buildRouterLsa area))
        (t.networkLsas area) ((((t.areas[area]?).map Area.originatedNetworks).getD []).filter
          (· ∉ keySet (t.networkLsas area)))) :=
    Pass.unchanged_run (fun l hl => hnetworks _ (own_networkLsas t area l hl))
      (fun k hk => hprev k (List.mem_of_mem_filter hk)) _
  have hroom : Room (Pass.originate area ⟨t.areaLsdb area, t.lsaSeqs, []⟩ (t.buildRouterLsa area)).lsdb
      (Pass.originate area ⟨t.areaLsdb area, t.lsaSeqs, []⟩ (t.buildRouterLsa area)).seqs area t.routerKey m :=
    Room.originate (p := ⟨t.areaLsdb area, t.lsaSeqs, []⟩) hbefore
  have hdb : (t.reoriginateInto area).areaLsdb area = (Pass.run area
      (Pass.originate area ⟨t.areaLsdb area, t.lsaSeqs, []⟩ (t.buildRouterLsa area)) (t.networkLsas area)
      ((((t.areas[area]?).map Area.originatedNetworks).getD []).filter (· ∉ keySet (t.networkLsas area)))).lsdb := by
    simp only [reoriginateInto]
    rw [areaLsdb_areaPass, if_pos ⟨rfl, hin⟩]
    · rfl
    · intro a
      rfl
  have hseq : (t.reoriginateInto area).lsaSeqs = (Pass.run area
      (Pass.originate area ⟨t.areaLsdb area, t.lsaSeqs, []⟩ (t.buildRouterLsa area)) (t.networkLsas area)
      ((((t.areas[area]?).map Area.originatedNetworks).getD []).filter (· ∉ keySet (t.networkLsas area)))).seqs := by
    simp only [reoriginateInto]
    rw [lsaSeqs_areaPass]
    rfl
  have hkept : ¬ t.routerKey ≠ t.routerKey := fun h => h rfl
  rw [areaLsdb_congr hlast, hdb, ← hkey]
  refine ⟨t, _, hsteady, (hrest.get _ hkept).trans (Pass.get_originate hbefore.fresh), ?_⟩
  have hafter := hroom.congr (hrest.get _ hkept) (hrest.nextSeq area _ fun h => hkept h.2)
  rw [← hseq] at hafter
  exact hafter.congr rfl (congrFun hnext _)

theorem Counted.routers (hs : Counted (m + 1) s) : Counted m (s.areas.keys.foldl reoriginateInto s) := by
  obtain ⟨hbooked, hdiffer⟩ := differ_routers hs.booked s.areas.keys
  have hsteady := (Stage.routers s).steady
  have haside := Aside.areaFold isPass_reoriginateInto s.areas.keys s
  have hkey : (s.areas.keys.foldl reoriginateInto s).routerKey = s.routerKey := by rw [routerKey, hsteady.cfg, routerKey]
  have hother : ∀ k, Own s.cfg.routerId .asExternal k → ¬ (k = s.routerKey ∨ Own s.cfg.routerId .network k) := by
    rintro k ⟨htype, -⟩ (rfl | hk)
    · cases htype
    · rw [hk.1] at htype
      cases htype
  constructor
  · exact hbooked
  · rw [haside.originatedExternals]
    exact hs.externalsNodup
  · rw [haside.originatedTranslated]
    exact hs.translatedNodup
  · intro area
    rw [hkey]
    by_cases harea : area ∈ s.areas.keys
    · obtain ⟨_, _, -, -, hroom⟩ := get_routers hs harea
      exact hroom
    · obtain ⟨hthere, hseqs⟩ := areaFold_off isPass_reoriginateInto s harea
      exact ((hs.router area).mono (Nat.le_succ m)).congr (by rw [areaLsdb_congr hthere]) (congrFun hseqs _)
  · intro area k l hget hk
    rw [hsteady.cfg] at hk
    rw [hkey]
    by_contra hne
    have hnot : ¬ (k = s.routerKey ∨ Own s.cfg.routerId .network k) := by
      rintro (he | hnet)
      · exact hne he
      · exact absurd (hk.1.symm.trans hnet.1) (by decide)
    rw [hdiffer.area area k hnot] at hget
    exact hne (hs.only area k l hget hk)
  · intro k hk
    rw [hsteady.cfg] at hk
    exact ((hs.external k hk).mono (Nat.le_succ m)).congr (hdiffer.external k (hother k hk))
      (hdiffer.nextSeq asScope k (hother k hk))
  · intro k l hget hk hlive
    rw [hsteady.cfg] at hk
    rw [haside.externalLsdb] at hget
    rw [haside.originatedExternals, haside.originatedTranslated]
    exact hs.covered k l hget hk hlive
  · rw [hsteady.isAbr, haside.originatedTranslated]
    exact hs.border

/-- A pass over the AS-external LSAs, for one of the two books of them. -/
theorem passed_externalPass {lsas : List Lsa} {prev : List LsaKey} (hnodup : prev.Nodup) (note : Ospf → Ospf)
    (hnote : ∀ t, (note t).externalLsdb = t.externalLsdb ∧ (note t).lsaSeqs = t.lsaSeqs) {k : LsaKey}
    (h : Room s.externalLsdb s.lsaSeqs asScope k (m + 1 + lsas.countP fun l => l.key = k)) :
    Passed ⟨s.externalLsdb, s.lsaSeqs, []⟩
        ⟨(s.externalPass lsas (prev.filter (· ∉ keySet lsas)) note).externalLsdb, ∅, []⟩ lsas
        (prev.filter (· ∉ keySet lsas)) k ∧
      Room (s.externalPass lsas (prev.filter (· ∉ keySet lsas)) note).externalLsdb
        (s.externalPass lsas (prev.filter (· ∉ keySet lsas)) note).lsaSeqs asScope k m := by
  rw [externalLsdb_externalPass s _ _ fun t => (hnote t).1, lsaSeqs_externalPass s _ _ fun t => (hnote t).2]
  obtain ⟨hpassed, hroom⟩ := Pass.passed (hnodup.filter _) (disjoint_retired lsas prev)
    (p := ⟨s.externalLsdb, s.lsaSeqs, []⟩) h
  refine ⟨?_, hroom⟩
  cases hpassed with
  | wanted lsa seq hmem hkey hget => exact .wanted lsa seq hmem hkey hget
  | retired hnot hin hage => exact .retired hnot hin hage
  | same hnot hno hget => exact .same hnot hno hget

/-- What is alive after it is wanted, or was alive before and not in the book. -/
theorem live_externalPass {lsas : List Lsa} {prev : List LsaKey} (hnodup : prev.Nodup) (note : Ospf → Ospf)
    (hnote : ∀ t, (note t).externalLsdb = t.externalLsdb ∧ (note t).lsaSeqs = t.lsaSeqs) {k : LsaKey}
    (h : Room s.externalLsdb s.lsaSeqs asScope k (m + 1 + lsas.countP fun l => l.key = k)) {l : Lsa}
    (hget : (s.externalPass lsas (prev.filter (· ∉ keySet lsas)) note).externalLsdb.get k = some l)
    (hlive : l.header.lsAge < maxAge) : k ∈ keySet lsas ∨ k ∉ prev ∧ s.externalLsdb.get k = some l := by
  cases (passed_externalPass hnodup note hnote h).1 with
  | wanted lsa _ hmem hkey _ => exact .inl (mem_keySet.mpr ⟨lsa, hmem, hkey⟩)
  | retired _ _ hage =>
    rw [hage l hget] at hlive
    exact absurd hlive (UInt16.lt_irrefl _)
  | same hnot hno hsame =>
    refine .inr ⟨?_, hsame.symm.trans hget⟩
    intro hin
    exact hno (List.mem_filter.mpr ⟨hin, decide_eq_true hnot⟩)

theorem not_own_router {k : LsaKey} {rid : Ipv4Addr} (hk : Own rid .router k) (scope : Ipv4Addr) :
    ¬ (scope = asScope ∧ Own rid .asExternal k) := by
  rintro ⟨-, htype, -⟩
  rw [hk.1] at htype
  cases htype

theorem Counted.externals (hs : Counted (m + s.load) s) : Counted m s.originateAsExternals := by
  obtain ⟨hbooked, hdiffer⟩ := differ_externals hs.booked
  have hsteady := (Stage.externals s).steady
  have hroom : ∀ k, Own s.cfg.routerId .asExternal k → Room s.externalLsdb s.lsaSeqs asScope k
      (m + 1 + (s.externalLsas .asExternal optE).countP fun l => l.key = k) := by
    intro k hk
    refine (hs.external k hk).mono ?_
    have hcount := countP_externalLsas s .asExternal optE k
    unfold load
    omega
  have hcore := sameCore_externalPass s (s.externalLsas .asExternal optE)
    (s.originatedExternals.filter (· ∉ keySet (s.externalLsas .asExternal optE)))
    fun t => { t with originatedExternals := keySet (s.externalLsas .asExternal optE) }
  have hbook : s.originateAsExternals.originatedExternals = keySet (s.externalLsas .asExternal optE) :=
    hcore.originatedExternals
  have hother : s.originateAsExternals.originatedTranslated = s.originatedTranslated := hcore.originatedTranslated
  constructor
  · exact hbooked
  · rw [hbook]
    exact List.nodup_dedup _
  · rw [hother]
    exact hs.translatedNodup
  · intro area
    rw [routerKey, hsteady.cfg]
    have hnot := not_own_router (k := s.routerKey) ⟨rfl, rfl⟩ area
    exact ((hs.router area).mono (Nat.le_add_right m _)).congr (hdiffer.area area _ hnot) (hdiffer.nextSeq area _ hnot)
  · intro area k l hget hk
    rw [hsteady.cfg] at hk
    rw [hdiffer.area area k (not_own_router hk area)] at hget
    rw [routerKey, hsteady.cfg]
    exact hs.only area k l hget hk
  · intro k hk
    rw [hsteady.cfg] at hk
    exact (passed_externalPass hs.externalsNodup (fun t => { t with originatedExternals := keySet (s.externalLsas .asExternal optE) }) (fun _ => ⟨rfl, rfl⟩)
      (hroom k hk)).2
  · intro k l hget hk hlive
    rw [hsteady.cfg] at hk
    rw [hbook, hother]
    rcases live_externalPass hs.externalsNodup (fun t => { t with originatedExternals := keySet (s.externalLsas .asExternal optE) })
      (fun _ => ⟨rfl, rfl⟩) (hroom k hk) hget hlive with hin | ⟨hnot, hheld⟩
    · exact .inl hin
    · exact .inr ((hs.covered k l hheld hk hlive).resolve_left hnot)
  · rw [hsteady.isAbr, hother]
    exact hs.border

theorem Counted.translated (habr : s.isAbr = true) (hs : Counted (m + s.load) s) : Counted m s.translateNssa := by
  obtain ⟨hbooked, hdiffer⟩ := differ_translated hs.booked
  have hsteady := (Stage.translated s habr).steady
  have hroom : ∀ k, Own s.cfg.routerId .asExternal k → Room s.externalLsdb s.lsaSeqs asScope k
      (m + 1 + s.translatedLsas.countP fun l => l.key = k) := by
    intro k hk
    refine (hs.external k hk).mono ?_
    have hcount := List.countP_le_length (p := fun l : Lsa => l.key = k) (l := s.translatedLsas)
    unfold load
    omega
  have hcore := sameCore_externalPass s s.translatedLsas
    (s.originatedTranslated.filter (· ∉ keySet s.translatedLsas))
    fun t => { t with originatedTranslated := keySet s.translatedLsas }
  have hbook : s.translateNssa.originatedTranslated = keySet s.translatedLsas := hcore.originatedTranslated
  have hother : s.translateNssa.originatedExternals = s.originatedExternals := hcore.originatedExternals
  constructor
  · exact hbooked
  · rw [hother]
    exact hs.externalsNodup
  · rw [hbook]
    exact List.nodup_dedup _
  · intro area
    rw [routerKey, hsteady.cfg]
    have hnot := not_own_router (k := s.routerKey) ⟨rfl, rfl⟩ area
    exact ((hs.router area).mono (Nat.le_add_right m _)).congr (hdiffer.area area _ hnot) (hdiffer.nextSeq area _ hnot)
  · intro area k l hget hk
    rw [hsteady.cfg] at hk
    rw [hdiffer.area area k (not_own_router hk area)] at hget
    rw [routerKey, hsteady.cfg]
    exact hs.only area k l hget hk
  · intro k hk
    rw [hsteady.cfg] at hk
    exact (passed_externalPass hs.translatedNodup (fun t => { t with originatedTranslated := keySet s.translatedLsas }) (fun _ => ⟨rfl, rfl⟩)
      (hroom k hk)).2
  · intro k l hget hk hlive
    rw [hsteady.cfg] at hk
    rw [hbook, hother]
    rcases live_externalPass hs.translatedNodup (fun t => { t with originatedTranslated := keySet s.translatedLsas })
      (fun _ => ⟨rfl, rfl⟩) (hroom k hk) hget hlive with hin | ⟨hnot, hheld⟩
    · exact .inr hin
    · exact .inl ((hs.covered k l hheld hk hlive).resolve_right hnot)
  · intro hno
    rw [hsteady.isAbr, habr] at hno
    cases hno

theorem not_router_of_type {rid : Ipv4Addr} {t : LsType} (ht : t ≠ .router ∧ t ≠ .asExternal) {k : LsaKey}
    (hk : Own rid .router k ∨ Own rid .asExternal k) : ¬ Own rid t k := by
  rintro ⟨htype, -⟩
  rcases hk with hk | hk
  · exact ht.1 (htype.symm.trans hk.1)
  · exact ht.2 (htype.symm.trans hk.1)

/-- A stage uses up no more numbers than there is to originate. -/
theorem Stage.counted {t : Ospf} (h : Stage s t) (hs : Counted (m + s.load) s) : Counted m t := by
  have hless : Counted m s := hs.mono (Nat.le_add_right m _)
  -- A stage over the areas whose LSAs are of another type.
  have hother : ∀ {f : Ospf → Ipv4Addr → Ospf} {areas : List Ipv4Addr} {ty : LsType},
      IsPass f → ty ≠ .router ∧ ty ≠ .asExternal →
      Steady s (areas.foldl f s) → Booked (areas.foldl f s) ∧ Differ (fun _ => Own s.cfg.routerId ty) s (areas.foldl f s) →
      Counted m (areas.foldl f s) := by
    intro f areas ty hf hty hsteady hdiffer
    have haside := Aside.areaFold hf areas s
    exact hless.of_differ hdiffer.1 hsteady hdiffer.2 (fun _ k hk => not_router_of_type hty (.inl hk))
      (fun k hk => not_router_of_type hty (.inr hk)) ⟨haside.originatedExternals, haside.originatedTranslated⟩
  have hsteady := h.steady
  cases h with
  | routers =>
    refine Counted.routers (hs.mono ?_)
    unfold load
    omega
  | externals => exact hs.externals
  | nssa => exact hother isPass_originateNssaInto (by decide) hsteady (differ_nssa hs.booked _)
  | summaries => exact hother (isPass_originateSummariesInto _) (by decide) hsteady (differ_summaries hs.booked _ _)
  | nssaDefault => exact hother isPass_nssaDefault (by decide) hsteady (differ_nssaDefault hs.booked)
  | translated habr => exact hs.translated habr

end Stage

theorem Stage.load {s t : Ospf} (h : Stage s t) (hs : Booked s) : t.load = s.load := load_eq (h.differ hs) h.steady

theorem SameCore.load {s t : Ospf} (h : SameCore s t) : t.load = s.load := load_eq h.differ (.of_sameCore h)

/-- What every stage preserves while there is room is preserved by stages for which there is room. -/
theorem Stages.counted {P : Ospf → Prop} (hrest : ∀ {s t}, SameCore s t → P s → P t)
    (hstage : ∀ {m s t}, Counted (m + s.load) s → Stage s t → P s → P t) {n m : ℕ} {s t : Ospf} (h : Stages n s t)
    (hcounted : Counted (m + n * s.load) s) (hs : P s) : Counted m t ∧ P t := by
  have hall : Counted m t ∧ t.load = s.load ∧ P t := by
    induction h generalizing m with
    | rest hsame => exact ⟨(hsame.counted hcounted).mono (Nat.le_add_right m _), hsame.load, hrest hsame hs⟩
    | @stage n s t u v _ hstep hsame ih =>
      have hbefore : Counted (m + s.load + n * s.load) s := by
        refine hcounted.mono ?_
        rw [Nat.add_mul, Nat.one_mul]
        omega
      obtain ⟨ht, hload, hP⟩ := ih hbefore hs
      rw [← hload] at ht
      exact ⟨hsame.counted (hstep.counted ht), hsame.load.trans ((hstep.load ht.booked).trans hload),
        hrest hsame (hstage ht hstep hP)⟩
  exact ⟨hall.1, hall.2.2⟩

/-! ### Reading an update, and getting older -/

theorem get_install_cases {db : Lsdb} {lsa : Lsa} {k : LsaKey} {l : Lsa} (h : (db.install lsa).1.get k = some l) :
    k = lsa.key ∧ l = lsa.filled ∨ db.get k = some l := by
  rw [Lsdb.get_install] at h
  split_ifs at h with hk
  · exact .inl ⟨hk.1, (Option.some.inj h).symm⟩
  · exact .inr h

namespace Room
variable {lsdb : Lsdb} {seqs : Seqs} {scope scope' : Ipv4Addr} {k k' : LsaKey} {m : ℕ}

/-- An instance of somebody else has come, which is not older than what is held; the next own one is to follow it. -/
theorem follow {seq : Int32} (hle : ∀ l, lsdb.get k = some l → l.header.lsSeq ≤ seq) (hroom : seq.toInt + 1 + m < 2 ^ 31) :
    Room lsdb (seqs.insert (scope, k) (seq + 1)) scope k m := by
  have hadd : seq.toInt + 1 < 2 ^ 31 := by omega
  constructor
  · intro l hl
    rw [nextSeq_insert, if_pos ⟨rfl, rfl⟩, Int32.lt_iff_toInt_lt, toInt_add_one hadd]
    have hseq := Int32.le_iff_toInt_le.mp (hle l hl)
    omega
  · rw [nextSeq_insert, if_pos ⟨rfl, rfl⟩, toInt_add_one hadd]
    exact hroom

theorem insert_other (h : Room lsdb seqs scope' k' m) (hne : ¬ (scope' = scope ∧ k' = k)) (v : Int32) :
    Room lsdb (seqs.insert (scope, k) v) scope' k' m :=
  h.congr rfl (by rw [nextSeq_insert, if_neg hne])

end Room

section Read
variable {m : ℕ} {s : Ospf} {area : Ipv4Addr} {lsa : Lsa}

theorem Counted.follow (hs : Counted m s) (hnewer : Newer s area lsa) (hroom : lsa.header.lsSeq.toInt + 1 + m < 2 ^ 31) :
    Counted m { s with lsaSeqs := s.lsaSeqs.insert (scopeOf area lsa, lsa.key) (lsa.header.lsSeq + 1) } where
  booked := ⟨hs.booked.areas, hs.booked.externals, hs.booked.translated⟩
  externalsNodup := hs.externalsNodup
  translatedNodup := hs.translatedNodup
  router b := by
    by_cases hhit : b = scopeOf area lsa ∧ s.routerKey = lsa.key
    · obtain ⟨hscope, hkey⟩ := hhit
      have htype : lsa.header.lsType = .router := congrArg (fun k : LsaKey => k.1) hkey.symm
      have hb : b = area := by
        rw [hscope, scopeOf, htype]
        rfl
      have hheld : ∀ l, (s.areaLsdb b).get lsa.key = some l → l.header.lsSeq ≤ lsa.header.lsSeq := by
        intro l hl
        refine LsaHeader.lsSeq_le_of_compareRecency (hnewer l ?_)
        rw [htype, ← hb]
        exact hl
      have hfollow : Room (s.areaLsdb b) (s.lsaSeqs.insert (b, lsa.key) (lsa.header.lsSeq + 1)) b lsa.key m :=
        .follow hheld hroom
      rw [hscope, ← hkey] at hfollow
      rw [hscope, ← hkey]
      exact hfollow
    · exact (hs.router b).insert_other hhit _
  only := hs.only
  external k hk := by
    by_cases hhit : asScope = scopeOf area lsa ∧ k = lsa.key
    · obtain ⟨hscope, rfl⟩ := hhit
      have htype : lsa.header.lsType = .asExternal := hk.1
      have hheld : ∀ l, s.externalLsdb.get lsa.key = some l → l.header.lsSeq ≤ lsa.header.lsSeq := by
        intro l hl
        refine LsaHeader.lsSeq_le_of_compareRecency (hnewer l ?_)
        rw [htype]
        exact hl
      rw [← hscope]
      exact .follow hheld hroom
    · exact (hs.external k hk).insert_other hhit _
  covered := hs.covered
  border := hs.border

theorem Counted.reclaim (hs : Counted m s) (hnewer : Newer s area lsa) (hroom : lsa.header.lsSeq.toInt + 1 + m < 2 ^ 31) :
    Counted m (s.reclaim (scopeOf area lsa) lsa).1 := by
  have hfollow := hs.follow hnewer hroom
  simp only [Ospf.reclaim]
  split
  next retired hretired =>
    unfold retiredSelfExternal at hretired
    split at hretired
    · cases hretired
    next hcond =>
      obtain rfl := Option.some.inj hretired
      have htype : lsa.header.lsType = .asExternal := by
        by_contra hne
        simp [hne] at hcond
      refine (SameCore.floodOn _ _ _ _).counted ?_
      have hnext : nextSeq (s.lsaSeqs.insert (scopeOf area lsa, lsa.key) (lsa.header.lsSeq + 1)) asScope lsa.key =
          lsa.header.lsSeq + 1 := by
        rw [nextSeq_insert, if_pos]
        exact ⟨(if_pos htype).symm, rfl⟩
      refine ⟨⟨hfollow.booked.areas, hfollow.booked.externals, hfollow.booked.translated⟩, hfollow.externalsNodup,
        hfollow.translatedNodup, hfollow.router, hfollow.only, ?_, ?_, hfollow.border⟩
      · intro k hk
        have hheld := hfollow.external k hk
        refine ⟨?_, hheld.room⟩
        intro l hl
        rcases get_install_cases hl with ⟨rfl, rfl⟩ | hold
        · rw [Lsa.key_withAge, hnext, Lsa.filled_lsSeq]
          have hadd : lsa.header.lsSeq.toInt + 1 < 2 ^ 31 := by omega
          exact lt_add_one hadd
        · exact hheld.fresh l hold
      · intro k l hl hk hlive
        rcases get_install_cases hl with ⟨-, rfl⟩ | hold
        · rw [Lsa.filled_lsAge] at hlive
          exact absurd hlive (UInt16.lt_irrefl _)
        · exact hfollow.covered k l hold hk hlive
  · exact hfollow

theorem steady_installForeign (s : Ospf) (scope area : Ipv4Addr) (now : ℕ) (lsa : Lsa) :
    Steady s (s.installForeign scope area now lsa) := by
  simp only [Ospf.installForeign]
  split
  · exact ⟨rfl, rfl, rfl, rfl⟩
  · exact ⟨rfl, rfl, rfl, keys_modify _ _ _⟩

/-- Only the LSA itself is installed. -/
theorem differ_installForeign (s : Ospf) (scope area : Ipv4Addr) (now : ℕ) (lsa : Lsa) :
    Differ (fun _ k => k = lsa.key) s (s.installForeign scope area now lsa) := by
  have hinstall : ∀ (db : Lsdb) (k : LsaKey), k ≠ lsa.key → (db.install lsa).1.get k = db.get k := by
    intro db k hk
    rw [Lsdb.get_install, if_neg fun h => hk h.1]
  simp only [Ospf.installForeign]
  split
  · exact ⟨fun _ _ _ => rfl, fun k hk => hinstall _ k hk, fun _ _ _ => rfl⟩
  · refine ⟨?_, fun _ _ => rfl, fun _ _ _ => rfl⟩
    intro b k hk
    simp only [areaLsdb, modifyArea, getElem?_modify]
    split_ifs
    · cases s.areas[b]? with
      | none => rfl
      | some a => exact hinstall a.lsdb k hk
    · rfl

theorem books_installForeign (s : Ospf) (scope area : Ipv4Addr) (now : ℕ) (lsa : Lsa) :
    (s.installForeign scope area now lsa).originatedExternals = s.originatedExternals ∧
      (s.installForeign scope area now lsa).originatedTranslated = s.originatedTranslated := by
  simp only [Ospf.installForeign]
  split <;> exact ⟨rfl, rfl⟩

theorem SameCore.newer {t : Ospf} (h : SameCore s t) (hnewer : Newer s area lsa) : Newer t area lsa := by
  intro l hl
  refine hnewer l ?_
  unfold lsdbFor at hl ⊢
  rwa [h.externalLsdb, h.areaLsdb] at hl

/-- Own LSAs that come in must leave room for the instances that are to follow them. -/
theorem Read.counted {now : ℕ} {u v : Update} (h : Read area now u lsa v)
    (hroom : lsa.header.advertisingRouter = u.s.cfg.routerId → lsa.header.lsSeq.toInt + 1 + m < 2 ^ 31)
    (hu : Counted m u.s) : Counted m v.s := by
  cases h with
  | rest hsame => exact hsame.counted hu
  | reclaim t hsame hself hnewer heq =>
    rw [heq]
    exact (hsame.counted hu).reclaim (hsame.newer hnewer) (hroom hself)
  | foreign t hsame hother _ _ _ heq =>
    have hno : ∀ (ty : LsType) (k : LsaKey), Own t.cfg.routerId ty k → k ≠ lsa.key := by
      rintro ty k ⟨-, hk⟩ rfl
      rw [hsame.cfg] at hk
      exact hother hk
    have ht := hsame.counted hu
    rw [heq]
    exact ht.of_differ (ht.booked.installForeign _ _ _ _) (steady_installForeign ..) (differ_installForeign ..)
      (fun _ k hk => hno _ k hk) (fun k hk => hno _ k hk) (books_installForeign ..)

/-- The LSAs of an update are looked at, one after another. -/
inductive Reads (lsas : List Lsa) (s : Ospf) : Ospf → Prop
  | start : Reads lsas s s
  | next {area : Ipv4Addr} {now : ℕ} {u v : Update} {lsa : Lsa} : Reads lsas s u.s → lsa ∈ lsas → Read area now u lsa v →
    Reads lsas s v.s

theorem reads_readLsas (s : Ospf) (idx : ℕ) (k area : Ipv4Addr) (lsas : List Lsa) (now : ℕ) :
    Reads lsas s (s.readLsas idx k area lsas now).s :=
  readLsas_invariant (P := fun u => Reads lsas s u.s) s idx k area lsas now .start
    fun _ _ _ hmem hread hu => hu.next hmem hread

theorem Read.cfg {now : ℕ} {u v : Update} (h : Read area now u lsa v) : v.s.cfg = u.s.cfg := by
  cases h with
  | rest hsame => exact hsame.cfg
  | reclaim t hsame _ _ heq =>
    have hreclaim : (t.reclaim (scopeOf area lsa) lsa).1.cfg = t.cfg := by
      simp only [Ospf.reclaim]
      split <;> rfl
    rw [heq, hreclaim, hsame.cfg]
  | foreign t hsame _ _ _ _ heq =>
    rw [heq, (steady_installForeign ..).cfg, hsame.cfg]

theorem Reads.counted {lsas : List Lsa} {u : Ospf} (h : Reads lsas s u)
    (hroom : ∀ lsa ∈ lsas, lsa.header.advertisingRouter = s.cfg.routerId → lsa.header.lsSeq.toInt + 1 + m < 2 ^ 31)
    (hs : Counted m s) : Counted m u := by
  have hall : u.cfg = s.cfg ∧ Counted m u := by
    induction h with
    | start => exact ⟨rfl, hs⟩
    | next _ hmem hread ih =>
      refine ⟨hread.cfg.trans ih.1, hread.counted ?_ ih.2⟩
      rw [ih.1]
      exact hroom _ hmem
  exact hall.2

end Read

/-- What an area holds is what it held, but older. -/
theorem get_ageLsdbs {s : Ospf} {secs : UInt16} {area : Ipv4Addr} {k : LsaKey} {l : Lsa}
    (h : ((s.ageLsdbs secs).areaLsdb area).get k = some l) :
    ∃ l', (s.areaLsdb area).get k = some l' ∧ l = Lsdb.ageBy secs l' := by
  simp only [ageLsdbs, areaLsdb, Std.ExtTreeMap.getElem?_map] at h
  cases ha : s.areas[area]? with
  | none => simp [ha] at h
  | some a =>
    simp only [ha, Option.map_some, Option.getD_some] at h
    have hreap : (a.lsdb.reap secs).get k = some l := h
    rw [Lsdb.get_reap] at hreap
    obtain ⟨l', hl', hkeep⟩ := Option.bind_eq_some_iff.mp hreap
    split_ifs at hkeep
    refine ⟨l', ?_, (Option.some.inj hkeep).symm⟩
    unfold areaLsdb
    rw [ha]
    exact hl'

theorem externalLsdb_ageLsdbs (s : Ospf) (secs : UInt16) : (s.ageLsdbs secs).externalLsdb = s.externalLsdb.reap secs := rfl

theorem get_reap_cases {db : Lsdb} {secs : UInt16} {k : LsaKey} {l : Lsa} (h : (db.reap secs).get k = some l) :
    ∃ l', db.get k = some l' ∧ l = Lsdb.ageBy secs l' := by
  rw [Lsdb.get_reap] at h
  obtain ⟨l', hl', hkeep⟩ := Option.bind_eq_some_iff.mp h
  split_ifs at hkeep
  exact ⟨l', hl', (Option.some.inj hkeep).symm⟩

theorem Counted.ageLsdbs {m : ℕ} {s : Ospf} (hs : Counted m s) (secs : UInt16) : Counted m (s.ageLsdbs secs) where
  booked := by
    have hbooked := booked_step s (.age secs) hs.booked
    exact hbooked
  externalsNodup := hs.externalsNodup
  translatedNodup := hs.translatedNodup
  router area := by
    have hheld := hs.router area
    refine ⟨?_, hheld.room⟩
    intro l hl
    obtain ⟨l', hl', rfl⟩ := get_ageLsdbs hl
    exact hheld.fresh l' hl'
  only area k l hget hk := by
    obtain ⟨l', hl', -⟩ := get_ageLsdbs hget
    exact hs.only area k l' hl' hk
  external k hk := by
    have hheld := hs.external k hk
    refine ⟨?_, hheld.room⟩
    intro l hl
    obtain ⟨l', hl', rfl⟩ := get_reap_cases (externalLsdb_ageLsdbs s secs ▸ hl)
    exact hheld.fresh l' hl'
  covered k l hget hk hlive := by
    obtain ⟨l', hl', rfl⟩ := get_reap_cases (externalLsdb_ageLsdbs s secs ▸ hget)
    refine hs.covered k l' hl' hk ?_
    by_contra hold
    exact absurd hlive (UInt16.not_lt.mpr (le_older (UInt16.not_lt.mp hold) secs))
  border := hs.border

/-! ### Steps -/

/-- The LSAs that an event brings. -/
def Event.lsas : Event → List Lsa
  | .packet _ _ p _ =>
    match p.body with
    | .linkStateUpdate lsas => lsas
    | _ => []
  | _ => []

/-- The update that an event brings to the task: the interface, the key of the neighbour, the LSAs and when. -/
def Event.update (s : Ospf) : Event → Option (ℕ × Ipv4Addr × List Lsa × ℕ)
  | .packet ifindex src p now =>
    match p.body with
    | .linkStateUpdate lsas =>
      let idx := s.ifaces.findIdx fun i => i.ifindex = ifindex
      (s.iface? idx).map fun i => (idx, if i.fsm.ifaceType.electsDr then src else p.header.routerId, lsas, now)
    | _ => none
  | _ => none

theorem Event.lsas_of_update {s : Ospf} {e : Event} {idx : ℕ} {nbrId : Ipv4Addr} {lsas : List Lsa} {now : ℕ}
    (h : e.update s = some (idx, nbrId, lsas, now)) : e.lsas = lsas := by
  cases e with
  | packet ifindex src p now =>
    simp only [Event.update] at h
    split at h
    next lsas' hbody =>
      obtain ⟨i, -, heq⟩ := Option.map_eq_some_iff.mp h
      simp only [Prod.mk.injEq] at heq
      simp only [Event.lsas, hbody]
      exact heq.2.2.1
    · cases h
  | _ => cases h

/-- An event is a walk, unless it is an update, the task gets older or what it redistributes changes. -/
theorem Walk.step_cases {P : ℕ → Ospf → Ospf → Prop} (w : Walk P) (s : Ospf) (e : Event) (hage : ∀ secs, e ≠ .age secs)
    (hset : ∀ r, e ≠ .redistribute r) : P 15 s (Ospf.step s e) ∨ ∃ idx nbrId lsas now,
      e.update s = some (idx, nbrId, lsas, now) ∧ Ospf.step s e = s.handleLsu idx nbrId lsas now := by
  have hrest : ∀ {t : Ospf}, SameCore s t → P 15 s t := fun h => w.rested h 15
  cases e with
  | packet ifindex src p now =>
    simp only [Ospf.step]
    split
    · simp only [handlePacket]
      split
      · exact .inl (hrest (.refl s))
      next i hi =>
        split
        · exact .inl (hrest (.refl s))
        · split
          · exact .inl (hrest (.refl s))
          · split
            · exact .inl (hrest (.handleHello ..))
            · exact .inl (w.mono (w.handleDd ..) (by omega))
            · exact .inl (hrest (.handleLsr ..))
            next lsas hbody =>
              refine .inr ⟨_, _, lsas, now, ?_, rfl⟩
              simp only [Event.update, hbody, hi, Option.map_some]
            · exact .inl (hrest (.handleLsack ..))
    · exact .inl (hrest (.refl s))
  | inactivity now => exact .inl (w.mono (w.ageNeighbors s now) (by omega))
  | wait now => exact .inl (hrest (.fireWaitTimers s now))
  | age secs => exact absurd rfl (hage secs)
  | hello => exact .inl (hrest (.sendHellos s))
  | refresh => exact .inl (w.mono (w.refresh s) (by omega))
  | initRxmt => exact .inl (hrest (.sendAll s _))
  | rxmt => exact .inl (hrest (.sendAll s _))
  | redistribute r => exact absurd rfl (hset r)
  | bfdDown peer => exact .inl (w.mono (w.forceNeighborDown s peer) (by omega))

/-- What happens to the task is first read, and then there is a walk, unless it gets older or what it redistributes
changes. -/
theorem Walk.step {P : ℕ → Ospf → Ospf → Prop} (w : Walk P) (s : Ospf) (e : Event) (hage : ∀ secs, e ≠ .age secs)
    (hset : ∀ r, e ≠ .redistribute r) : ∃ u, Reads e.lsas s u ∧ P 15 u (Ospf.step s e) := by
  rcases w.step_cases s e hage hset with hwalk | ⟨idx, nbrId, lsas, now, hupdate, heq⟩
  · exact ⟨s, .start, hwalk⟩
  have hbefore : ∃ u, Reads e.lsas s u ∧ P 12 u (s.beforeSummaries idx nbrId lsas now) := by
    cases hn : s.neighbor? idx nbrId with
    | none =>
      refine ⟨s, .start, ?_⟩
      unfold Ospf.beforeSummaries
      rw [hn]
      cases s.iface? idx <;> exact w.refl s 12
    | some n =>
      obtain ⟨i, hi, -⟩ := Option.bind_eq_some_iff.mp hn
      rw [Event.lsas_of_update hupdate]
      exact ⟨_, reads_readLsas s idx nbrId i.area lsas now, w.beforeSummaries hi hn lsas now⟩
  obtain ⟨u, hreads, hbefore⟩ := hbefore
  refine ⟨u, hreads, ?_⟩
  rw [heq, handleLsu_eq]
  split
  · exact w.trans hbefore (w.summaries _)
  · exact w.mono hbefore (by omega)

/-- Room for everything that a step may originate. -/
theorem Counted.widen {m : ℕ} {s : Ospf} (hs : Counted 0 s)
    (hrouter : ∀ area, (nextSeq s.lsaSeqs area s.routerKey).toInt + m < 2 ^ 31)
    (hexternal : ∀ k, Own s.cfg.routerId .asExternal k → (nextSeq s.lsaSeqs asScope k).toInt + m < 2 ^ 31) :
    Counted m s where
  booked := hs.booked
  externalsNodup := hs.externalsNodup
  translatedNodup := hs.translatedNodup
  router area := ⟨(hs.router area).fresh, hrouter area⟩
  only := hs.only
  external k hk := ⟨(hs.external k hk).fresh, hexternal k hk⟩
  covered := hs.covered
  border := hs.border

theorem Counted.setExternals {m : ℕ} {s : Ospf} (hs : Counted m s) (externals : BTreeMap Prefix UInt32) :
    Counted m { s with externals } :=
  ⟨⟨hs.booked.areas, hs.booked.externals, hs.booked.translated⟩, hs.externalsNodup, hs.translatedNodup, hs.router, hs.only,
    hs.external, hs.covered, hs.border⟩

end Ospf
end Wren.Daemon
