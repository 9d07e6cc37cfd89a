import Wren.Isis.Lsdb

/-! Two databases that exchange a complete sequence-number PDU end up in step. -/

namespace Wren.Isis
namespace Lsdb

/-- Offer the copies that another database holds of some IDs. -/
def installAll (db src : Lsdb) (ids : List LspId) : Lsdb :=
  ids.foldl (fun db i => (src.get i).elim db fun l => (db.install l).1) db

/-- `b` answers a CSNP that describes all of `a`: it is given what it requests, and `a` what it sends. -/
def exchange (a b : Lsdb) : Option (Lsdb × Lsdb) :=
  (b.evaluateCsnp a.summary LspId.lowest LspId.greatest).map fun s =>
    (a.installAll b s.send, b.installAll a s.request)

/-- There is room for an ID that is not held, as long as all IDs in play fit. -/
theorem len_lt_of_notMem {db : Lsdb} {u : Finset LspId} (hu : u.card ≤ maxLsps) (hdb : db.ids ⊆ u) {i : LspId}
    (hi : i ∈ u) (hnone : db.get i = none) : db.len < maxLsps := by
  have hout : i ∉ db.ids := by
    rw [mem_ids, hnone]
    simp
  have hlt : db.ids.card < u.card := Finset.card_lt_card ⟨hdb, fun h => hout (h hi)⟩
  rw [card_ids] at hlt
  omega

/-- Copies that are more recent than what is held, or that are held already, all get in. -/
theorem get_installAll {db src : Lsdb} {u : Finset LspId} (hu : u.card ≤ maxLsps) (hdb : db.ids ⊆ u)
    (hsrc : src.ids ⊆ u) {ids : List LspId}
    (hnew : ∀ i ∈ ids, ∀ l held, src.get i = some l → db.get i = some held →
      rank held.version < rank l.version ∨ held = l) (i : LspId) :
    (db.installAll src ids).get i = if i ∈ ids ∧ (src.get i).isSome then src.get i else db.get i := by
  induction ids generalizing db with
  | nil => simp [installAll]
  | cons j ids ih =>
    cases hj : src.get j with
    | none =>
      have hrest : (db.installAll src (j :: ids)) = db.installAll src ids := by
        rw [installAll, List.foldl_cons, hj]
        rfl
      have hskip : i ∈ j :: ids ∧ (src.get i).isSome ↔ i ∈ ids ∧ (src.get i).isSome := by
        rw [List.mem_cons]
        constructor
        · rintro ⟨rfl | hi, hs⟩
          · rw [hj] at hs
            cases hs
          · exact ⟨hi, hs⟩
        · rintro ⟨hi, hs⟩
          exact ⟨Or.inr hi, hs⟩
      rw [hrest, ih hdb fun k hk => hnew k (List.mem_cons_of_mem j hk)]
      simp only [hskip]
    | some l =>
      have hid : l.lspId = j := lspId_of_get hj
      have hju : j ∈ u := hsrc (mem_ids.mpr (by rw [hj]; rfl))
      have hrest : (db.installAll src (j :: ids)) = (db.install l).1.installAll src ids := by
        rw [installAll, List.foldl_cons, hj]
        rfl
      have hroom : db.get l.lspId = none → db.len < maxLsps := by
        rw [hid]
        exact len_lt_of_notMem hu hdb hju
      -- after the offer the copy itself is held
      have hget : ∀ k, (db.install l).1.get k = if k = j then some l else db.get k := by
        intro k
        rw [get_install hroom, hid]
        by_cases hk : k = j
        · subst hk
          rw [if_pos rfl]
          split_ifs with hcond
          · rfl
          · have hheld : ¬ ∀ held, db.get k = some held → rank held.version < rank l.version :=
              fun h => hcond ⟨rfl, h⟩
            push Not at hheld
            obtain ⟨held, hheld, hle⟩ := hheld
            rcases hnew k (by simp) l held hj hheld with hlt | rfl
            · exact absurd hlt hle.not_gt
            · exact hheld
        · simp [hk]
      have hdb' : (db.install l).1.ids ⊆ u := by
        intro k hk
        rw [mem_ids, hget k] at hk
        split_ifs at hk with hkj
        · exact hkj ▸ hju
        · exact hdb (mem_ids.mpr hk)
      have hnew' : ∀ k ∈ ids, ∀ l' held, src.get k = some l' → (db.install l).1.get k = some held →
          rank held.version < rank l'.version ∨ held = l' := by
        intro k hk l' held hl' hheld
        rw [hget k] at hheld
        split_ifs at hheld with hkj
        · subst hkj
          right
          exact Option.some.inj (hheld.symm.trans (hj.symm.trans hl'))
        · exact hnew k (List.mem_cons_of_mem j hk) l' held hl' hheld
      rw [hrest, ih hdb' hnew', hget i]
      by_cases hij : i = j
      · subst hij
        simp [hj]
      · simp [hij]

/-- Held on both sides in the same version, or on neither. -/
def Agree (x y : Option Lsp) : Prop :=
  match x, y with
  | none, none => True
  | some l, some m => rank l.version = rank m.version
  | _, _ => False

variable {a b : Lsdb}

theorem evaluateCsnp_summary (a b : Lsdb) :
    ∃ s, b.evaluateCsnp a.summary LspId.lowest LspId.greatest = some s ∧
      (∀ i, i ∈ s.request ↔ ∃ l, a.get i = some l ∧ ∀ m, b.get i = some m → rank m.version < rank l.version) ∧
      ∀ i, i ∈ s.send ↔ ∃ m, b.get i = some m ∧ ∀ l, a.get i = some l → rank l.version < rank m.version := by
  have hbounds : LspId.lowest ≤ LspId.greatest := LspId.lowest_le _
  obtain ⟨s, hs, hreq, hsend⟩ := evaluateCsnp_spec b a.summary hbounds
  refine ⟨s, hs, ?_, ?_⟩
  · intro i
    rw [hreq i]
    constructor
    · rintro ⟨e, he, rfl, hact⟩
      obtain ⟨l, hl, rfl⟩ := mem_summary.mp he
      exact ⟨l, hl, (b.evaluateEntry_eq_request_iff _).mp hact⟩
    · rintro ⟨l, hl, hnewer⟩
      have hid := lspId_of_get hl
      subst hid
      exact ⟨entryOf l, mem_summary.mpr ⟨l, hl, rfl⟩, rfl, (b.evaluateEntry_eq_request_iff _).mpr hnewer⟩
  · intro i
    rw [hsend i]
    constructor
    · rintro (⟨e, he, rfl, hact⟩ | ⟨-, -, hheld, hnone⟩)
      · obtain ⟨l, hl, rfl⟩ := mem_summary.mp he
        obtain ⟨m, hm, hlt⟩ := (b.evaluateEntry_eq_send_iff _).mp hact
        refine ⟨m, hm, ?_⟩
        intro l' hl'
        obtain rfl : l = l' := Option.some.inj (hl.symm.trans hl')
        exact hlt
      · obtain ⟨m, hm⟩ := Option.isSome_iff_exists.mp hheld
        refine ⟨m, hm, ?_⟩
        intro l hl
        have hid := lspId_of_get hl
        exact absurd hid (hnone (entryOf l) (mem_summary.mpr ⟨l, by rw [show (entryOf l).lspId = i from hid]; exact hl, rfl⟩))
    · rintro ⟨m, hm, holder⟩
      cases hl : a.get i with
      | none =>
        right
        refine ⟨LspId.lowest_le i, LspId.le_greatest i, by rw [hm]; rfl, ?_⟩
        rintro e he rfl
        obtain ⟨l, hl', -⟩ := mem_summary.mp he
        rw [hl] at hl'
        cases hl'
      | some l =>
        left
        have hid := lspId_of_get hl
        subst hid
        exact ⟨entryOf l, mem_summary.mpr ⟨l, hl, rfl⟩, rfl,
          (b.evaluateEntry_eq_send_iff _).mpr ⟨m, hm, holder l hl⟩⟩

/-- Where every ID agrees, nothing is asked for and nothing is sent. -/
theorem evaluateCsnp_of_agree (h : ∀ i, Agree (a.get i) (b.get i)) :
    b.evaluateCsnp a.summary LspId.lowest LspId.greatest = some ⟨[], []⟩ := by
  obtain ⟨s, hs, hreq, hsend⟩ := evaluateCsnp_summary a b
  have hreq' : s.request = [] := by
    rw [List.eq_nil_iff_forall_not_mem]
    intro i hi
    obtain ⟨l, hl, hnewer⟩ := (hreq i).mp hi
    have hagree := h i
    rw [hl] at hagree
    cases hm : b.get i with
    | none => simp [hm, Agree] at hagree
    | some m =>
      rw [hm] at hagree
      exact absurd hagree (hnewer m hm).ne'
  have hsend' : s.send = [] := by
    rw [List.eq_nil_iff_forall_not_mem]
    intro i hi
    obtain ⟨m, hm, holder⟩ := (hsend i).mp hi
    have hagree := h i
    rw [hm] at hagree
    cases hl : a.get i with
    | none => simp [hl, Agree] at hagree
    | some l =>
      rw [hl] at hagree
      exact absurd hagree (holder l hl).ne
  rw [hs, show s = ⟨s.request, s.send⟩ from rfl, hreq', hsend']

/-- One exchange leaves every ID in the same version on both sides. -/
theorem agree_exchange (h : (a.ids ∪ b.ids).card ≤ maxLsps) :
    ∃ a' b', exchange a b = some (a', b') ∧ ∀ i, Agree (a'.get i) (b'.get i) := by
  obtain ⟨s, hs, hreq, hsend⟩ := evaluateCsnp_summary a b
  refine ⟨a.installAll b s.send, b.installAll a s.request, by rw [exchange, hs]; rfl, ?_⟩
  intro i
  have ha := @get_installAll a b _ h Finset.subset_union_left Finset.subset_union_right s.send
    (by
      intro j hj l held hl hheld
      obtain ⟨m, hm, holder⟩ := (hsend j).mp hj
      obtain rfl : l = m := Option.some.inj (hl.symm.trans hm)
      exact Or.inl (holder held hheld)) i
  have hb := @get_installAll b a _ h Finset.subset_union_right Finset.subset_union_left s.request
    (by
      intro j hj l held hl hheld
      obtain ⟨m, hm, hnewer⟩ := (hreq j).mp hj
      obtain rfl : l = m := Option.some.inj (hl.symm.trans hm)
      exact Or.inl (hnewer held hheld)) i
  rw [ha, hb]
  simp only [hreq i, hsend i]
  cases hl : a.get i with
  | none =>
    cases hm : b.get i with
    | none => simp [Agree]
    | some m => simp [Agree]
  | some l =>
    cases hm : b.get i with
    | none => simp [Agree]
    | some m =>
      rcases lt_trichotomy (rank l.version) (rank m.version) with hlt | heq | hgt
      · have hnot := hlt.not_gt
        simp [Agree, hlt, hnot]
      · simp [Agree, heq]
      · have hnot := hgt.not_gt
        simp [Agree, hgt, hnot]

/-- After one exchange both databases hold the same IDs in the same versions, and a second
exchange moves nothing. -/
theorem exchange_synchronises (a b : Lsdb) (h : (a.ids ∪ b.ids).card ≤ 65536) :
    ∃ a' b', exchange a b = some (a', b') ∧ a'.ids = b'.ids ∧
      (∀ i l m, a'.get i = some l → b'.get i = some m →
        l.sequenceNumber = m.sequenceNumber ∧ (l.remainingLifetime = 0 ↔ m.remainingLifetime = 0) ∧
          l.checksum = m.checksum) ∧
      b'.evaluateCsnp a'.summary LspId.lowest LspId.greatest = some ⟨[], []⟩ ∧
      a'.evaluateCsnp b'.summary LspId.lowest LspId.greatest = some ⟨[], []⟩ := by
  obtain ⟨a', b', hex, hagree⟩ := agree_exchange h
  have hsymm : ∀ i, Agree (b'.get i) (a'.get i) := by
    intro i
    have hi := hagree i
    unfold Agree at hi ⊢
    cases ha : a'.get i <;> cases hb : b'.get i <;> simp_all
  refine ⟨a', b', hex, ?_, ?_, evaluateCsnp_of_agree hagree, evaluateCsnp_of_agree hsymm⟩
  · ext i
    have hi := hagree i
    rw [mem_ids, mem_ids]
    unfold Agree at hi
    cases ha : a'.get i <;> cases hb : b'.get i <;> simp_all
  · intro i l m hl hm
    have hi := hagree i
    rw [hl, hm] at hi
    exact (rank_eq_iff _ _).mp hi

/-- A live LSP of one router and a purge of another's. -/
def sampleLive : Lsp := ⟨.l1, 1200, ⟨1, 0, 0⟩, 5, 0x1234, false, 0, false, .l1, []⟩

def samplePurge : Lsp := ⟨.l1, 0, ⟨2, 0, 0⟩, 5, 0, false, 0, false, .l1, []⟩

theorem exchange_synchronises_samples :
    ((new.put sampleLive).ids ∪ (new.put samplePurge).ids).card ≤ 65536 ∧
      ∃ a' b', exchange (new.put sampleLive) (new.put samplePurge) = some (a', b') ∧ a'.ids = b'.ids := by
  have h : ((new.put sampleLive).ids ∪ (new.put samplePurge).ids).card ≤ 65536 := by decide +kernel
  obtain ⟨a', b', hex, hids, -⟩ := exchange_synchronises (new.put sampleLive) (new.put samplePurge) h
  exact ⟨h, a', b', hex, hids⟩

end Lsdb
end Wren.Isis
