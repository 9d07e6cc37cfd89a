import Wren.Daemon.Isis.Process
import Wren.Isis.Served

/-! What a CSNP can do to the task that receives it, and what becomes of a database summary in fragments. -/

namespace Wren.Daemon
open Wren.Core Wren.Isis OrdMap Octets

/-! ### The copies that are sent in answer -/

/-! ### A CSNP that stops the task -/

/-- The bounds of a CSNP are those that its octets spell. -/
theorem bounds_of_decode {bytes : List UInt8} {m : UInt8} {c : Csnp} (h : Pdu.decode bytes = .ok ⟨m, .csnp c⟩) :
    c.startLspId.encode = (bytes.drop 17).take 8 ∧ c.endLspId.encode = (bytes.drop 25).take 8 := by
  obtain ⟨pt, stated, tlvs, -, -, -, -, hbody⟩ := Pdu.decodeBody_of_decode h
  have hcsnp : pt = .l1Csnp ∨ pt = .l2Csnp := by
    cases pt with
    | l1Csnp => exact Or.inl rfl
    | l2Csnp => exact Or.inr rfl
    | l1Lsp | l2Lsp =>
      simp only [Pdu.decodeBody] at hbody
      split_ifs at hbody
      cases hid : LspId.decode ((bytes.drop 12).take 8) with
      | none =>
        rw [hid] at hbody
        cases hbody
      | some i =>
        rw [hid] at hbody
        cases hbody
    | _ => cases hbody
  cases hstart : LspId.decode ((bytes.drop 17).take 8) with
  | none => rcases hcsnp with rfl | rfl <;> simp [Pdu.decodeBody, hstart, bind, Except.bind] at hbody
  | some start =>
    cases hstop : LspId.decode ((bytes.drop 25).take 8) with
    | none => rcases hcsnp with rfl | rfl <;> simp [Pdu.decodeBody, hstart, hstop, bind, Except.bind] at hbody
    | some stop =>
      have hs : c.startLspId = start ∧ c.endLspId = stop := by
        rcases hcsnp with rfl | rfl
        · simp only [Pdu.decodeBody, hstart, hstop] at hbody
          cases hbody
          exact ⟨rfl, rfl⟩
        · simp only [Pdu.decodeBody, hstart, hstop] at hbody
          cases hbody
          exact ⟨rfl, rfl⟩
      have hfirst := LspId.encode_of_decode hstart
      have hlast := LspId.encode_of_decode hstop
      rw [List.take_take] at hfirst hlast
      rw [hs.1, hs.2]
      exact ⟨hfirst, hlast⟩

/-- The bounds of a CSNP are in order. -/
def InOrder (bytes : List UInt8) : Prop := value ((bytes.drop 17).take 8) ≤ value ((bytes.drop 25).take 8)

instance (bytes : List UInt8) : Decidable (InOrder bytes) := inferInstanceAs (Decidable (_ ≤ _))

namespace Isis

theorem processCsnp_isSome (s : Isis) (idx : ℕ) (c : Csnp) :
    (s.processCsnp idx c).isSome ↔ s.cfg.levelActive c.level = false ∨ c.startLspId ≤ c.endLspId := by
  rw [processCsnp]
  split_ifs with hactive
  · simp [hactive]
  · rw [Option.isSome_map, Lsdb.evaluateCsnp_isSome_iff]
    simp [hactive]

/-- The octets of a CSNP of Level 1 that lists nothing. -/
def emptyCsnp (start stop : LspId) : List UInt8 :=
  [0x83, 33, 1, 0, 24, 1, 0, 0, 0, 33, 0, 0, 0, 0, 0, 9, 0] ++ start.encode ++ stop.encode

end Isis

/-! ### The ranges of the fragments -/

/-- The entries at which one fragment ends and the next one starts. -/
def boundaries (pieces : List (List LspEntry)) : List LspEntry := pieces.dropLast.filterMap List.getLast?

theorem mem_boundaries_cons {c d : List LspEntry} {rest : List (List LspEntry)} {e : LspEntry} :
    e ∈ boundaries (c :: d :: rest) ↔ c.getLast? = some e ∨ e ∈ boundaries (d :: rest) := by
  simp only [boundaries, List.dropLast_cons_cons, List.mem_filterMap, List.mem_cons, or_and_right, exists_or,
    exists_eq_left]

theorem mem_flatten_of_mem_boundaries {pieces : List (List LspEntry)} {e : LspEntry} (h : e ∈ boundaries pieces) :
    e ∈ pieces.flatten := by
  obtain ⟨c, hc, he⟩ := List.mem_filterMap.mp h
  exact List.mem_flatten.mpr ⟨c, List.mem_of_mem_dropLast hc, List.mem_of_getLast? he⟩

variable {start : LspId} {pieces : List (List LspEntry)}

theorem flatten_fragmentsFrom (start : LspId) (pieces : List (List LspEntry)) :
    (fragmentsFrom start pieces).map (fun f => f.2.2) = pieces := by
  induction pieces generalizing start with
  | nil => rfl
  | cons c rest ih =>
    cases rest with
    | nil => rfl
    | cons d rest =>
      change c :: (fragmentsFrom _ (d :: rest)).map _ = _
      rw [ih]

/-- The last entry of a piece of an ascending list. -/
theorem getLast?_spec {c : List LspEntry} (hc : c ≠ []) (hsorted : c.Pairwise fun a b => a.lspId < b.lspId) :
    ∃ e, c.getLast? = some e ∧ e ∈ c ∧ ∀ a ∈ c, a.lspId ≤ e.lspId := by
  obtain ⟨init, e, rfl⟩ := (List.eq_nil_or_concat c).resolve_left hc
  rw [List.concat_eq_append] at hsorted ⊢
  refine ⟨e, by simp, by simp, ?_⟩
  intro a ha
  rcases List.mem_append.mp ha with hinit | hlast
  · exact ((List.pairwise_append.mp hsorted).2.2 a hinit e (by simp)).le
  · rw [List.mem_singleton.mp hlast]

/-- No fragment has its bounds the wrong way round. -/
theorem start_le_of_mem_fragmentsFrom (hne : ∀ c ∈ pieces, c ≠ [])
    (hsorted : pieces.flatten.Pairwise fun a b => a.lspId < b.lspId) (hstart : ∀ e ∈ pieces.flatten, start ≤ e.lspId) :
    ∀ f ∈ fragmentsFrom start pieces, f.1 ≤ f.2.1 := by
  induction pieces generalizing start with
  | nil => simp [fragmentsFrom]
  | cons c rest ih =>
    cases rest with
    | nil =>
      intro f hf
      rw [List.mem_singleton.mp hf]
      exact start.le_greatest
    | cons d rest =>
      obtain ⟨hsc, hsr, hcr⟩ := List.pairwise_append.mp hsorted
      obtain ⟨e, he, hmem, -⟩ := getLast?_spec (hne c (by simp)) hsc
      intro f hf
      change f ∈ (start, ((c.getLast?.map (·.lspId)).getD start), c) :: fragmentsFrom _ (d :: rest) at hf
      rw [he] at hf
      rcases List.mem_cons.mp hf with rfl | hrest
      · exact hstart e (List.mem_append_left _ hmem)
      · exact ih (fun x hx => hne x (by simp [hx])) hsr (fun a ha => (hcr e hmem a ha).le) f hrest

/-- What the fragments together say is missing: all that they do not list, and where two of them meet also the ID
that the first one ends with. -/
theorem exists_fragment_lacks_iff (hne : ∀ c ∈ pieces, c ≠ []) (hpieces : pieces ≠ [])
    (hsorted : pieces.flatten.Pairwise fun a b => a.lspId < b.lspId) (hstart : ∀ e ∈ pieces.flatten, start ≤ e.lspId)
    (i : LspId) :
    (∃ f ∈ fragmentsFrom start pieces, f.1 ≤ i ∧ i ≤ f.2.1 ∧ ∀ e ∈ f.2.2, e.lspId ≠ i) ↔
      start ≤ i ∧ ((∀ e ∈ pieces.flatten, e.lspId ≠ i) ∨ ∃ e ∈ boundaries pieces, e.lspId = i) := by
  induction pieces generalizing start with
  | nil => exact absurd rfl hpieces
  | cons c rest ih =>
    cases rest with
    | nil =>
      have hle := i.le_greatest
      simp [fragmentsFrom, boundaries, hle]
    | cons d rest =>
      obtain ⟨hsc, hsr, hcr⟩ := List.pairwise_append.mp hsorted
      obtain ⟨l, hl, hmem, hlast⟩ := getLast?_spec (hne c (by simp)) hsc
      have hlstart : start ≤ l.lspId := hstart l (List.mem_append_left _ hmem)
      have hbounds : ∀ a ∈ (d :: rest).flatten, l.lspId ≤ a.lspId := fun a ha => (hcr l hmem a ha).le
      have hrest := ih (fun x hx => hne x (by simp [hx])) (by simp) hsr hbounds
      have hcons : fragmentsFrom start (c :: d :: rest) = (start, l.lspId, c) :: fragmentsFrom l.lspId (d :: rest) := by
        change (start, ((c.getLast?.map (·.lspId)).getD start), c) :: fragmentsFrom _ (d :: rest) = _
        rw [hl]
        rfl
      have hflat : (c :: d :: rest).flatten = c ++ (d :: rest).flatten := rfl
      have hfirst : (∃ f ∈ (start, l.lspId, c) :: fragmentsFrom l.lspId (d :: rest),
          f.1 ≤ i ∧ i ≤ f.2.1 ∧ ∀ e ∈ f.2.2, e.lspId ≠ i) ↔ (start ≤ i ∧ i ≤ l.lspId ∧ ∀ e ∈ c, e.lspId ≠ i) ∨
            ∃ f ∈ fragmentsFrom l.lspId (d :: rest), f.1 ≤ i ∧ i ≤ f.2.1 ∧ ∀ e ∈ f.2.2, e.lspId ≠ i := by
        simp only [List.mem_cons, or_and_right, exists_or, exists_eq_left]
      rw [hcons, hfirst, hrest, hflat, List.forall_mem_append]
      simp only [mem_boundaries_cons, hl]
      constructor
      · rintro (⟨hs, he, hlacks⟩ | ⟨hle, hlacks | ⟨e, he, rfl⟩⟩)
        · refine ⟨hs, Or.inl ⟨hlacks, ?_⟩⟩
          intro a ha
          exact (he.trans_lt (hcr l hmem a ha)).ne'
        · refine ⟨hlstart.trans hle, ?_⟩
          rcases hle.eq_or_lt with rfl | hlt
          · exact Or.inr ⟨l, Or.inl rfl, rfl⟩
          · exact Or.inl ⟨fun a ha => ((hlast a ha).trans_lt hlt).ne, hlacks⟩
        · exact ⟨hlstart.trans hle, Or.inr ⟨e, Or.inr he, rfl⟩⟩
      · rintro ⟨hs, ⟨hc, hr⟩ | ⟨e, he, rfl⟩⟩
        · rcases le_total i l.lspId with hle | hge
          · exact Or.inl ⟨hs, hle, hc⟩
          · exact Or.inr ⟨hge, Or.inl hr⟩
        · right
          rcases he with hel | her
          · obtain rfl := Option.some.inj hel
            exact ⟨le_rfl, Or.inl fun a ha => (hcr l hmem a ha).ne'⟩
          · exact ⟨(hcr l hmem e (mem_flatten_of_mem_boundaries her)).le, Or.inr ⟨e, her, rfl⟩⟩

/-! ### Fragments of a summary -/

theorem pairwise_summary (db : Lsdb) : db.summary.Pairwise fun a b => a.lspId < b.lspId := by
  have hkeys : (db.entries.toList.map Prod.fst).Pairwise fun a b => compare a b = .lt := by
    rw [Std.ExtTreeMap.map_fst_toList_eq_keys]
    exact Std.ExtTreeMap.ordered_keys
  rw [Lsdb.summary, Lsdb.iter, List.map_map, List.pairwise_map]
  refine (List.pairwise_map.mp hkeys).imp_of_mem ?_
  intro a b ha hb hlt
  have hai : a.2.lspId = a.1 := Lsdb.lspId_of_get (Lsdb.mem_toList.mp ha)
  have hbi : b.2.lspId = b.1 := Lsdb.lspId_of_get (Lsdb.mem_toList.mp hb)
  change a.2.lspId < b.2.lspId
  rw [hai, hbi]
  exact compare_lt_iff_lt.mp hlt

/-- What one CSNP after another asks for and is sent. -/
def evaluateAll (db : Lsdb) (fragments : List (LspId × LspId × List LspEntry)) : Option (List CsnpSync) :=
  fragments.mapM fun f => db.evaluateCsnp f.2.2 f.1 f.2.1

theorem evaluateAll_spec (db : Lsdb) {fragments : List (LspId × LspId × List LspEntry)}
    (h : ∀ f ∈ fragments, f.1 ≤ f.2.1) :
    ∃ parts, evaluateAll db fragments = some parts ∧
      (∀ i, (∃ p ∈ parts, i ∈ p.request) ↔
        ∃ e ∈ fragments.flatMap (·.2.2), e.lspId = i ∧ db.evaluateEntry e = .request) ∧
      ∀ i, (∃ p ∈ parts, i ∈ p.send) ↔
        (∃ e ∈ fragments.flatMap (·.2.2), e.lspId = i ∧ db.evaluateEntry e = .send) ∨
          (db.get i).isSome ∧ ∃ f ∈ fragments, f.1 ≤ i ∧ i ≤ f.2.1 ∧ ∀ e ∈ f.2.2, e.lspId ≠ i := by
  induction fragments with
  | nil => exact ⟨[], by simp [evaluateAll]⟩
  | cons f fragments ih =>
    obtain ⟨p, hp, hreq, hsend⟩ := Lsdb.evaluateCsnp_spec db f.2.2 (h f (by simp))
    obtain ⟨parts, hparts, hreqs, hsends⟩ := ih fun g hg => h g (by simp [hg])
    refine ⟨p :: parts, ?_, ?_, ?_⟩
    · rw [evaluateAll] at hparts ⊢
      rw [List.mapM_cons, hp, hparts]
      rfl
    · intro i
      simp only [List.mem_cons, or_and_right, exists_or, exists_eq_left, hreqs, hreq, List.flatMap_cons,
        List.mem_append]
    · intro i
      simp only [List.mem_cons, or_and_right, exists_or, exists_eq_left, hsends, hsend, List.flatMap_cons,
        List.mem_append]
      by_cases hheld : (db.get i).isSome = true
      · simp only [hheld, true_and]
        exact or_or_or_comm
      · simp only [hheld, false_and, and_false, or_false, Bool.false_eq_true]

/-- Where the fragments of a summary meet. -/
def meetings (db : Lsdb) (maxPer : ℕ) : List LspEntry := boundaries (Chunks.chunks (max maxPer 1) db.summary)

theorem meetings_subset {db : Lsdb} {maxPer : ℕ} {e : LspEntry} (h : e ∈ meetings db maxPer) : e ∈ db.summary := by
  have hflat : (Chunks.chunks (max maxPer 1) db.summary).flatten = db.summary := Chunks.flatten_chunks (by omega) _
  rw [← hflat]
  exact mem_flatten_of_mem_boundaries h

/-- The fragments list all that the summary does, each over a range in order. They fail to list what the summary fails
to list, and each ID that two of them meet at. -/
theorem csnpFragments_spec (db : Lsdb) (maxPer : ℕ) :
    (∀ f ∈ csnpFragments db.summary maxPer, f.1 ≤ f.2.1) ∧
      (csnpFragments db.summary maxPer).flatMap (·.2.2) = db.summary ∧
      ∀ i, (∃ f ∈ csnpFragments db.summary maxPer, f.1 ≤ i ∧ i ≤ f.2.1 ∧ ∀ e ∈ f.2.2, e.lspId ≠ i) ↔
        (∀ e ∈ db.summary, e.lspId ≠ i) ∨ ∃ e ∈ meetings db maxPer, e.lspId = i := by
  have hpos : max maxPer 1 ≠ 0 := by omega
  have hflat : (Chunks.chunks (max maxPer 1) db.summary).flatten = db.summary := Chunks.flatten_chunks hpos _
  by_cases hnil : db.summary = []
  · rw [meetings, hnil, Chunks.chunks_nil]
    have hle := LspId.lowest_le
    have hge := LspId.le_greatest
    simp [csnpFragments, boundaries, hle, hge]
  · have hempty : db.summary.isEmpty = false := by simpa using hnil
    have hne : ∀ c ∈ Chunks.chunks (max maxPer 1) db.summary, c ≠ [] :=
      fun c hc => (Chunks.ne_nil_and_length_le_of_mem hc).1
    have hsorted : (Chunks.chunks (max maxPer 1) db.summary).flatten.Pairwise fun a b => a.lspId < b.lspId := by
      rw [hflat]
      exact pairwise_summary db
    have hlow : ∀ e ∈ (Chunks.chunks (max maxPer 1) db.summary).flatten, LspId.lowest ≤ e.lspId :=
      fun e _ => e.lspId.lowest_le
    have hpieces : Chunks.chunks (max maxPer 1) db.summary ≠ [] := by
      intro h
      rw [h] at hflat
      exact hnil hflat.symm
    rw [csnpFragments, hempty]
    refine ⟨start_le_of_mem_fragmentsFrom hne hsorted hlow, ?_, ?_⟩
    · change (fragmentsFrom _ _).flatMap _ = _
      rw [List.flatMap_def, flatten_fragmentsFrom, hflat]
    · intro i
      have hlacks := exists_fragment_lacks_iff hne hpieces hsorted hlow i
      rw [hflat] at hlacks
      refine hlacks.trans ?_
      simp only [i.lowest_le, true_and, meetings]

/-- The fragments of a summary of `a` make `b` request and send what the whole summary would. -/
def Transparent (a b : Lsdb) (maxPer : ℕ) : Prop :=
  ∃ whole parts, b.evaluateCsnp a.summary .lowest .greatest = some whole ∧
    evaluateAll b (csnpFragments a.summary maxPer) = some parts ∧
    (∀ i, (∃ p ∈ parts, i ∈ p.request) ↔ i ∈ whole.request) ∧ ∀ i, (∃ p ∈ parts, i ∈ p.send) ↔ i ∈ whole.send

/-- What a database answers to a summary in fragments and to the whole of it: the same requests, and what it sends
differs in the IDs that fragments meet at. -/
theorem evaluate_fragments (a b : Lsdb) (maxPer : ℕ) :
    ∃ whole parts, b.evaluateCsnp a.summary .lowest .greatest = some whole ∧
      evaluateAll b (csnpFragments a.summary maxPer) = some parts ∧
      (∀ i, (∃ p ∈ parts, i ∈ p.request) ↔ i ∈ whole.request) ∧
      ∀ i, (∃ p ∈ parts, i ∈ p.send) ↔
        i ∈ whole.send ∨ (b.get i).isSome ∧ ∃ e ∈ meetings a maxPer, e.lspId = i := by
  obtain ⟨hordered, hlisted, hlacks⟩ := csnpFragments_spec a maxPer
  obtain ⟨whole, hwhole, hreq, hsend⟩ := Lsdb.evaluateCsnp_spec b a.summary (LspId.lowest_le .greatest)
  obtain ⟨parts, hparts, hreqs, hsends⟩ := evaluateAll_spec b hordered
  refine ⟨whole, parts, hwhole, hparts, ?_, ?_⟩
  · intro i
    rw [hreqs, hreq, hlisted]
  · intro i
    rw [hsends, hsend, hlisted, hlacks]
    simp only [i.lowest_le, i.le_greatest, true_and, and_or_left, or_assoc]

/-- Fragments are transparent exactly where the receiver holds no copy of the LSPs they meet at, or a more recent one. -/
theorem transparent_iff (a b : Lsdb) (maxPer : ℕ) :
    Transparent a b maxPer ↔
      ∀ e ∈ meetings a maxPer, ∀ ours, b.get e.lspId = some ours → rank e.version < rank ours.version := by
  obtain ⟨whole, parts, hwhole, hparts, hreq, hsend⟩ := evaluate_fragments a b maxPer
  obtain ⟨whole', hwhole', -, hwsend⟩ := Lsdb.evaluateCsnp_spec b a.summary (LspId.lowest_le .greatest)
  obtain rfl : whole = whole' := Option.some.inj (hwhole.symm.trans hwhole')
  -- an ID of the summary is sent exactly if the held copy is more recent than the listed one
  have hnewer : ∀ e ∈ a.summary, e.lspId ∈ whole.send ↔ ∃ ours, b.get e.lspId = some ours ∧ rank e.version < rank ours.version := by
    intro e he
    rw [hwsend, ← Lsdb.evaluateEntry_eq_send_iff]
    constructor
    · rintro (⟨e', he', hid, hact⟩ | ⟨-, -, -, hnone⟩)
      · obtain ⟨l, hl, rfl⟩ := Lsdb.mem_summary.mp he
        obtain ⟨l', hl', rfl⟩ := Lsdb.mem_summary.mp he'
        rw [hid] at hl'
        obtain rfl : l' = l := Option.some.inj (hl'.symm.trans hl)
        exact hact
      · exact absurd rfl (hnone e he)
    · intro hact
      exact Or.inl ⟨e, he, rfl, hact⟩
  constructor
  · rintro ⟨w, ps, hw, hps, -, hsame⟩ e he ours hours
    obtain rfl : w = whole := Option.some.inj (hw.symm.trans hwhole)
    obtain rfl : ps = parts := Option.some.inj (hps.symm.trans hparts)
    have hsent : e.lspId ∈ w.send := by
      rw [← hsame, hsend]
      exact Or.inr ⟨by rw [hours]; rfl, e, he, rfl⟩
    obtain ⟨ours', hours', hlt⟩ := (hnewer e (meetings_subset he)).mp hsent
    rw [hours] at hours'
    cases hours'
    exact hlt
  · intro h
    refine ⟨whole, parts, hwhole, hparts, hreq, ?_⟩
    intro i
    rw [hsend]
    constructor
    · rintro (hw | ⟨hheld, e, he, rfl⟩)
      · exact hw
      · obtain ⟨ours, hours⟩ := Option.isSome_iff_exists.mp hheld
        exact (hnewer e (meetings_subset he)).mpr ⟨ours, hours, h e he ours hours⟩
    · exact Or.inl

/-- Two LSPs of one router that two databases hold alike, in a CSNP each. -/
theorem not_transparent_shared : ¬ ∀ (a b : Lsdb) (maxPer : ℕ), 1 ≤ maxPer → Transparent a b maxPer := by
  intro h
  let lsp (fragment : UInt8) : Lsp := ⟨.l2, 1000, ⟨1, 0, fragment⟩, 1, 0, false, 0, false, .l2, []⟩
  let db := (Lsdb.new.put (lsp 0)).put (lsp 1)
  have hsummary : db.summary = [entryOf (lsp 0), entryOf (lsp 1)] := by decide +kernel
  have hmeet : entryOf (lsp 0) ∈ meetings db 1 := by
    rw [meetings, hsummary]
    simp [Chunks.chunks_of_ne_nil, boundaries]
  have hsent : (db.get ⟨1, 0, 0⟩).isSome ∧ ∃ e ∈ meetings db 1, e.lspId = ⟨1, 0, 0⟩ := ⟨by decide +kernel, _, hmeet, rfl⟩
  have hwhole : (db.evaluateCsnp db.summary .lowest .greatest).map (·.send) = some [] := by decide +kernel
  obtain ⟨whole, parts, hw, hp, -, hsend⟩ := evaluate_fragments db db 1
  obtain ⟨w, ps, hw', hp', -, hsame⟩ := h db db 1 le_rfl
  rw [hw] at hw' hwhole
  rw [hp] at hp'
  cases hw'
  cases hp'
  have hmem : (⟨1, 0, 0⟩ : LspId) ∈ whole.send := (hsame _).mp ((hsend _).mpr (Or.inr hsent))
  have hnone : whole.send = [] := Option.some.inj hwhole
  rw [hnone] at hmem
  cases hmem

end Wren.Daemon
