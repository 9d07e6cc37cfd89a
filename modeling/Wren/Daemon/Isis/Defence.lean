import Wren.Daemon.Isis.Instances

/-! Whether the database of a router holds those instances of its own LSPs that it originated last. -/

namespace Wren.Daemon
open Wren.Core Wren.Isis OrdMap

namespace Isis

/-- What happens to the LSPs of a router, and to the neighbours and networks that they tell of. -/
inductive Event where
  | processLsp (idx : ℕ) (lsp : Lsp) (raw : List UInt8)
  | reoriginate (level : IsLevel)
  | reoriginatePseudonode (idx : ℕ) (level : IsLevel)
  | flushLsp (level : IsLevel) (id : LspId)
  | runDis (idx : ℕ) (level : IsLevel)
  | neighbors (idx : ℕ) (table : BTreeMap SystemId Nbr)
  | networks (native : Native) (intoL2 intoL1 : BTreeMap Prefix UInt32)

def step (s : Isis) : Event → Isis
  | .processLsp idx lsp raw => s.processLsp idx lsp raw
  | .reoriginate level => s.reoriginate level
  | .reoriginatePseudonode idx level => s.reoriginatePseudonode idx level
  | .flushLsp level id => s.flushLsp level id
  | .runDis idx level => s.runDis idx level
  | .neighbors idx table => s.modifyIface idx fun f => { f with neighbors := table }
  | .networks native intoL2 intoL1 => { s with native := native, leakedIntoL2 := intoL2, leakedIntoL1 := intoL1 }

/-- The databases are empty, and this router is DIS nowhere. -/
def Start (s : Isis) : Prop :=
  (∀ level id, (s.dbs.get level).get id = none) ∧ ∀ f ∈ s.ifaces, ∀ level, f.isDis.get level = false

variable (s : Isis)

/-- The LSPs that only this router may originate: its own, and those of the LANs where it is DIS. -/
def Protected (level : IsLevel) (id : LspId) : Prop :=
  id = s.ownId ∨ ∃ f ∈ s.ifaces, f.isDis.get level = true ∧ id = s.pnId f

/-- If an LSP is held, then in the instance that was originated last. -/
def Current (level : IsLevel) (id : LspId) : Prop :=
  ∀ l, (s.dbs.get level).get id = some l → (s.originated level id).getLast? = some l

/-- No LSP of this router is displaced at a level that it runs. -/
def Undisplaced : Prop := ∀ level, s.cfg.levelActive level = true → ∀ id, s.Protected level id → s.Current level id

/-! ### Where it goes right -/

/-- An LSP that recency does not prefer to what is held, or that there is no room for. -/
def Outdated (level : IsLevel) (lsp : Lsp) : Prop :=
  ((s.dbs.get level).get lsp.lspId = none → maxLsps ≤ (s.dbs.get level).len) ∧
    ∀ held, (s.dbs.get level).get lsp.lspId = some held → rank lsp.version ≤ rank held.version

/-- The next instance of a pseudonode LSP has a sequence number of its own, supersedes what is held, and fits. -/
structure MayOriginate (f : Iface) (level : IsLevel) : Prop where
  room : (f.pnSeq.get level).toNat + 1 < 2 ^ 32
  circuit : f.localCircuitId ≠ 0
  newest : ∀ held, (s.dbs.get level).get (s.pnId f) = some held → held.sequenceNumber.toNat ≤ (f.pnSeq.get level).toNat
  fits : (f.upNeighbors level).length ≤ 22

/-- The sequence numbers are not used up, foreign instances of an own LSP come with a higher one than it ever had or
are not preferred, and what is originated can be read back. -/
def Guard : Event → Prop
  | .processLsp _ lsp _ =>
    s.cfg.levelActive lsp.level = true →
      if lsp.lspId = s.ownId ∧ s.ownSeq.get lsp.level < lsp.sequenceNumber then
        lsp.sequenceNumber.toNat + 1 < 2 ^ 32 ∧ s.Readable lsp.level
      else s.Protected lsp.level lsp.lspId → s.Outdated lsp.level lsp
  | .reoriginate level => (s.ownSeq.get level).toNat + 1 < 2 ^ 32 ∧ s.Readable level
  | .reoriginatePseudonode idx level =>
    ∀ f, s.ifaces[idx]? = some f → f.isDis.get level = true → s.MayOriginate f level
  | .runDis idx level =>
    ∀ f, s.ifaces[idx]? = some f → f.ifaceType = .broadcast →
      ((s.disWinner f level).any fun w => w.systemId = s.cfg.systemId) = true → s.MayOriginate f level
  | _ => True

/-! ### Steps -/

/-- The own LSPs are current, and the own sequence numbers keep ahead of what is held. -/
structure Inv : Prop where
  current : ∀ level id, s.Protected level id → s.Current level id
  ownSeq : ∀ level l, (s.dbs.get level).get s.ownId = some l → l.sequenceNumber.toNat ≤ (s.ownSeq.get level).toNat

variable {s} {t : Isis}

theorem inv_of_start (h : Start s) : s.Inv where
  current level id _ l hl := by
    rw [h.1] at hl
    cases hl
  ownSeq level l hl := by
    rw [h.1] at hl
    cases hl

theorem Originates.current {level level' : IsLevel} {l : Lsp} {id : LspId} (h : Originates s t level l)
    (hother : ¬ (SameDb level level' ∧ id = l.lspId) → s.Current level' id)
    (hnew : SameDb level level' → id = l.lspId →
      ∀ held, (s.dbs.get level).get l.lspId = some held → rank held.version < rank l.version) :
    t.Current level' id := by
  intro held hheld
  rw [h.originated]
  by_cases hself : SameDb level level' ∧ id = l.lspId
  · rw [if_pos hself, List.getLast?_concat]
    obtain ⟨hlevel, rfl⟩ := hself
    rcases h.get_self hlevel (hnew hlevel rfl) with hl | ⟨hnone, -⟩
    · exact hl.symm.trans hheld
    · rw [hnone] at hheld
      cases hheld
  · rw [if_neg hself, List.append_nil]
    rw [h.get_of_ne hself] at hheld
    exact hother hself held hheld

theorem current_flushLsp {level level' : IsLevel} {id id' : LspId} (h : s.Current level' id') :
    (s.flushLsp level id).Current level' id' := by
  obtain ⟨hget, horiginated⟩ := s.flushLsp_spec level id
  intro l hl
  rw [hget] at hl
  split_ifs at hl with hself
  rw [horiginated, if_neg hself, List.append_nil]
  exact h l hl

/-- What the protection of LSPs depends on. -/
theorem protected_congr (hid : t.cfg.systemId = s.cfg.systemId)
    (hifaces : t.ifaces.map (fun f => (f.isDis, f.localCircuitId)) = s.ifaces.map fun f => (f.isDis, f.localCircuitId))
    (level : IsLevel) (id : LspId) : t.Protected level id ↔ s.Protected level id := by
  have hpn : ∀ u : Isis, (∃ f ∈ u.ifaces, f.isDis.get level = true ∧ id = u.pnId f) ↔
      ∃ x ∈ u.ifaces.map fun f => (f.isDis, f.localCircuitId), x.1.get level = true ∧ id = ⟨u.cfg.systemId, x.2, 0⟩ := by
    intro u
    simp [pnId]
  rw [Protected, Protected, hpn, hpn, hifaces, hid, ownId, ownId, hid]

theorem map_modify_of_forall {α β : Type} {key : α → β} {g : α → α} (h : ∀ a, key (g a) = key a) (l : List α) (i : ℕ) :
    (l.modify i g).map key = l.map key := by
  refine List.ext_getElem? fun j => ?_
  rw [List.getElem?_map, List.getElem?_map, List.getElem?_modify]
  cases l[j]? with
  | none => simp
  | some a =>
    by_cases hij : i = j
    · simp [hij, h]
    · simp [hij]

theorem mem_modify {α : Type} {g : α → α} {l : List α} {i : ℕ} {b : α} (h : b ∈ l.modify i g) :
    b ∈ l ∨ ∃ a, l[i]? = some a ∧ b = g a := by
  obtain ⟨j, hj⟩ := List.mem_iff_getElem?.mp h
  rw [List.getElem?_modify] at hj
  by_cases hij : i = j
  · subst hij
    obtain ⟨a, ha, hb⟩ := Option.map_eq_some_iff.mp hj
    right
    exact ⟨a, ha, by simpa using hb.symm⟩
  · left
    refine List.mem_iff_getElem?.mpr ⟨j, ?_⟩
    simpa [hij] using hj

theorem toNat_add_one {a : UInt32} (h : a.toNat + 1 < 2 ^ 32) : (a + 1).toNat = a.toNat + 1 := by
  rw [UInt32.toNat_add]
  exact Nat.mod_eq_of_lt h

theorem sameDb_self (level : IsLevel) : SameDb level level := Iff.rfl

/-- The invariant goes over an origination: of a protected LSP, superseding what is held of it. -/
theorem inv_of_originates {level : IsLevel} {l : Lsp} (hinv : s.Inv) (h : Originates s t level l)
    (hprotected : ∀ level' id, t.Protected level' id → s.Protected level' id ∨ SameDb level level' ∧ id = l.lspId)
    (hid : t.cfg.systemId = s.cfg.systemId)
    (hnew : ∀ held, (s.dbs.get level).get l.lspId = some held → rank held.version < rank l.version)
    (hseq : ∀ level', (s.ownSeq.get level').toNat ≤ (t.ownSeq.get level').toNat ∧
      (SameDb level level' → l.lspId = s.ownId → l.sequenceNumber.toNat ≤ (t.ownSeq.get level').toNat)) : t.Inv where
  current level' id hp := by
    refine h.current ?_ fun _ _ => hnew
    intro hother
    rcases hprotected level' id hp with hs | hself
    · exact hinv.current level' id hs
    · exact absurd hself hother
  ownSeq level' held hheld := by
    have hown : t.ownId = s.ownId := by rw [ownId, ownId, hid]
    rw [hown] at hheld
    by_cases hself : SameDb level level' ∧ s.ownId = l.lspId
    · obtain ⟨hlevel, hl⟩ := hself
      rw [hl] at hheld
      rcases h.get_self hlevel hnew with hget | ⟨hnone, -⟩
      · obtain rfl := Option.some.inj (hget.symm.trans hheld)
        exact (hseq level').2 hlevel hl.symm
      · rw [hnone] at hheld
        cases hheld
    · rw [h.get_of_ne hself] at hheld
      exact (hinv.ownSeq level' held hheld).trans (hseq level').1

theorem inv_reoriginate {level : IsLevel} (hinv : s.Inv) (hroom : (s.ownSeq.get level).toNat + 1 < 2 ^ 32)
    (hread : s.Readable level) :
    (s.reoriginate level).Inv ∧ ∃ l, (s.reoriginate level).originated level s.ownId = s.originated level s.ownId ++ [l] ∧
      l.sequenceNumber = s.ownSeq.get level + 1 := by
  obtain ⟨l, hsame, hid, hlseq⟩ := s.originates_reoriginate hread
  have hfields := s.reoriginate_eq level
  have htoNat := toNat_add_one hroom
  constructor
  · refine inv_of_originates hinv hsame ?_ (by rw [hfields]) ?_ ?_
    · intro level' id hp
      exact Or.inl ((protected_congr (by rw [hfields]) (by rw [hfields]) level' id).mp hp)
    · intro held hheld
      rw [hid] at hheld
      have hle := hinv.ownSeq level held hheld
      refine rank_lt_of_sequenceNumber ?_
      rw [hlseq, htoNat]
      omega
    · intro level'
      rw [hfields]
      change _ ≤ ((s.ownSeq.set level (s.ownSeq.get level + 1)).get level').toNat ∧ _
      rw [PerLevel.get_set]
      constructor
      · split_ifs with hlevel
        · rw [← get_of_sameDb s.ownSeq (show SameDb level level' from hlevel.symm), htoNat]
          omega
        · exact le_rfl
      · intro hlevel _
        rw [if_pos hlevel.symm, hlseq]
  · refine ⟨l, ?_, hlseq⟩
    rw [hsame.originated, hid]
    simp [sameDb_self]

/-- A router that is not the DIS of a LAN has at most its pseudonode LSP flushed. -/
theorem reoriginatePseudonode_of_not_dis {idx : ℕ} {level : IsLevel}
    (h : ∀ f, s.ifaces[idx]? = some f → f.isDis.get level = false) :
    s.reoriginatePseudonode idx level = s ∨
      ∃ f, s.ifaces[idx]? = some f ∧ s.reoriginatePseudonode idx level = s.flushLsp level (s.pnId f) := by
  rw [reoriginatePseudonode]
  cases hf : s.ifaces[idx]? with
  | none => exact Or.inl rfl
  | some f =>
    dsimp only
    rw [h f hf, if_neg (by simp)]
    split_ifs
    · exact Or.inr ⟨f, rfl, rfl⟩
    · exact Or.inl rfl

theorem flushLsp_fields (level : IsLevel) (id : LspId) :
    (s.flushLsp level id).cfg = s.cfg ∧ (s.flushLsp level id).ifaces = s.ifaces ∧
      (s.flushLsp level id).ownSeq = s.ownSeq := by
  rw [flushLsp]
  cases (s.dbs.get level).get id <;> exact ⟨rfl, rfl, rfl⟩

theorem inv_flushLsp (hinv : s.Inv) (level : IsLevel) (id : LspId) : (s.flushLsp level id).Inv := by
  obtain ⟨hcfg, hifaces, hseq⟩ := flushLsp_fields (s := s) level id
  obtain ⟨hget, -⟩ := s.flushLsp_spec level id
  constructor
  · intro level' id' hp
    exact current_flushLsp (hinv.current level' id' ((protected_congr (by rw [hcfg]) (by rw [hifaces]) _ _).mp hp))
  · intro level' l hl
    have hown : (s.flushLsp level id).ownId = s.ownId := by rw [ownId, ownId, hcfg]
    rw [hown, hget] at hl
    split_ifs at hl
    rw [hseq]
    exact hinv.ownSeq level' l hl

theorem storeAndFlood_fields (level : IsLevel) (lsp : Lsp) :
    (s.storeAndFlood level lsp).cfg = s.cfg ∧ (s.storeAndFlood level lsp).ifaces = s.ifaces ∧
      (s.storeAndFlood level lsp).ownSeq = s.ownSeq := by
  rw [storeAndFlood_eq]
  exact ⟨rfl, rfl, rfl⟩

/-- The protected LSPs are current once the DIS has originated its pseudonode LSP, whatever was held of that one. -/
theorem inv_reoriginatePseudonode {idx : ℕ} {f : Iface} {level : IsLevel} (hf : s.ifaces[idx]? = some f)
    (hdis : f.isDis.get level = true) (hmay : s.MayOriginate f level)
    (hcurrent : ∀ level' id, s.Protected level' id → ¬ (SameDb level level' ∧ id = s.pnId f) → s.Current level' id)
    (hownSeq : ∀ level l, (s.dbs.get level).get s.ownId = some l →
      l.sequenceNumber.toNat ≤ (s.ownSeq.get level).toNat) : (s.reoriginatePseudonode idx level).Inv := by
  obtain ⟨l, horiginates, hid, hseq, -, -⟩ := s.originates_reoriginatePseudonode hf hdis hmay.fits
  have hstep : s.reoriginatePseudonode idx level =
      (s.modifyIface idx fun g => { g with pnSeq := g.pnSeq.set level (f.pnSeq.get level + 1) }).storeAndFlood level
        (s.buildPseudonodeLsp f level (f.pnSeq.get level + 1)) := by
    rw [reoriginatePseudonode, hf]
    dsimp only
    rw [if_pos hdis]
  obtain ⟨hcfg, hifaces, hown⟩ := storeAndFlood_fields
    (s := s.modifyIface idx fun g => { g with pnSeq := g.pnSeq.set level (f.pnSeq.get level + 1) }) level
    (s.buildPseudonodeLsp f level (f.pnSeq.get level + 1))
  rw [← hstep] at hcfg hifaces hown
  have hkeys : (s.reoriginatePseudonode idx level).ifaces.map (fun f => (f.isDis, f.localCircuitId)) =
      s.ifaces.map fun f => (f.isDis, f.localCircuitId) := by
    rw [hifaces]
    change List.map _ (s.ifaces.modify idx _) = _
    rw [map_modify_of_forall]
    intro g
    rfl
  have hprotected := protected_congr (s := s) (t := s.reoriginatePseudonode idx level) (by rw [hcfg]; rfl) hkeys
  have hnew : ∀ held, (s.dbs.get level).get l.lspId = some held → rank held.version < rank l.version := by
    intro held hheld
    rw [hid] at hheld
    have hle := hmay.newest held hheld
    refine rank_lt_of_sequenceNumber ?_
    rw [hseq, toNat_add_one hmay.room]
    omega
  constructor
  · intro level' id hp
    refine horiginates.current ?_ fun _ _ => hnew
    intro hother
    rw [hid] at hother
    exact hcurrent level' id ((hprotected level' id).mp hp) hother
  · intro level' held hheld
    have hne : s.ownId ≠ l.lspId := by
      rw [hid, ownId, pnId]
      intro h
      exact hmay.circuit (congrArg LspId.pseudonode h).symm
    have hsame : (s.reoriginatePseudonode idx level).ownId = s.ownId := by
      rw [ownId, ownId, hcfg]
      rfl
    rw [hsame, horiginates.get_of_ne fun h => hne h.2] at hheld
    rw [hown]
    exact hownSeq level' held hheld

theorem install_unchanged {db : Lsdb} {lsp : Lsp} (hnone : db.get lsp.lspId = none → maxLsps ≤ db.len)
    (hheld : ∀ held, db.get lsp.lspId = some held → rank lsp.version ≤ rank held.version) :
    (db.install lsp).2.changed = false := by
  rw [Lsdb.install]
  cases hget : db.get lsp.lspId with
  | none => simp [hnone hget, Install.changed]
  | some held =>
    have hle := hheld held hget
    have hgt := cmpRecency_eq_gt_iff lsp.version held.version
    cases hcmp : cmpRecency lsp.version held.version with
    | gt => exact absurd (hgt.mp hcmp) hle.not_gt
    | eq => simp [recency, hcmp, Install.changed]
    | lt => simp [recency, hcmp, Install.changed]

theorem inv_processLsp (hinv : s.Inv) {idx : ℕ} {lsp : Lsp} {raw : List UInt8} (h : s.Guard (.processLsp idx lsp raw)) :
    (s.processLsp idx lsp raw).Inv := by
  rw [processLsp]
  by_cases hactive : s.cfg.levelActive lsp.level = false
  · rw [if_pos hactive]
    exact hinv
  · rw [if_neg hactive]
    have hguard := h (by simpa using hactive)
    by_cases hown : lsp.lspId = s.ownId ∧ s.ownSeq.get lsp.level < lsp.sequenceNumber
    · rw [if_pos hown] at hguard ⊢
      obtain ⟨u, hu⟩ : ∃ u : Isis, { s with ownSeq := s.ownSeq.set lsp.level lsp.sequenceNumber } = u := ⟨_, rfl⟩
      rw [hu]
      have hinv' : u.Inv := by
        rw [← hu]
        constructor
        · exact hinv.current
        · intro level l hl
          refine (hinv.ownSeq level l hl).trans ?_
          change _ ≤ ((s.ownSeq.set lsp.level lsp.sequenceNumber).get level).toNat
          rw [PerLevel.get_set]
          split_ifs with hlevel
          · rw [get_of_sameDb s.ownSeq (show SameDb level lsp.level from hlevel)]
            exact (UInt32.lt_iff_toNat_lt.mp hown.2).le
          · exact le_rfl
      refine (inv_reoriginate hinv' ?_ ?_).1
      · rw [← hu]
        change ((s.ownSeq.set lsp.level lsp.sequenceNumber).get lsp.level).toNat + 1 < _
        rw [PerLevel.get_set_self]
        exact hguard.1
      · rw [← hu]
        exact hguard.2
    · rw [if_neg hown] at hguard ⊢
      split_ifs with hchanged
      · -- what gets in is not protected, so it is nothing that the invariant speaks of
        have hfree : ¬ s.Protected lsp.level lsp.lspId := by
          intro hp
          obtain ⟨hnone, hheld⟩ := hguard hp
          rw [install_unchanged hnone hheld] at hchanged
          cases hchanged
        have hget : ∀ level id, s.Protected level id → (((s.install lsp.level lsp).flood lsp.level raw (some idx)).dbs.get
            level).get id = (s.dbs.get level).get id := by
          intro level id hp
          change ((s.dbs.set lsp.level _).get level).get id = _
          rw [get_set_sameDb]
          split_ifs with hlevel
          · have hne : id ≠ lsp.lspId := by
              rintro rfl
              refine hfree ?_
              rcases hp with hp | ⟨f, hf, hdis, hp⟩
              · exact Or.inl hp
              · refine Or.inr ⟨f, hf, ?_, hp⟩
                rw [get_of_sameDb f.isDis hlevel]
                exact hdis
            rw [get_install_of_ne hne, get_of_sameDb s.dbs hlevel]
          · rfl
        have horiginated : ∀ level id, ((s.install lsp.level lsp).flood lsp.level raw (some idx)).originated level id =
            s.originated level id := by
          intro level id
          have hsent : ((s.install lsp.level lsp).flood lsp.level raw (some idx)).sent =
              s.sent ++ [.flood lsp.level raw (some idx)] := rfl
          rw [originated_of_sent_eq hsent]
          simp [originatedIn]
        constructor
        · intro level id hp l hl
          rw [hget level id hp] at hl
          rw [horiginated]
          exact hinv.current level id hp l hl
        · intro level l hl
          have hl' := hget level s.ownId (Or.inl rfl)
          exact hinv.ownSeq level l (hl'.symm.trans hl)
      · exact hinv

/-- An election can only add the pseudonode LSP of its own LAN to what is protected. -/
theorem inv_runDis (hinv : s.Inv) {idx : ℕ} {level : IsLevel} (h : s.Guard (.runDis idx level)) :
    (s.runDis idx level).Inv := by
  rw [runDis]
  cases hf : s.ifaces[idx]? with
  | none => exact hinv
  | some f =>
    dsimp only
    by_cases hlan : f.ifaceType = .broadcast
    · rw [if_neg (by simpa using hlan)]
      obtain ⟨b, hb⟩ : ∃ b, ((s.disWinner f level).any fun w => w.systemId = s.cfg.systemId) = b := ⟨_, rfl⟩
      obtain ⟨g, hg⟩ : ∃ g : Iface → Iface, (fun f' => { f' with
          dis := f'.dis.set level (s.electedLanId f level), isDis := f'.isDis.set level b }) = g := ⟨_, rfl⟩
      rw [hb, hg]
      have hmay := h f hf hlan
      rw [hb] at hmay
      have hgdis : ∀ a level', (g a).isDis.get level' = if SameDb level level' then b else a.isDis.get level' := by
        intro a level'
        rw [← hg]
        change (a.isDis.set level b).get level' = _
        rw [PerLevel.get_set]
        exact if_congr Iff.comm rfl rfl
      have hgpn : ∀ a, s.pnId (g a) = s.pnId a := by
        intro a
        rw [← hg]
        rfl
      have hgf : (s.modifyIface idx g).ifaces[idx]? = some (g f) := by
        change (s.ifaces.modify idx g)[idx]? = _
        rw [List.getElem?_modify, hf]
        simp
      have hprotected : ∀ level' id, (s.modifyIface idx g).Protected level' id →
          s.Protected level' id ∨ b = true ∧ SameDb level level' ∧ id = s.pnId f := by
        rintro level' id (hid | ⟨a, ha, hdis, hid⟩)
        · exact Or.inl (Or.inl hid)
        · rcases mem_modify ha with hold | ⟨a', ha', rfl⟩
          · exact Or.inl (Or.inr ⟨a, hold, hdis, hid⟩)
          · obtain rfl : f = a' := Option.some.inj (hf.symm.trans ha')
            have hpn : id = s.pnId f := hid.trans (hgpn f)
            rw [hgdis] at hdis
            split_ifs at hdis with hlevel
            · exact Or.inr ⟨hdis, hlevel, hpn⟩
            · exact Or.inl (Or.inr ⟨f, List.mem_of_getElem? hf, hdis, hpn⟩)
      cases b with
      | true =>
        rw [if_pos (Or.inr rfl)]
        have hm := hmay rfl
        refine inv_reoriginatePseudonode hgf (by rw [hgdis, if_pos (sameDb_self level)]) ?_ ?_ hinv.ownSeq
        · rw [← hg]
          exact ⟨hm.room, hm.circuit, hm.newest, hm.fits⟩
        · intro level' id hp hother
          rcases hprotected level' id hp with hs | ⟨-, hlevel, hid⟩
          · exact hinv.current level' id hs
          · exact absurd ⟨hlevel, hid.trans (hgpn f).symm⟩ hother
      | false =>
        have hinv' : (s.modifyIface idx g).Inv := by
          refine ⟨?_, hinv.ownSeq⟩
          intro level' id hp
          rcases hprotected level' id hp with hs | ⟨htrue, -⟩
          · exact hinv.current level' id hs
          · cases htrue
        have hnot : ∀ a, (s.modifyIface idx g).ifaces[idx]? = some a → a.isDis.get level = false := by
          intro a ha
          obtain rfl := Option.some.inj (hgf.symm.trans ha)
          rw [hgdis, if_pos (sameDb_self level)]
        split
        · rcases reoriginatePseudonode_of_not_dis hnot with hsame | ⟨a, -, hflush⟩
          · rw [hsame]
            exact hinv'
          · rw [hflush]
            exact inv_flushLsp hinv' level _
        · exact hinv'
    · rw [if_pos hlan]
      exact hinv

theorem inv_step (e : Event) (hinv : s.Inv) (h : s.Guard e) : (s.step e).Inv := by
  cases e with
  | processLsp idx lsp raw => exact inv_processLsp hinv h
  | reoriginate level => exact (inv_reoriginate hinv h.1 h.2).1
  | reoriginatePseudonode idx level =>
    by_cases hdis : ∃ f, s.ifaces[idx]? = some f ∧ f.isDis.get level = true
    · obtain ⟨f, hf, hdis⟩ := hdis
      exact inv_reoriginatePseudonode hf hdis (h f hf hdis) (fun level' id hp _ => hinv.current level' id hp) hinv.ownSeq
    · have hnot : ∀ f, s.ifaces[idx]? = some f → f.isDis.get level = false := by
        intro f hf
        by_contra htrue
        exact hdis ⟨f, hf, by simpa using htrue⟩
      change (s.reoriginatePseudonode idx level).Inv
      rcases reoriginatePseudonode_of_not_dis hnot with hsame | ⟨f, -, hflush⟩
      · rw [hsame]
        exact hinv
      · rw [hflush]
        exact inv_flushLsp hinv level _
  | flushLsp level id => exact inv_flushLsp hinv level id
  | runDis idx level => exact inv_runDis hinv h
  | neighbors idx table =>
    have hkeys : (s.modifyIface idx fun f => { f with neighbors := table }).ifaces.map
        (fun f => (f.isDis, f.localCircuitId)) = s.ifaces.map fun f => (f.isDis, f.localCircuitId) := by
      change List.map _ (s.ifaces.modify idx _) = _
      rw [map_modify_of_forall]
      intro g
      rfl
    refine ⟨?_, hinv.ownSeq⟩
    intro level id hp
    exact hinv.current level id ((protected_congr (s := s) (t := s.step (.neighbors idx table)) rfl hkeys level id).mp hp)
  | networks native intoL2 intoL1 => exact ⟨hinv.current, hinv.ownSeq⟩

/-! ### Runs -/

/-- A received instance of the own LSP that the database would take for more recent has been outdone by a new one. -/
def Reclaims (s : Isis) : Event → Prop
  | .processLsp idx lsp raw =>
    s.cfg.levelActive lsp.level = true → lsp.lspId = s.ownId →
      ((s.dbs.get lsp.level).install lsp).2.changed = true →
        ∃ l, ((s.processLsp idx lsp raw).originated lsp.level s.ownId).getLast? = some l ∧
          rank lsp.version < rank l.version
  | _ => True

theorem reclaims_of_guard (e : Event) (h : s.Guard e) : s.Reclaims e := by
  cases e with
  | processLsp idx lsp raw =>
    intro hactive hid hchanged
    have hguard := h hactive
    by_cases hown : lsp.lspId = s.ownId ∧ s.ownSeq.get lsp.level < lsp.sequenceNumber
    · rw [if_pos hown] at hguard
      have hstep : s.processLsp idx lsp raw =
          ({ s with ownSeq := s.ownSeq.set lsp.level lsp.sequenceNumber } : Isis).reoriginate lsp.level := by
        rw [processLsp, if_neg (by simpa using hactive), if_pos hown]
      have hread : ({ s with ownSeq := s.ownSeq.set lsp.level lsp.sequenceNumber } : Isis).Readable lsp.level := hguard.2
      obtain ⟨l, horiginates, hlid, hseq⟩ := originates_reoriginate _ hread
      refine ⟨l, ?_, ?_⟩
      · rw [hstep, horiginates.originated, hlid]
        have hsame : ({ s with ownSeq := s.ownSeq.set lsp.level lsp.sequenceNumber } : Isis).ownId = s.ownId := rfl
        rw [hsame, if_pos ⟨sameDb_self _, rfl⟩, List.getLast?_concat]
      · refine rank_lt_of_sequenceNumber ?_
        rw [hseq]
        change _ < ((s.ownSeq.set lsp.level lsp.sequenceNumber).get lsp.level + 1).toNat
        rw [PerLevel.get_set_self, toNat_add_one hguard.1]
        omega
    · rw [if_neg hown] at hguard
      obtain ⟨hnone, hheld⟩ := hguard (Or.inl hid)
      exact absurd hchanged (by simp [install_unchanged hnone hheld])
  | _ => trivial

/-- In every run that meets the guard, what a router holds of its own LSPs are the instances that it originated last, and
it outdoes what others originate in its place. -/
theorem undisplaced_run (s : Isis) (es : List Event) (hstart : Start s) (h : Run.Every step Guard s es) :
    (∀ fs, fs <+: es → (fs.foldl step s).Undisplaced) ∧ Run.Every step Reclaims s es := by
  constructor
  · rintro fs ⟨gs, rfl⟩
    have hinv : (fs.foldl step s).Inv := (Run.every_append.mp h).1.invariant Inv (inv_of_start hstart)
      fun t e ht he => inv_step e ht he
    exact fun level _ id hp => hinv.current level id hp
  · exact Run.Every.imp (fun t e he => reclaims_of_guard e he) h

/-- A purge of the own LSP that is forged at its very sequence number. -/
def forgedPurge : Lsp := ⟨.l2, 0, ⟨7, 0, 0⟩, 1, 0, false, 0, false, .l2, []⟩

theorem start_fresh (systemId : SystemId) (ifaceType : IfaceType) (snpa : Snpa) :
    Start (fresh systemId [Iface.quiet ifaceType snpa]) := by
  constructor
  · intro level id
    cases level <;> exact Lsdb.get_new id
  · intro f hf level
    rw [List.mem_singleton.mp hf]
    cases level <;> rfl

/-- The router originates its LSP, and outdoes a forged purge of a higher sequence number. -/
theorem undisplaced_run_reclaimed :
    ([Event.reoriginate .l2, .processLsp 0 { forgedPurge with sequenceNumber := 5 } []].foldl step
      (fresh 7 [Iface.quiet .broadcast 5])).Undisplaced := by
  have hguard : Run.Every step Guard (fresh 7 [Iface.quiet .broadcast 5])
      [Event.reoriginate .l2, .processLsp 0 { forgedPurge with sequenceNumber := 5 } []] := by
    refine ⟨⟨by decide, ?_⟩, ?_, trivial⟩
    · unfold Readable
      decide +kernel
    · intro _
      rw [if_pos (by decide +kernel)]
      refine ⟨by decide, ?_⟩
      unfold Readable
      decide +kernel
  exact (undisplaced_run _ _ (start_fresh 7 .broadcast 5) hguard).1 _ (List.prefix_refl _)

theorem not_undisplaced_forged :
    ¬ ∀ (s : Isis) (es : List Event), Start s → ∀ fs, fs <+: es → (fs.foldl step s).Undisplaced := by
  intro h
  have hrun := h (fresh 7 [Iface.quiet .broadcast 5]) [.reoriginate .l2, .processLsp 0 forgedPurge []]
    (start_fresh 7 .broadcast 5) _ (List.prefix_refl _)
  have hcurrent := hrun .l2 rfl ⟨7, 0, 0⟩ (Or.inl rfl) forgedPurge (by decide +kernel)
  revert hcurrent
  decide +kernel

end Isis
end Wren.Daemon
