import Wren.Daemon.Isis.Defence

/-! Whether each instance of a pseudonode LSP that a router floods supersedes those before it. -/

namespace Wren.Daemon
open Wren.Core Wren.Isis OrdMap

namespace Isis

/-- What happens on one LAN at one level. -/
inductive LanEvent where
  | neighbors (table : BTreeMap SystemId Nbr)
  | runDis
  | reoriginatePseudonode
  | flushLsp

def lanStep (idx : ℕ) (level : IsLevel) (s : Isis) : LanEvent → Isis
  | .neighbors table => s.modifyIface idx fun f => { f with neighbors := table }
  | .runDis => s.runDis idx level
  | .reoriginatePseudonode => s.reoriginatePseudonode idx level
  | .flushLsp =>
    match s.ifaces[idx]? with
    | none => s
    | some f => s.flushLsp level (s.pnId f)

/-- Nothing was sent yet, and the pseudonode LSP is not held. -/
def LanStart (level : IsLevel) (s : Isis) (f : Iface) : Prop := s.sent = [] ∧ (s.dbs.get level).get (s.pnId f) = none

/-- Every flood can be read, and each instance of an LSP is more recent than those before it. -/
def Supersedes (s : Isis) (level : IsLevel) (id : LspId) : Prop :=
  (∀ l bytes except, Sent.flood l bytes except ∈ s.sent → (lspOf bytes).isSome) ∧
    (s.originated level id).Pairwise fun a b => rank a.version < rank b.version

/-- A neighbour that installs all instances of an LSP in turn ends with the last one. -/
def Converges (s : Isis) (level : IsLevel) (id : LspId) : Prop :=
  ∀ db : Lsdb, db.get id = none → db.len < maxLsps →
    ((s.originated level id).foldl (fun db l => (db.install l).1) db).get id = (s.originated level id).getLast?

/-- The DIS may originate: its sequence numbers are not used up, its list of neighbours fits, and it has not purged the
LSP before. -/
structure MayContinue (s : Isis) (f : Iface) (level : IsLevel) : Prop where
  room : (f.pnSeq.get level).toNat + 2 < 2 ^ 32
  fits : (f.upNeighbors level).length ≤ 22
  live : ∀ l, (s.originated level (s.pnId f)).getLast? = some l → l.remainingLifetime ≠ 0

def LanGuard (idx : ℕ) (level : IsLevel) (s : Isis) : LanEvent → Prop
  | .runDis =>
    ∀ f, s.ifaces[idx]? = some f → f.ifaceType = .broadcast →
      ((s.disWinner f level).any fun w => w.systemId = s.cfg.systemId) = true → s.MayContinue f level
  | .reoriginatePseudonode => ∀ f, s.ifaces[idx]? = some f → f.isDis.get level = true → s.MayContinue f level
  | _ => True

/-! ### Installing in turn -/

theorem get_foldl_install {id : LspId} {l : Lsp} {ls : List Lsp} {db : Lsdb} (hid : ∀ m ∈ l :: ls, m.lspId = id)
    (h : (l :: ls).Pairwise fun a b => rank a.version < rank b.version) (hheld : db.get id = some l) :
    (ls.foldl (fun db l => (db.install l).1) db).get id = (l :: ls).getLast? := by
  induction ls generalizing l db with
  | nil => exact hheld
  | cons m ls ih =>
    obtain ⟨hfirst, hrest⟩ := List.pairwise_cons.mp h
    have hm : m.lspId = id := hid m (by simp)
    have hput : (db.install m).1.get id = some m := by
      have hnew : ∀ held, db.get m.lspId = some held → rank held.version < rank m.version := by
        intro held hh
        rw [hm, hheld] at hh
        cases hh
        exact hfirst m (by simp)
      rcases get_install_newer hnew with hget | ⟨-, hnone⟩
      · rw [← hm]
        exact hget
      · rw [hm, hheld] at hnone
        cases hnone
    rw [List.foldl_cons, ih (fun x hx => hid x (List.mem_cons_of_mem _ hx)) hrest hput, List.getLast?_cons_cons]

theorem lspId_of_mem_originated {s : Isis} {level : IsLevel} {id : LspId} {l : Lsp} (h : l ∈ s.originated level id) :
    l.lspId = id := by
  obtain ⟨m, -, hm⟩ := List.mem_filterMap.mp h
  cases m with
  | flood l' bytes except =>
    cases except with
    | none =>
      change (if SameDb l' level then (lspOf bytes).filter fun lsp => lsp.lspId = id else none) = some l at hm
      split_ifs at hm
      obtain ⟨-, hid⟩ := Option.filter_eq_some_iff.mp hm
      simpa using hid
    | some i => cases hm
  | on i mac bytes => cases hm

theorem Supersedes.converges {s : Isis} {level : IsLevel} {id : LspId} (h : s.Supersedes level id) :
    s.Converges level id := by
  intro db hnone hroom
  have hids : ∀ m ∈ s.originated level id, m.lspId = id := fun m hm => lspId_of_mem_originated hm
  have hpair := h.2
  cases hl : s.originated level id with
  | nil => simpa using hnone
  | cons l ls =>
    rw [hl] at hids hpair
    have hlid := hids l (by simp)
    have hput : (db.install l).1.get id = some l := by
      rw [Lsdb.get_install fun _ => hroom, hlid, if_pos]
      refine ⟨rfl, ?_⟩
      intro held hh
      rw [hnone] at hh
      cases hh
    rw [List.foldl_cons]
    exact get_foldl_install hids hpair hput

/-! ### Steps -/

/-- No purge was flooded: what is held is the last instance, and can be sent again. -/
structure Continuing (s : Isis) (level : IsLevel) (id : LspId) (pnSeq : UInt32) : Prop where
  seqs : ∀ l ∈ s.originated level id, l.sequenceNumber.toNat ≤ pnSeq.toNat
  held : ∀ l, (s.dbs.get level).get id = some l → l.sequenceNumber = pnSeq ∧ pnSeq.toNat + 1 < 2 ^ 32 ∧
    l.tlvs.length ≤ 101 ∧ ∀ t ∈ l.tlvs, t.cut.isSome

/-- A purge was flooded last, and nothing is held. -/
structure Purged (s : Isis) (level : IsLevel) (id : LspId) : Prop where
  last : ∃ l, (s.originated level id).getLast? = some l ∧ l.remainingLifetime = 0
  none_held : (s.dbs.get level).get id = none

structure LanInv (idx : ℕ) (level : IsLevel) (id : LspId) (s : Isis) : Prop where
  supersedes : s.Supersedes level id
  phase : ∃ f, s.ifaces[idx]? = some f ∧ s.pnId f = id ∧ (s.Continuing level id (f.pnSeq.get level) ∨ s.Purged level id)

variable {s t : Isis} {idx : ℕ} {level : IsLevel} {id : LspId}

/-- The invariant only looks at what was sent, what is held, and the number and sequence number of the pseudonode. -/
theorem LanInv.congr (h : LanInv idx level id s) (hsent : t.sent = s.sent) (hdbs : t.dbs = s.dbs)
    (hphase : ∀ f, s.ifaces[idx]? = some f → ∃ g, t.ifaces[idx]? = some g ∧ t.pnId g = s.pnId f ∧ g.pnSeq = f.pnSeq) :
    LanInv idx level id t := by
  have horiginated : ∀ level id, t.originated level id = s.originated level id := by
    intro level id
    rw [originated, originated, hsent]
  obtain ⟨f, hf, hid, hcase⟩ := h.phase
  obtain ⟨g, hg, hgid, hgseq⟩ := hphase f hf
  refine ⟨⟨?_, ?_⟩, g, hg, hgid.trans hid, ?_⟩
  · rw [hsent]
    exact h.supersedes.1
  · rw [horiginated]
    exact h.supersedes.2
  · rw [hgseq]
    rcases hcase with hcont | hpurged
    · exact Or.inl ⟨by rw [horiginated]; exact hcont.seqs, by rw [hdbs]; exact hcont.held⟩
    · exact Or.inr ⟨by rw [horiginated]; exact hpurged.last, by rw [hdbs]; exact hpurged.none_held⟩

/-- An instance that is more recent than all before it keeps up the succession. -/
theorem Supersedes.concat (h : s.Supersedes level id) {bytes : List UInt8} {l : Lsp} (hl : lspOf bytes = some l)
    (hid : l.lspId = id) (hsent : t.sent = s.sent ++ [.flood level bytes none])
    (hnew : ∀ m ∈ s.originated level id, rank m.version < rank l.version) :
    t.Supersedes level id ∧ t.originated level id = s.originated level id ++ [l] := by
  have horiginated : t.originated level id = s.originated level id ++ [l] := by
    rw [originated_of_sent_eq hsent, filterMap_flood, if_pos (sameDb_self level), hl]
    simp [hid]
  refine ⟨⟨?_, ?_⟩, horiginated⟩
  · intro l' bytes' except hmem
    rw [hsent, List.mem_append] at hmem
    rcases hmem with hold | hnew'
    · exact h.1 l' bytes' except hold
    · cases List.mem_singleton.mp hnew'
      rw [hl]
      rfl
  · rw [horiginated, List.pairwise_append]
    exact ⟨h.2, List.pairwise_singleton _ _, fun m hm l' hl' => by rw [List.mem_singleton.mp hl']; exact hnew m hm⟩

theorem pnId_congr (h : t.cfg = s.cfg) (f : Iface) : t.pnId f = s.pnId f := by rw [pnId, pnId, h]

theorem lanInv_flushLsp (h : LanInv idx level id s) : LanInv idx level id (s.flushLsp level id) := by
  cases hheld : (s.dbs.get level).get id with
  | none =>
    rw [s.flushLsp_of_none hheld]
    exact h
  | some l =>
    obtain ⟨f, hf, hfid, hcase⟩ := h.phase
    obtain ⟨hcfg, hifaces, -⟩ := flushLsp_fields (s := s) level id
    rcases hcase with hcont | hpurged
    · obtain ⟨hseq, hroom, hlen, hread⟩ := hcont.held l hheld
      obtain ⟨purge, hpurge, hpid, hpseq, hplife, -⟩ := s.exists_lspOf
        (l := { l with remainingLifetime := 0, sequenceNumber := l.sequenceNumber + 1 }) hlen hread
      have hl : l.lspId = id := Lsdb.lspId_of_get hheld
      have hlid : purge.lspId = id := hpid.trans hl
      have hnew : ∀ m ∈ s.originated level id, rank m.version < rank purge.version := by
        intro m hm
        have hle := hcont.seqs m hm
        refine rank_lt_of_sequenceNumber ?_
        have hnext : purge.sequenceNumber.toNat = (f.pnSeq.get level).toNat + 1 := by
          rw [hpseq]
          change (l.sequenceNumber + 1).toNat = _
          rw [hseq, toNat_add_one hroom]
        omega
      have hstep := s.flushLsp_of_held hheld
      obtain ⟨hsupersedes, horiginated⟩ := h.supersedes.concat (t := s.flushLsp level id) hpurge hlid (by rw [hstep]; rfl) hnew
      refine ⟨hsupersedes, f, by rw [hifaces]; exact hf, (pnId_congr hcfg f).trans hfid, Or.inr ⟨?_, ?_⟩⟩
      · exact ⟨purge, by rw [horiginated, List.getLast?_concat], hplife⟩
      · rw [(s.flushLsp_spec level id).1, if_pos ⟨sameDb_self level, rfl⟩]
    · rw [hpurged.none_held] at hheld
      cases hheld

theorem exists_rel_of_mem {α β : Type} {R : α → β → Prop} {ts : List α} {us : List β} (h : List.Forall₂ R ts us) {u : β}
    (hu : u ∈ us) : ∃ t ∈ ts, R t u := by
  induction h with
  | nil => cases hu
  | cons htu _ ih =>
    rcases List.mem_cons.mp hu with rfl | hmem
    · exact ⟨_, List.mem_cons_self, htu⟩
    · obtain ⟨t, ht, hrel⟩ := ih hmem
      exact ⟨t, List.mem_cons_of_mem _ ht, hrel⟩

/-- What the DIS reads back of its own pseudonode LSP can be sent again. -/
theorem resendable_pseudonodeLsp {f : Iface} {seq : UInt32} {l : Lsp} (hfits : (f.upNeighbors level).length ≤ 22)
    {bytes : List UInt8} (hl : lspOf bytes = some l)
    (hback : List.Forall₂ ComesBack (s.buildPseudonodeLsp f level seq).tlvs l.tlvs) :
    l.tlvs.length ≤ 101 ∧ ∀ t ∈ l.tlvs, t.cut.isSome := by
  have hcut : Tlv.cut (.extendedIsReachability (s.pseudonodeReach f level)) =
      some (.extendedIsReachability (s.pseudonodeReach f level)) := cut_pseudonodeReach_iff.mpr hfits
  constructor
  · rw [← hback.length_eq]
    have hle := s.length_pushAuth_le [.extendedIsReachability (s.pseudonodeReach f level)]
    change (s.pushAuth [.extendedIsReachability (s.pseudonodeReach f level)]).length ≤ 101
    simp only [List.length_singleton] at hle
    omega
  · intro u hu
    obtain ⟨t, ht, htype, hread⟩ := exists_rel_of_mem hback hu
    by_cases hauth : t.typeCode = 10
    · rw [lspOf] at hl
      split at hl
      · rename_i mx l' hdecode
        obtain rfl := Option.some.inj hl
        exact cut_isSome_of_decode hdecode hu (htype.trans hauth)
      · cases hl
    · rcases s.mem_pushAuth ht with hmem | ⟨htype', -⟩
      · obtain rfl := List.mem_singleton.mp hmem
        rw [hcut] at hread
        obtain rfl := Option.some.inj (hread hauth)
        rw [hcut]
        rfl
      · exact absurd htype' hauth

/-- A DIS that may continue floods the next instance. -/
theorem lanInv_originate (h : LanInv idx level id s) {f : Iface} (hf : s.ifaces[idx]? = some f)
    (hdis : f.isDis.get level = true) (hmay : s.MayContinue f level) :
    LanInv idx level id (s.reoriginatePseudonode idx level) := by
  obtain ⟨f', hf', hfid, hcase⟩ := h.phase
  obtain rfl : f = f' := Option.some.inj (hf.symm.trans hf')
  have hcont : s.Continuing level id (f.pnSeq.get level) := by
    rcases hcase with hcont | hpurged
    · exact hcont
    · obtain ⟨l, hlast, hlife⟩ := hpurged.last
      rw [← hfid] at hlast
      exact absurd hlife (hmay.live l hlast)
  obtain ⟨l, horiginates, hlid, hseq, hlife, hback⟩ := s.originates_reoriginatePseudonode hf hdis hmay.fits
  obtain ⟨bytes, hbytes, hsent⟩ := horiginates.sent
  have hroom := hmay.room
  have hnext : l.sequenceNumber.toNat = (f.pnSeq.get level).toNat + 1 := by
    rw [hseq, toNat_add_one (by omega)]
  have hid : l.lspId = id := hlid.trans hfid
  have hnew : ∀ m ∈ s.originated level id, rank m.version < rank l.version := by
    intro m hm
    have hle := hcont.seqs m hm
    exact rank_lt_of_sequenceNumber (by omega)
  obtain ⟨hsupersedes, horiginated⟩ := h.supersedes.concat hbytes hid hsent hnew
  obtain ⟨g, hg⟩ : ∃ g : Iface → Iface, (fun a => { a with pnSeq := a.pnSeq.set level (f.pnSeq.get level + 1) }) = g :=
    ⟨_, rfl⟩
  obtain ⟨hcfg, hifaces⟩ : (s.reoriginatePseudonode idx level).cfg = s.cfg ∧
      (s.reoriginatePseudonode idx level).ifaces = s.ifaces.modify idx g := by
    rw [reoriginatePseudonode, hf, ← hg]
    dsimp only
    rw [if_pos hdis]
    obtain ⟨hcfg, hifaces, -⟩ := storeAndFlood_fields
      (s := s.modifyIface idx fun a => { a with pnSeq := a.pnSeq.set level (f.pnSeq.get level + 1) }) level
      (s.buildPseudonodeLsp f level (f.pnSeq.get level + 1))
    exact ⟨hcfg, hifaces⟩
  have hgseq : (g f).pnSeq.get level = l.sequenceNumber := by
    rw [← hg, hseq]
    exact PerLevel.get_set_self _ _ _
  have hgid : s.pnId (g f) = id := by
    rw [← hg]
    exact hfid
  refine ⟨hsupersedes, g f, ?_, (pnId_congr hcfg _).trans hgid, Or.inl ?_⟩
  · rw [hifaces, List.getElem?_modify, hf]
    simp
  · rw [hgseq]
    constructor
    · intro m hm
      rw [horiginated, List.mem_append] at hm
      rcases hm with hold | hlast
      · have hle := hcont.seqs m hold
        omega
      · rw [List.mem_singleton.mp hlast]
    · intro m hm
      have hrecent : ∀ held, (s.dbs.get level).get l.lspId = some held → rank held.version < rank l.version := by
        intro held hheld
        rw [hid] at hheld
        have heq := (hcont.held held hheld).1
        refine rank_lt_of_sequenceNumber ?_
        rw [heq]
        omega
      rcases horiginates.get_self (sameDb_self level) hrecent with hget | ⟨hnone, -⟩
      · rw [hid, hm] at hget
        obtain rfl := Option.some.inj hget
        obtain ⟨hlen, hread⟩ := resendable_pseudonodeLsp hmay.fits hbytes hback
        exact ⟨rfl, by omega, hlen, hread⟩
      · rw [hid, hm] at hnone
        cases hnone

theorem lanInv_reoriginatePseudonode (h : LanInv idx level id s)
    (hguard : ∀ f, s.ifaces[idx]? = some f → f.isDis.get level = true → s.MayContinue f level) :
    LanInv idx level id (s.reoriginatePseudonode idx level) := by
  obtain ⟨f, hf, hfid, -⟩ := h.phase
  by_cases hdis : f.isDis.get level = true
  · exact lanInv_originate h hf hdis (hguard f hf hdis)
  · have hnot : ∀ a, s.ifaces[idx]? = some a → a.isDis.get level = false := by
      intro a ha
      obtain rfl := Option.some.inj (hf.symm.trans ha)
      simpa using hdis
    rcases reoriginatePseudonode_of_not_dis hnot with hsame | ⟨a, ha, hflush⟩
    · rw [hsame]
      exact h
    · obtain rfl := Option.some.inj (hf.symm.trans ha)
      rw [hflush, hfid]
      exact lanInv_flushLsp h

/-- What a step does to the interface alone. -/
theorem lanInv_modifyIface (h : LanInv idx level id s) {g : Iface → Iface}
    (hg : ∀ f, (g f).localCircuitId = f.localCircuitId ∧ (g f).pnSeq = f.pnSeq) :
    LanInv idx level id (s.modifyIface idx g) := by
  refine h.congr rfl rfl ?_
  intro f hf
  refine ⟨g f, ?_, ?_, (hg f).2⟩
  · change (s.ifaces.modify idx g)[idx]? = some (g f)
    rw [List.getElem?_modify, hf]
    simp
  · change LspId.mk s.cfg.systemId (g f).localCircuitId 0 = LspId.mk s.cfg.systemId f.localCircuitId 0
    rw [(hg f).1]

theorem lanInv_runDis (h : LanInv idx level id s) (hguard : LanGuard idx level s .runDis) :
    LanInv idx level id (s.runDis idx level) := by
  rw [runDis]
  cases hf : s.ifaces[idx]? with
  | none => exact h
  | some f =>
    dsimp only
    by_cases hlan : f.ifaceType = .broadcast
    · rw [if_neg (by simpa using hlan)]
      obtain ⟨b, hb⟩ : ∃ b, ((s.disWinner f level).any fun w => w.systemId = s.cfg.systemId) = b := ⟨_, rfl⟩
      obtain ⟨g, hg⟩ : ∃ g : Iface → Iface, (fun f' => { f' with
          dis := f'.dis.set level (s.electedLanId f level), isDis := f'.isDis.set level b }) = g := ⟨_, rfl⟩
      have hmay := hguard f hf hlan
      rw [hb] at hmay
      rw [hb, hg]
      have hgkeeps : ∀ f', (g f').localCircuitId = f'.localCircuitId ∧ (g f').pnSeq = f'.pnSeq := by
        intro f'
        rw [← hg]
        exact ⟨rfl, rfl⟩
      have hinv := lanInv_modifyIface h hgkeeps
      split
      · refine lanInv_reoriginatePseudonode hinv ?_
        intro a ha hdis
        have hgf : (s.modifyIface idx g).ifaces[idx]? = some (g f) := by
          change (s.ifaces.modify idx g)[idx]? = _
          rw [List.getElem?_modify, hf]
          simp
        obtain rfl := Option.some.inj (hgf.symm.trans ha)
        rw [← hg] at hdis ⊢
        have hdis' : (f.isDis.set level b).get level = true := hdis
        rw [PerLevel.get_set_self] at hdis'
        have hm := hmay hdis'
        exact ⟨hm.room, hm.fits, hm.live⟩
      · exact hinv
    · rw [if_pos hlan]
      exact h

theorem lanInv_step (e : LanEvent) (h : LanInv idx level id s) (hguard : LanGuard idx level s e) :
    LanInv idx level id (lanStep idx level s e) := by
  cases e with
  | neighbors table => exact lanInv_modifyIface h fun _ => ⟨rfl, rfl⟩
  | runDis => exact lanInv_runDis h hguard
  | reoriginatePseudonode => exact lanInv_reoriginatePseudonode h hguard
  | flushLsp =>
    obtain ⟨f, hf, hfid, -⟩ := h.phase
    change LanInv idx level id (match s.ifaces[idx]? with | none => s | some f => s.flushLsp level (s.pnId f))
    rw [hf]
    dsimp only
    rw [hfid]
    exact lanInv_flushLsp h

/-! ### Runs -/

theorem lanInv_of_start {f : Iface} (hf : s.ifaces[idx]? = some f) (h : LanStart level s f) :
    LanInv idx level (s.pnId f) s := by
  obtain ⟨hsent, hnone⟩ := h
  have horiginated : s.originated level (s.pnId f) = [] := by
    rw [originated, hsent]
    rfl
  refine ⟨⟨?_, ?_⟩, f, hf, rfl, Or.inl ⟨?_, ?_⟩⟩
  · simp [hsent]
  · rw [horiginated]
    exact List.Pairwise.nil
  · simp [horiginated]
  · intro l hl
    rw [hnone] at hl
    cases hl

/-- In every run that meets the guard, each instance of the pseudonode LSP that goes out supersedes those before it, and
a neighbour that installs them in turn ends with the last one. -/
theorem supersedes_run (idx : ℕ) (level : IsLevel) (s : Isis) (f : Iface) (es : List LanEvent) (hf : s.ifaces[idx]? = some f)
    (hstart : LanStart level s f) (h : Run.Every (lanStep idx level) (LanGuard idx level) s es) :
    ∀ fs, fs <+: es →
      (fs.foldl (lanStep idx level) s).Supersedes level (s.pnId f) ∧
        (fs.foldl (lanStep idx level) s).Converges level (s.pnId f) := by
  intro fs hfs
  obtain ⟨gs, rfl⟩ := hfs
  have hinv : LanInv idx level (s.pnId f) (fs.foldl (lanStep idx level) s) :=
    (Run.every_append.mp h).1.invariant (LanInv idx level (s.pnId f)) (lanInv_of_start hf hstart)
      fun t e ht he => lanInv_step e ht he
  exact ⟨hinv.supersedes, hinv.supersedes.converges⟩

/-- A LAN with one neighbour, whose adjacency is up. -/
def oneNeighbor (priority : UInt8) : BTreeMap SystemId Nbr :=
  (∅ : BTreeMap SystemId Nbr).insert 3 { Nbr.new 9 30 with priority, adj := ⟨none, some ⟨3, .l2, .up, priority, 9, (3, 1)⟩⟩ }

/-- The router becomes the DIS, goes on, and gives the role up. -/
theorem supersedes_run_resigned :
    Supersedes ([LanEvent.neighbors (oneNeighbor 0), .runDis, .reoriginatePseudonode, .neighbors (oneNeighbor 100),
      .runDis].foldl (lanStep 0 .l2) (fresh 7 [Iface.quiet .broadcast 5])) .l2 ⟨7, 1, 0⟩ := by
  have hguard : Run.Every (lanStep 0 .l2) (LanGuard 0 .l2) (fresh 7 [Iface.quiet .broadcast 5])
      [.neighbors (oneNeighbor 0), .runDis, .reoriginatePseudonode, .neighbors (oneNeighbor 100), .runDis] := by
    refine ⟨trivial, ?_, ?_, trivial, ?_, trivial⟩
    · intro f hf _ _
      cases hf
      exact ⟨by decide +kernel, by decide +kernel, by decide +kernel⟩
    · intro f hf _
      cases hf
      exact ⟨by decide +kernel, by decide +kernel, by decide +kernel⟩
    · intro f hf _ hwins
      cases hf
      exact absurd hwins (by decide +kernel)
  have hstart : LanStart .l2 (fresh 7 [Iface.quiet .broadcast 5]) (Iface.quiet .broadcast 5) := ⟨rfl, Lsdb.get_new _⟩
  exact (supersedes_run 0 .l2 _ _ _ rfl hstart hguard _ (List.prefix_refl _)).1

/-- The role of the DIS is gained, lost and gained again: the second instance has the sequence number of the purge. -/
theorem not_supersedes_regained :
    ¬ ∀ (idx : ℕ) (level : IsLevel) (s : Isis) (f : Iface) (es : List LanEvent), s.ifaces[idx]? = some f →
      LanStart level s f →
        (∀ fs, fs <+: es → ∀ a ∈ (fs.foldl (lanStep idx level) s).ifaces, (a.pnSeq.get level).toNat + 2 < 2 ^ 32) →
          ∀ fs, fs <+: es →
            (fs.foldl (lanStep idx level) s).Supersedes level (s.pnId f) ∧
              (fs.foldl (lanStep idx level) s).Converges level (s.pnId f) := by
  intro h
  have hrun := h 0 .l2 (fresh 7 [Iface.quiet .broadcast 5]) (Iface.quiet .broadcast 5)
    [.neighbors (oneNeighbor 0), .runDis, .neighbors (oneNeighbor 100), .runDis, .neighbors (oneNeighbor 0), .runDis] rfl
    ⟨rfl, Lsdb.get_new _⟩
  have hroom : ∀ fs ∈ List.inits [LanEvent.neighbors (oneNeighbor 0), .runDis, .neighbors (oneNeighbor 100), .runDis,
      .neighbors (oneNeighbor 0), .runDis], ∀ a ∈ (fs.foldl (lanStep 0 .l2) (fresh 7 [Iface.quiet .broadcast 5])).ifaces,
      (a.pnSeq.get .l2).toNat + 2 < 2 ^ 32 := by decide +kernel
  obtain ⟨⟨-, hpair⟩, -⟩ := hrun (fun fs hfs => hroom fs ((List.mem_inits _ _).mpr hfs)) _ (List.prefix_refl _)
  revert hpair
  decide +kernel

end Isis
end Wren.Daemon
