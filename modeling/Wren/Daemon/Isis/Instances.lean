import Wren.Daemon.Isis.Survival
import Wren.Lib.Run

/-! The instances of each LSP that the IS-IS task originates in the course of a run. -/

namespace Wren.Daemon
open Wren.Core Wren.Isis OrdMap

namespace Isis

/-- Levels that share a database. -/
def SameDb (a b : IsLevel) : Prop := a = .l2 ↔ b = .l2

instance (a b : IsLevel) : Decidable (SameDb a b) := inferInstanceAs (Decidable (_ ↔ _))

theorem get_of_sameDb {α : Type} (p : PerLevel α) {a b : IsLevel} (h : SameDb a b) : p.get a = p.get b := by
  unfold SameDb at h
  simp only [PerLevel.get, h]

/-- What of one LSP went out in a flood from here. A flood that leaves out an interface passes on what came in by it. -/
def originatedIn (level : IsLevel) (id : LspId) : Sent → Option Lsp
  | .flood l bytes none => if SameDb l level then (lspOf bytes).filter fun lsp => lsp.lspId = id else none
  | _ => none

/-- The instances of an LSP that were originated here, purges included, in their order. -/
def originated (s : Isis) (level : IsLevel) (id : LspId) : List Lsp := s.sent.filterMap (originatedIn level id)

theorem originated_of_sent_eq {s t : Isis} {out : List Sent} (h : t.sent = s.sent ++ out) (level : IsLevel) (id : LspId) :
    t.originated level id = s.originated level id ++ out.filterMap (originatedIn level id) := by
  rw [originated, h, List.filterMap_append]
  rfl

theorem filterMap_flood (level : IsLevel) (bytes : List UInt8) (level' : IsLevel) (id : LspId) :
    [Sent.flood level bytes none].filterMap (originatedIn level' id) =
      if SameDb level level' then ((lspOf bytes).filter fun lsp => lsp.lspId = id).toList else [] := by
  have hone : originatedIn level' id (.flood level bytes none) =
      if SameDb level level' then (lspOf bytes).filter fun lsp => lsp.lspId = id else none := rfl
  by_cases h : SameDb level level'
  · rw [if_pos h, List.filterMap_cons, hone, if_pos h]
    cases (lspOf bytes).filter fun lsp => lsp.lspId = id <;> rfl
  · rw [if_neg h, List.filterMap_cons, hone, if_neg h]
    rfl

variable (s : Isis)

/-! ### Reading back what was encoded -/

theorem lspId_of_lspOf {l l' : Lsp} (h : lspOf (s.encodePdu (.lsp l)) = some l') : l'.lspId = l.lspId := by
  rw [lspOf] at h
  split at h
  · rename_i mx l'' hdecode
    obtain rfl := Option.some.inj h
    have hoctets := lspId_octets_of_decode hdecode
    rw [encodePdu, lspId_octets_encodePdu] at hoctets
    have hread : LspId.decode (l''.lspId.encode ++ []) = LspId.decode (l.lspId.encode ++ []) := by rw [hoctets]
    rw [LspId.decode_encode, LspId.decode_encode] at hread
    exact Option.some.inj hread
  · cases h

/-- An LSP of a few TLVs that can each be read is read back as the same instance. -/
theorem exists_lspOf {l : Lsp} (hlen : l.tlvs.length ≤ 101) (hread : ∀ t ∈ l.tlvs, t.cut.isSome) :
    ∃ l', lspOf (s.encodePdu (.lsp l)) = some l' ∧ l'.lspId = l.lspId ∧ l'.sequenceNumber = l.sequenceNumber ∧
      l'.remainingLifetime = l.remainingLifetime ∧ List.Forall₂ ComesBack l.tlvs l'.tlvs := by
  have hsize : (Pdu.mk 0 (.lsp l)).pduType.fixedHeaderLen + (encodeAll (PduBody.lsp l).tlvs).length < 65536 := by
    have hhead : (Pdu.mk 0 (.lsp l)).pduType.fixedHeaderLen ≤ 33 := by cases (Pdu.mk 0 (.lsp l)).pduType <;> decide
    have hbody := length_encodeAll_le (PduBody.lsp l).tlvs
    change (Pdu.mk 0 (.lsp l)).pduType.fixedHeaderLen + (encodeAll l.tlvs).length < 65536
    change (encodeAll l.tlvs).length ≤ 257 * l.tlvs.length at hbody
    omega
  obtain ⟨c, us, hdecode, hback⟩ := exists_decode_encodePdu hsize s.cfg.auth hread
  obtain ⟨l', hreceived, hid, hseq, hlife, htlvs⟩ : ∃ l', (PduBody.lsp l).received c us = .lsp l' ∧
      l'.lspId = l.lspId ∧ l'.sequenceNumber = l.sequenceNumber ∧ l'.remainingLifetime = l.remainingLifetime ∧
      l'.tlvs = us := ⟨_, rfl, rfl, rfl, rfl, rfl⟩
  refine ⟨l', ?_, hid, hseq, hlife, by rw [htlvs]; exact hback⟩
  simp only [lspOf, encodePdu, hdecode, hreceived]

theorem exists_lspOf_pushAuth (l : Lsp) {tlvs : List Tlv} (htlvs : l.tlvs = s.pushAuth tlvs) (hlen : tlvs.length ≤ 100)
    (hread : ∀ t ∈ tlvs, t.cut.isSome) :
    ∃ l', lspOf (s.encodePdu (.lsp l)) = some l' ∧ l'.lspId = l.lspId ∧ l'.sequenceNumber = l.sequenceNumber ∧
      l'.remainingLifetime = l.remainingLifetime ∧ List.Forall₂ ComesBack l.tlvs l'.tlvs := by
  refine s.exists_lspOf ?_ ?_
  · have hle := s.length_pushAuth_le tlvs
    rw [htlvs]
    omega
  · intro t ht
    rw [htlvs] at ht
    rcases s.mem_pushAuth ht with hmem | ⟨htype, hne⟩
    · exact hread t hmem
    · exact Tlv.cut_of_typeCode htype hne

/-- All TLVs of the own LSP can be read. -/
def Readable (level : IsLevel) : Prop := ∀ t ∈ s.ownTlvs level, t.cut.isSome

theorem exists_lspOf_ownLsp {level : IsLevel} (h : s.Readable level) (seq : UInt32) :
    ∃ l, lspOf (s.encodePdu (.lsp (s.buildOurLsp level seq))) = some l ∧ l.lspId = s.ownId ∧ l.sequenceNumber = seq := by
  obtain ⟨l, hl, hid, hseq, -⟩ := s.exists_lspOf_pushAuth (s.buildOurLsp level seq) rfl (s.length_ownTlvs_le level) h
  exact ⟨l, hl, hid, hseq⟩

theorem exists_lspOf_pseudonodeLsp {f : Iface} {level : IsLevel} (h : (f.upNeighbors level).length ≤ 22) (seq : UInt32) :
    ∃ l, lspOf (s.encodePdu (.lsp (s.buildPseudonodeLsp f level seq))) = some l ∧ l.lspId = s.pnId f ∧
      l.sequenceNumber = seq ∧ l.remainingLifetime = lspLifetime ∧
      List.Forall₂ ComesBack (s.buildPseudonodeLsp f level seq).tlvs l.tlvs := by
  have hcut : Tlv.cut (.extendedIsReachability (s.pseudonodeReach f level)) =
      some (.extendedIsReachability (s.pseudonodeReach f level)) := cut_pseudonodeReach_iff.mpr h
  have hread : ∀ t ∈ [Tlv.extendedIsReachability (s.pseudonodeReach f level)], t.cut.isSome := by
    intro t ht
    rw [List.mem_singleton.mp ht, hcut]
    rfl
  exact s.exists_lspOf_pushAuth (s.buildPseudonodeLsp f level seq) rfl (by simp) hread

/-! ### What an origination and a purge do -/

theorem rank_lt_of_sequenceNumber {a b : Lsp} (h : a.sequenceNumber.toNat < b.sequenceNumber.toNat) :
    rank a.version < rank b.version := by
  rw [rank, rank, Prod.Lex.toLex_lt_toLex]
  exact Or.inl h

/-- An LSP that is more recent than what is held gets in, unless there is no room for it. -/
theorem get_install_newer {db : Lsdb} {l : Lsp}
    (h : ∀ held, db.get l.lspId = some held → rank held.version < rank l.version) :
    ((db.install l).1.get l.lspId = some l ∨ (db.install l).1.get l.lspId = none ∧ db.get l.lspId = none) := by
  by_cases hfull : db.get l.lspId = none ∧ maxLsps ≤ db.len
  · right
    have hinstall : (db.install l).1 = db := by
      rw [Lsdb.install, hfull.1]
      simp [hfull.2]
    rw [hinstall]
    exact ⟨hfull.1, hfull.1⟩
  · left
    have hroom : db.get l.lspId = none → db.len < maxLsps := by
      intro hnone
      by_contra hge
      exact hfull ⟨hnone, by omega⟩
    rw [Lsdb.get_install hroom, if_pos ⟨rfl, h⟩]

theorem get_install_of_ne {db : Lsdb} {l : Lsp} {id : LspId} (h : id ≠ l.lspId) : (db.install l).1.get id = db.get id := by
  rw [Lsdb.install]
  cases db.get l.lspId with
  | none =>
    split_ifs
    · rfl
    · rw [Lsdb.get_put, if_neg h]
  | some held =>
    dsimp only
    cases recency l held
    · rfl
    · rfl
    · rw [Lsdb.get_put, if_neg h]

theorem get_set_sameDb {α : Type} (p : PerLevel α) (level level' : IsLevel) (a : α) :
    (p.set level a).get level' = if SameDb level level' then a else p.get level' := by
  rw [PerLevel.get_set]
  exact if_congr Iff.comm rfl rfl

/-- One state after another in which an instance was originated: flooded and offered to the database. -/
structure Originates (s t : Isis) (level : IsLevel) (l : Lsp) : Prop where
  sent : ∃ bytes, lspOf bytes = some l ∧ t.sent = s.sent ++ [.flood level bytes none]
  dbs : t.dbs = s.dbs.set level ((s.dbs.get level).install l).1

theorem originates_storeAndFlood (level : IsLevel) {lsp l : Lsp} (h : lspOf (s.encodePdu (.lsp lsp)) = some l) :
    Originates s (s.storeAndFlood level lsp) level l where
  sent := ⟨_, h, by rw [storeAndFlood_eq]⟩
  dbs := by
    rw [storeAndFlood_eq, stored, h]
    rfl

theorem originates_reoriginate {level : IsLevel} (h : s.Readable level) :
    ∃ l, Originates s (s.reoriginate level) level l ∧ l.lspId = s.ownId ∧
      l.sequenceNumber = s.ownSeq.get level + 1 := by
  let u : Isis := { s with ownSeq := s.ownSeq.set level (s.ownSeq.get level + 1) }
  have hread : u.Readable level := h
  obtain ⟨l, hl, hid, hseq⟩ := u.exists_lspOf_ownLsp hread (s.ownSeq.get level + 1)
  have horiginates := u.originates_storeAndFlood level hl
  exact ⟨l, ⟨horiginates.sent, horiginates.dbs⟩, hid, hseq⟩

/-- The DIS originates the next instance of its pseudonode LSP. -/
theorem originates_reoriginatePseudonode {idx : ℕ} {f : Iface} {level : IsLevel} (hf : s.ifaces[idx]? = some f)
    (hdis : f.isDis.get level = true) (hfits : (f.upNeighbors level).length ≤ 22) :
    ∃ l, Originates s (s.reoriginatePseudonode idx level) level l ∧ l.lspId = s.pnId f ∧
      l.sequenceNumber = f.pnSeq.get level + 1 ∧ l.remainingLifetime = lspLifetime ∧
      List.Forall₂ ComesBack (s.buildPseudonodeLsp f level (f.pnSeq.get level + 1)).tlvs l.tlvs := by
  let u : Isis := s.modifyIface idx fun g => { g with pnSeq := g.pnSeq.set level (f.pnSeq.get level + 1) }
  obtain ⟨l, hl, hid, hseq, hlife, hback⟩ := s.exists_lspOf_pseudonodeLsp hfits (f.pnSeq.get level + 1)
  have hl' : lspOf (u.encodePdu (.lsp (s.buildPseudonodeLsp f level (f.pnSeq.get level + 1)))) = some l := hl
  have horiginates := u.originates_storeAndFlood level hl'
  have hstep : s.reoriginatePseudonode idx level =
      u.storeAndFlood level (s.buildPseudonodeLsp f level (f.pnSeq.get level + 1)) := by
    rw [reoriginatePseudonode, hf]
    dsimp only
    rw [if_pos hdis]
  rw [hstep]
  exact ⟨l, ⟨horiginates.sent, horiginates.dbs⟩, hid, hseq, hlife, hback⟩

namespace Originates
variable {s t : Isis} {level : IsLevel} {l : Lsp} (h : Originates s t level l)
include h

theorem originated (level' : IsLevel) (id : LspId) :
    t.originated level' id = s.originated level' id ++ if SameDb level level' ∧ id = l.lspId then [l] else [] := by
  obtain ⟨bytes, hl, hsent⟩ := h.sent
  rw [originated_of_sent_eq hsent, filterMap_flood, hl]
  by_cases hlevel : SameDb level level'
  · by_cases hid : id = l.lspId
    · simp [hlevel, hid]
    · simp [hlevel, hid, Ne.symm hid]
  · simp [hlevel]

theorem get_of_ne {level' : IsLevel} {id : LspId} (hne : ¬ (SameDb level level' ∧ id = l.lspId)) :
    (t.dbs.get level').get id = (s.dbs.get level').get id := by
  rw [h.dbs, get_set_sameDb]
  split_ifs with hlevel
  · rw [get_install_of_ne fun hid => hne ⟨hlevel, hid⟩, get_of_sameDb s.dbs hlevel]
  · rfl

theorem get_self {level' : IsLevel} (hlevel : SameDb level level')
    (hnew : ∀ held, (s.dbs.get level).get l.lspId = some held → rank held.version < rank l.version) :
    (t.dbs.get level').get l.lspId = some l ∨
      (t.dbs.get level').get l.lspId = none ∧ (s.dbs.get level).get l.lspId = none := by
  rw [h.dbs, get_set_sameDb, if_pos hlevel]
  exact get_install_newer hnew

end Originates

/-- The octets of a purge. -/
def purgeOf (l : Lsp) : List UInt8 :=
  s.encodePdu (.lsp { l with remainingLifetime := 0, sequenceNumber := l.sequenceNumber + 1 })

theorem flushLsp_of_none {level : IsLevel} {id : LspId} (h : (s.dbs.get level).get id = none) :
    s.flushLsp level id = s := by
  rw [flushLsp, h]

theorem flushLsp_of_held {level : IsLevel} {id : LspId} {l : Lsp} (h : (s.dbs.get level).get id = some l) :
    s.flushLsp level id =
      { s with
        dbs := s.dbs.set level ((s.dbs.get level).remove id)
        sent := s.sent ++ [.flood level (s.purgeOf l) none] } := by
  rw [flushLsp, h]
  rfl

/-- After a flush the LSP is not held. The purge is flooded, if it was held before. -/
theorem flushLsp_spec (level : IsLevel) (id : LspId) :
    (∀ level' id', ((s.flushLsp level id).dbs.get level').get id' =
      if SameDb level level' ∧ id' = id then none else (s.dbs.get level').get id') ∧
    ∀ level' id', (s.flushLsp level id).originated level' id' = s.originated level' id' ++
      if SameDb level level' ∧ id' = id then
        (((s.dbs.get level).get id).bind fun l => lspOf (s.purgeOf l)).toList
      else [] := by
  cases hheld : (s.dbs.get level).get id with
  | none =>
    rw [s.flushLsp_of_none hheld]
    constructor
    · intro level' id'
      split_ifs with h
      · obtain ⟨hlevel, rfl⟩ := h
        rw [← get_of_sameDb s.dbs hlevel, hheld]
      · rfl
    · intro level' id'
      simp
  | some l =>
    rw [s.flushLsp_of_held hheld]
    constructor
    · intro level' id'
      change ((s.dbs.set level ((s.dbs.get level).remove id)).get level').get id' = _
      rw [get_set_sameDb]
      by_cases hlevel : SameDb level level'
      · rw [if_pos hlevel, Lsdb.get_remove, get_of_sameDb s.dbs hlevel]
        simp [hlevel]
      · simp [hlevel]
    · intro level' id'
      have hid : ∀ l', lspOf (s.purgeOf l) = some l' → l'.lspId = id := by
        intro l' hl'
        have hl : l.lspId = id := Lsdb.lspId_of_get hheld
        rw [s.lspId_of_lspOf hl']
        exact hl
      rw [originated, List.filterMap_append, filterMap_flood]
      congr 1
      by_cases hlevel : SameDb level level'
      · cases hpurge : lspOf (s.purgeOf l) with
        | none => simp [hpurge]
        | some l' =>
          have hl' := hid l' hpurge
          by_cases hid' : id' = id
          · simp [hlevel, hid', hpurge, hl']
          · simp [hlevel, hid', hl', Ne.symm hid']
      · simp [hlevel]

end Isis
end Wren.Daemon
