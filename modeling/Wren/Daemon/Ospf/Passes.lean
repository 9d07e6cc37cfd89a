import Wren.Daemon.Ospf.Originate

/-! What originating LSAs does to the databases and to the sequence numbers. -/

namespace Wren.Ospf

namespace Lsa

@[simp] theorem key_withSeq (l : Lsa) (seq : Int32) : (l.withSeq seq).key = l.key := rfl

@[simp] theorem key_withAge (l : Lsa) (age : UInt16) : (l.withAge age).key = l.key := rfl

@[simp] theorem filled_body (l : Lsa) : l.filled.body = l.body := by
  unfold filled
  split_ifs
  · simp only [stamp]
  · rfl

@[simp] theorem filled_lsAge (l : Lsa) : l.filled.header.lsAge = l.header.lsAge := by
  unfold filled
  split_ifs
  · simp only [stamp]
  · rfl

@[simp] theorem filled_lsSeq (l : Lsa) : l.filled.header.lsSeq = l.header.lsSeq := by
  unfold filled
  split_ifs
  · simp only [stamp]
  · rfl

end Lsa

theorem LsaHeader.compareRecency_of_lsSeq_lt {h other : LsaHeader} (hlt : other.lsSeq < h.lsSeq) :
    h.compareRecency other = .gt := by
  have hcmp : compare h.lsSeq other.lsSeq = .gt := Std.compare_eq_gt.mpr hlt
  simp only [compareRecency, hcmp]

end Wren.Ospf

namespace Wren.Daemon
open Wren.Core Wren.Ospf OrdMap

namespace Ospf

theorem nextSeq_insert (seqs : Seqs) (scope scope' : Ipv4Addr) (key key' : LsaKey) (v : Int32) :
    nextSeq (seqs.insert (scope, key) v) scope' key' =
      if scope' = scope ∧ key' = key then v else nextSeq seqs scope' key' := by
  rw [nextSeq, getElem?_insert]
  by_cases h : scope' = scope ∧ key' = key
  · rw [if_pos h, if_pos (Prod.ext h.1 h.2)]
    rfl
  · rw [if_neg h, if_neg (fun he => h ⟨congrArg Prod.fst he, congrArg Prod.snd he⟩)]
    rfl

/-- What the database holds of an own LSA is older than the next instance of it. -/
def Fresh (lsdb : Lsdb) (seqs : Seqs) (scope : Ipv4Addr) (k : LsaKey) : Prop :=
  ∀ l, lsdb.get k = some l → l.header.lsSeq < nextSeq seqs scope k

namespace Pass
variable {scope : Ipv4Addr} {p : Pass}

theorem get_originate {lsa : Lsa} (h : Fresh p.lsdb p.seqs scope lsa.key) :
    (p.originate scope lsa).lsdb.get lsa.key = some (lsa.withSeq (nextSeq p.seqs scope lsa.key)).filled := by
  simp only [originate, Lsdb.get_install, Lsa.key_withSeq]
  rw [if_pos]
  refine ⟨trivial, ?_⟩
  intro l hl
  refine LsaHeader.compareRecency_of_lsSeq_lt ?_
  rw [Lsa.filled_lsSeq]
  exact h l hl

theorem get_originate_of_ne {lsa : Lsa} {k : LsaKey} (h : k ≠ lsa.key) :
    (p.originate scope lsa).lsdb.get k = p.lsdb.get k := by
  show (p.lsdb.install (lsa.withSeq (nextSeq p.seqs scope lsa.key))).1.get k = p.lsdb.get k
  rw [Lsdb.get_install, if_neg (fun hk => h hk.1)]

theorem nextSeq_originate (lsa : Lsa) (scope' : Ipv4Addr) (k : LsaKey) :
    nextSeq (p.originate scope lsa).seqs scope' k =
      if scope' = scope ∧ k = lsa.key then nextSeq p.seqs scope lsa.key + 1 else nextSeq p.seqs scope' k := by
  simp only [originate, Lsa.key_withSeq, nextSeq_insert]

/-- Only the LSAs originated change, and their sequence numbers. -/
structure Unchanged (scope : Ipv4Addr) (K : LsaKey → Prop) (p q : Pass) : Prop where
  get : ∀ k, ¬ K k → q.lsdb.get k = p.lsdb.get k
  nextSeq : ∀ scope' k, ¬ (scope' = scope ∧ K k) → nextSeq q.seqs scope' k = nextSeq p.seqs scope' k

theorem unchanged_originate {K : LsaKey → Prop} {lsa : Lsa} (h : K lsa.key) :
    Unchanged scope K p (p.originate scope lsa) where
  get k hk := by
    refine get_originate_of_ne ?_
    intro he
    exact hk (he ▸ h)
  nextSeq scope' k hk := by
    rw [nextSeq_originate, if_neg]
    intro he
    exact hk ⟨he.1, he.2 ▸ h⟩

theorem Unchanged.refl (K : LsaKey → Prop) (p : Pass) : Unchanged scope K p p := ⟨fun _ _ => rfl, fun _ _ _ => rfl⟩

theorem Unchanged.trans {K : LsaKey → Prop} {p q r : Pass} (h : Unchanged scope K p q) (h' : Unchanged scope K q r) :
    Unchanged scope K p r where
  get k hk := (h'.get k hk).trans (h.get k hk)
  nextSeq scope' k hk := (h'.nextSeq scope' k hk).trans (h.nextSeq scope' k hk)

theorem unchanged_flush {K : LsaKey → Prop} {key : LsaKey} (h : K key) : Unchanged scope K p (p.flush scope key) := by
  unfold flush
  cases hget : p.lsdb.get key with
  | none => exact .refl K p
  | some l =>
    refine unchanged_originate ?_
    rw [Lsa.key_withAge, Lsdb.get_key hget]
    exact h

theorem unchanged_foldl {α : Type} {K : LsaKey → Prop} {f : Pass → α → Pass} (l : List α)
    (h : ∀ a ∈ l, ∀ p, Unchanged scope K p (f p a)) (p : Pass) : Unchanged scope K p (l.foldl f p) := by
  induction l generalizing p with
  | nil => exact .refl K p
  | cons a l ih =>
    exact (h a List.mem_cons_self p).trans (ih (fun b hb => h b (List.mem_cons_of_mem a hb)) _)

theorem unchanged_run {K : LsaKey → Prop} {lsas : List Lsa} {retired : List LsaKey} (hlsas : ∀ l ∈ lsas, K l.key)
    (hretired : ∀ k ∈ retired, K k) (p : Pass) : Unchanged scope K p (p.run scope lsas retired) :=
  (unchanged_foldl lsas (fun l hl _ => unchanged_originate (hlsas l hl)) p).trans
    (unchanged_foldl retired (fun k hk _ => unchanged_flush (hretired k hk)) _)

theorem flushAll_spec {retired : List LsaKey} (hnodup : retired.Nodup) {k : LsaKey} (hmem : k ∈ retired) {l : Lsa}
    (hget : p.lsdb.get k = some l) (hfresh : Fresh p.lsdb p.seqs scope k) :
    (retired.foldl (flush scope) p).lsdb.get k =
        some ((l.withAge maxAge).withSeq (nextSeq p.seqs scope k)).filled ∧
      nextSeq (retired.foldl (flush scope) p).seqs scope k = nextSeq p.seqs scope k + 1 := by
  induction retired generalizing p with
  | nil => cases hmem
  | cons a ks ih =>
    rw [List.nodup_cons] at hnodup
    rw [List.foldl_cons]
    have hrest : Unchanged scope (fun k => k ∈ ks) (p.flush scope a) (ks.foldl (flush scope) (p.flush scope a)) :=
      unchanged_foldl ks (fun b hb _ => unchanged_flush hb) _
    rcases List.mem_cons.mp hmem with rfl | hmem
    · have hflush : p.flush scope k = p.originate scope (l.withAge maxAge) := by simp only [flush, hget]
      have hkey : (l.withAge maxAge).key = k := (l.key_withAge maxAge).trans (Lsdb.get_key hget)
      rw [hrest.get _ hnodup.1, hrest.nextSeq _ _ (fun h => hnodup.1 h.2), hflush]
      have hgot := @get_originate scope p (l.withAge maxAge) (hkey.symm ▸ hfresh)
      rw [hkey] at hgot
      rw [hgot, nextSeq_originate, hkey]
      exact ⟨rfl, if_pos ⟨rfl, rfl⟩⟩
    · have hne : k ≠ a := fun he => hnodup.1 (he ▸ hmem)
      have hfirst : Unchanged scope (· = a) p (p.flush scope a) := unchanged_flush rfl
      have hnext := hfirst.nextSeq scope k (fun h => hne h.2)
      have hfresh' : Fresh (p.flush scope a).lsdb (p.flush scope a).seqs scope k := by
        intro m hm
        rw [hfirst.get k hne] at hm
        rw [hnext]
        exact hfresh m hm
      have hspec := ih hnodup.2 hmem (by rw [hfirst.get k hne, hget]) hfresh'
      rwa [hnext] at hspec

end Pass

theorem mem_keySet {lsas : List Lsa} {k : LsaKey} : k ∈ keySet lsas ↔ ∃ l ∈ lsas, l.key = k := by
  rw [keySet, List.mem_dedup, List.mem_map]

theorem toInt_add_one {v : Int32} (h : v.toInt + 1 < 2 ^ 31) : (v + 1).toInt = v.toInt + 1 := by
  have hlow := v.le_toInt
  rw [Int32.toInt_add]
  have hone : (1 : Int32).toInt = 1 := rfl
  rw [hone, Int.bmod_eq_of_le]
  · omega
  · omega

theorem lt_add_one {v : Int32} (h : v.toInt + 1 < 2 ^ 31) : v < v + 1 := by
  rw [Int32.lt_iff_toInt_lt, toInt_add_one h]
  omega

/-- Where the database holds nothing there is nothing to flush. -/
theorem Pass.flushAll_none {scope : Ipv4Addr} {k : LsaKey} (retired : List LsaKey) {p : Pass}
    (h : p.lsdb.get k = none) : (retired.foldl (flush scope) p).lsdb.get k = none ∧
      Ospf.nextSeq (retired.foldl (flush scope) p).seqs scope k = Ospf.nextSeq p.seqs scope k := by
  induction retired generalizing p with
  | nil => exact ⟨h, rfl⟩
  | cons a ks ih =>
    rw [List.foldl_cons]
    by_cases hka : k = a
    · subst hka
      have hflush : p.flush scope k = p := by simp only [flush, h]
      rw [hflush]
      exact ih h
    · have hfirst : Unchanged scope (· = a) p (p.flush scope a) := unchanged_flush rfl
      obtain ⟨hnone, heq⟩ := ih ((hfirst.get k hka).trans h)
      exact ⟨hnone, heq.trans (hfirst.nextSeq scope k (fun he => hka he.2))⟩

/-! ### The rest of the state -/

/-- Whether the router is an area border router is a matter of its links. -/
theorem isAbr_congr {s t : Ospf} (h : t.ifaces.map Iface.toLink = s.ifaces.map Iface.toLink) : t.isAbr = s.isAbr := by
  have hareas : t.ifaces.map (fun i => i.area) = s.ifaces.map (fun i => i.area) := by
    have hmap := congrArg (List.map Link.area) h
    rwa [List.map_map, List.map_map] at hmap
  have hdef : ∀ u : Ospf, u.isAbr =
      match u.ifaces.map (fun i => i.area) with
      | [] => false
      | a :: as => as.any fun b => b ≠ a := by
    intro u
    unfold Ospf.isAbr
    cases u.ifaces with
    | nil => rfl
    | cons i is =>
      rw [List.map_cons]
      dsimp only
      rw [List.any_map]
      rfl
  rw [hdef t, hdef s, hareas]

/-- Only the neighbours differ, their elections, and what was sent. -/
structure SameCore (s t : Ospf) : Prop where
  cfg : t.cfg = s.cfg
  links : t.ifaces.map Iface.toLink = s.ifaces.map Iface.toLink
  areas : t.areas = s.areas
  externalLsdb : t.externalLsdb = s.externalLsdb
  externals : t.externals = s.externals
  originatedExternals : t.originatedExternals = s.originatedExternals
  originatedTranslated : t.originatedTranslated = s.originatedTranslated
  lsaSeqs : t.lsaSeqs = s.lsaSeqs

namespace SameCore

theorem refl (s : Ospf) : SameCore s s := ⟨rfl, rfl, rfl, rfl, rfl, rfl, rfl, rfl⟩

theorem trans {s t u : Ospf} (h : SameCore s t) (h' : SameCore t u) : SameCore s u where
  cfg := h'.cfg.trans h.cfg
  links := h'.links.trans h.links
  areas := h'.areas.trans h.areas
  externalLsdb := h'.externalLsdb.trans h.externalLsdb
  externals := h'.externals.trans h.externals
  originatedExternals := h'.originatedExternals.trans h.originatedExternals
  originatedTranslated := h'.originatedTranslated.trans h.originatedTranslated
  lsaSeqs := h'.lsaSeqs.trans h.lsaSeqs

theorem foldl {α : Type} {f : Ospf → α → Ospf} (l : List α) (h : ∀ a ∈ l, ∀ s, SameCore s (f s a)) (s : Ospf) :
    SameCore s (l.foldl f s) := by
  induction l generalizing s with
  | nil => exact refl s
  | cons a l ih => exact (h a List.mem_cons_self s).trans (ih (fun b hb => h b (List.mem_cons_of_mem a hb)) _)

theorem of_ifaces {s : Ospf} {ifaces : List Iface} (h : ifaces.map Iface.toLink = s.ifaces.map Iface.toLink) :
    SameCore s { s with ifaces } := ⟨rfl, h, rfl, rfl, rfl, rfl, rfl, rfl⟩

theorem floodOn (s : Ospf) (on : Iface → Bool) (lsa : Lsa) (except : Ipv4Addr) :
    SameCore s (s.floodOn on lsa except) := by
  refine ⟨rfl, ?_, rfl, rfl, rfl, rfl, rfl, rfl⟩
  simp only [Ospf.floodOn, List.map_map]
  refine List.map_congr_left ?_
  intro i _
  simp only [Function.comp_apply]
  split <;> rfl

theorem send (s : Ospf) (i : Iface) (dst : Ipv4Addr) (body : Body) : SameCore s (s.send i dst body) :=
  ⟨rfl, rfl, rfl, rfl, rfl, rfl, rfl, rfl⟩

theorem modifyIface (s : Ospf) (idx : ℕ) {f : Iface → Iface} (hf : ∀ i, (f i).toLink = i.toLink) :
    SameCore s (s.modifyIface idx f) := by
  refine of_ifaces ?_
  apply List.ext_getElem?
  intro n
  simp only [List.getElem?_map, List.getElem?_modify]
  cases s.ifaces[n]? with
  | none => rfl
  | some i =>
    simp only [Option.map_some]
    split_ifs
    · exact congrArg some (hf i)
    · rfl

theorem modifyNeighbor (s : Ospf) (idx : ℕ) (nbrId : Ipv4Addr) (f : OspfNeighbor → OspfNeighbor) :
    SameCore s (s.modifyNeighbor idx nbrId f) :=
  modifyIface s idx fun _ => rfl

theorem isAbr {s t : Ospf} (h : SameCore s t) : t.isAbr = s.isAbr := isAbr_congr h.links

end SameCore

section Ospf
variable (s : Ospf)

/-- A pass over the database of an area, before anything is flooded. -/
theorem sameCore_areaPass (area : Ipv4Addr) (lsas : List Lsa) (retired : List LsaKey) (note : Area → Area) :
    SameCore
      { s with
        lsaSeqs := (Pass.run area ⟨s.areaLsdb area, s.lsaSeqs, []⟩ lsas retired).seqs
        areas := s.areas.modify area fun a =>
          note { a with lsdb := (Pass.run area ⟨s.areaLsdb area, s.lsaSeqs, []⟩ lsas retired).lsdb } }
      (s.areaPass area lsas retired note) :=
  SameCore.foldl _ (fun lsa _ s => SameCore.floodOn s _ lsa 0) _

theorem sameCore_externalPass (lsas : List Lsa) (retired : List LsaKey) (note : Ospf → Ospf) :
    SameCore
      (note { s with
        lsaSeqs := (Pass.run asScope ⟨s.externalLsdb, s.lsaSeqs, []⟩ lsas retired).seqs
        externalLsdb := (Pass.run asScope ⟨s.externalLsdb, s.lsaSeqs, []⟩ lsas retired).lsdb })
      (s.externalPass lsas retired note) :=
  SameCore.foldl _ (fun lsa _ s => SameCore.floodOn s _ lsa 0) _

end Ospf

end Ospf
end Wren.Daemon
