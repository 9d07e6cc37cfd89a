import Wren.Core.Route

/-! The routing information base: all candidates, and the change of best route that each announcement or withdrawal causes.
Then forwarding planes, and the in-memory plane that a RIB keeps in step with its best routes. -/

namespace Wren.Core
open Std OrdMap

inductive FibChange where
  | install (route : Route)
  | remove (table : UInt32) (pfx : Prefix)
deriving DecidableEq

namespace FibChange

def fibKey : FibChange → FibKey
  | install route => route.fibKey
  | remove table pfx => (table, pfx)

/-- The best route the change asks the forwarding plane to hold. -/
def target : FibChange → Option Route
  | install route => some route
  | remove _ _ => none

end FibChange

structure RibEntry where
  candidates : List Route
deriving DecidableEq

namespace RibEntry

/-- Equal candidates keep insertion order. -/
def best (e : RibEntry) : Option Route :=
  e.candidates.foldl (fun best c =>
    match best with
    | some b => if !c.isBetterThan b then some b else some c
    | none => some c) none

/-- Replace the candidate with the same `(protocol, source)`, or append. -/
def replace (e : RibEntry) (route : Route) : RibEntry :=
  match e.candidates.findIdx? (fun c => c.key = route.key) with
  | some i => ⟨e.candidates.set i route⟩
  | none => ⟨e.candidates ++ [route]⟩

private theorem foldl_best_mem (l : List Route) (b : Route) :
    ∃ r ∈ b :: l, l.foldl (fun best c =>
      match best with
      | some b => if !c.isBetterThan b then some b else some c
      | none => some c) (some b) = some r := by
  induction l generalizing b with
  | nil => exact ⟨b, by simp, rfl⟩
  | cons c l ih =>
    simp only [List.foldl_cons]
    split_ifs
    · obtain ⟨r, hr, h⟩ := ih b
      exact ⟨r, by simp only [List.mem_cons] at hr ⊢; tauto, h⟩
    · obtain ⟨r, hr, h⟩ := ih c
      exact ⟨r, List.mem_cons_of_mem _ hr, h⟩

theorem best_mem {e : RibEntry} {r : Route} (h : e.best = some r) : r ∈ e.candidates := by
  obtain ⟨l⟩ := e
  cases l with
  | nil => simp [best] at h
  | cons c l =>
    obtain ⟨r', hr', h'⟩ := foldl_best_mem l c
    have : some r' = some r := h'.symm.trans h
    exact Option.some.inj this ▸ hr'

@[simp] theorem best_eq_none_iff (e : RibEntry) : e.best = none ↔ e.candidates = [] := by
  obtain ⟨l⟩ := e
  cases l with
  | nil => simp [best]
  | cons c l =>
    obtain ⟨r', -, h'⟩ := foldl_best_mem l c
    have h : best ⟨c :: l⟩ = some r' := h'
    simp [h]

theorem mem_replace {e : RibEntry} {route c : Route} (h : c ∈ (e.replace route).candidates) :
    c = route ∨ c ∈ e.candidates := by
  unfold replace at h
  split at h
  · exact (List.mem_or_eq_of_mem_set h).symm
  · simpa [or_comm] using h

theorem replace_ne_nil (e : RibEntry) (route : Route) : (e.replace route).candidates ≠ [] := by
  unfold replace
  split
  · rename_i i hi
    have hlt := (List.findIdx?_eq_some_iff_getElem.mp hi).1
    simp only [ne_eq, List.set_eq_nil_iff]
    exact List.ne_nil_of_length_pos (by omega)
  · simp

theorem nodup_replace {e : RibEntry} (route : Route) (he : (e.candidates.map Route.key).Nodup) :
    ((e.replace route).candidates.map Route.key).Nodup := by
  unfold replace
  split
  · rename_i i hi
    obtain ⟨hlt, hkey, -⟩ := List.findIdx?_eq_some_iff_getElem.mp hi
    have hset : (e.candidates.set i route).map Route.key = e.candidates.map Route.key := by
      rw [List.map_set, ← of_decide_eq_true hkey, ← List.getElem_map Route.key, List.set_getElem_self]
      simpa using hlt
    rwa [hset]
  · rename_i hnone
    rw [List.map_append, List.nodup_append]
    refine ⟨he, by simp, ?_⟩
    intro a ha b hb
    obtain ⟨c, hc, rfl⟩ := List.mem_map.mp ha
    have hne := List.findIdx?_eq_none_iff.mp hnone c hc
    simp only [List.map_cons, List.map_nil, List.mem_singleton] at hb
    simpa [hb] using hne

end RibEntry

/-- All protocols' candidates, by table and destination. -/
structure Rib where
  entries : BTreeMap FibKey RibEntry

namespace Rib

def new : Rib := ⟨∅⟩

/-- The change that a step from best route `before` to best route `after` implies. -/
def diff (table : UInt32) (pfx : Prefix) (before after : Option Route) : Option FibChange :=
  match after with
  | some best => if before = some best then none else some (.install best)
  | none => before.map fun _ => .remove table pfx

def update (rib : Rib) (route : Route) : Rib × Option FibChange :=
  let entry := (rib.entries[route.fibKey]?).getD ⟨[]⟩
  let before := entry.best
  let entry := entry.replace route
  let after := entry.best
  (⟨rib.entries.insert route.fibKey entry⟩, diff route.table route.pfx before after)

def withdraw (rib : Rib) (table : UInt32) (pfx : Prefix) (protocol : Protocol) (source : UInt64) :
    Rib × Option FibChange :=
  match rib.entries[(table, pfx)]? with
  | none => (rib, none)
  | some entry =>
    let before := entry.best
    let entry : RibEntry := ⟨entry.candidates.filter fun c => c.key ≠ (protocol, source)⟩
    let after := entry.best
    (⟨if entry.candidates = [] then rib.entries.erase (table, pfx)
      else rib.entries.insert (table, pfx) entry⟩, diff table pfx before after)

def bestIn (rib : Rib) (k : FibKey) : Option Route := (rib.entries[k]?).bind RibEntry.best

/-- The best route of the default VRF. -/
def best (rib : Rib) (pfx : Prefix) : Option Route := rib.bestIn (rtTableMain, pfx)

/-- Best routes in key order. -/
def iterBest (rib : Rib) : List Route := rib.entries.toList.filterMap fun e => e.2.best

theorem bestIn_new (k : FibKey) : new.bestIn k = none := by simp [new, bestIn]

theorem bestIn_update_self (rib : Rib) (route : Route) :
    (rib.update route).1.bestIn route.fibKey =
      (((rib.entries[route.fibKey]?).getD ⟨[]⟩).replace route).best := by
  simp [update, bestIn]

theorem bestIn_update_of_ne (rib : Rib) (route : Route) {k : FibKey} (hk : k ≠ route.fibKey) :
    (rib.update route).1.bestIn k = rib.bestIn k := by
  simp [update, bestIn, getElem?_insert, hk]

theorem bestIn_withdraw_of_ne (rib : Rib) (table : UInt32) (pfx : Prefix) (protocol : Protocol)
    (source : UInt64) {k : FibKey} (hk : k ≠ (table, pfx)) :
    (rib.withdraw table pfx protocol source).1.bestIn k = rib.bestIn k := by
  unfold withdraw
  split
  · rfl
  · dsimp only [bestIn]
    split_ifs <;> simp [getElem?_insert, getElem?_erase, hk]

/-- `update` reports the difference between the best routes before and after it. -/
theorem update_change (rib : Rib) (route : Route) :
    (rib.update route).2 = diff route.table route.pfx (rib.bestIn route.fibKey)
      ((rib.update route).1.bestIn route.fibKey) := by
  rw [bestIn_update_self]
  have hbefore : ((rib.entries[route.fibKey]?).getD ⟨[]⟩).best = rib.bestIn route.fibKey := by
    unfold bestIn
    cases rib.entries[route.fibKey]? with
    | none => rfl
    | some e => rfl
  rw [← hbefore]
  rfl

theorem withdraw_change (rib : Rib) (table : UInt32) (pfx : Prefix) (protocol : Protocol)
    (source : UInt64) :
    (rib.withdraw table pfx protocol source).2 = diff table pfx (rib.bestIn (table, pfx))
      ((rib.withdraw table pfx protocol source).1.bestIn (table, pfx)) := by
  unfold withdraw
  split
  · rename_i h
    simp [bestIn, h, diff]
  · rename_i e h
    dsimp only [bestIn]
    rw [h]
    split_ifs with hnil
    · rw [(RibEntry.best_eq_none_iff _).mpr hnil]
      simp
    · simp

/-- One call on the RIB. -/
inductive Op where
  | update (route : Route)
  | withdraw (table : UInt32) (pfx : Prefix) (protocol : Protocol) (source : UInt64)

def Op.fibKey : Op → FibKey
  | .update route => route.fibKey
  | .withdraw table pfx _ _ => (table, pfx)

def apply (rib : Rib) : Op → Rib × Option FibChange
  | .update route => rib.update route
  | .withdraw table pfx protocol source => rib.withdraw table pfx protocol source

theorem bestIn_apply_of_ne (rib : Rib) (op : Op) {k : FibKey} (hk : k ≠ op.fibKey) :
    (rib.apply op).1.bestIn k = rib.bestIn k := by
  cases op with
  | update route => exact rib.bestIn_update_of_ne route hk
  | withdraw table pfx protocol source => exact rib.bestIn_withdraw_of_ne table pfx protocol source hk

theorem apply_change (rib : Rib) (op : Op) :
    (rib.apply op).2 = diff op.fibKey.1 op.fibKey.2 (rib.bestIn op.fibKey)
      ((rib.apply op).1.bestIn op.fibKey) := by
  cases op with
  | update route => exact rib.update_change route
  | withdraw table pfx protocol source => exact rib.withdraw_change table pfx protocol source

/-- `c` is one of the candidates of `k`. -/
def Holds (rib : Rib) (k : FibKey) (c : Route) : Prop :=
  ∃ e, rib.entries[k]? = some e ∧ c ∈ e.candidates

theorem holds_of_bestIn {rib : Rib} {k : FibKey} {r : Route} (h : rib.bestIn k = some r) :
    rib.Holds k r := by
  obtain ⟨e, he, hbest⟩ := Option.bind_eq_some_iff.mp h
  exact ⟨e, he, RibEntry.best_mem hbest⟩

/-- What an entry of the updated RIB is made of. -/
theorem entries_update {rib : Rib} {route : Route} {k : FibKey} {e : RibEntry}
    (h : (rib.update route).1.entries[k]? = some e) :
    (k = route.fibKey ∧ e = ((rib.entries[k]?).getD ⟨[]⟩).replace route) ∨
      rib.entries[k]? = some e := by
  simp only [update, getElem?_insert] at h
  split_ifs at h with hkey
  · subst hkey
    exact Or.inl ⟨rfl, (Option.some.inj h).symm⟩
  · exact Or.inr h

theorem entries_withdraw {rib : Rib} {table : UInt32} {pfx : Prefix} {protocol : Protocol}
    {source : UInt64} {k : FibKey} {e : RibEntry}
    (h : (rib.withdraw table pfx protocol source).1.entries[k]? = some e) :
    rib.entries[k]? = some e ∨ (e.candidates ≠ [] ∧
      ∃ old, rib.entries[k]? = some old ∧ e.candidates.Sublist old.candidates) := by
  unfold withdraw at h
  split at h
  · exact Or.inl h
  · rename_i old hold
    dsimp only at h
    split_ifs at h with hnil
    · rw [getElem?_erase] at h
      split_ifs at h
      exact Or.inl h
    · rw [getElem?_insert] at h
      split_ifs at h with hkey
      · cases Option.some.inj h
        exact Or.inr ⟨hnil, old, hkey ▸ hold, List.filter_sublist⟩
      · exact Or.inl h

theorem holds_apply {rib : Rib} {op : Op} {k : FibKey} {c : Route}
    (h : (rib.apply op).1.Holds k c) : (op = .update c ∧ k = c.fibKey) ∨ rib.Holds k c := by
  obtain ⟨e, he, hc⟩ := h
  cases op with
  | update route =>
    rcases entries_update he with ⟨rfl, rfl⟩ | hold
    · rcases RibEntry.mem_replace hc with rfl | hc
      · exact Or.inl ⟨rfl, rfl⟩
      · cases hold : rib.entries[route.fibKey]? with
        | none => simp [hold] at hc
        | some old => exact Or.inr ⟨old, hold, by simpa [hold] using hc⟩
    · exact Or.inr ⟨e, hold, hc⟩
  | withdraw table pfx protocol source =>
    rcases entries_withdraw he with hold | ⟨-, old, hold, hsub⟩
    · exact Or.inr ⟨e, hold, hc⟩
    · exact Or.inr ⟨old, hold, hsub.subset hc⟩

/-- What the private `entries` map always satisfies: an entry holds routes of its own key,
at least one of them, and at most one for each `(protocol, source)`. -/
structure WellFormed (rib : Rib) : Prop where
  keyed : ∀ (k : FibKey) (c : Route), rib.Holds k c → c.fibKey = k
  nonempty : ∀ (k : FibKey) (e : RibEntry), rib.entries[k]? = some e → e.candidates ≠ []
  nodup : ∀ (k : FibKey) (e : RibEntry), rib.entries[k]? = some e →
    (e.candidates.map Route.key).Nodup

theorem wellFormed_new : new.WellFormed := by
  have hnone : ∀ (k : FibKey) (e : RibEntry), new.entries[k]? ≠ some e := by simp [new]
  exact ⟨fun k c ⟨e, he, _⟩ => absurd he (hnone k e), fun k e he => absurd he (hnone k e),
    fun k e he => absurd he (hnone k e)⟩

theorem wellFormed_apply {rib : Rib} (h : rib.WellFormed) (op : Op) :
    (rib.apply op).1.WellFormed := by
  constructor
  · intro k c hc
    rcases holds_apply hc with ⟨-, rfl⟩ | hold
    · rfl
    · exact h.keyed k c hold
  · intro k e he
    cases op with
    | update route =>
      rcases entries_update he with ⟨-, rfl⟩ | hold
      · exact RibEntry.replace_ne_nil _ route
      · exact h.nonempty k e hold
    | withdraw table pfx protocol source =>
      rcases entries_withdraw he with hold | ⟨hne, -⟩
      · exact h.nonempty k e hold
      · exact hne
  · intro k e he
    cases op with
    | update route =>
      rcases entries_update he with ⟨-, rfl⟩ | hold
      · apply RibEntry.nodup_replace
        cases hold : rib.entries[k]? with
        | none => simp
        | some old => exact h.nodup k old hold
      · exact h.nodup k e hold
    | withdraw table pfx protocol source =>
      rcases entries_withdraw he with hold | ⟨-, old, hold, hsub⟩
      · exact h.nodup k e hold
      · exact (h.nodup k old hold).sublist (hsub.map Route.key)

theorem WellFormed.fibKey_of_bestIn {rib : Rib} (h : rib.WellFormed) {k : FibKey} {r : Route}
    (hr : rib.bestIn k = some r) : r.fibKey = k := h.keyed k r (holds_of_bestIn hr)

theorem WellFormed.map_fibKey_iterBest {rib : Rib} (h : rib.WellFormed) :
    rib.iterBest.map Route.fibKey = rib.entries.toList.map Prod.fst := by
  have hbest : ∀ e ∈ rib.entries.toList, (e.2.best).map Route.fibKey = some e.1 := by
    intro e he
    have hget := ExtTreeMap.mem_toList_iff_getElem?_eq_some.mp he
    cases hr : e.2.best with
    | none => exact absurd (e.2.best_eq_none_iff.mp hr) (h.nonempty e.1 e.2 hget)
    | some r =>
      have hkey := h.keyed e.1 r ⟨e.2, hget, RibEntry.best_mem hr⟩
      rw [Option.map_some, hkey]
  unfold iterBest
  rw [List.map_filterMap, List.filterMap_congr hbest]
  exact congrFun List.filterMap_eq_map _

theorem WellFormed.mem_iterBest {rib : Rib} (h : rib.WellFormed) {r : Route} :
    r ∈ rib.iterBest ↔ rib.bestIn r.fibKey = some r := by
  unfold iterBest
  rw [List.mem_filterMap]
  constructor
  · intro hmem
    obtain ⟨e, he, hbest⟩ := hmem
    have hget := ExtTreeMap.mem_toList_iff_getElem?_eq_some.mp he
    rw [h.keyed e.1 r ⟨e.2, hget, RibEntry.best_mem hbest⟩, bestIn, hget]
    exact hbest
  · intro hr
    obtain ⟨e, he, hbest⟩ := Option.bind_eq_some_iff.mp hr
    exact ⟨(r.fibKey, e), ExtTreeMap.mem_toList_iff_getElem?_eq_some.mpr he, hbest⟩

/-- A reported change is about the key that was touched and carries its new best route. -/
theorem WellFormed.apply_some {rib : Rib} (h : rib.WellFormed) {op : Op} {c : FibChange}
    (hc : (rib.apply op).2 = some c) :
    c.fibKey = op.fibKey ∧ c.target = (rib.apply op).1.bestIn op.fibKey := by
  rw [apply_change] at hc
  unfold diff at hc
  split at hc
  · rename_i best hbest
    split_ifs at hc
    cases Option.some.inj hc
    exact ⟨(wellFormed_apply h op).fibKey_of_bestIn hbest, hbest.symm⟩
  · rename_i hnone
    obtain ⟨b, -, rfl⟩ := Option.map_eq_some_iff.mp hc
    exact ⟨rfl, hnone.symm⟩

/-- No reported change means that the best route is the same as before. -/
theorem apply_none {rib : Rib} {op : Op} (hc : (rib.apply op).2 = none) :
    (rib.apply op).1.bestIn op.fibKey = rib.bestIn op.fibKey := by
  rw [apply_change] at hc
  unfold diff at hc
  split at hc
  · rename_i best hbest
    split_ifs at hc with hsame
    rw [hbest, hsame]
  · rename_i hnone
    rw [hnone, Option.map_eq_none_iff.mp hc]

/-- The states of a RIB: what `update` and `withdraw` calls make of an empty one. -/
def Reachable (rib : Rib) : Prop := ∃ ops : List Op, rib = ops.foldl (fun r op => (r.apply op).1) new

theorem Reachable.wellFormed {rib : Rib} (h : rib.Reachable) : rib.WellFormed := by
  obtain ⟨ops, rfl⟩ := h
  exact List.foldlRecOn ops _ wellFormed_new fun _ hr op _ => wellFormed_apply hr op

end Rib

/-! ### Forwarding planes -/

structure FibError where
  message : String

/-- A forwarding-plane backend. -/
class Fib (φ : Type) where
  apply : φ → FibChange → φ × Except FibError Unit

structure MemoryFib where
  installed : BTreeMap FibKey Route

namespace MemoryFib

def empty : MemoryFib := ⟨∅⟩

def apply (fib : MemoryFib) : FibChange → MemoryFib
  | .install r => ⟨fib.installed.insert r.fibKey r⟩
  | .remove table pfx => ⟨fib.installed.erase (table, pfx)⟩

instance : Fib MemoryFib where
  apply fib change := (fib.apply change, .ok ())

theorem ext_installed {a b : MemoryFib} (h : ∀ k : FibKey, a.installed[k]? = b.installed[k]?) :
    a = b := by
  obtain ⟨a⟩ := a
  obtain ⟨b⟩ := b
  exact congrArg MemoryFib.mk (ExtTreeMap.ext_getElem? fun k => h k)

@[simp] theorem installed_empty (k : FibKey) : empty.installed[k]? = none := by simp [empty]

theorem installed_apply (fib : MemoryFib) (c : FibChange) (k : FibKey) :
    (fib.apply c).installed[k]? = if k = c.fibKey then c.target else fib.installed[k]? := by
  cases c with
  | install r => exact getElem?_insert _ _ _ _
  | remove table pfx => exact getElem?_erase _ _ _

end MemoryFib

/-- A memory plane some of whose writes fail: `fails n` decides the `n`th call. A failed call
changes nothing. -/
structure FlakyFib where
  inner : MemoryFib
  calls : ℕ
  fails : ℕ → Bool

namespace FlakyFib

instance : Fib FlakyFib where
  apply fib change :=
    if fib.fails fib.calls then
      ({ fib with calls := fib.calls + 1 }, .error ⟨"transient ENOBUFS"⟩)
    else ({ fib with inner := fib.inner.apply change, calls := fib.calls + 1 }, .ok ())

def new (fails : ℕ → Bool) : FlakyFib := ⟨.empty, 0, fails⟩

end FlakyFib

/-- Backends with a readable plane, on which a failed write has no effect. -/
class TransactionalFib (φ : Type) extends Fib φ where
  plane : φ → MemoryFib
  plane_of_ok : ∀ fib c, (apply fib c).2.isOk = true → plane (apply fib c).1 = (plane fib).apply c
  plane_of_error : ∀ fib c, (apply fib c).2.isOk = false → plane (apply fib c).1 = plane fib

instance : TransactionalFib MemoryFib where
  plane := id
  plane_of_ok _ _ _ := rfl
  plane_of_error _ _ h := by cases h

instance : TransactionalFib FlakyFib where
  plane fib := fib.inner
  plane_of_ok fib c h := by
    simp only [Fib.apply] at h ⊢
    split_ifs at h ⊢
    · cases h
    · rfl
  plane_of_error fib c h := by
    simp only [Fib.apply] at h ⊢
    split_ifs at h ⊢
    · rfl
    · cases h

/-- One RIB call, its change passed on to a memory plane. -/
def sync (s : Rib × MemoryFib) (op : Rib.Op) : Rib × MemoryFib :=
  match s.1.apply op with
  | (rib, some change) => (rib, s.2.apply change)
  | (rib, none) => (rib, s.2)

theorem sync_fst (s : Rib × MemoryFib) (op : Rib.Op) : (sync s op).1 = (s.1.apply op).1 := by
  unfold sync
  split
  · rename_i rib change heq
    rw [heq]
  · rename_i rib heq
    rw [heq]

/-- The plane holds each key's best route and nothing else. -/
structure InSync (s : Rib × MemoryFib) : Prop where
  wellFormed : s.1.WellFormed
  mirror : ∀ k : FibKey, s.2.installed[k]? = s.1.bestIn k

theorem inSync_new : InSync (Rib.new, MemoryFib.empty) :=
  ⟨Rib.wellFormed_new, fun k => by rw [Rib.bestIn_new, MemoryFib.installed_empty]⟩

theorem inSync_sync {s : Rib × MemoryFib} (h : InSync s) (op : Rib.Op) : InSync (sync s op) := by
  have hwf := Rib.wellFormed_apply h.wellFormed op
  unfold sync
  split
  · rename_i rib change heq
    have hchange : (s.1.apply op).2 = some change := by rw [heq]
    have hrib : (s.1.apply op).1 = rib := by rw [heq]
    obtain ⟨hkey, htarget⟩ := h.wellFormed.apply_some hchange
    rw [hrib] at hwf htarget
    refine ⟨hwf, fun k => ?_⟩
    rw [MemoryFib.installed_apply, hkey]
    by_cases hk : k = op.fibKey
    · rw [if_pos hk, htarget, hk]
    · rw [if_neg hk, h.mirror, ← hrib, Rib.bestIn_apply_of_ne _ _ hk]
  · rename_i rib heq
    have hchange : (s.1.apply op).2 = none := by rw [heq]
    have hrib : (s.1.apply op).1 = rib := by rw [heq]
    rw [hrib] at hwf
    refine ⟨hwf, fun k => ?_⟩
    rw [h.mirror, ← hrib]
    by_cases hk : k = op.fibKey
    · rw [hk, Rib.apply_none hchange]
    · rw [Rib.bestIn_apply_of_ne _ _ hk]

theorem inSync_foldl (ops : List Rib.Op) : InSync (ops.foldl sync (Rib.new, MemoryFib.empty)) :=
  List.foldlRecOn ops sync inSync_new fun _ hs op _ => inSync_sync hs op

/-- After any calls the plane equals the best routes, no entry is empty, and no entry holds
two candidates of one `(protocol, source)`. -/
theorem memoryFib_mirrors_rib (ops : List Rib.Op) :
    let s := ops.foldl sync (Rib.new, MemoryFib.empty)
    (∀ k : FibKey, s.2.installed[k]? = s.1.bestIn k) ∧
      ∀ (k : FibKey) (e : RibEntry), s.1.entries[k]? = some e →
        e.candidates ≠ [] ∧ (e.candidates.map Route.key).Nodup := by
  have h := inSync_foldl ops
  exact ⟨h.mirror, fun k e he => ⟨h.wellFormed.nonempty k e he, h.wellFormed.nodup k e he⟩⟩

end Wren.Core
