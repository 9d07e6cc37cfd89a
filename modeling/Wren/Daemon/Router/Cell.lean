import Wren.Daemon.Router.Changes

/-! The plane as independent cells, one for each key. `programFib` moves the cell of its change's
key and leaves every other one alone, so claims about the plane reduce to claims about a cell. -/

namespace Wren.Daemon
open Std OrdMap Wren.Core Wren.Filter

/-- One key's share of the plane: the forwarding entry, the record of what was programmed, and
whether the last write failed. -/
structure Cell where
  installed : Option Route
  exported : Option Route
  failed : Bool

namespace Cell

/-- Unprogram the key. A failed write leaves the entry in place and queues the key. -/
def remove (x : Cell) (ok : Bool) : Cell :=
  if ok then ⟨none, none, false⟩ else ⟨x.installed, none, true⟩

/-- What one change does to its cell; `ok` is the outcome of the write, if there is one. -/
def program (fibExport : Option Filter) (ok : Bool) (x : Cell) : FibChange → Cell
  | .install route =>
    if route.protocol = .connected then x
    else
      match applyExport fibExport route with
      | .accept r => if ok then ⟨some r, some r, false⟩ else { x with failed := true }
      | .reject => if x.exported.isSome then x.remove ok else x
  | .remove _ _ => if x.exported.isSome then x.remove ok else { x with failed := false }

theorem program_accept {fibExport : Option Filter} {route r : Route} (ok : Bool) (x : Cell)
    (hc : route.protocol ≠ .connected) (hr : applyExport fibExport route = .accept r) :
    x.program fibExport ok (.install route) =
      if ok then ⟨some r, some r, false⟩ else { x with failed := true } := by
  simp only [program, if_neg hc, hr]

theorem program_reject {fibExport : Option Filter} {route : Route} (ok : Bool) (x : Cell)
    (hc : route.protocol ≠ .connected) (hr : applyExport fibExport route = .reject) :
    x.program fibExport ok (.install route) = if x.exported.isSome then x.remove ok else x := by
  simp only [program, if_neg hc, hr]

end Cell

section
variable {φ : Type} [TransactionalFib φ]

def Plane.cell (s : Plane φ) (k : FibKey) : Cell :=
  ⟨(TransactionalFib.plane s.fib).installed[k]?, s.exported[k]?, k ∈ s.failed⟩

/-- Every write that `fib` is asked for next succeeds. -/
def NextWriteOk (fib : φ) : Prop := ∀ c, (Fib.apply fib c).2.isOk = true

theorem installed_apply_of_ne (fib : φ) {c : FibChange} {k : FibKey} (hk : k ≠ c.fibKey) :
    (TransactionalFib.plane (Fib.apply fib c).1).installed[k]? =
      (TransactionalFib.plane fib).installed[k]? := by
  cases hok : (Fib.apply fib c).2.isOk with
  | true => rw [TransactionalFib.plane_of_ok fib c hok, MemoryFib.installed_apply, if_neg hk]
  | false => rw [TransactionalFib.plane_of_error fib c hok]

theorem installed_apply_self (fib : φ) (c : FibChange) :
    (TransactionalFib.plane (Fib.apply fib c).1).installed[c.fibKey]? =
      if (Fib.apply fib c).2.isOk = true then c.target
      else (TransactionalFib.plane fib).installed[c.fibKey]? := by
  cases hok : (Fib.apply fib c).2.isOk with
  | true =>
    rw [TransactionalFib.plane_of_ok fib c hok, MemoryFib.installed_apply, if_pos rfl, if_pos rfl]
  | false => rw [TransactionalFib.plane_of_error fib c hok]; rfl

theorem removeFromFib_eq (s : Plane φ) (table : UInt32) (pfx : Prefix) :
    removeFromFib s table pfx =
      { s with
        fib := (Fib.apply s.fib (.remove table pfx)).1
        failed := if (Fib.apply s.fib (.remove table pfx)).2.isOk = true
          then s.failed.erase (table, pfx) else s.failed.insert (table, pfx) } := by
  unfold removeFromFib
  split
  · rename_i fib u heq
    simp [heq, Except.isOk, Except.toBool]
  · rename_i fib e heq
    simp [heq, Except.isOk, Except.toBool]

/-- The body shared by both removals: forget the route, unprogram it, tell the subscribers. -/
def unprogram (s : Plane φ) (k : FibKey) : Plane φ :=
  let s := removeFromFib { s with exported := s.exported.erase k } k.1 k.2
  { s with subscribers := fanout s.subscribers (.withdraw k.1 k.2) }

theorem cell_unprogram_of_ne (s : Plane φ) {k a : FibKey} (h : a ≠ k) :
    (unprogram s k).cell a = s.cell a := by
  have hplane := installed_apply_of_ne s.fib (c := .remove k.1 k.2) h
  simp only [unprogram, removeFromFib_eq, Plane.cell, hplane, getElem?_erase, if_neg h]
  split_ifs <;> simp [h.symm]

theorem cell_unprogram_self (s : Plane φ) (k : FibKey) :
    (unprogram s k).cell k = (s.cell k).remove (Fib.apply s.fib (.remove k.1 k.2)).2.isOk := by
  have hplane := installed_apply_self s.fib (.remove k.1 k.2)
  simp only [FibChange.fibKey, FibChange.target, Prod.mk.eta] at hplane
  simp only [unprogram, removeFromFib_eq, Plane.cell, hplane, getElem?_erase, Cell.remove]
  split_ifs <;> simp

theorem programFib_accept (fibExport : Option Filter) (s : Plane φ) {route r : Route}
    (hc : route.protocol ≠ .connected) (hr : applyExport fibExport route = .accept r) :
    programFib fibExport s (.install route) =
      if (Fib.apply s.fib (.install r)).2.isOk = true then
        { fib := (Fib.apply s.fib (.install r)).1
          exported := s.exported.insert r.fibKey r
          failed := s.failed.erase r.fibKey
          subscribers := fanout s.subscribers (.update r) }
      else { s with fib := (Fib.apply s.fib (.install r)).1, failed := s.failed.insert r.fibKey } := by
  simp only [programFib, if_neg hc, hr]
  split
  · rename_i fib u heq
    simp [heq, Except.isOk, Except.toBool]
  · rename_i fib e heq
    simp [heq, Except.isOk, Except.toBool]

theorem programFib_reject (fibExport : Option Filter) (s : Plane φ) {route : Route}
    (hc : route.protocol ≠ .connected) (hr : applyExport fibExport route = .reject) :
    programFib fibExport s (.install route) =
      if (s.cell route.fibKey).exported.isSome = true then unprogram s route.fibKey else s := by
  simp only [programFib, if_neg hc, hr]
  rfl

theorem programFib_remove (fibExport : Option Filter) (s : Plane φ) (table : UInt32) (pfx : Prefix) :
    programFib fibExport s (.remove table pfx) =
      if (s.cell (table, pfx)).exported.isSome = true then unprogram s (table, pfx)
      else { s with failed := s.failed.erase (table, pfx) } := rfl

/-- A change leaves every other key's cell alone. -/
theorem cell_programFib_of_ne (fibExport : Option Filter) (s : Plane φ) (c : FibChange) (k : FibKey)
    (hk : k ≠ c.fibKey) : (programFib fibExport s c).cell k = s.cell k := by
  cases c with
  | install route =>
    by_cases hconn : route.protocol = .connected
    · simp [programFib, hconn]
    cases hexp : applyExport fibExport route with
    | accept r =>
      have hkr : k ≠ r.fibKey := by rw [(applyExport_fibKey hexp).1]; exact hk
      have hplane := installed_apply_of_ne s.fib (c := .install r) hkr
      rw [programFib_accept fibExport s hconn hexp]
      split_ifs <;> simp [Plane.cell, hplane, getElem?_insert, hkr, hkr.symm]
    | reject =>
      rw [programFib_reject fibExport s hconn hexp]
      split_ifs
      · exact cell_unprogram_of_ne s hk
      · rfl
  | remove table pfx =>
    have hkr : k ≠ (table, pfx) := hk
    rw [programFib_remove]
    split_ifs
    · exact cell_unprogram_of_ne s hk
    · simp [Plane.cell, hkr.symm]

/-- A change moves the cell of its own key as `Cell.program` says. -/
theorem cell_programFib_self (fibExport : Option Filter) (s : Plane φ) (c : FibChange) :
    ∃ ok, (NextWriteOk s.fib → ok = true) ∧
      (programFib fibExport s c).cell c.fibKey = (s.cell c.fibKey).program fibExport ok c := by
  cases c with
  | install route =>
    by_cases hconn : route.protocol = .connected
    · exact ⟨true, fun _ => rfl, by simp [programFib, Cell.program, hconn]⟩
    cases hexp : applyExport fibExport route with
    | accept r =>
      have hkey : r.fibKey = route.fibKey := (applyExport_fibKey hexp).1
      have hplane := installed_apply_self s.fib (.install r)
      simp only [FibChange.fibKey, FibChange.target, hkey] at hplane
      refine ⟨(Fib.apply s.fib (.install r)).2.isOk, fun h => h _, ?_⟩
      rw [programFib_accept fibExport s hconn hexp, Cell.program_accept _ _ hconn hexp]
      simp only [FibChange.fibKey]
      split_ifs at hplane ⊢ <;>
        simp [Plane.cell, hplane, hkey]
    | reject =>
      refine ⟨(Fib.apply s.fib (.remove route.table route.pfx)).2.isOk, fun h => h _, ?_⟩
      rw [programFib_reject fibExport s hconn hexp, Cell.program_reject _ _ hconn hexp]
      change _ = if (s.cell route.fibKey).exported.isSome = true then _ else s.cell route.fibKey
      by_cases hwas : (s.cell route.fibKey).exported.isSome = true
      · rw [if_pos hwas, if_pos hwas]
        exact cell_unprogram_self s route.fibKey
      · rw [if_neg hwas, if_neg hwas]
        rfl
  | remove table pfx =>
    refine ⟨(Fib.apply s.fib (.remove table pfx)).2.isOk, fun h => h _, ?_⟩
    rw [programFib_remove]
    change _ = if (s.cell (table, pfx)).exported.isSome = true then _ else _
    by_cases hwas : (s.cell (table, pfx)).exported.isSome = true
    · rw [if_pos hwas, if_pos hwas]
      exact cell_unprogram_self s (table, pfx)
    · rw [if_neg hwas, if_neg hwas]
      simp [Plane.cell, FibChange.fibKey]

/-- A set of backend states that writes never leave and in which none fails. -/
structure Reliable (G : φ → Prop) : Prop where
  ok : ∀ fib, G fib → NextWriteOk fib
  keep : ∀ fib c, G fib → G (Fib.apply fib c).1

theorem reliable_memoryFib : Reliable fun _ : MemoryFib => True := ⟨fun _ _ _ => rfl, fun _ _ _ => trivial⟩

theorem fib_programFib (fibExport : Option Filter) (s : Plane φ) (c : FibChange) :
    (programFib fibExport s c).fib = s.fib ∨
      ∃ c', (programFib fibExport s c).fib = (Fib.apply s.fib c').1 := by
  have hun : ∀ k : FibKey, (unprogram s k).fib = (Fib.apply s.fib (.remove k.1 k.2)).1 := by
    intro k
    simp [unprogram, removeFromFib_eq]
  cases c with
  | install route =>
    by_cases hconn : route.protocol = .connected
    · exact Or.inl (by simp [programFib, hconn])
    cases hexp : applyExport fibExport route with
    | accept r =>
      refine Or.inr ⟨.install r, ?_⟩
      rw [programFib_accept fibExport s hconn hexp]
      split_ifs <;> rfl
    | reject =>
      rw [programFib_reject fibExport s hconn hexp]
      split_ifs
      · exact Or.inr ⟨_, hun _⟩
      · exact Or.inl rfl
  | remove table pfx =>
    rw [programFib_remove]
    split_ifs
    · exact Or.inr ⟨_, hun _⟩
    · exact Or.inl rfl

theorem Reliable.programFib {G : φ → Prop} (hG : Reliable G) (fibExport : Option Filter)
    (s : Plane φ) (c : FibChange) (hs : G s.fib) : G (programFib fibExport s c).fib := by
  rcases fib_programFib fibExport s c with h | ⟨c', h⟩
  · rwa [h]
  · rw [h]
    exact hG.keep _ c' hs

theorem cell_foldl_of_notMem (fibExport : Option Filter) (s : Plane φ) (cs : List FibChange)
    (k : FibKey) (hk : k ∉ cs.map FibChange.fibKey) :
    (cs.foldl (programFib fibExport) s).cell k = s.cell k :=
  Run.foldl_view_of_notMem Plane.cell (cell_programFib_of_ne fibExport) cs s k hk

/-- Of a list of changes with distinct keys, each moves its cell once. -/
theorem cell_foldl_of_mem (fibExport : Option Filter) (s : Plane φ) {cs : List FibChange}
    (hcs : (cs.map FibChange.fibKey).Nodup) {c : FibChange} (hc : c ∈ cs) :
    ∃ ok, (∀ G, Reliable G → G s.fib → ok = true) ∧
      (cs.foldl (programFib fibExport) s).cell c.fibKey =
        (s.cell c.fibKey).program fibExport ok c := by
  obtain ⟨s', hs', hview, hfinal⟩ := Run.foldl_view_of_mem Plane.cell
    (G := fun s' => ∀ G, Reliable G → G s.fib → G s'.fib) (cell_programFib_of_ne fibExport)
    (fun s' a hs' G hG h => hG.programFib fibExport s' a (hs' G hG h)) hcs (fun _ _ h => h) hc
  obtain ⟨ok, hok, hself⟩ := cell_programFib_self fibExport s' c
  exact ⟨ok, fun G hG h => hok (hG.ok _ (hs' G hG h)), by rw [hfinal, hself, hview]⟩

end
end Wren.Daemon
