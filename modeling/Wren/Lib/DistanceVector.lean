import Mathlib

/-! Nodes that forward by distances they were told of, at any time and in any order: where a node goes by a
distance below the ones it has announced, no cycle of next hops avoids the source. -/

namespace DistanceVector
variable {ν κ : Type*} [LinearOrder κ]

/-- The least distance each node went by, the distances it ever announced, and the nodes it forwards to. -/
structure View (ν κ : Type*) where
  label : ν → WithTop κ
  advert : ν → κ → Prop
  next : ν → ν → Prop

structure Sound (sink : ν) (v : View ν κ) : Prop where
  advert : ∀ x d, x ≠ sink → v.advert x d → v.label x < d
  next : ∀ x y, x ≠ sink → y ≠ sink → v.next x y → v.label y < v.label x

/-- What a network may do: distances fall, what is announced anew lies above them, and a next hop that is new or
goes with a new distance has announced no more than that. -/
structure Step (sink : ν) (v w : View ν κ) : Prop where
  label_le : ∀ x, w.label x ≤ v.label x
  advert : ∀ x d, x ≠ sink → w.advert x d → v.advert x d ∨ w.label x < d
  next : ∀ x y, x ≠ sink → w.next x y →
    (v.next x y ∧ w.label x = v.label x) ∨ ∃ d : κ, v.advert y d ∧ (d : WithTop κ) ≤ w.label x

variable {sink : ν} {v w : View ν κ}

theorem Sound.step (h : Sound sink v) (hstep : Step sink v w) : Sound sink w := by
  constructor
  · intro x d hx hadvert
    rcases hstep.advert x d hx hadvert with hold | hnew
    · exact lt_of_le_of_lt (hstep.label_le x) (h.advert x d hx hold)
    · exact hnew
  · intro x y hx hy hnext
    rcases hstep.next x y hx hnext with ⟨hold, hlabel⟩ | ⟨d, hadvert, hle⟩
    · rw [hlabel]
      exact lt_of_le_of_lt (hstep.label_le y) (h.next x y hx hy hold)
    · calc w.label y
          ≤ v.label y := hstep.label_le y
        _ < d := h.advert y d hy hadvert
        _ ≤ w.label x := hle

/-- Forwarding away from the source. -/
def Avoids (sink : ν) (v : View ν κ) (x y : ν) : Prop := x ≠ sink ∧ y ≠ sink ∧ v.next x y

theorem Sound.label_lt_of_transGen (h : Sound sink v) {x y : ν} (hpath : Relation.TransGen (Avoids sink v) x y) :
    v.label y < v.label x := by
  induction hpath with
  | single hedge => exact h.next _ _ hedge.1 hedge.2.1 hedge.2.2
  | tail _ hedge ih => exact lt_trans (h.next _ _ hedge.1 hedge.2.1 hedge.2.2) ih

theorem Sound.acyclic (h : Sound sink v) (x : ν) : ¬ Relation.TransGen (Avoids sink v) x x :=
  fun hcycle => lt_irrefl _ (h.label_lt_of_transGen hcycle)

end DistanceVector
