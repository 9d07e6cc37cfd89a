import Mathlib

/-! Fletcher sums over a commutative ring: a running total and the sum of the running totals. Two
neighbouring check symbols make both vanish in exactly one way. -/

namespace Fletcher
variable {R : Type*} [CommRing R]

/-- The sum of the running totals, where the last symbol counts once. -/
def weighted : List R → R
  | [] => 0
  | a :: l => (l.length + 1) * a + weighted l

@[simp] theorem weighted_nil : weighted ([] : List R) = 0 := rfl

@[simp] theorem weighted_cons (a : R) (l : List R) :
    weighted (a :: l) = (l.length + 1) * a + weighted l := rfl

theorem weighted_append (p q : List R) :
    weighted (p ++ q) = weighted p + q.length * p.sum + weighted q := by
  induction p with
  | nil => simp
  | cons a p ih =>
    simp only [List.cons_append, weighted_cons, ih, List.length_append, List.sum_cons]
    push_cast
    ring

/-- Running sums, from given ones on. -/
def run (c : R × R) (l : List R) : R × R :=
  l.foldl (fun c b => (c.1 + b, c.2 + (c.1 + b))) c

theorem run_eq (c : R × R) (l : List R) :
    run c l = (c.1 + l.sum, c.2 + l.length * c.1 + weighted l) := by
  induction l generalizing c with
  | nil => simp [run]
  | cons b l ih =>
    change run (c.1 + b, c.2 + (c.1 + b)) l = _
    rw [ih]
    refine Prod.ext ?_ ?_
    · simp [add_assoc]
    · simp only [List.length_cons, weighted_cons]
      push_cast
      ring

/-- Both sums vanish. -/
def Valid (l : List R) : Prop := l.sum = 0 ∧ weighted l = 0

/-- What two check symbols add to the sums. -/
theorem sums_check (p t : List R) (x y : R) :
    (p ++ x :: y :: t).sum = (p ++ 0 :: 0 :: t).sum + (x + y) ∧
      weighted (p ++ x :: y :: t) = weighted (p ++ 0 :: 0 :: t) + ((t.length + 2) * x + (t.length + 1) * y) := by
  constructor
  · simp only [List.sum_append, List.sum_cons]
    ring
  · simp only [weighted_append, weighted_cons, List.length_cons]
    push_cast
    ring

/-- The check symbols are determined by everything else. -/
theorem valid_check_iff (p t : List R) (x y : R) :
    Valid (p ++ x :: y :: t) ↔
      x = (t.length + 1) * (p ++ 0 :: 0 :: t).sum - weighted (p ++ 0 :: 0 :: t) ∧
        y = -(p ++ 0 :: 0 :: t).sum - x := by
  obtain ⟨hsum, hweight⟩ := sums_check p t x y
  rw [Valid, hsum, hweight]
  constructor
  · rintro ⟨h0, h1⟩
    have hy : y = -(p ++ 0 :: 0 :: t).sum - x := by linear_combination h0
    refine ⟨?_, hy⟩
    rw [hy] at h1
    linear_combination h1
  · rintro ⟨hx, hy⟩
    refine ⟨by linear_combination hy, ?_⟩
    rw [hy]
    linear_combination hx

end Fletcher
