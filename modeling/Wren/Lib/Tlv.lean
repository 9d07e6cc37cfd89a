import Wren.Lib.Octets

/-! Octets that are read field by field, records of a type, a length and a body, and reading by offset. -/

namespace Octets

/-- The next `n` octets and what is left after them. -/
def field? (n : ℕ) (buf : List UInt8) : Option (List UInt8 × List UInt8) :=
  if buf.length < n then none else some (buf.take n, buf.drop n)

theorem field?_append {n : ℕ} {l : List UInt8} (h : l.length = n) (r : List UInt8) :
    field? n (l ++ r) = some (l, r) := by
  have hfits : ¬ (l ++ r).length < n := by
    rw [List.length_append]
    omega
  rw [field?, if_neg hfits, List.take_left' h, List.drop_left' h]

theorem field?_eq_some {n : ℕ} {buf b rest : List UInt8} :
    field? n buf = some (b, rest) ↔ n ≤ buf.length ∧ b = buf.take n ∧ rest = buf.drop n := by
  unfold field?
  split_ifs with h
  · simp
    omega
  · simp only [Option.some.injEq, Prod.mk.injEq, Nat.not_lt.mp h, true_and]
    rw [eq_comm, @eq_comm _ rest]

/-- A record whose length has `w` octets and counts the body only. -/
def encodeTlv (w : ℕ) (t : UInt8) (body : List UInt8) : List UInt8 := t :: (digits w body.length ++ body)

/-- The type and the body of the first record, and the octets it takes. -/
def decodeTlv (w : ℕ) : List UInt8 → Option ((UInt8 × List UInt8) × ℕ)
  | [] => none
  | t :: rest => do
    let (len, rest) ← field? w rest
    let (body, _) ← field? (value len) rest
    return ((t, body), 1 + w + value len)

@[simp] theorem length_encodeTlv (w : ℕ) (t : UInt8) (body : List UInt8) :
    (encodeTlv w t body).length = 1 + w + body.length := by
  rw [encodeTlv, List.length_cons, List.length_append, length_digits]
  omega

theorem encodeTlv_ne_nil (w : ℕ) (t : UInt8) (body : List UInt8) : encodeTlv w t body ≠ [] := List.cons_ne_nil _ _

theorem decodeTlv_encodeTlv {w : ℕ} (t : UInt8) {body : List UInt8} (h : body.length < 256 ^ w) (r : List UInt8) :
    decodeTlv w (encodeTlv w t body ++ r) = some ((t, body), (encodeTlv w t body).length) := by
  rw [encodeTlv, List.cons_append, List.append_assoc, decodeTlv]
  simp only [field?_append (length_digits w _), value_digits_of_lt h, field?_append rfl, Option.bind_eq_bind,
    Option.bind_some, Option.pure_def]
  rw [← length_encodeTlv w t body, encodeTlv]

/-- The length of a record says where it ends. -/
theorem of_decodeTlv {w : ℕ} {buf : List UInt8} {t : UInt8} {body : List UInt8} {used : ℕ}
    (h : decodeTlv w buf = some ((t, body), used)) :
    body.length < 256 ^ w ∧ used = 1 + w + body.length ∧ used ≤ buf.length := by
  cases buf with
  | nil => cases h
  | cons b rest =>
    simp only [decodeTlv, Option.bind_eq_bind, Option.bind_eq_some_iff, Option.pure_def, Option.some.injEq] at h
    obtain ⟨⟨len, rest'⟩, hlen, ⟨body', rest''⟩, hbody, heq⟩ := h
    obtain ⟨hw, rfl, rfl⟩ := field?_eq_some.mp hlen
    obtain ⟨hfits, rfl, -⟩ := field?_eq_some.mp hbody
    obtain ⟨htb, rfl⟩ := Prod.mk.inj heq
    obtain ⟨-, rfl⟩ := Prod.mk.inj htb
    have hvalue := value_lt (rest.take w)
    rw [List.length_take, Nat.min_eq_left hw] at hvalue
    rw [List.length_drop] at hfits
    rw [List.length_take, List.length_drop, Nat.min_eq_left hfits, List.length_cons]
    exact ⟨hvalue, rfl, by omega⟩

/-! ### Reading by offset. Asking for octets that are not there gives nothing, and indexing them is a fault. -/

/-- What ends a reader that asks for no more than is there, and goes on as if it were. -/
inductive Fault where
  | outOfBounds
  | underflow
deriving DecidableEq

/-- A reader that may come to nothing, and may fault. -/
abbrev Indexed (α : Type) := OptionT (Except Fault) α

namespace Indexed
variable {α β : Type}

/-- A value that may be missing, without a fault. -/
def get (o : Option α) : Indexed α := OptionT.mk (pure o)

def fault (f : Fault) : Indexed α := OptionT.mk (.error f)

/-- The octets copied into an array of `n`. -/
def copy (n : ℕ) (b : List UInt8) : Indexed (Vector UInt8 n) :=
  if b.length = n then get (some (Vector.ofFn fun i => b.getD i 0)) else fault .outOfBounds

/-- The number that the first `n` octets spell, each of them indexed. -/
def number (n : ℕ) (b : List UInt8) : Indexed ℕ :=
  if n ≤ b.length then get (some (value (b.take n))) else fault .outOfBounds

def minus (a b : ℕ) : Indexed ℕ := if b ≤ a then get (some (a - b)) else fault .underflow

/-- The octets from `start` on, which a slice has. -/
def sliceFrom (buf : List UInt8) (start : ℕ) : Indexed (List UInt8) :=
  if start ≤ buf.length then get (some (buf.drop start)) else fault .outOfBounds

theorem get_bind (o : Option α) (f : α → Option β) : (get o >>= fun a => get (f a)) = get (o.bind f) := by
  cases o <;> rfl

@[simp] theorem get_some_bind (a : α) (f : α → Indexed β) : (get (some a) >>= f) = f a := rfl

@[simp] theorem get_none_bind (f : α → Indexed β) : (get none >>= f) = get none := rfl

theorem copy_eq {n : ℕ} {b : List UInt8} (h : b.length = n) :
    copy n b = get (some (Vector.ofFn fun i => b.getD i 0)) := if_pos h

theorem number_eq {n : ℕ} {b : List UInt8} (h : b.length = n) : number n b = get (some (value b)) := by
  rw [number, if_pos h.ge, List.take_of_length_le h.le]

theorem minus_eq {a b : ℕ} (h : b ≤ a) : minus a b = get (some (a - b)) := if_pos h

theorem sliceFrom_eq {buf : List UInt8} {start : ℕ} (h : start ≤ buf.length) :
    sliceFrom buf start = get (some (buf.drop start)) := if_pos h

end Indexed

/-- The same octets as a slice and as a field. -/
theorem slice?_eq_field? {buf : List UInt8} {start : ℕ} (h : start ≤ buf.length) (n : ℕ) :
    slice? buf start n = (field? n (buf.drop start)).map Prod.fst := by
  unfold slice? field?
  rw [List.length_drop]
  split_ifs
  all_goals first | rfl | omega

namespace Indexed
variable {α β : Type}

/-- A reader of a field of `n` octets, and the same by offset. -/
structure ReadsField (n : ℕ) (read : List UInt8 → Option (α × List UInt8)) (readAt : List UInt8 → ℕ → Indexed α) : Prop where
  rest : ∀ buf a rest, read buf = some (a, rest) → n ≤ buf.length ∧ rest = buf.drop n
  indexed : ∀ buf k, k ≤ buf.length → readAt buf k = get ((read (buf.drop k)).map Prod.fst)

variable {n : ℕ} {read : List UInt8 → Option (α × List UInt8)} {readAt : List UInt8 → ℕ → Indexed α}

theorem ReadsField.mk' {f : List UInt8 → α} (hread : ∀ buf, read buf = (field? n buf).map fun (b, rest) => (f b, rest))
    {make : List UInt8 → Indexed α} (hmake : ∀ b, b.length = n → make b = get (some (f b))) :
    ReadsField n read fun buf k => get (slice? buf k n) >>= make where
  rest buf a rest h := by
    rw [hread] at h
    obtain ⟨⟨b, r⟩, hfield, heq⟩ := Option.map_eq_some_iff.mp h
    obtain ⟨hle, -, rfl⟩ := field?_eq_some.mp hfield
    exact ⟨hle, (congrArg Prod.snd heq).symm⟩
  indexed buf k hk := by
    rw [hread, slice?_eq_field? hk]
    cases hfield : field? n (buf.drop k) with
    | none => rfl
    | some r =>
      obtain ⟨b, rest⟩ := r
      obtain ⟨hle, rfl, -⟩ := field?_eq_some.mp hfield
      exact hmake _ (by rw [List.length_take]; omega)

/-- The field at the offset that the fields before it end at, and what is read after it. -/
theorem ReadsField.bind (h : ReadsField n read readAt) {body : List UInt8} {k : ℕ} (hk : k ≤ body.length)
    {next : α → Indexed β} {next' : α × List UInt8 → Option β}
    (hnext : ∀ a, k + n ≤ body.length → next a = get (next' (a, body.drop (k + n)))) :
    (readAt body k >>= next) = get ((read (body.drop k)).bind next') := by
  rw [h.indexed body k hk]
  cases hread : read (body.drop k) with
  | none => rfl
  | some r =>
    obtain ⟨a, rest⟩ := r
    obtain ⟨hle, rfl⟩ := h.rest _ a rest hread
    rw [List.length_drop] at hle
    rw [List.drop_drop]
    exact hnext a (by omega)

end Indexed
end Octets
