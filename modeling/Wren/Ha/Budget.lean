import Wren.Ha.Leases

/-! The timing budget of a lease. It is meant to outlast one exchange with the witness that is given up, and the poll that
comes before the next one. -/

namespace Wren.Ha

/-- The cadence at which the coordinator renews. -/
def pollMs : ℕ := 25

def pollNs : ℕ := pollMs * milli

/-- Sums of 64 bits wrap. -/
def checkBudget (leaseMs ioMs : UInt64) : Except String Unit :=
  let need := 2 * ioMs + .ofNat pollMs + .ofNat marginMs
  if ¬ (1 ≤ leaseMs ∧ leaseMs ≤ .ofNat maxLeaseMs ∧ 0 < ioMs) then
    .error ("HA lease must be 1..=" ++ toString maxLeaseMs ++ " ms and the witness I/O budget nonzero")
  else if ¬ need ≤ leaseMs then
    .error ("HA witness I/O budget " ++ toString ioMs ++ " ms does not fit a " ++ toString leaseMs ++ " ms lease: 2 x I/O + " ++
      toString pollMs ++ " ms poll + " ++ toString marginMs ++ " ms margin must not exceed the lease (an I/O budget of " ++
      toString ioMs ++ " ms needs a lease of at least " ++ toString need ++ " ms)")
  else .ok ()

/-! ### Ticks -/

/-- What becomes of a tick that is overdue. It is taken as soon as it is waited for, or left out like those after it that
were missed. -/
inductive Overdue where
  | atOnce
  | leftOut

/-- A timer by the instant in nanoseconds at which its next tick is due. -/
structure Interval where
  deadline : ℕ

/-- The next tick, waited for since `now`. Ticks that were missed are skipped: those that follow are again whole periods
apart from the first. -/
def Interval.tick (o : Overdue) (i : Interval) (now : ℕ) : ℕ × Interval :=
  match o with
  | .atOnce =>
    let fired := max now i.deadline
    (fired, ⟨if i.deadline + 5 * milli < fired then fired + pollNs - (fired - i.deadline) % pollNs
      else i.deadline + pollNs⟩)
  | .leftOut =>
    let fired := i.deadline + (now - i.deadline + pollNs - 1) / pollNs * pollNs
    (fired, ⟨fired + pollNs⟩)

/-- The most that a tick comes after the one before it, if the work in between takes this long. -/
def pollAfter (o : Overdue) (work : ℕ) : ℕ :=
  match o with
  | .atOnce => max work pollNs
  | .leftOut => max 1 ((work + pollNs - 1) / pollNs) * pollNs

theorem pollNs_eq : pollNs = 25000000 := rfl

theorem pollAfter_mono (o : Overdue) {v w : ℕ} (h : v ≤ w) : pollAfter o v ≤ pollAfter o w := by
  have hceil : (v + pollNs - 1) / pollNs ≤ (w + pollNs - 1) / pollNs := Nat.div_le_div_right (by omega)
  cases o with
  | atOnce => exact max_le_max h (le_refl _)
  | leftOut => exact Nat.mul_le_mul_right _ (max_le_max (le_refl 1) hceil)

/-- The tick after this one is due within a period. -/
theorem Interval.tick_deadline (o : Overdue) (i : Interval) (now : ℕ) :
    (i.tick o now).1 < (i.tick o now).2.deadline ∧ (i.tick o now).2.deadline ≤ (i.tick o now).1 + pollNs := by
  have hpoll := pollNs_eq
  cases o with
  | atOnce =>
    have hmilli : milli = 1000000 := rfl
    have hmod := Nat.mod_lt (max now i.deadline - i.deadline) (show 0 < pollNs by omega)
    simp only [tick]
    split_ifs <;> omega
  | leftOut =>
    simp only [tick]
    omega

/-- Work that is done by then is followed by the next tick when that is due. -/
theorem Interval.tick_after (o : Overdue) (t work : ℕ) :
    ((Interval.mk (t + pollNs)).tick o (t + work)).1 = t + pollAfter o work := by
  cases o with
  | atOnce =>
    simp only [tick, pollAfter]
    omega
  | leftOut =>
    have hpos : 0 < pollNs := by decide
    simp only [tick, pollAfter]
    by_cases hwork : work ≤ pollNs
    · have hzero : (t + work - (t + pollNs) + pollNs - 1) / pollNs = 0 := Nat.div_eq_of_lt (by omega)
      have hone : (work + pollNs - 1) / pollNs ≤ 1 := by
        rw [Nat.div_le_iff_le_mul_add_pred hpos]
        omega
      rw [hzero, max_eq_left hone]
      omega
    · have hmore : work + pollNs - 1 = (t + work - (t + pollNs) + pollNs - 1) + pollNs := by omega
      rw [hmore, Nat.add_div_right _ hpos, max_eq_right (Nat.le_add_left 1 _), Nat.succ_mul]
      omega

/-- An exchange begins at a tick, and the next one no later than the work between them allows. -/
theorem Interval.next_tick_le (o : Overdue) (i : Interval) (now work : ℕ) :
    ((i.tick o now).2.tick o ((i.tick o now).1 + work)).1 ≤ (i.tick o now).1 + pollAfter o work := by
  obtain ⟨-, hdue⟩ := i.tick_deadline o now
  cases o with
  | atOnce =>
    simp only [tick, pollAfter] at hdue ⊢
    omega
  | leftOut => exact (tick_after .leftOut _ work).le

/-! ### Renewal -/

/-- An exchange that is granted, one that is given up, and one that is granted again, with the time that those two take. -/
structure Episode where
  interval : Interval
  now : ℕ
  first : ℕ
  last : ℕ

namespace Episode

def start (o : Overdue) (e : Episode) : ℕ := (e.interval.tick o e.now).1

/-- When the renewed deadline is in place. The exchange in the middle takes all of its budget. -/
def installed (o : Overdue) (ioNs : ℕ) (e : Episode) : ℕ :=
  let (start, interval) := e.interval.tick o e.now
  let (abandoned, interval) := interval.tick o (start + e.first)
  let (renewing, _) := interval.tick o (abandoned + ioNs)
  renewing + e.last

end Episode

/-- A lease counts from the start of its exchange, less a margin. -/
def localDeadline (leaseMs start : ℕ) : ℕ := start + (leaseMs - marginMs) * milli

/-- Exchanges that are granted take no more than their budget, and the first of them no more than `firstNs`. One that is
given up between two of them does not let the lease lapse. -/
def Survives (o : Overdue) (leaseMs ioMs firstNs : ℕ) : Prop :=
  ∀ e : Episode, e.first ≤ firstNs → e.last ≤ ioMs * milli →
    e.installed o (ioMs * milli) < localDeadline leaseMs (e.start o)

theorem Episode.installed_le (o : Overdue) (ioNs : ℕ) (e : Episode) :
    e.installed o ioNs ≤ e.start o + pollAfter o e.first + pollAfter o ioNs + e.last := by
  have hfirst := e.interval.next_tick_le o e.now e.first
  have hsecond := Interval.next_tick_le o (e.interval.tick o e.now).2 ((e.interval.tick o e.now).1 + e.first) ioNs
  simp only [installed, start]
  omega

/-- The worst case: the first tick comes when it is due, and both exchanges that are granted take all they may. -/
theorem Episode.installed_eq (o : Overdue) {firstNs ioNs : ℕ} (h : firstNs ≤ ioNs) :
    (Episode.mk ⟨0⟩ 0 firstNs ioNs).start o = 0 ∧
      (Episode.mk ⟨0⟩ 0 firstNs ioNs).installed o ioNs = pollAfter o firstNs + pollAfter o ioNs + ioNs := by
  have hnow : (Interval.mk 0).tick o 0 = (0, ⟨pollNs⟩) := by cases o <;> rfl
  have hfirst : ((Interval.mk pollNs).tick o firstNs).1 = pollAfter o firstNs := by
    have h := Interval.tick_after o 0 firstNs
    rwa [Nat.zero_add, Nat.zero_add, Nat.zero_add] at h
  obtain ⟨b, i, hb⟩ : ∃ b i, (Interval.mk pollNs).tick o firstNs = (b, i) := ⟨_, _, rfl⟩
  have hsecond : (i.tick o (b + ioNs)).1 = b + pollAfter o ioNs := by
    cases o with
    | leftOut =>
      obtain ⟨rfl, rfl⟩ := Prod.mk.inj hb
      exact Interval.tick_after .leftOut _ ioNs
    | atOnce =>
      have hdue := ((Interval.mk pollNs).tick_deadline .atOnce firstNs).2
      rw [hb] at hdue
      dsimp only at hdue
      by_cases hshort : ioNs < pollNs
      · -- all is in time, and so every tick is a period after the one before it
        have htime : (Interval.mk pollNs).tick .atOnce firstNs = (pollNs, ⟨pollNs + pollNs⟩) := by
          have hmax : max firstNs pollNs = pollNs := max_eq_right (by omega)
          simp only [Interval.tick, hmax]
          rw [if_neg (by omega)]
        rw [htime] at hb
        obtain ⟨rfl, rfl⟩ := Prod.mk.inj hb
        exact Interval.tick_after .atOnce pollNs ioNs
      · simp only [Interval.tick, pollAfter]
        omega
  refine ⟨by rw [start, hnow], ?_⟩
  simp only [installed, hnow, Nat.zero_add, hb]
  rw [hb] at hfirst
  dsimp only at hfirst
  rw [hsecond, hfirst]

theorem survives_iff (o : Overdue) {leaseMs ioMs firstNs : ℕ} (h : firstNs ≤ ioMs * milli) :
    Survives o leaseMs ioMs firstNs ↔
      pollAfter o firstNs + pollAfter o (ioMs * milli) + ioMs * milli < (leaseMs - marginMs) * milli := by
  constructor
  · intro hall
    obtain ⟨hstart, hinstalled⟩ := Episode.installed_eq o h
    have hworst := hall ⟨⟨0⟩, 0, firstNs, ioMs * milli⟩ (le_refl _) (le_refl _)
    rw [hinstalled, hstart, localDeadline, Nat.zero_add] at hworst
    exact hworst
  · intro hfits e hfirst hlast
    have hend := e.installed_le o (ioMs * milli)
    have hmono := pollAfter_mono o hfirst
    rw [localDeadline]
    omega

/-- A budget that is accepted is sufficient exactly if the lease outlasts two polls, each as late as an exchange before it
can make it, and one more exchange. -/
theorem budget_sufficient_iff (o : Overdue) (leaseMs ioMs : UInt64) {firstNs : ℕ} (h : firstNs ≤ ioMs.toNat * milli) :
    (checkBudget leaseMs ioMs = .ok () → Survives o leaseMs.toNat ioMs.toNat firstNs) ↔
      (checkBudget leaseMs ioMs = .ok () → pollAfter o firstNs + pollAfter o (ioMs.toNat * milli) + ioMs.toNat * milli <
        (leaseMs.toNat - marginMs) * milli) :=
  imp_congr_right fun _ => survives_iff o h

/-- The defaults, whose first exchange may take its 80 ms too. -/
theorem budget_sufficient_default :
    ¬ (checkBudget 250 80 = .ok () → Survives .atOnce 250 80 (80 * milli)) := by
  intro h
  exact absurd ((budget_sufficient_iff .atOnce 250 80 (le_refl (80 * milli))).mp h (by decide)) (by decide)

/-- A budget of 47 ms with exchanges of 1 ms, the first of which takes no time, and one whose sum wraps to 45 ms. -/
theorem budget_lapses : (checkBudget 47 1 = .ok () ∧ ¬ Survives .atOnce 47 1 0 ∧ ¬ Survives .leftOut 47 1 0) ∧
    checkBudget 45 0x8000000000000000 = .ok () ∧ ¬ Survives .atOnce 45 0x8000000000000000 0 := by
  refine ⟨⟨by decide, ?_, ?_⟩, by decide, ?_⟩
  · exact fun h => absurd (h ⟨⟨0⟩, 0, 0, 0⟩ (le_refl _) (Nat.zero_le _)) (by decide)
  · exact fun h => absurd (h ⟨⟨0⟩, 0, 0, 0⟩ (le_refl _) (Nat.zero_le _)) (by decide)
  · exact fun h => absurd (h ⟨⟨0⟩, 0, 0, 0⟩ (le_refl _) (Nat.zero_le _)) (by decide)

end Wren.Ha
