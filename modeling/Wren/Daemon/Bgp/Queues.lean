import Wren.Lib.Run

/-! The bounded queues between the central BGP task and its sessions. A session is named by its
connection. What the commands and messages say does not matter here, only who waits for whom. -/

namespace Wren.Daemon.Bgp.Queues

def peerQueue : ℕ := 256
def cmdQueue : ℕ := 256

/-- The messages a session hands to the central task. -/
inductive PeerMsg where
  | established
  | update
  | refreshRequest
  | endOfRib
  | down
deriving DecidableEq

/-- A command on its way to a session: route fan-out is tried, everything else is awaited. -/
inductive Send (ι : Type*) where
  | awaited (i : ι)
  | tried (i : ι)
deriving DecidableEq

/-- An event the central task handles, with the choices its other state makes there. Session lists are
the targets of route fan-out, one entry for each command. -/
inductive Work (ι : Type*) where
  /-- An UPDATE, an End-of-RIB or the end of a session, whichever message is first. -/
  | routes (fans : List ι)
  /-- An UPDATE beyond the limit of its peer. -/
  | overLimit (fans : List ι)
  /-- A new session of a damped peer, or one that loses a collision. -/
  | refuse
  /-- A new session, which may win a collision with `old`, and the number of its optional snapshots. -/
  | accept (old : Option ι) (snapshots : ℕ) (fans : List ι)
  /-- A ROUTE-REFRESH of the peer: the origination and the Loc-RIB, unless they are empty. -/
  | readvertise (snapshots : ℕ)
  | operatorRefresh (i : ι)
  | operatorEvpn (targets : List ι)
  | bfdDown (i : ι)
  | removeNeighbor (i : ι) (fans : List ι)
  /-- Redistribution, an RTR feed or the restart timer. -/
  | fanOut (fans : List ι)
  /-- The first session whose fan-out found its queue full. -/
  | evict
  | shutdown
deriving DecidableEq

/-- The tasks and their queues. The first `peerQueue` messages of `line` are in the central queue, the
senders of the others wait. `script` is what is left to send for the event being handled, and `waiting`
says that its first command found no room. -/
structure Tasks (ι : Type*) where
  line : List (ι × PeerMsg) := []
  queue : ι → ℕ := fun _ => 0
  live : ι → Bool := fun _ => false
  known : List ι := []
  teardown : List ι := []
  script : List (Send ι) := []
  waiting : Bool := false

/-- What is scheduled next. -/
inductive Act (ι : Type*) where
  | connect (i : ι)
  | receive (i : ι) (m : PeerMsg)
  | take (i : ι)
  | close (i : ι)
  | handle (w : Work ι)
  | push
deriving DecidableEq

namespace Tasks
variable {ι : Type*} [DecidableEq ι]

/-- Sessions waiting for room in the central queue. -/
def blocked (s : Tasks ι) : List ι := (s.line.drop peerQueue).map Prod.fst

def fans (s : Tasks ι) (l : List ι) : List (Send ι) := (l.filter (· ∈ s.known)).map .tried

/-- The commands for an established session that the central task still knows. -/
def control (s : Tasks ι) (l : List ι) : List (Send ι) := (l.filter (· ∈ s.known)).map .awaited

/-- The central task takes up an event. A message is taken from its queue, where the next waiting
sender moves up. -/
def handle (s : Tasks ι) (w : Work ι) : Tasks ι :=
  match w, s.line with
  | .routes fans, (_, .update) :: line | .routes fans, (_, .endOfRib) :: line =>
    { s with line, script := s.fans fans }
  | .routes fans, (i, .down) :: line =>
    let known := s.known.erase i
    { s with line, known, script := { s with known }.fans fans }
  | .overLimit fans, (i, .update) :: line =>
    { s with line, known := s.known.erase i, script := s.fans fans ++ s.control [i] }
  | .refuse, (i, .established) :: line => { s with line, script := [.awaited i] }
  | .accept old snapshots fans, (i, .established) :: line =>
    let known := i :: s.known.filter (· ∉ old)
    { s with
      line
      known
      script := s.control old.toList ++ List.replicate (min snapshots 8 + 1) (.awaited i) ++
        { s with known }.fans fans }
  | .readvertise snapshots, (i, .refreshRequest) :: line =>
    { s with line, script := (s.control [i]).flatMap (List.replicate (min snapshots 2)) }
  | .operatorRefresh i, _ => { s with script := s.control [i] }
  | .operatorEvpn targets, _ => { s with script := s.control targets }
  | .bfdDown i, _ => { s with script := s.control [i] }
  | .removeNeighbor i fans, _ =>
    let known := s.known.erase i
    { s with known, script := s.control [i] ++ { s with known }.fans fans }
  | .fanOut fans, _ => { s with script := s.fans fans }
  | .evict, _ => { s with known := s.known.filter (· ∉ s.teardown.head?), teardown := s.teardown.tail }
  | .shutdown, _ => { s with script := s.control s.known }
  | _, _ => s

/-- The next command. An awaited one waits for room, unless its session is gone. -/
def push (s : Tasks ι) : Tasks ι :=
  match s.script with
  | [] => s
  | .awaited i :: script =>
    if s.live i = false then { s with script, waiting := false }
    else if s.queue i < cmdQueue then
      { s with queue := Function.update s.queue i (s.queue i + 1), script, waiting := false }
    else { s with waiting := true }
  | .tried i :: script =>
    if s.live i = true ∧ s.queue i < cmdQueue then
      { s with queue := Function.update s.queue i (s.queue i + 1), script, waiting := false }
    else { s with teardown := (s.teardown ++ [i]).take cmdQueue, script, waiting := false }

/-- A session that waits does nothing else, and the central task handles one event at a time. -/
def step (s : Tasks ι) : Act ι → Tasks ι
  | .connect i =>
    if s.live i = true ∨ i ∈ s.blocked then s
    else { s with live := Function.update s.live i true, queue := Function.update s.queue i 0 }
  | .receive i m =>
    if s.live i = false ∨ i ∈ s.blocked then s else { s with line := s.line ++ [(i, m)] }
  | .take i =>
    if s.live i = false ∨ i ∈ s.blocked then s
    else { s with queue := Function.update s.queue i (s.queue i - 1) }
  | .close i =>
    if i ∈ s.blocked then s
    else { s with live := Function.update s.live i false, queue := Function.update s.queue i 0 }
  | .handle w => if s.script = [] then s.handle w else s
  | .push => s.push

/-- The central task waits for room in the queue of `i`. -/
def WaitsFor (s : Tasks ι) (i : ι) : Prop :=
  s.waiting = true ∧ s.script.head? = some (.awaited i) ∧ s.live i = true ∧ cmdQueue ≤ s.queue i

/-- It waits for a session that itself waits to hand over a message. -/
def Deadlocked (s : Tasks ι) : Prop := ∃ i, s.WaitsFor i ∧ i ∈ s.blocked

/-- No awaited command comes up for a full queue of a session that waits itself, and no session that the
central task waits for hands a message to a full queue. -/
def Clear (s : Tasks ι) : Act ι → Prop
  | .push => ∀ i, s.script.head? = some (.awaited i) → s.live i = true → cmdQueue ≤ s.queue i → i ∉ s.blocked
  | .receive i _ => s.WaitsFor i → s.line.length < peerQueue
  | _ => True

/-- The central task waits only while it handles an event. -/
def Busy (s : Tasks ι) : Prop := s.waiting = true → s.script ≠ []

omit [DecidableEq ι] in
theorem mem_blocked_append {s : Tasks ι} {i j : ι} {m : PeerMsg} :
    j ∈ ((s.line ++ [(i, m)]).drop peerQueue).map Prod.fst ↔
      j ∈ s.blocked ∨ j = i ∧ peerQueue ≤ s.line.length := by
  rw [List.drop_append, List.map_append, List.mem_append]
  refine or_congr Iff.rfl ?_
  by_cases hle : peerQueue ≤ s.line.length
  · simp [hle, Nat.sub_eq_zero_of_le hle]
  · obtain ⟨k, hk⟩ : ∃ k, peerQueue - s.line.length = k + 1 := ⟨peerQueue - s.line.length - 1, by omega⟩
    simp [hk, hle]

theorem waiting_handle (s : Tasks ι) (w : Work ι) : (s.handle w).waiting = s.waiting := by
  unfold handle
  split <;> rfl

theorem busy_step {s : Tasks ι} (a : Act ι) (h : s.Busy) : (s.step a).Busy := by
  cases a with
  | connect i =>
    simp only [step]
    split_ifs <;> exact h
  | receive i m =>
    simp only [step]
    split_ifs <;> exact h
  | take i =>
    simp only [step]
    split_ifs <;> exact h
  | close i =>
    simp only [step]
    split_ifs <;> exact h
  | handle w =>
    simp only [step]
    split_ifs with hidle
    · intro hw
      rw [waiting_handle] at hw
      exact absurd hidle (h hw)
    · exact h
  | push =>
    simp only [step, push]
    cases hs : s.script with
    | nil => exact h
    | cons c script =>
      cases c with
      | awaited i =>
        dsimp only
        split_ifs
        · intro hw
          cases hw
        · intro hw
          cases hw
        · intro _
          simp
      | tried i =>
        dsimp only
        split_ifs
        · intro hw
          cases hw
        · intro hw
          cases hw

omit [DecidableEq ι] in
/-- Changing the queue of a session that does not wait leads to no deadlock. -/
theorem not_deadlocked_of_queue {s t : Tasks ι} (h : ¬ s.Deadlocked) (hline : t.line = s.line)
    (hscript : t.script = s.script) (hwait : t.waiting = s.waiting)
    (hkept : ∀ j ∈ s.blocked, t.live j = s.live j ∧ t.queue j = s.queue j) : ¬ t.Deadlocked := by
  rintro ⟨j, ⟨hw, hs, hl, hq⟩, hb⟩
  have hb' : j ∈ s.blocked := by simpa [blocked, hline] using hb
  obtain ⟨hlive, hqueue⟩ := hkept j hb'
  exact h ⟨j, ⟨hwait ▸ hw, hscript ▸ hs, hlive ▸ hl, hqueue ▸ hq⟩, hb'⟩

theorem not_deadlocked_step_iff {s : Tasks ι} (hbusy : s.Busy) (h : ¬ s.Deadlocked) (a : Act ι) :
    ¬ (s.step a).Deadlocked ↔ s.Clear a := by
  cases a with
  | connect i =>
    refine iff_of_true ?_ trivial
    simp only [step]
    split_ifs with hno
    · exact h
    · refine not_deadlocked_of_queue h rfl rfl rfl ?_
      intro j hj
      have hne : j ≠ i := fun heq => hno (.inr (heq ▸ hj))
      simp [hne]
  | take i =>
    refine iff_of_true ?_ trivial
    simp only [step]
    split_ifs with hno
    · exact h
    · refine not_deadlocked_of_queue h rfl rfl rfl ?_
      intro j hj
      have hne : j ≠ i := fun heq => hno (.inr (heq ▸ hj))
      simp [hne]
  | close i =>
    refine iff_of_true ?_ trivial
    simp only [step]
    split_ifs with hno
    · exact h
    · refine not_deadlocked_of_queue h rfl rfl rfl ?_
      intro j hj
      have hne : j ≠ i := fun heq => hno (heq ▸ hj)
      simp [hne]
  | handle w =>
    refine iff_of_true ?_ trivial
    simp only [step]
    split_ifs with hidle
    · rintro ⟨j, ⟨hw, -⟩, -⟩
      rw [waiting_handle] at hw
      exact hbusy hw hidle
    · exact h
  | receive i m =>
    simp only [step, Clear]
    split_ifs with hno
    · refine iff_of_true h ?_
      intro hw
      rcases hno with hdead | hblocked
      · exact absurd (hdead.symm.trans hw.2.2.1) (by decide)
      · exact absurd ⟨i, hw, hblocked⟩ h
    · constructor
      · intro hd hw
        by_contra hfull
        exact hd ⟨i, hw, mem_blocked_append.mpr (.inr ⟨rfl, by omega⟩)⟩
      · rintro hclear ⟨j, hw, hb⟩
        rcases mem_blocked_append.mp hb with hb' | ⟨rfl, hfull⟩
        · exact h ⟨j, hw, hb'⟩
        · exact absurd (hclear hw) (by omega)
  | push =>
    simp only [step, push, Clear]
    cases hs : s.script with
    | nil =>
      refine iff_of_true h ?_
      intro i hi
      cases hi
    | cons c script =>
      cases c with
      | tried j =>
        refine iff_of_true ?_ (fun i hi => by cases hi)
        dsimp only
        split_ifs
        · rintro ⟨i, ⟨hw, -⟩, -⟩
          cases hw
        · rintro ⟨i, ⟨hw, -⟩, -⟩
          cases hw
      | awaited j =>
        dsimp only
        split_ifs with hdead hroom
        · refine iff_of_true ?_ ?_
          · rintro ⟨i, ⟨hw, -⟩, -⟩
            cases hw
          · intro i hi hlive
            cases hi
            exact absurd (hdead.symm.trans hlive) (by decide)
        · refine iff_of_true ?_ ?_
          · rintro ⟨i, ⟨hw, -⟩, -⟩
            cases hw
          · intro i hi _ hfull
            cases hi
            omega
        · constructor
          · intro hd i hi hlive hfull hb
            exact hd ⟨i, ⟨rfl, hs ▸ hi, hlive, hfull⟩, hb⟩
          · rintro hclear ⟨i, ⟨-, hi, hlive, hfull⟩, hb⟩
            exact hclear i (hs ▸ hi) hlive hfull hb

/-- Along every schedule, the central task and a session wait for each other in no state exactly when no
step lets them. -/
theorem every_not_deadlocked_iff (as : List (Act ι)) :
    Run.Every step (fun s a => ¬ (s.step a).Deadlocked) {} as ↔ Run.Every step Clear ({} : Tasks ι) as := by
  refine Run.every_good_iff Busy (fun s => ¬ s.Deadlocked) (fun s a h _ => busy_step a h)
    (fun s a hb _ hd => not_deadlocked_step_iff hb hd a) (Run.every_true _ _ _) ?_ ?_
  · intro hw
    cases hw
  · rintro ⟨i, ⟨hw, -⟩, -⟩
    cases hw

/-- Fan-out fills a queue as long as there is room. -/
theorem foldl_push_tried (n : ℕ) {s : Tasks ι} {i : ι} (hscript : s.script = List.replicate n (.tried i))
    (hlive : s.live i = true) (hroom : s.queue i + n ≤ cmdQueue) (hwait : s.waiting = false) :
    (List.replicate n .push).foldl step s =
      { s with queue := Function.update s.queue i (s.queue i + n), script := [] } := by
  induction n generalizing s with
  | zero =>
    cases s
    simp_all
  | succ n ih =>
    have hlt : s.queue i < cmdQueue := by omega
    have hpush : s.step .push = { s with
        queue := Function.update s.queue i (s.queue i + 1)
        script := List.replicate n (.tried i) } := by
      cases s
      simp_all [step, push, List.replicate_succ]
    rw [List.replicate_succ, List.foldl_cons, hpush, ih]
    · simp [Nat.add_comm 1, Nat.add_assoc]
    · rfl
    · exact hlive
    · simp only [Function.update_self]
      omega
    · exact hwait

/-- Messages fill the central queue as long as there is room. -/
theorem foldl_receive (n : ℕ) {s : Tasks ι} {i : ι} {m : PeerMsg} (hlive : s.live i = true)
    (hroom : s.line.length + n ≤ peerQueue) :
    (List.replicate n (.receive i m)).foldl step s = { s with line := s.line ++ List.replicate n (i, m) } := by
  induction n generalizing s with
  | zero => simp
  | succ n ih =>
    have hfree : i ∉ s.blocked := by
      rw [blocked, List.drop_of_length_le (by omega)]
      simp
    rw [List.replicate_succ, List.foldl_cons, step, if_neg (by simp [hlive, hfree]), ih]
    · simp [List.replicate_succ]
    · exact hlive
    · rw [List.length_append, List.length_singleton]
      omega

/-- Two sessions come up, and the second brings an UPDATE that is fanned out to the first. -/
def comeUp (n : ℕ) : List (Act Bool) :=
  [.connect false, .receive false .established, .handle (.accept none 0 []), .push, .take false,
    .connect true, .receive true .established, .handle (.accept none 0 []), .push, .take true,
    .receive true .update, .handle (.routes (List.replicate n false))]

/-- The state `comeUp` leads to. -/
theorem foldl_comeUp (n : ℕ) : ∃ s : Tasks Bool, (comeUp n).foldl step {} = s ∧ s.line = [] ∧
    s.script = List.replicate n (.tried false) ∧ s.live false = true ∧ s.live true = true ∧
    s.queue false = 0 ∧ s.waiting = false ∧ false ∈ s.known := by
  refine ⟨_, rfl, ?_⟩
  simp [comeUp, step, push, handle, blocked, fans, control, peerQueue, cmdQueue]

/-- The fan-out fills the queue of the first session and the second fills the central queue. The first is
about to hand over an UPDATE of its own when BFD loses it. -/
theorem not_forall_not_deadlocked :
    ¬ ∀ as : List (Act Bool), ¬ (as.foldl step ({} : Tasks Bool)).Deadlocked := by
  intro h
  obtain ⟨s, hup, hline, hscript, hfalse, htrue, hqueue, hwait, hknown⟩ := foldl_comeUp cmdQueue
  refine h (comeUp cmdQueue ++ (List.replicate cmdQueue Act.push ++ (List.replicate peerQueue (Act.receive true .update) ++
    [Act.receive false .update, Act.handle (.bfdDown false), Act.push]))) ?_
  rw [List.foldl_append, hup, List.foldl_append, foldl_push_tried cmdQueue hscript hfalse (by omega) hwait,
    List.foldl_append, foldl_receive peerQueue]
  · refine ⟨false, ?_⟩
    simp [step, handle, control, push, blocked, WaitsFor, hline, hfalse, hqueue, hknown]
  · exact htrue
  · simp [hline]

end Tasks
end Wren.Daemon.Bgp.Queues
