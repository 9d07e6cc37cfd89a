import Wren.Bfd.Auth

/-! What a receiver takes of the datagrams of one sender that come late, twice, in another order, or not at all. -/

namespace Wren.Bfd
open Octets
namespace AuthState

/-- The datagrams that a sender makes of these mandatory sections. -/
def sent (d : Digests) : AuthState → List (Vector UInt8 24) → List (List UInt8)
  | _, [] => []
  | st, mand :: mands =>
    let r := st.appendWith d mand.toList
    r.2 :: sent d r.1 mands

@[simp] theorem length_sent (d : Digests) (st : AuthState) (mands : List (Vector UInt8 24)) :
    (st.sent d mands).length = mands.length := by
  induction mands generalizing st with
  | nil => rfl
  | cons mand mands ih => simp [sent, ih]

/-- The sequence number of a datagram: that of the first one comes after `start`. -/
def seqAt (start : UInt32) (k : ℕ) : UInt32 := start + (UInt32.ofNat k + 1)

theorem seqAt_succ (start : UInt32) (k : ℕ) : seqAt (start + 1) k = seqAt start (k + 1) := by
  rw [seqAt, seqAt, UInt32.ofNat_add]
  have hone : UInt32.ofNat 1 = 1 := rfl
  grind

/-- Every datagram of a run is appended under its own number. -/
theorem getElem_sent (d : Digests) {st : AuthState} (hty : st.cfg.authType ≠ .simplePassword)
    {mands : List (Vector UInt8 24)} {k : ℕ} (hk : k < (st.sent d mands).length) :
    ∃ (tx : AuthState) (mand : List UInt8), (st.sent d mands)[k] = (tx.appendWith d mand).2 ∧ mand.length = 24 ∧
      tx.cfg = st.cfg ∧ tx.xmitSeq + 1 = seqAt st.xmitSeq k := by
  induction mands generalizing st k with
  | nil => simp [sent] at hk
  | cons mand mands ih =>
    cases k with
    | zero =>
      refine ⟨st, mand.toList, rfl, Vector.length_toList, rfl, ?_⟩
      rw [seqAt]
      rfl
    | succ k =>
      have hnext := appendWith_keyed d st mand.toList hty
      have htail : k < ((st.appendWith d mand.toList).1.sent d mands).length := by
        rw [length_sent]
        rw [length_sent, List.length_cons] at hk
        omega
      have hcfg : (st.appendWith d mand.toList).1.cfg = st.cfg := by rw [hnext]
      have hseq : (st.appendWith d mand.toList).1.xmitSeq = st.xmitSeq + 1 := by rw [hnext]
      obtain ⟨tx, m, heq, hlen, htx, htxseq⟩ := ih (hcfg ▸ hty) htail
      refine ⟨tx, m, heq, hlen, htx.trans hcfg, ?_⟩
      rw [htxseq, hseq, seqAt_succ]

/-- In a run that does not come round to its window again, distances of sequence numbers are those of datagrams. -/
theorem seqAt_sub_le_iff (start : UInt32) {i k w n : ℕ} (hi : i < n) (hk : k < n) (hn : n + w < 2 ^ 32) :
    (seqAt start k - seqAt start i).toNat ≤ w ↔ i ≤ k ∧ k ≤ i + w := by
  have hdiff : seqAt start k - seqAt start i = UInt32.ofNat k - UInt32.ofNat i := by
    rw [seqAt, seqAt]
    grind
  rw [hdiff, UInt32.toNat_sub, UInt32.toNat_ofNat', UInt32.toNat_ofNat']
  norm_num at hn ⊢
  omega

theorem seqAt_inj (start : UInt32) {i k n : ℕ} (hi : i < n) (hk : k < n) (hn : n < 2 ^ 32) :
    seqAt start i = seqAt start k ↔ i = k := by
  constructor
  · intro h
    have hle := (seqAt_sub_le_iff start (w := 0) hi hk (by omega)).mp (by rw [h]; simp)
    omega
  · rintro rfl
    rfl

/-- Nothing but an accepted datagram changes the state. -/
theorem verifyWith_of_rejected (d : Digests) (st : AuthState) (buf : List UInt8) (h : (st.verifyWith d buf).2 = false) :
    (st.verifyWith d buf).1 = st := by
  simp only [verifyWith] at h ⊢
  split_ifs at h ⊢ <;> rfl

end AuthState

/-- A receiver, and the datagrams that it accepted, the last one first. -/
structure Receiver (n : ℕ) where
  st : AuthState
  accepted : List (Fin n)

namespace Receiver
variable (d : Digests) {pkts : List (List UInt8)}

def take (r : Receiver pkts.length) (k : Fin pkts.length) : Receiver pkts.length :=
  let v := r.st.verifyWith d pkts[k]
  ⟨v.1, if v.2 then k :: r.accepted else r.accepted⟩

/-- Datagrams arrive, each of them any number of times. -/
def deliver (st : AuthState) (ks : List (Fin pkts.length)) : Receiver pkts.length := ks.foldl (take d) ⟨st, []⟩

/-- What this receiver of a run of one sender has accepted, by the number accepted last. -/
structure Follows (c : AuthConfig) (start : UInt32) {n : ℕ} (w : ℕ) (r : Receiver n) : Prop where
  cfg : r.st.cfg = c
  window : 3 * r.st.detectMult.toNat = w
  rxSeq : r.st.rxSeq = r.accepted.head?.map fun i : Fin n => AuthState.seqAt start i.val
  forward : r.accepted.Pairwise (· ≥ ·)
  once : c.authType.meticulous = true → r.accepted.Pairwise (· > ·)

/-- The datagram is no older than the one accepted last, newer where that is asked for, and not too far ahead. -/
def Due (c : AuthConfig) (w : ℕ) {n : ℕ} (r : Receiver n) (k : Fin n) : Prop :=
  ∀ i ∈ r.accepted.head?, i.val ≤ k.val ∧ k.val ≤ i.val + w ∧ (c.authType.meticulous = true → i ≠ k)

section Run
variable {tx : AuthState} {mands : List (Vector UInt8 24)} {w : ℕ}

theorem verifyWith_sent (hty : tx.cfg.authType ≠ .simplePassword) (hw : mands.length + w < 2 ^ 32)
    {r : Receiver (tx.sent d mands).length} (hr : r.Follows tx.cfg tx.xmitSeq w) (k : Fin (tx.sent d mands).length) :
    ((r.st.verifyWith d (tx.sent d mands)[k]).2 = true ↔ r.Due tx.cfg w k) ∧
      (r.Due tx.cfg w k → (r.st.verifyWith d (tx.sent d mands)[k]).1 =
        { r.st with rxSeq := some (AuthState.seqAt tx.xmitSeq k) }) := by
  have hlen : ∀ i : Fin (tx.sent d mands).length, i.val < mands.length := by
    intro i
    simpa using i.isLt
  obtain ⟨st, mand, heq, hmand, hcfg, hseq⟩ := AuthState.getElem_sent d hty k.isLt
  have hverify := AuthState.verifyWith_appendWith d (hr.cfg.trans hcfg.symm) (hcfg ▸ hty) hmand
  rw [hseq] at hverify
  have hdue : r.st.accepts (AuthState.seqAt tx.xmitSeq k) = true ↔ r.Due tx.cfg w k := by
    rw [AuthState.accepts_iff, hr.rxSeq, hr.window, hr.cfg]
    simp only [Due, Option.mem_def, Option.map_eq_some_iff]
    constructor
    · intro h i hi
      obtain ⟨hle, hne⟩ := h _ ⟨i, hi, rfl⟩
      obtain ⟨hge, hle⟩ := (AuthState.seqAt_sub_le_iff tx.xmitSeq (hlen i) (hlen k) hw).mp hle
      exact ⟨hge, hle, fun hm hik => hne hm (hik ▸ rfl)⟩
    · rintro h last ⟨i, hi, rfl⟩
      obtain ⟨hge, hle, hne⟩ := h i hi
      refine ⟨(AuthState.seqAt_sub_le_iff tx.xmitSeq (hlen i) (hlen k) hw).mpr ⟨hge, hle⟩, ?_⟩
      intro hm hsame
      exact hne hm (Fin.ext ((AuthState.seqAt_inj tx.xmitSeq (hlen i) (hlen k) (by omega)).mp hsame.symm))
  rw [Fin.getElem_fin, heq, hverify, ← hdue]
  split_ifs with h
  · simp [h]
  · simp [h]

/-- A datagram is accepted if it is due, and otherwise nothing happens. -/
theorem take_eq (hty : tx.cfg.authType ≠ .simplePassword) (hw : mands.length + w < 2 ^ 32)
    {r : Receiver (tx.sent d mands).length} (hr : r.Follows tx.cfg tx.xmitSeq w) (k : Fin (tx.sent d mands).length) :
    (r.Due tx.cfg w k → r.take d k =
      ⟨{ r.st with rxSeq := some (AuthState.seqAt tx.xmitSeq k) }, k :: r.accepted⟩) ∧
    (¬ r.Due tx.cfg w k → r.take d k = r) := by
  obtain ⟨hiff, hst⟩ := verifyWith_sent d hty hw hr k
  constructor
  · intro hdue
    simp only [take, hst hdue, hiff.mpr hdue, if_true]
  · intro hdue
    have hrejected : (r.st.verifyWith d (tx.sent d mands)[k]).2 = false := by
      rw [← Bool.not_eq_true, hiff]
      exact hdue
    simp only [take, AuthState.verifyWith_of_rejected d r.st _ hrejected, hrejected, Bool.false_eq_true, if_false]

theorem Follows.take (hty : tx.cfg.authType ≠ .simplePassword) (hw : mands.length + w < 2 ^ 32)
    {r : Receiver (tx.sent d mands).length} (hr : r.Follows tx.cfg tx.xmitSeq w) (k : Fin (tx.sent d mands).length) :
    (r.take d k).Follows tx.cfg tx.xmitSeq w := by
  obtain ⟨hdue, hnot⟩ := take_eq d hty hw hr k
  by_cases h : r.Due tx.cfg w k
  · rw [hdue h]
    have hhead : ∀ i ∈ r.accepted, ∃ j, r.accepted.head? = some j ∧ i ≤ j := by
      intro i hi
      cases hacc : r.accepted with
      | nil => simp [hacc] at hi
      | cons j l =>
        rw [hacc] at hi
        refine ⟨j, rfl, ?_⟩
        rcases List.mem_cons.mp hi with rfl | hi
        · exact le_refl i
        · have hforward := hr.forward
          rw [hacc] at hforward
          exact (List.pairwise_cons.mp hforward).1 i hi
    refine ⟨hr.cfg, hr.window, rfl, List.pairwise_cons.mpr ⟨?_, hr.forward⟩, ?_⟩
    · intro i hi
      obtain ⟨j, hj, hij⟩ := hhead i hi
      exact hij.trans (h j hj).1
    · intro hm
      refine List.pairwise_cons.mpr ⟨?_, hr.once hm⟩
      intro i hi
      obtain ⟨j, hj, hij⟩ := hhead i hi
      obtain ⟨hjk, -, hne⟩ := h j hj
      exact hij.trans_lt (lt_of_le_of_ne hjk (hne hm))
  · rw [hnot h]
    exact hr

theorem Follows.deliver (hty : tx.cfg.authType ≠ .simplePassword) (hw : mands.length + w < 2 ^ 32) {st : AuthState}
    (hst : st.cfg = tx.cfg) (hmult : 3 * st.detectMult.toNat = w) (hfresh : st.rxSeq = none)
    (ks : List (Fin (tx.sent d mands).length)) : (Receiver.deliver d st ks).Follows tx.cfg tx.xmitSeq w := by
  have hstart : (Receiver.mk st [] : Receiver (tx.sent d mands).length).Follows tx.cfg tx.xmitSeq w :=
    ⟨hst, hmult, hfresh, List.Pairwise.nil, fun _ => List.Pairwise.nil⟩
  refine List.foldlRecOn ks (Receiver.take d) hstart ?_
  intro r hr k _
  exact Follows.take d hty hw hr k

end Run

/-- Whenever a datagram comes that is newer than all before it, fewer than `w` in a row were lost until then. -/
def Gapless (w : ℕ) {n : ℕ} (ks : List (Fin n)) : Prop :=
  ∀ (pre : List (Fin n)) (k : Fin n) (post : List (Fin n)), ks = pre ++ k :: post → pre ≠ [] → (∀ i ∈ pre, i < k) →
    ∃ i ∈ pre, k.val - i.val - 1 < w

theorem Gapless.of_append {w n : ℕ} {ks ls : List (Fin n)} (h : Gapless w (ks ++ ls)) : Gapless w ks := by
  intro pre k post heq hpre hnew
  refine h pre k (post ++ ls) ?_ hpre hnew
  rw [heq, List.append_assoc, List.cons_append]

section Run
variable {tx : AuthState} {mands : List (Vector UInt8 24)} {w : ℕ}

/-- Where no gap is too long, the datagram accepted last is the newest one that came. -/
theorem newest_of_gapless (hty : tx.cfg.authType ≠ .simplePassword) (hw : mands.length + w < 2 ^ 32)
    {st : AuthState} (hst : st.cfg = tx.cfg) (hmult : 3 * st.detectMult.toNat = w) (hfresh : st.rxSeq = none)
    {ks : List (Fin (tx.sent d mands).length)} (hks : Gapless w ks) (hne : ks ≠ []) :
    ∃ i ∈ ks, (deliver d st ks).accepted.head? = some i ∧ ∀ j ∈ ks, j ≤ i := by
  induction ks using List.reverseRecOn with
  | nil => exact absurd rfl hne
  | append_singleton ks k ih =>
    have hr := Follows.deliver d hty hw hst hmult hfresh ks
    obtain ⟨hdue, hnot⟩ := take_eq d hty hw hr k
    have hstep : deliver d st (ks ++ [k]) = (deliver d st ks).take d k := List.foldl_concat ..
    rw [hstep]
    by_cases hempty : ks = []
    · subst hempty
      have hfirst : (deliver d st ([] : List (Fin (tx.sent d mands).length))).Due tx.cfg w k := by
        intro i hi
        cases hi
      rw [hdue hfirst]
      exact ⟨k, by simp, rfl, by simp⟩
    · obtain ⟨i, hi, hhead, hmax⟩ := ih hks.of_append hempty
      by_cases hnew : i < k
      · -- It is newer than all before it.
        obtain ⟨j, hj, hgap⟩ := hks ks k [] rfl hempty fun j hj => (hmax j hj).trans_lt hnew
        have hji : j.val ≤ i.val := hmax j hj
        have hik : i.val < k.val := hnew
        have hnext : (deliver d st ks).Due tx.cfg w k := by
          intro i' hi'
          obtain rfl : i = i' := Option.some.inj (hhead.symm.trans hi')
          exact ⟨by omega, by omega, fun _ => ne_of_lt hnew⟩
        rw [hdue hnext]
        refine ⟨k, by simp, rfl, ?_⟩
        intro j hj
        rcases List.mem_append.mp hj with hj | hj
        · exact (hmax j hj).trans hnew.le
        · exact (List.mem_singleton.mp hj).le
      · have hki : k ≤ i := not_lt.mp hnew
        have hall : ∀ j ∈ ks ++ [k], j ≤ i := by
          intro j hj
          rcases List.mem_append.mp hj with hj | hj
          · exact hmax j hj
          · rw [List.mem_singleton.mp hj]
            exact hki
        refine ⟨i, by simp [hi], ?_, hall⟩
        by_cases h : (deliver d st ks).Due tx.cfg w k
        · have hik : i.val ≤ k.val := (h i hhead).1
          have hsame : k = i := le_antisymm hki hik
          rw [hdue h, hsame]
          rfl
        · rw [hnot h]
          exact hhead

end Run
end Receiver

/-- The window of a receiver: its multiplier is at least one. -/
def replayWindow (detectMult : UInt8) : ℕ := 3 * (max detectMult 1).toNat

/-- However the datagrams of a run are lost, repeated and reordered, the numbers that a receiver accepts go forward, and
under the meticulous types none comes twice. A datagram that comes after all before it is accepted unless too many in a row
were lost, and what is rejected changes nothing. -/
theorem replay_law (d : Digests) (c : AuthConfig) (hkeyed : c.authType ≠ .simplePassword) (detectMult txMult : UInt8)
    (start : UInt32) (mands : List (Vector UInt8 24)) (hrun : mands.length < 2 ^ 32 - replayWindow detectMult)
    (ks : List (Fin (AuthState.sent d { c.newState txMult with xmitSeq := start } mands).length)) :
    let r := Receiver.deliver d (c.newState detectMult) ks
    r.accepted.Pairwise (· ≥ ·) ∧
    (c.authType.meticulous = true → r.accepted.Pairwise (· > ·)) ∧
    (r.st.rxSeq = r.accepted.head?.map fun i => AuthState.seqAt start i.val) ∧
    (∀ k : Fin _, (r.st.verifyWith d (AuthState.sent d { c.newState txMult with xmitSeq := start } mands)[k]).2 = true ↔
      r.Due c (replayWindow detectMult) k) ∧
    (∀ k : Fin _, Receiver.Gapless (replayWindow detectMult) (ks ++ [k]) → (∀ i ∈ ks, i < k) →
      (r.st.verifyWith d (AuthState.sent d { c.newState txMult with xmitSeq := start } mands)[k]).2 = true) ∧
    ∀ buf, (r.st.verifyWith d buf).2 = false → (r.st.verifyWith d buf).1 = r.st := by
  intro r
  have hw : mands.length + replayWindow detectMult < 2 ^ 32 := by omega
  have hcfg : (c.newState detectMult).cfg = ({ c.newState txMult with xmitSeq := start } : AuthState).cfg := rfl
  have hr := Receiver.Follows.deliver d hkeyed hw hcfg rfl rfl ks
  have hiff := fun k => Receiver.verifyWith_sent d hkeyed hw hr k
  refine ⟨hr.forward, hr.once, hr.rxSeq, fun k => (hiff k).1, ?_, AuthState.verifyWith_of_rejected d r.st⟩
  intro k hgap hnew
  refine ((hiff k).1).mpr ?_
  intro i hi
  cases hks : ks with
  | nil =>
    subst hks
    cases hi
  | cons j js =>
    have hne : ks ≠ [] := by simp [hks]
    obtain ⟨i', hi', hhead, hmax⟩ : ∃ i ∈ ks, r.accepted.head? = some i ∧ ∀ j ∈ ks, j ≤ i :=
      Receiver.newest_of_gapless d hkeyed hw hcfg rfl rfl hgap.of_append hne
    obtain rfl : i' = i := Option.some.inj (hhead.symm.trans hi)
    obtain ⟨l, hl, hlost⟩ := hgap ks k [] rfl hne hnew
    have hli : l.val ≤ i'.val := hmax l hl
    have hik : i'.val < k.val := hnew i' hi'
    exact ⟨by omega, by omega, fun _ => ne_of_lt (hnew i' hi')⟩

/-- Three datagrams across the wrap, the last two in the other order. -/
theorem replay_law_wrap :
    (@Receiver.deliver .code
      (AuthState.sent .code { AuthConfig.newState ⟨.meticulousKeyedSha1, 1, [7]⟩ 3 with xmitSeq := 0xfffffffe }
        (List.replicate 3 (Vector.replicate 24 0)))
      (AuthConfig.newState ⟨.meticulousKeyedSha1, 1, [7]⟩ 3)
      [⟨0, by simp⟩, ⟨2, by simp⟩, ⟨1, by simp⟩]).accepted.Pairwise (· > ·) :=
  (replay_law .code ⟨.meticulousKeyedSha1, 1, [7]⟩ (by decide) 3 3 0xfffffffe (List.replicate 3 (Vector.replicate 24 0))
    (by decide) [⟨0, by simp⟩, ⟨2, by simp⟩, ⟨1, by simp⟩]).2.1 rfl

end Wren.Bfd
