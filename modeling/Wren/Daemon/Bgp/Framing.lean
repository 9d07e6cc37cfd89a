import Wren.Bgp.Message
import Wren.Lib.Run

/-! How a session cuts the octets of its TCP connection into messages, when its read may be dropped
half way for a timer or a command. -/

namespace Wren.Daemon.Bgp
open Wren.Bgp Octets

/-- The octets of one encoded message. -/
def Encoded (f : List UInt8) : Prop :=
  ∃ (m : Message) (four : Bool) (addPath : AddPath), f = m.encode four addPath ∧ f.length ≤ maxMessageLen

/-- The receiving half of a connection. `taken` is the buffer of the `read_message` under way. -/
structure Reader where
  stream : List UInt8
  arrived : List UInt8 := []
  taken : List UInt8 := []
  handled : List (List UInt8) := []
  dropped : List UInt8 := []
  failed : Bool := false
deriving DecidableEq

/-- What wakes the session. -/
inductive Wake where
  | arrival (n : ℕ)
  | readable (four : Bool) (addPath : AddPath)
  | other
deriving DecidableEq

namespace Reader

/-- `read_exact` up to `n` octets in all, as far as there are any. -/
def fill (r : Reader) (n : ℕ) : Reader :=
  let k := n - r.taken.length
  { r with taken := r.taken ++ r.arrived.take k, arrived := r.arrived.drop k }

/-- The length a header states, if the header is good. -/
def statedLen (header : List UInt8) : Option ℕ :=
  let len := value ((header.drop 16).take 2)
  if header.take 16 ≠ marker then none
  else if headerLen ≤ len ∧ len ≤ maxMessageLen then some len
  else none

/-- One poll of `read_message`: it goes on until it wants more octets than have arrived. -/
def poll (fmt : FamilyFormats) (four : Bool) (addPath : AddPath) (r : Reader) : Reader :=
  let h := r.fill headerLen
  if h.taken.length < headerLen then h
  else
    match statedLen h.taken with
    | none => { h with failed := true }
    | some len =>
      let b := h.fill len
      if b.taken.length < len then b
      else
        match Message.decode fmt four addPath b.taken with
        | .error _ => { b with failed := true }
        | .ok _ => { b with taken := [], handled := b.handled ++ [b.taken] }

/-- Any other branch of `select!` drops the read and all it has taken. A failed read ends the session. -/
def step (fmt : FamilyFormats) (r : Reader) (w : Wake) : Reader :=
  if r.failed then r
  else
    match w with
    | .arrival n => { r with arrived := r.arrived ++ r.stream.take n, stream := r.stream.drop n }
    | .readable four addPath => r.poll fmt four addPath
    | .other => { r with taken := [], dropped := r.dropped ++ r.taken }

def start (wire : List (List UInt8)) : Reader := { stream := wire.flatten }

/-- Only whole messages in their order have been handled, and no octet is lost. -/
def Sound (wire : List (List UInt8)) (r : Reader) : Prop := r.handled <+: wire ∧ r.dropped = []

end Reader

/-- The shape all encoded messages have. -/
structure IsFrame (f : List UInt8) : Prop where
  min : headerLen ≤ f.length
  max : f.length ≤ maxMessageLen
  marker : f.take 16 = marker
  len : value ((f.drop 16).take 2) = f.length

theorem Encoded.isFrame {f : List UInt8} (h : Encoded f) : IsFrame f := by
  obtain ⟨m, four, addPath, rfl, hmax⟩ := h
  let body := m.encodeBody four addPath
  have hbuf : m.encode four addPath =
      Wren.Bgp.marker ++ (digits 2 (headerLen + body.length) ++ ([m.messageType.asU8] ++ body)) := by
    simp [Message.encode, body]
  have hmarker : Wren.Bgp.marker.length = 16 := rfl
  have hlen : (m.encode four addPath).length = headerLen + body.length := by
    rw [hbuf]
    simp only [List.length_append, hmarker, length_digits, List.length_singleton, headerLen]
    omega
  refine ⟨by omega, hmax, ?_, ?_⟩
  · rw [hbuf]
    exact List.take_left' hmarker
  · have hlt : headerLen + body.length < 256 ^ 2 := by
      have : maxMessageLen = 4096 := rfl
      omega
    rw [hlen, hbuf, List.drop_left' hmarker, List.take_left' (length_digits 2 _)]
    exact value_digits_of_lt hlt

namespace Reader

@[simp] theorem fill_append (r : Reader) (n : ℕ) :
    (r.fill n).taken ++ (r.fill n).arrived = r.taken ++ r.arrived := by
  simp [fill]

theorem length_fill (r : Reader) (n : ℕ) (h : r.taken.length ≤ n) : (r.fill n).taken.length ≤ n := by
  simp only [fill, List.length_append, List.length_take]
  omega

/-- Where the octets of a frame come first, a long enough start of them has its header. -/
theorem statedLen_of_frame {f t x r : List UInt8} (hf : IsFrame f) (h : t ++ x = f ++ r)
    (hmin : headerLen ≤ t.length) : statedLen t = some f.length := by
  have hh : headerLen = 19 := rfl
  have hfmin := hf.min
  have htake : ∀ k ≤ headerLen, t.take k = f.take k := by
    intro k hk
    have hsame := congrArg (List.take k) h
    rwa [List.take_append_of_le_length (by omega), List.take_append_of_le_length (by omega)] at hsame
  have hlen : (t.drop 16).take 2 = (f.drop 16).take 2 := by
    have hsplit : ∀ l : List UInt8, (l.drop 16).take 2 = (l.take 18).drop 16 := by
      intro l
      rw [List.drop_take]
    rw [hsplit, hsplit, htake 18 (by omega)]
  simp only [statedLen, htake 16 (by omega), hf.marker, hlen, hf.len]
  simp [hf.min, hf.max]

/-- The messages not yet handled are in the reader, in the socket and on the way. -/
def Sync (wire : List (List UInt8)) (r : Reader) : Prop :=
  ∃ rest, wire = r.handled ++ rest ∧ r.taken ++ r.arrived ++ r.stream = rest.flatten ∧
    (r.failed = false → r.taken = [] ∨ ∃ f rest', rest = f :: rest' ∧ r.taken.length < f.length)

@[simp] theorem dropped_poll (fmt : FamilyFormats) (four : Bool) (addPath : AddPath) (r : Reader) :
    (r.poll fmt four addPath).dropped = r.dropped := by
  simp only [poll]
  split_ifs
  · rfl
  · cases statedLen (r.fill headerLen).taken with
    | none => rfl
    | some len =>
      dsimp only
      split_ifs
      · rfl
      · cases Message.decode fmt four addPath ((r.fill headerLen).fill len).taken with
        | error e => rfl
        | ok m => rfl

/-- A poll stays inside the message it reads, or hands it on whole. -/
theorem sync_poll {wire : List (List UInt8)} (hwire : ∀ f ∈ wire, IsFrame f) (fmt : FamilyFormats) (four : Bool)
    (addPath : AddPath) {r : Reader} (hr : r.failed = false) (h : r.Sync wire) :
    (r.poll fmt four addPath).Sync wire := by
  obtain ⟨rest, hsent, hoctets, hpos⟩ := h
  have hheader : headerLen = 19 := rfl
  cases rest with
  | nil =>
    obtain ⟨htaken, harrived, -⟩ : r.taken = [] ∧ r.arrived = [] ∧ r.stream = [] := by simpa using hoctets
    have hfill : r.fill headerLen = r := by
      cases r
      simp_all [fill]
    have hshort : r.taken.length < headerLen := by
      rw [htaken, hheader]
      decide
    simp only [poll, hfill, if_pos hshort]
    exact ⟨[], hsent, hoctets, fun _ => .inl htaken⟩
  | cons f rest =>
    have hf : IsFrame f := hwire f (by simp [hsent])
    have hmin := hf.min
    have hlt : r.taken.length < f.length := by
      rcases hpos hr with hnil | ⟨f', rest', heq, hlt⟩
      · rw [hnil, List.length_nil]
        omega
      · cases heq
        exact hlt
    have hstay : ∀ t : Reader, t.handled = r.handled → t.stream = r.stream →
        t.taken ++ t.arrived = r.taken ++ r.arrived → (t.failed = false → t.taken.length < f.length) →
        t.Sync wire := by
      intro t hh hs ho hl
      refine ⟨f :: rest, by rw [hh, hsent], by rw [ho, hs, hoctets], ?_⟩
      intro hfail
      exact .inr ⟨f, rest, rfl, hl hfail⟩
    simp only [poll]
    by_cases hshort : (r.fill headerLen).taken.length < headerLen
    · rw [if_pos hshort]
      exact hstay _ rfl rfl (fill_append r headerLen) (fun _ => by omega)
    have hsplit : (r.fill headerLen).taken ++ ((r.fill headerLen).arrived ++ r.stream) = f ++ rest.flatten := by
      rw [← List.append_assoc, fill_append, hoctets, List.flatten_cons]
    have hstated := statedLen_of_frame hf hsplit (by omega)
    simp only [if_neg hshort, hstated]
    have hle : (r.fill headerLen).taken.length ≤ f.length := by
      simp only [fill, List.length_append, List.length_take]
      omega
    have hbody := (fill_append (r.fill headerLen) f.length).trans (fill_append r headerLen)
    by_cases hmore : ((r.fill headerLen).fill f.length).taken.length < f.length
    · rw [if_pos hmore]
      exact hstay _ rfl rfl hbody (fun _ => hmore)
    rw [if_neg hmore]
    have hwhole : ((r.fill headerLen).fill f.length).taken ++
        (((r.fill headerLen).fill f.length).arrived ++ r.stream) = f ++ rest.flatten := by
      rw [← List.append_assoc, hbody, hoctets, List.flatten_cons]
    have hlen := length_fill (r.fill headerLen) f.length hle
    obtain ⟨htaken, hleft⟩ := List.append_inj hwhole (by omega)
    cases Message.decode fmt four addPath ((r.fill headerLen).fill f.length).taken with
    | error e => exact hstay _ rfl rfl hbody (fun hfail => by cases hfail)
    | ok m =>
      refine ⟨rest, ?_, ?_, fun _ => .inl rfl⟩
      · show wire = r.handled ++ [((r.fill headerLen).fill f.length).taken] ++ rest
        rw [htaken, hsent]
        simp
      · exact hleft

theorem sound_step_iff {wire : List (List UInt8)} {fmt : FamilyFormats} {r : Reader} (w : Wake)
    (hsync : (r.step fmt w).dropped = [] → (r.step fmt w).Sync wire) (hr : r.dropped = []) :
    (r.step fmt w).Sound wire ↔ (w = .other → r.failed = false → r.taken = []) := by
  have hsound : (r.step fmt w).Sound wire ↔ (r.step fmt w).dropped = [] := by
    refine ⟨fun h => h.2, fun h => ⟨?_, h⟩⟩
    obtain ⟨rest, hsent, -⟩ := hsync h
    exact ⟨rest, hsent.symm⟩
  rw [hsound]
  cases hfail : r.failed with
  | true => simp [step, hfail, hr]
  | false => cases w <;> simp [step, hfail, hr]

/-- As long as nothing was dropped, the reader is in step with the wire. -/
theorem sync_step {wire : List (List UInt8)} (hwire : ∀ f ∈ wire, IsFrame f) (fmt : FamilyFormats) {r : Reader}
    (w : Wake) (h : r.dropped = [] → r.Sync wire) (hd : (r.step fmt w).dropped = []) :
    (r.step fmt w).Sync wire := by
  unfold step at hd ⊢
  cases hfail : r.failed with
  | true =>
    simp only [hfail, if_true] at hd ⊢
    exact h hd
  | false =>
    simp only [hfail, Bool.false_eq_true, if_false] at hd ⊢
    cases w with
    | arrival n =>
      obtain ⟨rest, hsent, hoctets, hpos⟩ := h hd
      refine ⟨rest, hsent, ?_, fun _ => hpos hfail⟩
      rw [← hoctets]
      simp
    | readable four addPath => exact sync_poll hwire fmt four addPath hfail (h (by simpa using hd))
    | other =>
      obtain ⟨hdrop, htaken⟩ : r.dropped = [] ∧ r.taken = [] := by simpa using hd
      obtain ⟨rest, hsent, hoctets, -⟩ := h hdrop
      refine ⟨rest, hsent, ?_, fun _ => .inl rfl⟩
      simpa [htaken] using hoctets

/-- However the encoded messages arrive, only whole messages are handled and no octet is lost, exactly
as long as no timer or command finds a message half read. -/
theorem every_sound_iff (fmt : FamilyFormats) (wire : List (List UInt8)) (hwire : ∀ f ∈ wire, Encoded f)
    (ws : List Wake) :
    Run.Every (step fmt) (fun r w => (r.step fmt w).Sound wire) (start wire) ws ↔
      Run.Every (step fmt) (fun r w => w = .other → r.failed = false → r.taken = []) (start wire) ws := by
  have hframes : ∀ f ∈ wire, IsFrame f := fun f hf => (hwire f hf).isFrame
  refine Run.every_good_iff (fun r => r.dropped = [] → r.Sync wire) (Sound wire)
    (fun r w h _ hd => sync_step hframes fmt w h hd)
    (fun r w h _ hg => sound_step_iff w (fun hd => sync_step hframes fmt w h hd) hg.2)
    (Run.every_true _ _ _) ?_ ?_
  · intro _
    exact ⟨wire, rfl, rfl, fun _ => .inl rfl⟩
  · exact ⟨List.nil_prefix, rfl⟩

/-- A KEEPALIVE in two segments, and a timer after the second. -/
theorem every_sound_split_keepalive :
    Run.Every (step ⟨fun _ _ _ => none, fun _ => none, fun _ => none, fun _ => none⟩)
      (fun r w => (r.step ⟨fun _ _ _ => none, fun _ => none, fun _ => none, fun _ => none⟩ w).Sound
        [Message.keepalive.encode true ⟨false⟩])
      (start [Message.keepalive.encode true ⟨false⟩])
      [.arrival 10, .readable true ⟨false⟩, .arrival 9, .readable true ⟨false⟩, .other] := by
  refine (every_sound_iff _ _ ?_ _).mpr ?_
  · intro f hf
    rw [List.mem_singleton.mp hf]
    exact ⟨.keepalive, true, ⟨false⟩, rfl, by decide +kernel⟩
  · refine ⟨by simp, by simp, by simp, by simp, ?_, trivial⟩
    intro _ _
    decide +kernel

/-- A NOTIFICATION whose data look like a KEEPALIVE. -/
def nested : Message := .notification ⟨6, 2, Message.keepalive.encode true ⟨false⟩⟩

/-- The keepalive timer fires between two segments: the rest of the NOTIFICATION is handled as a
KEEPALIVE that was never sent. -/
theorem not_forall_every_sound :
    ¬ ∀ (fmt : FamilyFormats) (wire : List (List UInt8)), (∀ f ∈ wire, Encoded f) → ∀ ws : List Wake,
      Run.Every (step fmt) (fun r w => (r.step fmt w).Sound wire) (start wire) ws := by
  intro h
  have hwire : ∀ f ∈ [nested.encode true ⟨false⟩], Encoded f := by
    intro f hf
    rw [List.mem_singleton.mp hf]
    exact ⟨nested, true, ⟨false⟩, rfl, by decide +kernel⟩
  have hrun := h ⟨fun _ _ _ => none, fun _ => none, fun _ => none, fun _ => none⟩ _ hwire
    [.arrival 21, .readable true ⟨false⟩, .other, .arrival 19, .readable true ⟨false⟩]
  have hhandled := hrun.2.2.2.2.1.1
  revert hhandled
  decide +kernel

end Reader
end Wren.Daemon.Bgp
