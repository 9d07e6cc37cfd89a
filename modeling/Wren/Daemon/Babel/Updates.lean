import Wren.Daemon.Babel.Runner

/-! What the Updates of a packet stand for, and that cutting a stream of them into packets keeps it. -/

namespace Wren.Daemon.Babel
open Std OrdMap Wren.Core Wren.Babel Octets

/-- The originator in scope after some records. -/
def scopeAfter (scope : Option RouterId) : List Tlv → Option RouterId
  | [] => scope
  | .routerId id :: tlvs => scopeAfter (some id) tlvs
  | _ :: tlvs => scopeAfter scope tlvs

/-- The Updates with their originators. One that has none in scope is dropped. -/
def attributed (scope : Option RouterId) : List Tlv → List Advert
  | [] => []
  | .routerId id :: tlvs => attributed (some id) tlvs
  | .update _ _ seqno metric pfx :: tlvs =>
    (scope.map fun id => ⟨id, seqno, metric, pfx⟩).toList ++ attributed scope tlvs
  | _ :: tlvs => attributed scope tlvs

theorem scopeAfter_append (scope : Option RouterId) (l m : List Tlv) :
    scopeAfter scope (l ++ m) = scopeAfter (scopeAfter scope l) m := by
  induction l generalizing scope with
  | nil => rfl
  | cons t l ih =>
    cases t <;> exact ih _

theorem attributed_append (scope : Option RouterId) (l m : List Tlv) :
    attributed scope (l ++ m) = attributed scope l ++ attributed (scopeAfter scope l) m := by
  induction l generalizing scope with
  | nil => rfl
  | cons t l ih =>
    cases t with
    | update flags interval seqno metric pfx =>
      rw [List.cons_append, attributed, attributed, ih, List.append_assoc]
      rfl
    | _ => exact ih _

/-! Packets -/

namespace Chunking

/-- The packets carry what the stream so far does, and the last one goes on in the same scope. -/
structure Carries (c : Chunking) (done : List Tlv) : Prop where
  lastRid : c.lastRid = scopeAfter none done
  scope : scopeAfter none c.cur = c.lastRid
  adverts : c.packets.flatMap (attributed none) ++ attributed none c.cur = attributed none done

theorem carries_new : new.Carries [] := ⟨rfl, rfl, rfl⟩

theorem attributed_toList (id : Option RouterId) :
    attributed none (id.map Tlv.routerId).toList = [] ∧ scopeAfter none (id.map Tlv.routerId).toList = id := by
  cases id with
  | none => exact ⟨rfl, rfl⟩
  | some id => exact ⟨rfl, rfl⟩

theorem lastRid_turn (c : Chunking) : c.turn.lastRid = c.lastRid := by
  unfold turn
  split_ifs
  · rfl
  · rfl

theorem adverts_turn (c : Chunking) :
    c.turn.packets.flatMap (attributed none) ++ attributed none c.turn.cur =
      c.packets.flatMap (attributed none) ++ attributed none c.cur := by
  unfold turn
  split_ifs
  · simp [(attributed_toList c.lastRid).1]
  · rfl

theorem scopeAfter_turn {c : Chunking} (h : scopeAfter none c.cur = c.lastRid) :
    scopeAfter none c.turn.cur = c.lastRid := by
  unfold turn
  split_ifs
  · exact (attributed_toList c.lastRid).2
  · exact h

/-- What a record adds at the end of a packet it adds at the end of the stream. -/
theorem Carries.push {c : Chunking} {done : List Tlv} (h : c.Carries done) (tlv : Tlv) (n : ℕ) :
    Carries { c with cur := c.cur ++ [tlv], lastRid := scopeAfter c.lastRid [tlv], updatesInCur := n }
      (done ++ [tlv]) := by
  refine ⟨?_, ?_, ?_⟩
  · rw [scopeAfter_append, ← h.lastRid]
  · rw [scopeAfter_append, h.scope]
  · rw [attributed_append, attributed_append, h.scope, ← h.lastRid, ← List.append_assoc, h.adverts]

theorem Carries.turn {c : Chunking} {done : List Tlv} (h : c.Carries done) : c.turn.Carries done where
  lastRid := (lastRid_turn c).trans h.lastRid
  scope := (scopeAfter_turn h.scope).trans (lastRid_turn c).symm
  adverts := (adverts_turn c).trans h.adverts

theorem Carries.put {c : Chunking} {done : List Tlv} (h : c.Carries done) (tlv : Tlv) :
    (c.put tlv).Carries (done ++ [tlv]) := by
  cases tlv with
  | routerId id =>
    have hadverts := adverts_turn { c with lastRid := some id }
    have hlast := lastRid_turn { c with lastRid := some id }
    refine ⟨?_, ?_, ?_⟩
    · rw [scopeAfter_append]
      exact hlast
    · exact (scopeAfter_append none _ _).trans hlast.symm
    · calc (c.put (.routerId id)).packets.flatMap (attributed none) ++ attributed none (c.put (.routerId id)).cur
          = ({ c with lastRid := some id } : Chunking).turn.packets.flatMap (attributed none) ++
              attributed none ({ c with lastRid := some id } : Chunking).turn.cur := by
            simp only [Chunking.put, attributed_append, attributed, List.append_nil]
        _ = attributed none done := hadverts.trans h.adverts
        _ = attributed none (done ++ [.routerId id]) := by
            rw [attributed_append, attributed, attributed, List.append_nil]
  | _ => exact h.turn.push _ _

theorem carries_foldl (tlvs : List Tlv) : (tlvs.foldl put new).Carries tlvs := by
  induction tlvs using List.reverseRecOn with
  | nil => exact carries_new
  | append_singleton tlvs tlv ih =>
    rw [List.foldl_concat]
    exact ih.put tlv

end Chunking

/-- Read one packet after another, the Updates are the ones of the stream, with their originators. -/
theorem attributed_chunkUpdates (tlvs : List Tlv) :
    (chunkUpdates tlvs).flatMap (attributed none) = attributed none tlvs := by
  have h := (Chunking.carries_foldl tlvs).adverts
  unfold chunkUpdates
  dsimp only
  split_ifs with hempty
  · rwa [List.isEmpty_iff.mp hempty, attributed, List.append_nil] at h
  · rwa [List.flatMap_append, List.flatMap_singleton]

/-! The stream of a table -/

/-- A Router-ID stands only where the originator changes. -/
def stream (scope : Option RouterId) : List Advert → List Tlv
  | [] => []
  | a :: as =>
    (if scope ≠ some a.routerId then [.routerId a.routerId] else []) ++
      .update 0 updateInterval a.seqno a.metric a.pfx :: stream (some a.routerId) as

theorem attributed_stream (scope : Option RouterId) (as : List Advert) : attributed scope (stream scope as) = as := by
  induction as generalizing scope with
  | nil => rfl
  | cons a as ih =>
    rw [stream]
    split_ifs with hscope
    · simp [attributed, ih]
    · simp [attributed, ih, not_not.mp hscope]

theorem foldl_pushUpdate (as : List Advert) (out : Option RouterId × List Tlv) :
    (as.foldl pushUpdate out).2 = out.2 ++ stream out.1 as := by
  induction as generalizing out with
  | nil => exact (List.append_nil _).symm
  | cons a as ih =>
    rw [List.foldl_cons, ih, stream]
    unfold pushUpdate
    dsimp only
    split_ifs
    · simp
    · simp

theorem buildUpdateTlvs_eq_stream (s : State) : buildUpdateTlvs s = stream none s.adverts := by
  rw [buildUpdateTlvs, foldl_pushUpdate, List.nil_append]

/-- A record that such a stream consists of. -/
inductive Announcement : Tlv → Prop
  | routerId (id : RouterId) : Announcement (.routerId id)
  | update (interval seqno metric : UInt16) (pfx : Prefix) : Announcement (.update 0 interval seqno metric pfx)

def isUpdate : Tlv → Bool
  | .update .. => true
  | _ => false

/-- At most two records for each Update, and one before them. -/
structure Small (tlvs : List Tlv) (updates : ℕ) : Prop where
  count : tlvs.countP isUpdate = updates
  length_le : tlvs.length ≤ 2 * updates + 1
  updates_le : updates ≤ maxUpdatesPerPacket
  records : ∀ t ∈ tlvs, Announcement t

namespace Chunking

structure Fits (c : Chunking) : Prop where
  cur : Small c.cur c.updatesInCur
  packets : ∀ p ∈ c.packets, ∃ n, Small p n

theorem fits_new : new.Fits := ⟨⟨rfl, by decide, by decide, by simp [new]⟩, by simp [new]⟩

theorem small_toList (id : Option RouterId) : Small (id.map Tlv.routerId).toList 0 := by
  cases id with
  | none => exact ⟨rfl, by simp, by decide, by simp⟩
  | some id => exact ⟨rfl, by simp, by decide, by simp [Announcement.routerId]⟩

/-- After the turn there is room for one more Update. -/
theorem Fits.turn {c : Chunking} (h : c.Fits) : c.turn.Fits ∧ c.turn.updatesInCur < maxUpdatesPerPacket := by
  unfold Chunking.turn
  split_ifs with hfull
  · refine ⟨⟨small_toList c.lastRid, ?_⟩, (by decide : 0 < maxUpdatesPerPacket)⟩
    intro p hp
    rcases List.mem_append.mp hp with hp | hp
    · exact h.packets p hp
    · rw [List.mem_singleton.mp hp]
      exact ⟨_, h.cur⟩
  · exact ⟨h, Nat.not_le.mp hfull⟩

/-- With room for it there is no turn before an Update. -/
theorem turn_of_lt {c : Chunking} (h : c.updatesInCur < maxUpdatesPerPacket) : c.turn = c := by
  unfold turn
  rw [if_neg (Nat.not_le.mpr h)]

theorem Fits.putUpdate {c : Chunking} (h : c.Fits) (a : Advert) :
    (c.put (.update 0 updateInterval a.seqno a.metric a.pfx)).Fits := by
  obtain ⟨hturn, hroom⟩ := h.turn
  refine ⟨⟨?_, ?_, hroom, ?_⟩, hturn.packets⟩
  · simp [put, hturn.cur.count, isUpdate]
  · have hlen := hturn.cur.length_le
    simp only [put, List.length_append, List.length_singleton]
    omega
  · intro t ht
    rcases List.mem_append.mp ht with ht | ht
    · exact hturn.cur.records t ht
    · rw [List.mem_singleton.mp ht]
      exact .update _ _ _ _

/-- A new originator and its first Update go into the same packet. -/
theorem Fits.putBoth {c : Chunking} (h : c.Fits) (a : Advert) :
    ((c.put (.routerId a.routerId)).put (.update 0 updateInterval a.seqno a.metric a.pfx)).Fits := by
  have hfits : ({ c with lastRid := some a.routerId } : Chunking).Fits := ⟨h.cur, h.packets⟩
  obtain ⟨hturn, hroom⟩ := hfits.turn
  have hsame : (c.put (.routerId a.routerId)).turn = c.put (.routerId a.routerId) := turn_of_lt hroom
  refine ⟨⟨?_, ?_, ?_, ?_⟩, ?_⟩
  · simp only [put.eq_def _ (.update ..), hsame]
    simp [put, hturn.cur.count, isUpdate]
  · have hlen := hturn.cur.length_le
    simp only [put.eq_def _ (.update ..), hsame]
    simp only [put, List.length_append, List.length_singleton]
    omega
  · simp only [put.eq_def _ (.update ..), hsame]
    exact hroom
  · simp only [put.eq_def _ (.update ..), hsame]
    intro t ht
    rcases List.mem_append.mp ht with ht | ht
    · rcases List.mem_append.mp ht with ht | ht
      · exact hturn.cur.records t ht
      · rw [List.mem_singleton.mp ht]
        exact .routerId _
    · rw [List.mem_singleton.mp ht]
      exact .update _ _ _ _
  · simp only [put.eq_def _ (.update ..), hsame]
    exact hturn.packets

theorem lastRid_put (c : Chunking) (tlv : Tlv) : (c.put tlv).lastRid = scopeAfter c.lastRid [tlv] := by
  cases tlv <;> exact lastRid_turn _

theorem Fits.foldl_stream {c : Chunking} (h : c.Fits) (as : List Advert) : ((stream c.lastRid as).foldl put c).Fits := by
  induction as generalizing c with
  | nil => exact h
  | cons a as ih =>
    have hscope : ∀ d : Chunking, (d.put (.update 0 updateInterval a.seqno a.metric a.pfx)).lastRid = d.lastRid :=
      fun d => lastRid_put d _
    rw [stream, List.foldl_append, List.foldl_cons]
    split_ifs with hrid
    · have hrest := ih (h.putBoth a)
      rw [hscope, lastRid_put] at hrest
      exact hrest
    · have hrest := ih (h.putUpdate a)
      rw [hscope, not_not.mp hrid] at hrest
      exact hrest

end Chunking

theorem small_of_mem_chunkUpdates {as : List Advert} {p : List Tlv} (h : p ∈ chunkUpdates (stream none as)) :
    ∃ n, Small p n := by
  have hfits := Chunking.fits_new.foldl_stream as
  unfold chunkUpdates at h
  dsimp only at h
  split_ifs at h
  · exact hfits.packets p h
  · rcases List.mem_append.mp h with h | h
    · exact hfits.packets p h
    · rw [List.mem_singleton.mp h]
      exact ⟨_, hfits.cur⟩

theorem length_encode_le {t : Tlv} (h : t.Bounded) : t.encode.length ≤ 257 := by
  have hle := Tlv.length_encodeBody_le h
  cases t with
  | pad1 => simp [Tlv.encode]
  | _ => exact Nat.add_le_add_right hle 2

/-- The records of such a packet come back as they are. -/
theorem Small.decode_encode {p : List Tlv} {n : ℕ} (h : Small p n) : Packet.decode (Packet.encode ⟨p⟩) = .ok ⟨p⟩ := by
  have hbounded : ∀ t ∈ p, t.Bounded := by
    intro t ht
    cases h.records t ht with
    | routerId id => trivial
    | update interval seqno metric pfx => trivial
  have hreceived : p.map Tlv.received = p := by
    conv_rhs => rw [← List.map_id p]
    apply List.map_congr_left
    intro t ht
    cases h.records t ht with
    | routerId id => rfl
    | update interval seqno metric pfx => rfl
  have hlen : (Packet.encodedBody ⟨p⟩).length ≤ p.length * 257 := by
    rw [Packet.encodedBody, List.length_flatMap]
    have hsum := List.sum_le_card_nsmul (p.map fun t => t.encode.length) 257 (by
      intro n hn
      obtain ⟨t, ht, rfl⟩ := List.mem_map.mp hn
      exact length_encode_le (hbounded t ht))
    simpa using hsum
  have hshort : p.length ≤ 81 := by
    have hle := h.length_le
    have hmax := h.updates_le
    rw [maxUpdatesPerPacket] at hmax
    omega
  rw [Packet.decode_encode _ hbounded (by omega), hreceived]

/-- What a packet advertises to a reader, if it is well formed. -/
def advertised (octets : List UInt8) : List Advert :=
  match Packet.decode octets with
  | .ok pkt => attributed none pkt.body
  | .error _ => []

/-- The packets of one round of Updates, on each interface the same. -/
def roundPackets (s : State) : List (List UInt8) :=
  (chunkUpdates (buildUpdateTlvs s)).map fun chunk => Packet.encode ⟨chunk⟩

/-- A round of Updates sends the same packets out of each interface. Whoever reads all of them is told of each route
that the state stands for under its originator, in order, and of nothing else; and no packet has more Updates than
the cap. -/
theorem round_advertises (ifaces : List Iface) (s : State) :
    (sendUpdates ifaces s).2 = ifaces.flatMap (fun iface => (roundPackets s).map fun p => .send iface.ifindex p) ∧
    (roundPackets s).flatMap advertised = s.adverts ∧
    ∀ p ∈ roundPackets s, ∃ tlvs, Packet.decode p = .ok ⟨tlvs⟩ ∧
      tlvs.countP isUpdate ≤ maxUpdatesPerPacket := by
  have hmem : ∀ chunk ∈ chunkUpdates (buildUpdateTlvs s), ∃ n, Small chunk n := by
    rw [buildUpdateTlvs_eq_stream]
    exact fun chunk h => small_of_mem_chunkUpdates h
  refine ⟨?_, ?_, ?_⟩
  · have hnil : chunkUpdates [] = [] := rfl
    simp only [sendUpdates, sendChunks, roundPackets, List.map_map]
    split_ifs with hempty
    · rw [List.isEmpty_iff.mp hempty, hnil]
      simp
    · rfl
  · calc (roundPackets s).flatMap advertised
        = (chunkUpdates (buildUpdateTlvs s)).flatMap fun chunk => advertised (Packet.encode ⟨chunk⟩) := by
          rw [roundPackets, List.flatMap_map]
      _ = (chunkUpdates (buildUpdateTlvs s)).flatMap (attributed none) := by
          apply List.flatMap_congr
          intro chunk hchunk
          obtain ⟨n, hsmall⟩ := hmem chunk hchunk
          rw [advertised, hsmall.decode_encode]
      _ = s.adverts := by rw [attributed_chunkUpdates, buildUpdateTlvs_eq_stream, attributed_stream]
  · intro p hp
    obtain ⟨chunk, hchunk, rfl⟩ := List.mem_map.mp hp
    obtain ⟨n, hsmall⟩ := hmem chunk hchunk
    refine ⟨chunk, hsmall.decode_encode, ?_⟩
    rw [hsmall.count]
    exact hsmall.updates_le

/-- There is nothing to be read out of a record that is not whole. -/
theorem eq_nil_of_decodeBody_cut {t : Tlv} (h : t.Bounded) {ctx : Compress} {n : ℕ} (hn : n < t.encode.length)
    {tlvs : List Tlv} (hdecode : Packet.decodeBody ctx (t.encode.take n) = .ok tlvs) : tlvs = [] := by
  cases n with
  | zero =>
    rw [List.take_zero, Packet.decodeBody] at hdecode
    cases hdecode
    rfl
  | succ n =>
    have hpad : t ≠ .pad1 := by
      rintro rfl
      simp [Tlv.encode] at hn
    have henc : t.encode = t.tlvType :: UInt8.ofNat t.encodeBody.length :: t.encodeBody := by
      cases t with
      | pad1 => exact absurd rfl hpad
      | _ => rfl
    have hlen : (UInt8.ofNat t.encodeBody.length).toNat = t.encodeBody.length := by
      have hle := Tlv.length_encodeBody_le h
      simp only [UInt8.toNat_ofNat']
      omega
    rw [henc, List.take_succ_cons, Packet.decodeBody.eq_def] at hdecode
    simp only [if_neg (Tlv.tlvType_ne_typePad1 hpad h)] at hdecode
    cases n with
    | zero =>
      simp only [List.take_zero] at hdecode
      cases hdecode
    | succ n =>
      have hshort : ¬ t.encodeBody.length ≤ (t.encodeBody.take n).length := by
        rw [henc] at hn
        simp only [List.length_cons] at hn
        rw [List.length_take]
        omega
      simp only [List.take_succ_cons, hlen, if_neg hshort] at hdecode
      cases hdecode

/-- The records that are read out of the front of a body are the first of it. -/
theorem prefix_of_decodeBody {l : List Tlv} (h : ∀ t ∈ l, t.Bounded) {ctx : Compress} {n : ℕ} {tlvs : List Tlv}
    (hdecode : Packet.decodeBody ctx ((l.flatMap Tlv.encode).take n) = .ok tlvs) : tlvs <+: l.map Tlv.received := by
  induction l generalizing ctx n tlvs with
  | nil =>
    rw [List.flatMap_nil, List.take_nil, Packet.decodeBody] at hdecode
    cases hdecode
    exact List.nil_prefix
  | cons t l ih =>
    have ht : t.Bounded := h t (by simp)
    rw [List.flatMap_cons] at hdecode
    by_cases hn : t.encode.length ≤ n
    · rw [List.take_append, List.take_of_length_le hn, Packet.decodeBody_encode_append ht] at hdecode
      cases hrest : Packet.decodeBody (t.setsDefault ctx) ((l.flatMap Tlv.encode).take (n - t.encode.length)) with
      | error e =>
        rw [hrest] at hdecode
        cases hdecode
      | ok rest =>
        rw [hrest] at hdecode
        cases hdecode
        exact (List.prefix_cons_inj _).mpr (ih (fun t' ht' => h t' (by simp [ht'])) hrest)
    · have hlt := Nat.not_le.mp hn
      rw [List.take_append_of_le_length hlt.le] at hdecode
      rw [eq_nil_of_decodeBody_cut ht hlt hdecode]
      exact List.nil_prefix

/-- However long a packet was, and wherever it was cut off: what is read of it are the first of its records. -/
theorem prefix_of_decode {l : List Tlv} (h : ∀ t ∈ l, t.Bounded) {n : ℕ} {pkt : Packet}
    (hdecode : Packet.decode ((Packet.encode ⟨l⟩).take n) = .ok pkt) : pkt.body <+: l.map Tlv.received := by
  obtain ⟨b₁, b₀, hdigits⟩ : ∃ b₁ b₀, digits 2 ((Packet.encodedBody ⟨l⟩).length % 2 ^ 16) = [b₁, b₀] := ⟨_, _, rfl⟩
  have hencode : Packet.encode ⟨l⟩ = magic :: version :: b₁ :: b₀ :: l.flatMap Tlv.encode := by
    rw [Packet.encode, hdigits]
    rfl
  rw [hencode] at hdecode
  by_cases hn : n < 4
  · have hshort : n = 0 ∨ n = 1 ∨ n = 2 ∨ n = 3 := by omega
    rcases hshort with rfl | rfl | rfl | rfl <;> simp [Packet.decode] at hdecode
  · obtain ⟨n, rfl⟩ : ∃ m, n = m + 4 := ⟨n - 4, by omega⟩
    have htake : (magic :: version :: b₁ :: b₀ :: l.flatMap Tlv.encode).take (n + 4) =
        magic :: version :: b₁ :: b₀ :: (l.flatMap Tlv.encode).take n := rfl
    rw [htake] at hdecode
    simp only [Packet.decode, ne_eq, not_true_eq_false, if_false] at hdecode
    split_ifs at hdecode
    rw [List.take_take] at hdecode
    cases hbody : Packet.decodeBody {} ((l.flatMap Tlv.encode).take (min (value [b₁, b₀]) n)) with
    | error e =>
      rw [hbody] at hdecode
      cases hdecode
    | ok tlvs =>
      rw [hbody] at hdecode
      cases hdecode
      exact prefix_of_decodeBody h hbody

end Wren.Daemon.Babel
