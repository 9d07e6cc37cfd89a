import Wren.Ha.Wireguard

/-! The configuration that promotion installs in the end is the one that it found, with the endpoints of the snapshot, also
after attempts that were interrupted. -/

namespace Wren.Ha.Wireguard
open Text
open Wren.Filter (trim isWhitespace Blank)

/-! ### The endpoints that are written -/

/-- The characters of addresses and ports. -/
def addrChars : List Char := "0123456789abcdef.:[]".toList

def IsAddrText (s : List Char) : Prop := ∀ c ∈ s, c ∈ addrChars

instance (s : List Char) : Decidable (IsAddrText s) :=
  decidable_of_iff (s.all fun c => decide (c ∈ addrChars)) (by simp [IsAddrText])

/-- What addresses are written with, and that it is neither white space nor in the mark of a peer. -/
theorem addrChars_spec : ((∀ d < 16, Nat.digitChar d ∈ addrChars) ∧ '.' ∈ addrChars ∧ ':' ∈ addrChars) ∧
    IsAddrText ['0'] ∧ IsAddrText [':'] ∧ IsAddrText ['['] ∧ IsAddrText [']'] ∧ IsAddrText "::ffff:".toList ∧
    IsAddrText "::".toList ∧
    (addrChars.all fun c => !isWhitespace c && (c ≠ '\r' && (c ≠ '\n' && c ≠ 'P'))) = true := by
  decide +kernel

theorem IsAddrText.append {s t : List Char} (hs : IsAddrText s) (ht : IsAddrText t) : IsAddrText (s ++ t) := by
  intro c hc
  rcases List.mem_append.mp hc with hc | hc
  · exact hs c hc
  · exact ht c hc

theorem isAddrText_digitsText {base : ℕ} (hbase : 1 < base ∧ base ≤ 16) (n : ℕ) : IsAddrText (digitsText base n) := by
  obtain ⟨⟨hdigit, -⟩, hzero, -⟩ := addrChars_spec
  rw [digitsText]
  split_ifs with hn
  · exact hzero
  · intro c hc
    obtain ⟨d, hd, rfl⟩ := List.mem_map.mp hc
    have hlow := Nat.digits_lt_base hbase.1 (List.mem_reverse.mp hd)
    exact hdigit d (by omega)

theorem isAddrText_intercalate {sep : Char} (hsep : sep ∈ addrChars) {l : List (List Char)} (h : ∀ s ∈ l, IsAddrText s) :
    IsAddrText ([sep].intercalate l) := by
  induction l with
  | nil => simp [IsAddrText, List.intercalate]
  | cons s l ih =>
    have hl := ih fun t ht => h t (List.mem_cons_of_mem _ ht)
    cases l with
    | nil => simpa [List.intercalate] using h s List.mem_cons_self
    | cons t l =>
      rw [List.intercalate_cons_cons, List.append_assoc]
      refine (h s List.mem_cons_self).append (IsAddrText.append ?_ hl)
      intro c hc
      rw [List.mem_singleton.mp hc]
      exact hsep

theorem isAddrText_ipv4Text (octets : List UInt8) : IsAddrText (ipv4Text octets) := by
  refine isAddrText_intercalate addrChars_spec.1.2.1 ?_
  intro s hs
  obtain ⟨o, -, rfl⟩ := List.mem_map.mp hs
  exact isAddrText_digitsText ⟨by decide, by decide⟩ _

theorem isAddrText_groupsText (groups : List ℕ) : IsAddrText (groupsText groups) := by
  refine isAddrText_intercalate addrChars_spec.1.2.2 ?_
  intro s hs
  obtain ⟨g, -, rfl⟩ := List.mem_map.mp hs
  exact isAddrText_digitsText ⟨by decide, by decide⟩ _

theorem isAddrText_ipv6Text (octets : List UInt8) : IsAddrText (ipv6Text octets) := by
  obtain ⟨-, -, -, -, -, hmapped, hzeros, -⟩ := addrChars_spec
  unfold ipv6Text
  dsimp only
  split_ifs
  · exact hmapped.append (isAddrText_ipv4Text _)
  · exact ((isAddrText_groupsText _).append hzeros).append (isAddrText_groupsText _)
  · exact isAddrText_groupsText _

theorem socketAddrText_spec (port : UInt16) (ip : IpAddr) :
    IsAddrText (socketAddrText port ip) ∧ socketAddrText port ip ≠ [] := by
  have hport := @isAddrText_digitsText 10 ⟨by decide, by decide⟩ port.toNat
  obtain ⟨-, -, hcolon, hopen, hclose, -⟩ := addrChars_spec
  cases ip with
  | v4 octets =>
    refine ⟨(isAddrText_ipv4Text octets).append (hcolon.append hport), ?_⟩
    simp [socketAddrText]
  | v6 octets =>
    refine ⟨?_, by simp [socketAddrText]⟩
    rw [socketAddrText, List.cons_append]
    exact hopen.append ((isAddrText_ipv6Text octets).append (hclose.append (hcolon.append hport)))

/-- An endpoint that is found is a socket address. -/
theorem exists_of_endpointFrom {interface : List Char} {key : List UInt8} {es : List Endpoint} {e : List Char}
    (h : endpointFrom interface key es = .ok (some e)) : ∃ port ip, e = socketAddrText port ip := by
  induction es with
  | nil => cases h
  | cons x es ih =>
    rw [endpointFrom] at h
    cases hlast : x.interface.toList.findIdx? (· = 0) with
    | none => rw [hlast] at h; cases h
    | some last =>
      rw [hlast] at h
      dsimp only at h
      cases hname : x.name last with
      | error err => rw [hname] at h; cases h
      | ok name =>
        rw [hname] at h
        change (if _ then _ else _) = _ at h
        split_ifs at h with hpad hsame hport
        · cases haddr : x.addr with
          | error err => rw [haddr] at h; cases h
          | ok ip =>
            rw [haddr] at h
            change (if _ then _ else _) = _ at h
            split_ifs at h
            exact ⟨x.port, ip, (Option.some.inj (Except.ok.inj h)).symm⟩
        · exact ih h

theorem endpoint_spec {decode : List Char → Option (List UInt8)} {c : Cache} {interface key e : List Char}
    (h : endpoint decode c interface key = .ok (some e)) : IsAddrText e ∧ e ≠ [] := by
  unfold endpoint at h
  cases hdec : decode key with
  | none => rw [hdec] at h; cases h
  | some k =>
    rw [hdec] at h
    dsimp only at h
    split_ifs at h
    obtain ⟨port, ip, rfl⟩ := exists_of_endpointFrom h
    exact socketAddrText_spec port ip

/-! ### Lines of a peer -/

theorem blank_of_returns {b : List Char} (hb : ∀ c ∈ b, c = '\r') : Blank b := by
  intro c hc
  rw [hb c hc]
  decide

theorem trim_bare (l : List Char) : trim (bare l) = trim l := by
  obtain ⟨b, hb, hl⟩ := exists_eq_bare l
  conv_rhs => rw [hl, Filter.trim_append_right (blank_of_returns hb)]

theorem trim_chop (l : List Char) : trim (chop l) = trim l := by
  obtain ⟨b, hb, hl⟩ := exists_eq_chop l
  conv_rhs => rw [hl, Filter.trim_append_right (blank_of_returns hb)]

@[simp] theorem isBlank_bare (l : List Char) : isBlank (bare l) = isBlank l := by rw [isBlank, isBlank, trim_bare]
@[simp] theorem isBlank_chop (l : List Char) : isBlank (chop l) = isBlank l := by rw [isBlank, isBlank, trim_chop]
@[simp] theorem isKeepalive_bare (l : List Char) : isKeepalive (bare l) = isKeepalive l := by
  rw [isKeepalive, isKeepalive, trim_bare]
@[simp] theorem isKeepalive_chop (l : List Char) : isKeepalive (chop l) = isKeepalive l := by
  rw [isKeepalive, isKeepalive, trim_chop]
@[simp] theorem isEndpoint_bare (l : List Char) : isEndpoint (bare l) = isEndpoint l := by
  rw [isEndpoint, isEndpoint, trim_bare]
@[simp] theorem keyOf_bare (l : List Char) : keyOf (bare l) = keyOf l := by rw [keyOf, keyOf, trim_bare]

/-- The lines of a peer that are not blank. -/
def peerLines (peer : List Char) : List (List Char) := ((lines peer).filter fun l => !isBlank l).map bare

/-- What a trimmed line begins with tells what it is not. -/
theorem not_both {s t l : List Char} (hs : s.isPrefixOf l = true) (h : s.isPrefixOf t = false ∧ t.isPrefixOf s = false) :
    t.isPrefixOf l = false := by
  rw [Bool.eq_false_iff]
  intro ht
  rcases List.prefix_or_prefix_of_prefix (List.isPrefixOf_iff_prefix.mp hs) (List.isPrefixOf_iff_prefix.mp ht) with hst | hts
  · rw [List.isPrefixOf_iff_prefix.mpr hst] at h
    cases h.1
  · rw [List.isPrefixOf_iff_prefix.mpr hts] at h
    cases h.2

/-- No two tags begin alike, and none of them contains the mark of a peer or the end of a line. -/
theorem tags_spec :
    ("PersistentKeepalive = ".toList.isPrefixOf "Endpoint = ".toList = false ∧
      "Endpoint = ".toList.isPrefixOf "PersistentKeepalive = ".toList = false) ∧
    ("PersistentKeepalive = ".toList.isPrefixOf "PublicKey = ".toList = false ∧
      "PublicKey = ".toList.isPrefixOf "PersistentKeepalive = ".toList = false) ∧
    ("Endpoint = ".toList.isPrefixOf "PublicKey = ".toList = false ∧
      "PublicKey = ".toList.isPrefixOf "Endpoint = ".toList = false) ∧
    "PersistentKeepalive = ".toList ≠ [] ∧ "PublicKey = ".toList ≠ [] ∧ 'P' ∈ peerMark ∧
    "Endpoint = ".toList = 'E' :: "ndpoint = ".toList ∧
    ("Endpoint = ".toList.all fun c => c ≠ '\r' && (c ≠ '\n' && c ≠ 'P')) = true ∧
    "PersistentKeepalive = 1\n".toList = "PersistentKeepalive = 1".toList ++ ['\n'] ∧
    '\n' ∉ "PersistentKeepalive = 1".toList ∧ isKeepalive "PersistentKeepalive = 1".toList = true := by
  decide +kernel

theorem isEndpoint_of_isKeepalive {l : List Char} (h : isKeepalive l = true) : isEndpoint l = false :=
  not_both h tags_spec.1

theorem isKeepalive_of_isEndpoint {l : List Char} (h : isEndpoint l = true) : isKeepalive l = false :=
  not_both h tags_spec.1.symm

theorem keyOf_of_isKeepalive {l : List Char} (h : isKeepalive l = true) : keyOf l = none := by
  rw [keyOf, not_both h tags_spec.2.1]
  rfl

theorem keyOf_of_isEndpoint {l : List Char} (h : isEndpoint l = true) : keyOf l = none := by
  rw [keyOf, not_both h tags_spec.2.2.1]
  rfl

theorem isBlank_false_of_isKeepalive {l : List Char} (h : isKeepalive l = true) : isBlank l = false := by
  rw [isBlank, decide_eq_false_iff_not]
  intro hnil
  rw [isKeepalive, hnil, List.isPrefixOf_iff_prefix, List.prefix_nil] at h
  exact tags_spec.2.2.2.1 h

theorem keyOf_of_isBlank {l : List Char} (h : isBlank l = true) : keyOf l = none := by
  have hnil : trim l = [] := of_decide_eq_true h
  rw [keyOf, hnil, if_neg]
  rw [List.isPrefixOf_iff_prefix, List.prefix_nil]
  exact tags_spec.2.2.2.2.1

/-- What begins and ends with something else than white space is not trimmed. -/
theorem trim_cons_append {c d : Char} {s : List Char} (hc : ¬ isWhitespace c = true) (hd : ¬ isWhitespace d = true) :
    trim (c :: (s ++ [d])) = c :: (s ++ [d]) := by
  rw [trim, List.dropWhile_cons_of_neg hc, ← List.cons_append, List.rdropWhile_concat_neg _ _ _ hd]

theorem trim_endpointLine {e : List Char} (hne : e ≠ []) (h : ∀ c ∈ e, isWhitespace c = false) :
    trim (endpointLine e) = endpointLine e := by
  obtain ⟨t, d, rfl⟩ := (List.eq_nil_or_concat' e).resolve_left hne
  obtain ⟨-, -, -, -, -, -, hfirst, -⟩ := tags_spec
  have hd : ¬ isWhitespace d = true := by
    rw [h d (List.mem_append_right t List.mem_cons_self)]
    decide
  have hline : endpointLine (t ++ [d]) = 'E' :: ("ndpoint = ".toList ++ t ++ [d]) := by
    unfold endpointLine
    rw [hfirst, List.cons_append, List.append_assoc]
  rw [hline]
  exact trim_cons_append (by decide) hd

/-- A line that promotion writes for an endpoint is one, and nothing else. -/
theorem endpointLine_spec {e : List Char} (he : IsAddrText e ∧ e ≠ []) : isEndpoint (endpointLine e) = true ∧
    isBlank (endpointLine e) = false ∧ isKeepalive (endpointLine e) = false ∧ bare (endpointLine e) = endpointLine e ∧
    '\n' ∉ endpointLine e ∧ ¬ peerMark <:+: endpointLine e := by
  obtain ⟨-, -, -, -, -, hmem, -, htag, -⟩ := tags_spec
  have hchars : ∀ c ∈ addrChars, isWhitespace c = false ∧ c ≠ '\r' ∧ c ≠ '\n' ∧ c ≠ 'P' := by
    intro c hc
    simpa using List.all_eq_true.mp addrChars_spec.2.2.2.2.2.2.2 c hc
  have hkeep : ∀ c ∈ "Endpoint = ".toList, c ≠ '\r' ∧ c ≠ '\n' ∧ c ≠ 'P' := by
    intro c hc
    simpa using List.all_eq_true.mp htag c hc
  have hall : ∀ c ∈ endpointLine e, c ≠ '\r' ∧ c ≠ '\n' ∧ c ≠ 'P' := by
    intro c hc
    unfold endpointLine at hc
    rcases List.mem_append.mp hc with hc | hc
    · exact hkeep c hc
    · exact (hchars c (he.1 c hc)).2
  have htrim := trim_endpointLine he.2 fun c hc => (hchars c (he.1 c hc)).1
  have hend : isEndpoint (endpointLine e) = true := by
    rw [isEndpoint, htrim, List.isPrefixOf_iff_prefix]
    unfold endpointLine
    exact List.prefix_append _ _
  have hreturn : '\r' ∉ endpointLine e := fun h => (hall '\r' h).1 rfl
  have hnewline : '\n' ∉ endpointLine e := fun h => (hall '\n' h).2.1 rfl
  have hmark : ¬ peerMark <:+: endpointLine e := by
    intro hin
    exact (hall 'P' (hin.subset hmem)).2.2 rfl
  have hblank : isBlank (endpointLine e) = false := by
    rw [isBlank, htrim, decide_eq_false_iff_not]
    unfold endpointLine
    exact fun hnil => he.2 (List.append_eq_nil_iff.mp hnil).2
  exact ⟨hend, hblank, isKeepalive_of_isEndpoint hend, bare_of_not_mem hreturn, hnewline, hmark⟩

/-! ### One peer -/

/-- The lines of a peer that promotion takes over. -/
def kept (learned : Option (List Char)) (peer : List Char) : List (List Char) :=
  ((lines peer).filter fun l => !isBlank l).filter fun l => !(isKeepalive l || learned.isSome && isEndpoint l)

theorem promotedPeer_eq (learned : Option (List Char)) (peer : List Char) : promotedPeer learned peer =
    '\n' :: unlines (kept learned peer ++ (learned.map endpointLine).toList ++ ["PersistentKeepalive = 1".toList]) := by
  obtain ⟨-, -, -, -, -, -, -, -, hlast, -⟩ := tags_spec
  cases learned <;> simp [promotedPeer, kept, unlines, hlast]

theorem restoredPeer_eq (old peer : List Char) : restoredPeer old peer =
    '\n' :: unlines (((lines peer).filter fun l => !isBlank l && !isKeepalive l) ++
      ((lines old).find? isKeepalive).toList) := by
  cases h : (lines old).find? isKeepalive <;> simp [restoredPeer, unlines, h]

/-- What becomes of a peer. -/
def rewritten (learned : Option (List Char)) (peer : List Char) : List Char := restoredPeer peer (promotedPeer learned peer)

section Peer
variable {learned : Option (List Char)} (hlearned : ∀ e, learned = some e → IsAddrText e ∧ e ≠ [])

theorem mem_kept {l peer : List Char} (h : l ∈ kept learned peer) :
    l ∈ lines peer ∧ isBlank l = false ∧ isKeepalive l = false := by
  simp only [kept, List.mem_filter, Bool.not_eq_true', Bool.or_eq_false_iff] at h
  exact ⟨h.1.1, h.1.2, h.2.1⟩

include hlearned

theorem mem_endpointLines {l : List Char} (h : l ∈ (learned.map endpointLine).toList) : isEndpoint l = true ∧
    isBlank l = false ∧ isKeepalive l = false ∧ bare l = l ∧ '\n' ∉ l ∧ ¬ peerMark <:+: l := by
  cases hl : learned with
  | none => rw [hl] at h; cases h
  | some e =>
    rw [hl] at h
    obtain rfl : l = endpointLine e := List.mem_singleton.mp h
    exact endpointLine_spec (hlearned e hl)

theorem rewritten_eq (peer : List Char) : rewritten learned peer =
    '\n' :: unlines ((kept learned peer ++ (learned.map endpointLine).toList).map chop ++
      ((lines peer).find? isKeepalive).toList) := by
  obtain ⟨-, -, -, -, -, -, -, -, -, hone⟩ := tags_spec
  have hnewline : ∀ l ∈ kept learned peer ++ (learned.map endpointLine).toList ++ ["PersistentKeepalive = 1".toList],
      '\n' ∉ l := by
    intro l hl
    rcases List.mem_append.mp hl with hl | hl
    · rcases List.mem_append.mp hl with hl | hl
      · exact not_mem_of_mem_lines (mem_kept hl).1
      · exact (mem_endpointLines hlearned hl).2.2.2.2.1
    · rw [List.mem_singleton.mp hl]
      exact hone.1
  have hall : ∀ l ∈ (kept learned peer ++ (learned.map endpointLine).toList).map chop,
      (!isBlank l && !isKeepalive l) = true := by
    intro l hl
    obtain ⟨m, hm, rfl⟩ := List.mem_map.mp hl
    rw [isBlank_chop, isKeepalive_chop]
    rcases List.mem_append.mp hm with hm | hm
    · obtain ⟨-, hb, hk⟩ := mem_kept hm
      rw [hb, hk]
      rfl
    · obtain ⟨-, hb, hk, -⟩ := mem_endpointLines hlearned hm
      rw [hb, hk]
      rfl
  have hlines : lines (promotedPeer learned peer) = [] ::
      ((kept learned peer ++ (learned.map endpointLine).toList).map chop ++ [chop "PersistentKeepalive = 1".toList]) := by
    rw [promotedPeer_eq, lines, if_pos rfl, lines_unlines hnewline, List.map_append]
    rfl
  rw [rewritten, restoredPeer_eq, hlines]
  congr 2
  rw [List.filter_cons_of_neg (by decide), List.filter_append, List.filter_eq_self.mpr hall,
    List.filter_cons_of_neg (by rw [isKeepalive_chop, hone.2]; simp)]
  simp

omit hlearned in
theorem map_bare_kept (peer : List Char) : (kept learned peer).map bare =
    (peerLines peer).filter fun l => !(isKeepalive l || learned.isSome && isEndpoint l) := by
  rw [peerLines, List.filter_map, kept]
  congr 1
  refine List.filter_congr fun l _ => ?_
  simp

omit hlearned in
theorem find?_peerLines (peer : List Char) :
    (peerLines peer).find? isKeepalive = ((lines peer).find? isKeepalive).map bare := by
  have hcongr : ∀ l : List Char, (isKeepalive ∘ bare) l = isKeepalive l := fun l => isKeepalive_bare l
  rw [peerLines, List.find?_map, funext hcongr, List.find?_filter]
  congr 2
  funext l
  cases h : isKeepalive l with
  | false => simp
  | true => simp [isBlank_false_of_isKeepalive h]

theorem peerLines_rewritten (peer : List Char) : peerLines (rewritten learned peer) =
    ((peerLines peer).filter fun l => !(isKeepalive l || learned.isSome && isEndpoint l)) ++
      (learned.map endpointLine).toList ++ ((peerLines peer).find? isKeepalive).toList := by
  have hmem : ∀ l ∈ (kept learned peer ++ (learned.map endpointLine).toList).map chop ++
      ((lines peer).find? isKeepalive).toList, '\n' ∉ l ∧ isBlank l = false := by
    intro l hl
    rcases List.mem_append.mp hl with hl | hl
    · obtain ⟨m, hm, rfl⟩ := List.mem_map.mp hl
      obtain ⟨b, -, hmb⟩ := exists_eq_chop m
      have hin : '\n' ∈ chop m → '\n' ∈ m := by
        intro h
        rw [hmb]
        exact List.mem_append_left b h
      rw [isBlank_chop]
      rcases List.mem_append.mp hm with hm | hm
      · obtain ⟨hline, hb, -⟩ := mem_kept hm
        exact ⟨fun h => not_mem_of_mem_lines hline (hin h), hb⟩
      · obtain ⟨-, hb, -, -, hn, -⟩ := mem_endpointLines hlearned hm
        exact ⟨fun h => hn (hin h), hb⟩
    · have hfind := Option.mem_toList.mp hl
      exact ⟨not_mem_of_mem_lines (List.mem_of_find?_eq_some hfind),
        isBlank_false_of_isKeepalive (List.find?_some hfind)⟩
  have hchop : bare ∘ chop = bare := funext bare_chop
  have hends : ((learned.map endpointLine).toList).map bare = (learned.map endpointLine).toList := by
    refine (List.map_congr_left fun l hl => ?_).trans (List.map_id _)
    exact (mem_endpointLines hlearned hl).2.2.2.1
  have hall : ∀ l ∈ ((kept learned peer ++ (learned.map endpointLine).toList).map chop ++
      ((lines peer).find? isKeepalive).toList).map chop, (!isBlank l) = true := by
    intro l hl
    obtain ⟨m, hm, rfl⟩ := List.mem_map.mp hl
    rw [isBlank_chop, (hmem m hm).2]
    rfl
  rw [peerLines, rewritten_eq hlearned, lines, if_pos rfl, lines_unlines fun l hl => (hmem l hl).1,
    List.filter_cons_of_neg (by decide), List.filter_eq_self.mpr hall, List.map_map, hchop, List.map_append, List.map_map,
    hchop, List.map_append, map_bare_kept, hends, find?_peerLines]
  cases (lines peer).find? isKeepalive <;> rfl

end Peer

/-! ### Whole configurations -/

theorem peerMark_spec : peerMark = '[' :: "Peer]".toList ∧ '[' ∉ "Peer]".toList ∧ '\n' ∉ peerMark ∧
    '[' ∉ "PersistentKeepalive = 1".toList := by
  decide +kernel

theorem peerMark_ne_nil : peerMark ≠ [] := by
  rw [peerMark_spec.1]
  exact List.cons_ne_nil _ _

/-- What is joined at the marks of its peers is taken apart there. -/
theorem split_joined {head : List Char} (hhead : ¬ peerMark <:+: head) {peers : List (List Char)}
    (hpeers : ∀ p ∈ peers, ¬ peerMark <:+: p) :
    split peerMark (head ++ peers.flatMap fun p => peerMark ++ p) = head :: peers := by
  obtain ⟨hmark, hfirst, -⟩ := peerMark_spec
  rw [hmark] at hhead hpeers ⊢
  exact split_flatMap hfirst hhead hpeers

theorem not_infix_written {ls : List (List Char)} (h : ∀ l ∈ ls, ¬ peerMark <:+: l) :
    ¬ peerMark <:+: '\n' :: unlines ls := by
  have hnil : ¬ peerMark <:+: [] := fun hin => peerMark_ne_nil (List.infix_nil.mp hin)
  refine @not_infix_unlines peerMark peerMark_ne_nil peerMark_spec.2.2.1 ([] :: ls) ?_
  intro l hl
  rcases List.mem_cons.mp hl with rfl | hl
  · exact hnil
  · exact h l hl

section Peer
variable {learned : Option (List Char)} (hlearned : ∀ e, learned = some e → IsAddrText e ∧ e ≠ []) {peer : List Char}
  (hpeer : ¬ peerMark <:+: peer)
include hlearned hpeer

theorem not_infix_kept {l : List Char} (hl : l ∈ kept learned peer ++ (learned.map endpointLine).toList) :
    ¬ peerMark <:+: l := by
  rcases List.mem_append.mp hl with hl | hl
  · exact fun hin => hpeer (hin.trans (infix_of_mem_lines (mem_kept hl).1))
  · exact (mem_endpointLines hlearned hl).2.2.2.2.2

theorem not_infix_promotedPeer : ¬ peerMark <:+: promotedPeer learned peer := by
  rw [promotedPeer_eq]
  refine not_infix_written ?_
  intro l hl
  rcases List.mem_append.mp hl with hl | hl
  · exact not_infix_kept hlearned hpeer hl
  · rw [List.mem_singleton.mp hl]
    intro hin
    refine peerMark_spec.2.2.2 (hin.subset ?_)
    rw [peerMark_spec.1]
    exact List.mem_cons_self

theorem not_infix_rewritten : ¬ peerMark <:+: rewritten learned peer := by
  rw [rewritten_eq hlearned]
  refine not_infix_written ?_
  intro l hl
  rcases List.mem_append.mp hl with hl | hl
  · obtain ⟨m, hm, rfl⟩ := List.mem_map.mp hl
    obtain ⟨b, -, hmb⟩ := exists_eq_chop m
    have hchop : chop m <:+: m := ⟨[], b, by rw [List.nil_append]; exact hmb.symm⟩
    exact fun hin => not_infix_kept hlearned hpeer hm (hin.trans hchop)
  · have hfind := List.mem_of_find?_eq_some (Option.mem_toList.mp hl)
    exact fun hin => hpeer (hin.trans (infix_of_mem_lines hfind))

end Peer

/-- What the snapshot has for a peer. -/
def Learns (decode : List Char → Option (List UInt8)) (cache : Option Cache) (interface peer : List Char)
    (learned : Option (List Char)) : Prop :=
  ∃ key, publicKey peer = some key ∧ cache.elim (.ok none) (fun c => endpoint decode c interface key) = .ok learned

theorem Learns.isAddrText {decode : List Char → Option (List UInt8)} {cache : Option Cache} {interface peer : List Char}
    {learned : Option (List Char)} (h : Learns decode cache interface peer learned) :
    ∀ e, learned = some e → IsAddrText e ∧ e ≠ [] := by
  rintro e rfl
  obtain ⟨key, -, hkey⟩ := h
  cases cache with
  | none => cases hkey
  | some c => exact endpoint_spec hkey

/-- The configuration that makes the peers call, part by part. -/
theorem exists_of_promotionConfig {decode : List Char → Option (List UInt8)} {original interface promoted head : List Char}
    {cache : Option Cache} {peers : List (List Char)} (hsplit : split peerMark original = head :: peers)
    (h : promotionConfig decode original interface cache = .ok promoted) :
    ∃ ls, List.Forall₂ (Learns decode cache interface) peers ls ∧
      promoted = head ++ (List.zipWith promotedPeer ls peers).flatMap fun p => peerMark ++ p := by
  rw [promotionConfig, hsplit] at h
  dsimp only at h
  split_ifs at h with hhead
  clear hsplit hhead
  induction peers generalizing head with
  | nil =>
    refine ⟨[], .nil, ?_⟩
    rw [List.foldlM_nil] at h
    simpa using (Except.ok.inj h).symm
  | cons peer peers ih =>
    rw [List.foldlM_cons] at h
    cases hkey : publicKey peer with
    | none => rw [hkey] at h; cases h
    | some key =>
      rw [hkey] at h
      change ((cache.elim (.ok none) fun c => endpoint decode c interface key) >>= fun learned =>
        pure (head ++ peerMark ++ promotedPeer learned peer)) >>= _ = _ at h
      cases hlearn : cache.elim (.ok none) (fun c => endpoint decode c interface key) with
      | error err => rw [hlearn] at h; cases h
      | ok learned =>
        rw [hlearn] at h
        obtain ⟨ls, hls, hout⟩ := ih h
        refine ⟨learned :: ls, .cons ⟨key, hkey, hlearn⟩ hls, ?_⟩
        rw [hout]
        simp

/-- The configuration that stays, part by part. -/
theorem restoreKeepalive_eq {original promoted head : List Char} {olds peers : List (List Char)}
    (hold : split peerMark original = head :: olds) (hnew : split peerMark promoted = head :: peers)
    (hlen : peers.length = olds.length) :
    restoreKeepalive original promoted =
      .ok (head ++ (List.zipWith restoredPeer olds peers).flatMap fun p => peerMark ++ p) := by
  have hfold : ∀ (all : List (List Char)) (f : List Char → List Char × ℕ → Except Error (List Char)),
      (∀ result p old, all[p.2]? = some old → f result p = .ok (result ++ peerMark ++ restoredPeer old p.1)) →
      ∀ (peers pre post : List (List Char)) (result : List Char), all = pre ++ post →
        peers.length = post.length → (peers.zipIdx pre.length).foldlM f result =
          .ok (result ++ (List.zipWith restoredPeer post peers).flatMap fun p => peerMark ++ p) := by
    intro all f hf peers
    induction peers with
    | nil =>
      intro pre post result hall hlen
      obtain rfl := List.length_eq_zero_iff.mp hlen.symm
      simp
      rfl
    | cons peer peers ih =>
      intro pre post result hall hlen
      cases post with
      | nil => simp at hlen
      | cons old post =>
        have hnext := ih (pre ++ [old]) post (result ++ peerMark ++ restoredPeer old peer) (by simpa using hall)
          (by simpa using hlen)
        have hget : all[pre.length]? = some old := by simp [hall]
        rw [List.length_append, List.length_singleton] at hnext
        rw [List.zipIdx_cons, List.foldlM_cons, hf result (peer, pre.length) old hget]
        change List.foldlM _ (result ++ peerMark ++ restoredPeer old peer) _ = _
        rw [hnext]
        simp
  rw [restoreKeepalive, hold, hnew]
  refine hfold olds _ (fun result p old hp => ?_) peers [] olds head rfl hlen
  simp [hp]

/-! ### What stays of a peer -/

/-- Only the first of several keepalive lines. -/
def firstKeepalive (ls : List (List Char)) : List (List Char) :=
  ls.filter (fun l => !isKeepalive l) ++ (ls.find? isKeepalive).toList

/-- An endpoint that was learned takes the place of those that were there. -/
def withEndpoint (learned : Option (List Char)) (ls : List (List Char)) : List (List Char) :=
  match learned with
  | none => ls
  | some e => ls.filter (fun l => !isEndpoint l) ++ [endpointLine e]

/-- A peer is as it was, but for an endpoint that was learned and for a second keepalive line. -/
structure SamePeer (learned : Option (List Char)) (old new : List Char) : Prop where
  key : publicKey new = publicKey old
  keepalive : (peerLines new).find? isKeepalive = (peerLines old).find? isKeepalive
  lines : (peerLines new).Perm (withEndpoint learned (firstKeepalive (peerLines old)))

theorem withEndpoint_perm (learned : Option (List Char)) {ls ms : List (List Char)} (h : ls.Perm ms) :
    (withEndpoint learned ls).Perm (withEndpoint learned ms) := by
  cases learned with
  | none => exact h
  | some e => exact (h.filter _).append_right _

theorem filter_not_isEndpoint_find? (ls : List (List Char)) :
    ((ls.find? isKeepalive).toList).filter (fun l => !isEndpoint l) = (ls.find? isKeepalive).toList := by
  refine List.filter_eq_self.mpr fun l hl => ?_
  rw [isEndpoint_of_isKeepalive (List.find?_some (Option.mem_toList.mp hl))]
  rfl

theorem withEndpoint_firstKeepalive (learned : Option (List Char)) (ls : List (List Char)) :
    (ls.filter (fun l => !(isKeepalive l || learned.isSome && isEndpoint l)) ++ (learned.map endpointLine).toList ++
      (ls.find? isKeepalive).toList).Perm (withEndpoint learned (firstKeepalive ls)) := by
  cases learned with
  | none => simp [withEndpoint, firstKeepalive]
  | some e =>
    have hfilter : (ls.filter fun l => !isKeepalive l).filter (fun l => !isEndpoint l) =
        ls.filter fun l => !(isKeepalive l || isEndpoint l) := by
      rw [List.filter_filter]
      exact List.filter_congr fun l _ => by rw [Bool.not_or, Bool.and_comm]
    rw [withEndpoint, firstKeepalive, List.filter_append, hfilter, filter_not_isEndpoint_find?, List.append_assoc,
      List.append_assoc]
    exact List.perm_append_comm.append_left _

theorem findSome?_filter {α β : Type} {p : α → Bool} {f : α → Option β} (h : ∀ a, p a = false → f a = none) (l : List α) :
    (l.filter p).findSome? f = l.findSome? f := by
  induction l with
  | nil => rfl
  | cons a l ih =>
    cases hp : p a with
    | true => rw [List.filter_cons_of_pos hp, List.findSome?_cons, List.findSome?_cons, ih]
    | false => rw [List.filter_cons_of_neg (by simp [hp]), List.findSome?_cons, h a hp, ih]

theorem publicKey_eq (peer : List Char) : publicKey peer = (peerLines peer).findSome? keyOf := by
  have hcomp : keyOf ∘ bare = keyOf := funext keyOf_bare
  rw [peerLines, List.findSome?_map, hcomp, publicKey, findSome?_filter]
  intro l hl
  exact keyOf_of_isBlank (by simpa using hl)

section Peer
variable {learned : Option (List Char)} (hlearned : ∀ e, learned = some e → IsAddrText e ∧ e ≠ [])
include hlearned

theorem withEndpoint_withEndpoint (later : Option (List Char)) (ls : List (List Char)) :
    withEndpoint later (withEndpoint learned ls) = withEndpoint (later.or learned) ls := by
  cases later with
  | none => rfl
  | some e =>
    cases learned with
    | none => rfl
    | some f =>
      have hf := (endpointLine_spec (hlearned f rfl)).1
      simp [withEndpoint, hf]

theorem not_isKeepalive_of_mem {l : List Char} {ls : List (List Char)}
    (hl : l ∈ ls.filter (fun l => !(isKeepalive l || learned.isSome && isEndpoint l)) ++
      (learned.map endpointLine).toList) : isKeepalive l = false := by
  rcases List.mem_append.mp hl with hl | hl
  · have h := (List.mem_filter.mp hl).2
    rw [Bool.not_eq_true', Bool.or_eq_false_iff] at h
    exact h.1
  · exact (mem_endpointLines hlearned hl).2.2.1

theorem find?_rewritten (peer : List Char) :
    (peerLines (rewritten learned peer)).find? isKeepalive = (peerLines peer).find? isKeepalive := by
  rw [peerLines_rewritten hlearned, List.find?_append, List.find?_eq_none.mpr, Option.none_or]
  · cases h : (peerLines peer).find? isKeepalive with
    | none => rfl
    | some l => simp [List.find?_some h]
  · intro l hl
    rw [not_isKeepalive_of_mem hlearned hl]
    exact Bool.false_ne_true

theorem firstKeepalive_rewritten (peer : List Char) :
    firstKeepalive (peerLines (rewritten learned peer)) = peerLines (rewritten learned peer) := by
  rw [firstKeepalive, find?_rewritten hlearned, peerLines_rewritten hlearned, List.filter_append,
    List.filter_eq_self.mpr fun l hl => by rw [not_isKeepalive_of_mem hlearned hl]; rfl]
  cases h : (peerLines peer).find? isKeepalive with
  | none => simp
  | some l => simp [List.find?_some h]

theorem publicKey_rewritten (peer : List Char) : publicKey (rewritten learned peer) = publicKey peer := by
  have hends : (learned.map endpointLine).toList.findSome? keyOf = none := by
    rw [List.findSome?_eq_none_iff]
    exact fun l hl => keyOf_of_isEndpoint (mem_endpointLines hlearned hl).1
  have hkeep : ((peerLines peer).find? isKeepalive).toList.findSome? keyOf = none := by
    rw [List.findSome?_eq_none_iff]
    exact fun l hl => keyOf_of_isKeepalive (List.find?_some (Option.mem_toList.mp hl))
  rw [publicKey_eq, peerLines_rewritten hlearned, List.findSome?_append, List.findSome?_append, hends, hkeep,
    Option.or_none, Option.or_none, publicKey_eq, findSome?_filter]
  intro l hl
  rw [Bool.not_eq_false', Bool.or_eq_true, Bool.and_eq_true] at hl
  exact hl.elim keyOf_of_isKeepalive fun h => keyOf_of_isEndpoint h.2

end Peer

/-! ### Attempts -/

/-- Two configurations have the same interface section and as many peers, which are related one by one. -/
def Matches (R : List Char → List Char → Prop) (old new : List Char) : Prop :=
  ∃ head ps qs, split peerMark old = head :: ps ∧ split peerMark new = head :: qs ∧ List.Forall₂ R ps qs

namespace Matches

theorem refl {R : List Char → List Char → Prop} (h : ∀ p, R p p) (s : List Char) : Matches R s s := by
  obtain ⟨head, ps, hsplit, -⟩ := exists_splitFrom peerMark 0 s
  exact ⟨head, ps, ps, hsplit, hsplit, List.forall₂_same.mpr fun p _ => h p⟩

theorem imp {R S : List Char → List Char → Prop} (h : ∀ p q, R p q → S p q) {s t : List Char} (hst : Matches R s t) :
    Matches S s t := by
  obtain ⟨head, ps, qs, hs, ht, hall⟩ := hst
  exact ⟨head, ps, qs, hs, ht, hall.imp h⟩

theorem comp {R S T : List Char → List Char → Prop} (h : ∀ p q r, R p q → S q r → T p r) {s t u : List Char}
    (hst : Matches R s t) (htu : Matches S t u) : Matches T s u := by
  obtain ⟨head, ps, qs, hs, ht, hpq⟩ := hst
  obtain ⟨head', qs', rs, ht', hu, hqr⟩ := htu
  obtain ⟨rfl, rfl⟩ := List.cons.inj (ht.symm.trans ht')
  refine ⟨head, ps, rs, hs, hu, ?_⟩
  clear hs ht ht' hu
  induction hpq generalizing rs with
  | nil => cases hqr; exact .nil
  | cons hp _ ih =>
    cases hqr with
    | cons hq hrest => exact .cons (h _ _ _ hp hq) (ih _ hrest)

end Matches

variable {decode : List Char → Option (List UInt8)}

/-- What becomes of a configuration on its way through both rewritings. -/
theorem matches_of_promotionConfig {original interface promoted restored : List Char} {cache : Option Cache}
    (hpromoted : promotionConfig decode original interface cache = .ok promoted)
    (hrestored : restoreKeepalive original promoted = .ok restored) :
    Matches (fun p q => ∃ learned, Learns decode cache interface p learned ∧ q = rewritten learned p) original restored := by
  obtain ⟨head, ps, hsplit, -⟩ := exists_splitFrom peerMark 0 original
  have hhead : ¬ peerMark <:+: head :=
    not_infix_of_mem_split peerMark_ne_nil (by rw [split, hsplit]; exact List.mem_cons_self)
  have hps : ∀ p ∈ ps, ¬ peerMark <:+: p := fun p hp =>
    not_infix_of_mem_split peerMark_ne_nil (by rw [split, hsplit]; exact List.mem_cons_of_mem _ hp)
  obtain ⟨ls, hls, hout⟩ := exists_of_promotionConfig hsplit hpromoted
  have hnew : split peerMark promoted = head :: List.zipWith promotedPeer ls ps := by
    rw [hout]
    refine split_joined hhead ?_
    clear hsplit hout hpromoted
    induction hls with
    | nil => simp
    | cons hl _ ih =>
      intro p hp
      rcases List.mem_cons.mp hp with rfl | hp
      · exact not_infix_promotedPeer hl.isAddrText (hps _ List.mem_cons_self)
      · exact ih (fun q hq => hps q (List.mem_cons_of_mem _ hq)) p hp
  have hlen : (List.zipWith promotedPeer ls ps).length = ps.length := by
    rw [List.length_zipWith, hls.length_eq, min_self]
  rw [restoreKeepalive_eq hsplit hnew hlen] at hrestored
  have hzip : List.zipWith restoredPeer ps (List.zipWith promotedPeer ls ps) = List.zipWith rewritten ls ps := by
    clear hsplit hout hpromoted hnew hlen hrestored
    induction hls with
    | nil => rfl
    | cons hl _ ih => exact congrArg (List.cons _) (ih fun q hq => hps q (List.mem_cons_of_mem _ hq))
  rw [hzip] at hrestored
  refine ⟨head, ps, List.zipWith rewritten ls ps, hsplit, ?_, ?_⟩
  · rw [← Except.ok.inj hrestored]
    refine split_joined hhead ?_
    clear hsplit hout hpromoted hnew hlen hrestored hzip
    induction hls with
    | nil => simp
    | cons hl _ ih =>
      intro p hp
      rcases List.mem_cons.mp hp with rfl | hp
      · exact not_infix_rewritten hl.isAddrText (hps _ List.mem_cons_self)
      · exact ih (fun q hq => hps q (List.mem_cons_of_mem _ hq)) p hp
  · clear hsplit hout hpromoted hnew hlen hrestored hzip hps
    induction hls with
    | nil => exact .nil
    | cons hl _ ih => exact .cons ⟨_, hl, rfl⟩ ih

/-- An attempt has an endpoint for a peer of an interface. -/
def Finds (decode : List Char → Option (List UInt8)) (a : Attempt) (interface key e : List Char) : Prop :=
  ∃ c, a.cacheFile = some c ∧ endpoint decode c interface key = .ok (some e)

/-- What attempts so far have made of a peer. -/
def Follows (decode : List Char → Option (List UInt8)) (attempts : List Attempt) (interface old new : List Char) : Prop :=
  ∃ learned, (∀ e, learned = some e → (IsAddrText e ∧ e ≠ []) ∧
      ∀ key, publicKey old = some key → ∃ a ∈ attempts, Finds decode a interface key e) ∧
    publicKey new = publicKey old ∧ (peerLines new).find? isKeepalive = (peerLines old).find? isKeepalive ∧
    (firstKeepalive (peerLines new)).Perm (withEndpoint learned (firstKeepalive (peerLines old)))

/-- What an attempt that is completed makes of a peer. -/
def Ends (decode : List Char → Option (List UInt8)) (attempts : List Attempt) (last : Attempt)
    (interface old new : List Char) : Prop :=
  ∃ learned, SamePeer learned old new ∧ ∀ key, publicKey old = some key →
    (∀ e, Finds decode last interface key e → learned = some e) ∧
      ∀ e, learned = some e → ∃ a ∈ attempts, Finds decode a interface key e

theorem Follows.refl (attempts : List Attempt) (interface peer : List Char) :
    Follows decode attempts interface peer peer :=
  ⟨none, by simp, rfl, rfl, .refl _⟩

theorem Follows.mono {attempts later : List Attempt} (hsub : attempts ⊆ later) {interface old new : List Char}
    (h : Follows decode attempts interface old new) : Follows decode later interface old new := by
  obtain ⟨learned, hlearned, hrest⟩ := h
  refine ⟨learned, fun e he => ⟨(hlearned e he).1, fun key hkey => ?_⟩, hrest⟩
  obtain ⟨a, ha, hfinds⟩ := (hlearned e he).2 key hkey
  exact ⟨a, hsub ha, hfinds⟩

theorem cache_eq {a : Attempt} {config : Config} {cache : Option Cache} (h : a.cache config = .ok cache) :
    cache = a.cacheFile := by
  rw [Attempt.cache] at h
  cases hfile : a.cacheFile with
  | none =>
    rw [hfile] at h
    dsimp only at h
    split_ifs at h
    exact (Except.ok.inj h).symm
  | some c =>
    rw [hfile] at h
    cases hvalid : c.validate config a.role with
    | error err => simp only [hvalid] at h; cases h
    | ok _ => simp only [hvalid] at h; exact (Except.ok.inj h).symm

/-- One rewriting takes the peers of the original on. -/
theorem Follows.step {attempts : List Attempt} {last : Attempt} (hlast : last ∈ attempts) {interface old cur new : List Char}
    (h : Follows decode attempts interface old cur) {learned : Option (List Char)}
    (hlearns : Learns decode last.cacheFile interface cur learned) (hnew : new = rewritten learned cur) :
    Follows decode attempts interface old new ∧ Ends decode attempts last interface old new := by
  subst hnew
  obtain ⟨earlier, hearlier, hkey, hkeep, hlines⟩ := h
  have haddr := hlearns.isAddrText
  obtain ⟨key, hcur, hfound⟩ := hlearns
  have hlast : ∀ e, learned = some e ↔ Finds decode last interface key e := by
    intro e
    cases hfile : last.cacheFile with
    | none =>
      rw [hfile] at hfound
      obtain rfl : none = learned := Except.ok.inj hfound
      simp [Finds, hfile]
    | some c =>
      rw [hfile] at hfound
      have hfound' : endpoint decode c interface key = .ok learned := hfound
      simp [Finds, hfile, hfound']
  have hold : publicKey old = some key := hkey ▸ hcur
  have hall : ∀ e, learned.or earlier = some e → (IsAddrText e ∧ e ≠ []) ∧
      ∃ a ∈ attempts, Finds decode a interface key e := by
    intro e he
    rcases Option.or_eq_some_iff.mp he with hl | ⟨-, he⟩
    · exact ⟨haddr e hl, last, by assumption, (hlast e).mp hl⟩
    · exact ⟨(hearlier e he).1, (hearlier e he).2 key hold⟩
  have hperm : (peerLines (rewritten learned cur)).Perm
      (withEndpoint (learned.or earlier) (firstKeepalive (peerLines old))) := by
    rw [peerLines_rewritten haddr, ← withEndpoint_withEndpoint fun e he => (hearlier e he).1]
    exact (withEndpoint_firstKeepalive learned _).trans (withEndpoint_perm learned hlines)
  have hnewkey : publicKey (rewritten learned cur) = publicKey old := (publicKey_rewritten haddr cur).trans hkey
  have hnewkeep := (find?_rewritten haddr cur).trans hkeep
  have hone : ∀ k, publicKey old = some k → k = key := fun k hk => Option.some.inj (hk.symm.trans hold)
  constructor
  · refine ⟨learned.or earlier, fun e he => ⟨(hall e he).1, fun k hk => ?_⟩, hnewkey, hnewkeep, ?_⟩
    · rw [hone k hk]
      exact (hall e he).2
    · rw [firstKeepalive_rewritten haddr]
      exact hperm
  · refine ⟨learned.or earlier, ⟨hnewkey, hnewkeep, hperm⟩, fun k hk => ?_⟩
    rw [hone k hk]
    refine ⟨fun e he => ?_, fun e he => (hall e he).2⟩
    rw [(hlast e).mpr he]
    rfl

/-! ### The host -/

theorem exists_of_effects {config : Config} {cache : Option Cache} {interface : List Char} {h : Host} {es : List Effect}
    (hes : effects decode config cache interface h = .ok es) : ∃ promoted restored,
    promotionConfig decode (h.original config interface) interface cache = .ok promoted ∧
    restoreKeepalive (h.original config interface) promoted = .ok restored ∧
    es = [.writeRecovery interface ⟨config.wireguardPolicy, interface, restored⟩,
      .setconf interface ((split peerMark (h.original config interface)).headD []), .setconf interface promoted,
      .syncconf interface restored, .removeRecovery interface] := by
  rw [effects] at hes
  split_ifs at hes with hname
  · cases hpromoted : promotionConfig decode (h.original config interface) interface cache with
    | error err => simp only [hpromoted] at hes; cases hes
    | ok promoted =>
      simp only [hpromoted] at hes
      change (restoreKeepalive _ _ >>= _) = _ at hes
      cases hrestored : restoreKeepalive (h.original config interface) promoted with
      | error err => rw [hrestored] at hes; cases hes
      | ok restored =>
        rw [hrestored] at hes
        exact ⟨promoted, restored, rfl, hrestored, (Except.ok.inj hes).symm⟩
  · cases hes

/-- The other interfaces are left alone. -/
theorem foldl_effects_of_ne {config : Config} {cache : Option Cache} {interface : List Char} {h : Host} {es : List Effect}
    (hes : effects decode config cache interface h = .ok es) (steps : ℕ) {other : List Char} (hne : other ≠ interface) :
    ((es.take steps).foldl Effect.apply h).installed other = h.installed other ∧
    ((es.take steps).foldl Effect.apply h).recovery other = h.recovery other := by
  obtain ⟨promoted, restored, -, -, rfl⟩ := exists_of_effects hes
  have hall : ∀ (es : List Effect) (h : Host), (∀ e ∈ es, ∀ h : Host, (e.apply h).installed other = h.installed other ∧
      (e.apply h).recovery other = h.recovery other) →
      (es.foldl Effect.apply h).installed other = h.installed other ∧
      (es.foldl Effect.apply h).recovery other = h.recovery other := by
    intro es
    induction es with
    | nil => exact fun h _ => ⟨rfl, rfl⟩
    | cons e es ih =>
      intro h hes
      obtain ⟨hi, hr⟩ := hes e List.mem_cons_self h
      obtain ⟨hi', hr'⟩ := ih (e.apply h) fun f hf => hes f (List.mem_cons_of_mem _ hf)
      exact ⟨hi'.trans hi, hr'.trans hr⟩
  refine hall _ h fun e he => ?_
  have hmem := List.mem_of_mem_take he
  simp only [List.mem_cons, List.not_mem_nil, or_false] at hmem
  rcases hmem with rfl | rfl | rfl | rfl | rfl <;> intro h <;> simp [Effect.apply, hne]

/-- Interrupted or not, the original of the next attempt is the one of this attempt or what this attempt keeps. -/
theorem original_effects {config : Config} {cache : Option Cache} {interface : List Char} {h : Host} {es : List Effect}
    (hes : effects decode config cache interface h = .ok es) (steps : ℕ) :
    steps < es.length ∧ ((es.take steps).foldl Effect.apply h).original config interface = h.original config interface ∨
    ∃ promoted restored, promotionConfig decode (h.original config interface) interface cache = .ok promoted ∧
      restoreKeepalive (h.original config interface) promoted = .ok restored ∧
      ((es.take steps).foldl Effect.apply h).original config interface = restored ∧
      (es.length ≤ steps → ((es.take steps).foldl Effect.apply h).recovery interface = none) := by
  obtain ⟨promoted, restored, hpromoted, hrestored, rfl⟩ := exists_of_effects hes
  match steps with
  | 0 => exact .inl ⟨by simp, rfl⟩
  | 1 | 2 | 3 | 4 => exact .inr ⟨promoted, restored, hpromoted, hrestored, by simp [Effect.apply, Host.original], by simp⟩
  | steps + 5 =>
    exact .inr ⟨promoted, restored, hpromoted, hrestored, by simp [Effect.apply, Host.original], by simp [Effect.apply]⟩

/-! ### Runs -/

/-- Every interface has what attempts make of its configuration. -/
def Tracks (decode : List Char → Option (List UInt8)) (config : Config) (start : Host) (attempts : List Attempt)
    (h : Host) : Prop :=
  ∀ i, Matches (Follows decode attempts i) (start.original config i) (h.original config i)

/-- An interface is done. -/
def Settled (decode : List Char → Option (List UInt8)) (config : Config) (start : Host) (attempts : List Attempt)
    (last : Attempt) (i : List Char) (h : Host) : Prop :=
  h.recovery i = none ∧
    Matches (fun p q => Follows decode attempts i p q ∧ Ends decode attempts last i p q) (start.original config i)
      (h.installed i)

theorem original_of_recovery {config : Config} {h : Host} {i : List Char} (hnone : h.recovery i = none) :
    h.original config i = h.installed i := by
  rw [Host.original, hnone]

section Run
variable {config : Config} {start h : Host} {attempts : List Attempt} {last : Attempt} (hlast : last ∈ attempts)
include hlast

theorem Tracks.effects (htracks : Tracks decode config start attempts h) {interface : List Char} {es : List Effect}
    (hes : effects decode config last.cacheFile interface h = .ok es) (steps : ℕ) :
    Tracks decode config start attempts ((es.take steps).foldl Effect.apply h) ∧
    (es.length ≤ steps → ∀ i, i = interface ∨ Settled decode config start attempts last i h →
      Settled decode config start attempts last i ((es.take steps).foldl Effect.apply h)) := by
  have hother : ∀ i, i ≠ interface → ((es.take steps).foldl Effect.apply h).original config i = h.original config i := by
    intro i hi
    obtain ⟨hinstalled, hrecovery⟩ := foldl_effects_of_ne hes steps hi
    rw [Host.original, Host.original, hinstalled, hrecovery]
  have hsame : ∀ i, i ≠ interface → Settled decode config start attempts last i h →
      Settled decode config start attempts last i ((es.take steps).foldl Effect.apply h) := by
    intro i hi hsettled
    obtain ⟨hinstalled, hrecovery⟩ := foldl_effects_of_ne hes steps hi
    rw [Settled, hinstalled, hrecovery]
    exact hsettled
  rcases original_effects hes steps with ⟨hless, horiginal⟩ | ⟨promoted, restored, hpromoted, hrestored, horiginal, hdone⟩
  · constructor
    · intro i
      by_cases hi : i = interface
      · rw [hi, horiginal]
        exact htracks interface
      · rw [hother i hi]
        exact htracks i
    · exact fun hlen => absurd hless (not_lt.mpr hlen)
  · have hstep : Matches (fun p q => Follows decode attempts interface p q ∧ Ends decode attempts last interface p q)
        (start.original config interface) restored := by
      refine (htracks interface).comp ?_ (matches_of_promotionConfig hpromoted hrestored)
      rintro p q r hpq ⟨learned, hlearns, hr⟩
      exact hpq.step hlast hlearns hr
    constructor
    · intro i
      by_cases hi : i = interface
      · rw [hi, horiginal]
        exact hstep.imp fun p q h => h.1
      · rw [hother i hi]
        exact htracks i
    · intro hlen i hi
      by_cases hne : i = interface
      · rw [hne]
        have hnone := hdone hlen
        refine ⟨hnone, ?_⟩
        rw [← original_of_recovery hnone, horiginal]
        exact hstep
      · exact hsame i hne (hi.resolve_left hne)

theorem Tracks.promoteFrom (interfaces : List (List Char)) (steps : ℕ) (htracks : Tracks decode config start attempts h) :
    Tracks decode config start attempts (promoteFrom decode config last.cacheFile interfaces steps h).1 ∧
    ((promoteFrom decode config last.cacheFile interfaces steps h).2 = true →
      ∀ i, i ∈ interfaces ∨ Settled decode config start attempts last i h →
        Settled decode config start attempts last i (promoteFrom decode config last.cacheFile interfaces steps h).1) := by
  induction interfaces generalizing steps h with
  | nil =>
    refine ⟨htracks, fun _ i hi => hi.resolve_left List.not_mem_nil⟩
  | cons interface rest ih =>
    rw [Wireguard.promoteFrom]
    cases hes : Wireguard.effects decode config last.cacheFile interface h with
    | error err => exact ⟨htracks, fun h => by cases h⟩
    | ok es =>
      dsimp only
      split_ifs with hless
      · exact ⟨(htracks.effects hlast hes steps).1, fun h => by cases h⟩
      · obtain ⟨hnext, hsettled⟩ := htracks.effects hlast hes es.length
        rw [List.take_length] at hnext hsettled
        obtain ⟨hrest, hdone⟩ := ih (steps - es.length) hnext
        refine ⟨hrest, fun hok i hi => hdone hok i ?_⟩
        rcases hi with hi | hi
        · rcases List.mem_cons.mp hi with rfl | hi
          · exact .inr (hsettled le_rfl _ (.inl rfl))
          · exact .inl hi
        · exact .inr (hsettled le_rfl i (.inr hi))

theorem Tracks.promote (htracks : Tracks decode config start attempts h) :
    Tracks decode config start attempts (promote decode config last h).1 ∧
    ((promote decode config last h).2 = true → ∀ i ∈ config.wireguard,
      Settled decode config start attempts last i (promote decode config last h).1) := by
  rw [Wireguard.promote]
  split_ifs with hnone
  · exact ⟨htracks, fun _ i hi => by rw [hnone] at hi; cases hi⟩
  · cases hcache : last.cache config with
    | error err => exact ⟨htracks, fun h => by cases h⟩
    | ok cache =>
      rw [cache_eq hcache]
      obtain ⟨hall, hdone⟩ := htracks.promoteFrom hlast config.wireguard last.steps
      exact ⟨hall, fun hok i hi => hdone hok i (.inl hi)⟩

end Run

theorem Tracks.run {config : Config} {start h : Host} {before attempts : List Attempt}
    (htracks : Tracks decode config start before h) :
    Tracks decode config start (before ++ attempts) (run decode config h attempts) := by
  induction attempts generalizing before h with
  | nil => simpa [Wireguard.run] using htracks
  | cons a attempts ih =>
    have hmono : Tracks decode config start (before ++ [a]) h := fun i =>
      (htracks i).imp fun p q => Follows.mono (List.subset_append_left _ _)
    have hnext := ih (hmono.promote (List.mem_append_right before (List.mem_singleton_self a))).1
    rwa [List.append_assoc] at hnext

theorem tracks_start (config : Config) (start : Host) : Tracks decode config start [] start := fun i =>
  Matches.refl (Follows.refl [] i) _

/-- **Promotion preserves the configuration.** After any attempts, the first one to be completed leaves every interface with
the interface section and the peers of the original, in order, with the lines that they had. Of several keepalive lines of a
peer the first stays, and an endpoint that was found is the only one. -/
theorem promote_preserves (decode : List Char → Option (List UInt8)) (config : Config) (start : Host)
    (attempts : List Attempt) (last : Attempt)
    (hdone : (promote decode config last (run decode config start attempts)).2 = true) :
    ∀ i ∈ config.wireguard, ∃ head ps qs, split peerMark (start.original config i) = head :: ps ∧
      split peerMark ((promote decode config last (run decode config start attempts)).1.installed i) = head :: qs ∧
      List.Forall₂ (fun p q => ∃ learned, SamePeer learned p q ∧ ∀ key, publicKey p = some key →
        (∀ e, Finds decode last i key e → learned = some e) ∧
        ∀ e, learned = some e → ∃ a ∈ attempts ++ [last], Finds decode a i key e) ps qs := by
  intro i hi
  have hrun : Tracks decode config start attempts (run decode config start attempts) := (tracks_start config start).run
  have htracks : Tracks decode config start (attempts ++ [last]) (run decode config start attempts) := fun i =>
    (hrun i).imp fun p q => Follows.mono (List.subset_append_left _ _)
  obtain ⟨-, head, ps, qs, hold, hnew, hall⟩ := (htracks.promote (by simp)).2 hdone i hi
  exact ⟨head, ps, qs, hold, hnew, hall.imp fun p q h => h.2⟩

/-! ### One interface -/

def wg0 : List Char := "wg0".toList

def vpn : Config := ⟨"site", 1, [wg0], "policy"⟩

def standby (text : List Char) : Host := ⟨fun _ => text, fun _ => none⟩

/-- The key of a peer whose octets are all zero, in base 64. -/
def zeroKey (key : List Char) : Option (List UInt8) :=
  if key = List.replicate 43 'A' ++ ['='] then some (List.replicate 32 0) else none

/-- A snapshot that has 192.0.2.1 and port 51820 for that peer. -/
def snapshot : Cache :=
  ⟨"site", 1, "policy", .default, [⟨#v[0x77, 0x67, 0x30, 0, 0, 0, 0, 0, 0, 0, 0, 0, 0, 0, 0, 0], .replicate 32 0,
    #v[192, 0, 2, 1, 0, 0, 0, 0, 0, 0, 0, 0, 0, 0, 0, 0], 51820, 4⟩]⟩

def calling : List Char :=
  "[Interface]\nListenPort = 51820\n\n[Peer]\n".toList ++
    "PublicKey = AAAAAAAAAAAAAAAAAAAAAAAAAAAAAAAAAAAAAAAAAAA=\nPersistentKeepalive = 25\n".toList

/-- The first attempt ends when the peers call, the second one finds no snapshot. -/
theorem promote_preserves_interrupted : ∃ head ps qs, split peerMark ((standby calling).original vpn wg0) = head :: ps ∧
    split peerMark ((promote zeroKey vpn ⟨none, ⟨.default, 0⟩, 5⟩
      (run zeroKey vpn (standby calling) [⟨some snapshot, ⟨.default, 1⟩, 3⟩])).1.installed wg0) = head :: qs ∧
    List.Forall₂ (fun p q => ∃ learned, SamePeer learned p q) ps qs := by
  have hdone : (promote zeroKey vpn ⟨none, ⟨.default, 0⟩, 5⟩
      (run zeroKey vpn (standby calling) [⟨some snapshot, ⟨.default, 1⟩, 3⟩])).2 = true := by
    decide +kernel
  obtain ⟨head, ps, qs, hold, hnew, hall⟩ := promote_preserves zeroKey vpn (standby calling)
    [⟨some snapshot, ⟨.default, 1⟩, 3⟩] ⟨none, ⟨.default, 0⟩, 5⟩ hdone wg0 (List.mem_singleton.mpr rfl)
  exact ⟨head, ps, qs, hold, hnew, hall.imp fun p q ⟨learned, h, _⟩ => ⟨learned, h⟩⟩

/-- A peer with two keepalive lines. -/
def twice : List Char :=
  "[Interface]\n[Peer]\nPublicKey = AAAAAAAAAAAAAAAAAAAAAAAAAAAAAAAAAAAAAAAAAAA=\n".toList ++
    "PersistentKeepalive = 25\nPersistentKeepalive = 30\n".toList

/-- Promotion does not leave every line of a peer: the second keepalive line is lost. -/
theorem promotion_drops_keepalive : (promote zeroKey vpn ⟨none, ⟨.default, 0⟩, 5⟩ (standby twice)).2 = true ∧
    ¬ ∀ i ∈ vpn.wireguard, ∃ head ps qs, split peerMark ((standby twice).original vpn i) = head :: ps ∧
      split peerMark ((promote zeroKey vpn ⟨none, ⟨.default, 0⟩, 5⟩ (standby twice)).1.installed i) = head :: qs ∧
      List.Forall₂ (fun p q => ∃ learned, (peerLines q).Perm (withEndpoint learned (peerLines p))) ps qs := by
  have hrun : (promote zeroKey vpn ⟨none, ⟨.default, 0⟩, 5⟩ (standby twice)).2 = true ∧
      (split peerMark ((standby twice).original vpn wg0)).tail.map (fun p => (peerLines p).length) = [3] ∧
      ((split peerMark ((standby twice).original vpn wg0)).tail.all fun p =>
        (peerLines p).all fun l => !isEndpoint l) = true ∧
      (split peerMark ((promote zeroKey vpn ⟨none, ⟨.default, 0⟩, 5⟩ (standby twice)).1.installed wg0)).tail.map
        (fun p => (peerLines p).length) = [2] := by
    decide +kernel
  obtain ⟨hdone, hthree, hno, htwo⟩ := hrun
  refine ⟨hdone, fun h => ?_⟩
  obtain ⟨head, ps, qs, hold, hnew, hall⟩ := h wg0 (List.mem_singleton.mpr rfl)
  rw [hold] at hthree hno
  rw [hnew] at htwo
  cases hall with
  | nil => cases hthree
  | cons hpq _ =>
    obtain ⟨learned, hperm⟩ := hpq
    have hlen := hperm.length_eq
    have hp : (peerLines _).length = 3 := (List.cons.inj hthree).1
    have hq : (peerLines _).length = 2 := (List.cons.inj htwo).1
    cases learned with
    | none => rw [withEndpoint] at hlen; omega
    | some e =>
      simp only [List.tail_cons, List.all_cons, Bool.and_eq_true] at hno
      rw [withEndpoint, List.length_append, List.length_singleton,
        List.filter_eq_self.mpr (List.all_eq_true.mp hno.1)] at hlen
      omega

end Wren.Ha.Wireguard
