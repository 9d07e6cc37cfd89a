import Wren.Daemon.Isis.Summaries
import Wren.Isis.Survival

/-! Which of the PDUs that the IS-IS task originates come through their own codec whole. -/

namespace Wren.Daemon
open Wren.Core Wren.Isis OrdMap Octets

theorem length_encodeAll_le (tlvs : List Tlv) : (encodeAll tlvs).length ≤ 257 * tlvs.length := by
  induction tlvs with
  | nil => simp [encodeAll]
  | cons t tlvs ih =>
    have hone : t.encode.length ≤ 257 := by
      have hval := length_encode_take t
      have hlen : t.encode.length = (t.encodeValue.take 255).length + 2 := rfl
      omega
    have hcons : encodeAll (t :: tlvs) = t.encode ++ encodeAll tlvs := rfl
    rw [hcons, List.length_append, List.length_cons]
    omega

namespace Isis
variable (s : Isis)

theorem length_pushAuth_le (tlvs : List Tlv) : (s.pushAuth tlvs).length ≤ tlvs.length + 1 := by
  rw [pushAuth]
  cases s.cfg.auth <;> simp

theorem mem_pushAuth {tlvs : List Tlv} {t : Tlv} (h : t ∈ s.pushAuth tlvs) :
    t ∈ tlvs ∨ t.typeCode = 10 ∧ t.encodeValue ≠ [] := by
  rw [pushAuth] at h
  cases hauth : s.cfg.auth with
  | none =>
    rw [hauth] at h
    exact Or.inl h
  | some auth =>
    rw [hauth] at h
    rcases List.mem_cons.mp h with rfl | hmem
    · exact Or.inr ⟨rfl, List.cons_ne_nil _ _⟩
    · exact Or.inl hmem

theorem mem_pushAuth_of_mem {tlvs : List Tlv} {t : Tlv} (h : t ∈ tlvs) : t ∈ s.pushAuth tlvs := by
  rw [pushAuth]
  cases s.cfg.auth with
  | none => exact h
  | some auth => exact List.mem_cons_of_mem _ h

/-- A PDU of a few TLVs survives exactly if each of them does. -/
theorem survives_pushAuth_iff {p : Pdu} {tlvs : List Tlv} (hp : p.body.tlvs = s.pushAuth tlvs)
    (hlen : tlvs.length ≤ 100) (htype : ∀ t ∈ tlvs, t.typeCode ≠ 10) :
    Survives s.cfg.auth p ↔ ∀ t ∈ tlvs, t.cut = some t := by
  have hsize : p.pduType.fixedHeaderLen + (encodeAll p.body.tlvs).length < 65536 := by
    have hhead : p.pduType.fixedHeaderLen ≤ 33 := by cases p.pduType <;> decide
    have hbody := length_encodeAll_le p.body.tlvs
    have hpush := s.length_pushAuth_le tlvs
    rw [hp] at hbody ⊢
    omega
  have hauth : ∀ t ∈ p.body.tlvs, t.typeCode = 10 → t.encodeValue ≠ [] := by
    intro t ht h10
    rw [hp] at ht
    rcases s.mem_pushAuth ht with hmem | ⟨-, hne⟩
    · exact absurd h10 (htype t hmem)
    · exact hne
  rw [survives_iff hsize s.cfg.auth hauth, hp]
  constructor
  · intro h t ht
    exact h t (s.mem_pushAuth_of_mem ht) (htype t ht)
  · intro h t ht h10
    rcases s.mem_pushAuth ht with hmem | ⟨hten, -⟩
    · exact h t hmem
    · exact absurd hten h10

/-! ### The own LSP -/

/-- How many links the own LSP lists. -/
def linkCount (level : IsLevel) : ℕ :=
  (s.ifaces.map fun f =>
    match f.ifaceType with
    | .broadcast => (f.dis.get level).toList.length
    | .pointToPoint => (f.upNeighbors level).length).sum

/-- The networks of each family that it lists. -/
def v4Nets (level : IsLevel) : List Prefix :=
  s.native.v4Reach ++ s.native.extV4.keys ++ (s.leaked level).keys.filter fun p => p.addr.isIpv4

def v6Nets (level : IsLevel) : List Prefix :=
  s.native.v6Reach ++ s.native.extV6.keys ++ (s.leaked level).keys.filter fun p => !p.addr.isIpv4

/-- What entries for some networks take, with `head` octets before the octets of each network. -/
def reachOctets (head : ℕ) (nets : List Prefix) : ℕ := (nets.map fun p => head + pfxBytes p.len).sum

/-- All that the own LSP lists fits the TLVs that it goes into. -/
structure Fits (level : IsLevel) : Prop where
  area : s.cfg.area.length ≤ 254
  v4Addrs : (s.ifaces.flatMap (·.v4)).length ≤ 63
  v6Addrs : (s.ifaces.flatMap (·.v6)).length ≤ 15
  links : s.linkCount level ≤ 23
  metric : s.linkCount level ≠ 0 → s.cfg.metric.toNat < 2 ^ 24
  v4Nets : reachOctets 5 (s.v4Nets level) ≤ 255
  v6Nets : reachOctets 6 (s.v6Nets level) ≤ 255

theorem forall_mem_tlvOf {α : Type} {mk : List α → Tlv} {l : List α} {P : Tlv → Prop} :
    (∀ t ∈ tlvOf mk l, P t) ↔ (l ≠ [] → P (mk l)) := by
  cases l <;> simp [tlvOf]

theorem length_linkReach (level : IsLevel) : (s.linkReach level).length = s.linkCount level := by
  rw [linkReach, linkCount, List.length_flatMap]
  refine congrArg List.sum (List.map_congr_left fun f _ => ?_)
  cases f.ifaceType with
  | broadcast => cases f.dis.get level <;> rfl
  | pointToPoint => exact List.length_map _

theorem linkReach_plain {level : IsLevel} {r : ExtIsReach} (h : r ∈ s.linkReach level) :
    r.metric = s.cfg.metric ∧ r.subTlvs = [] := by
  obtain ⟨f, -, hr⟩ := List.mem_flatMap.mp h
  cases htype : f.ifaceType with
  | broadcast =>
    rw [htype] at hr
    obtain ⟨d, -, rfl⟩ := Option.map_eq_some_iff.mp (Option.mem_toList.mp hr)
    exact ⟨rfl, rfl⟩
  | pointToPoint =>
    rw [htype] at hr
    obtain ⟨e, -, rfl⟩ := List.mem_map.mp hr
    exact ⟨rfl, rfl⟩

/-- The entries are those of the networks, in their order. -/
theorem map_v4Reaches {β : Type} (g : UInt8 → Ipv4Addr → Option (List UInt8) → β) (level : IsLevel) :
    (s.v4Reaches level).map (fun r => g r.prefixLen r.pfx r.subTlvs) =
      (s.v4Nets level).map fun p => g p.len (asV4 p.addr) none := by
  have hfilter : ((s.leaked level).toList.filter fun e => e.1.addr.isIpv4).map (fun e => e.1) =
      (s.leaked level).keys.filter fun p => p.addr.isIpv4 := by
    rw [← Std.ExtTreeMap.map_fst_toList_eq_keys, List.filter_map]
    rfl
  rw [v4Reaches, v4Nets, ← hfilter, ← Std.ExtTreeMap.map_fst_toList_eq_keys]
  simp only [List.map_append, List.map_map]
  rfl

theorem map_v6Reaches {β : Type} (g : UInt8 → Ipv6Addr → Option (List UInt8) → β) (level : IsLevel) :
    (s.v6Reaches level).map (fun r => g r.prefixLen r.pfx r.subTlvs) =
      (s.v6Nets level).map fun p => g p.len (asV6 p.addr) none := by
  have hfilter : ((s.leaked level).toList.filter fun e => !e.1.addr.isIpv4).map (fun e => e.1) =
      (s.leaked level).keys.filter fun p => !p.addr.isIpv4 := by
    rw [← Std.ExtTreeMap.map_fst_toList_eq_keys, List.filter_map]
    rfl
  rw [v6Reaches, v6Nets, ← hfilter, ← Std.ExtTreeMap.map_fst_toList_eq_keys]
  simp only [List.map_append, List.map_map]
  rfl

theorem mem_v4Reaches {level : IsLevel} {r : ExtIpReach} (h : r ∈ s.v4Reaches level) :
    ∃ p ∈ s.v4Nets level, r.prefixLen = p.len ∧ r.pfx = asV4 p.addr ∧ r.subTlvs = none := by
  have hmem : (r.prefixLen, r.pfx, r.subTlvs) ∈ (s.v4Reaches level).map fun r => (r.prefixLen, r.pfx, r.subTlvs) :=
    List.mem_map.mpr ⟨r, h, rfl⟩
  rw [s.map_v4Reaches fun len pfx sub => (len, pfx, sub)] at hmem
  obtain ⟨p, hp, heq⟩ := List.mem_map.mp hmem
  obtain ⟨hlen, hpfx, hsub⟩ : p.len = r.prefixLen ∧ asV4 p.addr = r.pfx ∧ none = r.subTlvs := by simpa using heq
  exact ⟨p, hp, hlen.symm, hpfx.symm, hsub.symm⟩

theorem isIpv4_of_mem_v4Nets {level : IsLevel} {p : Prefix} (h : p ∈ s.v4Nets level) : p.addr.isIpv4 = true := by
  simp only [v4Nets, List.mem_append, List.mem_filter] at h
  rcases h with (hreach | hext) | ⟨-, hfam⟩
  · exact s.native.v4Reach_isIpv4 p hreach
  · obtain ⟨m, hm⟩ := Option.isSome_iff_exists.mp
      (Std.ExtTreeMap.isSome_getElem?_iff_mem.mpr (Std.ExtTreeMap.mem_keys.mp hext))
    exact s.native.extV4_isIpv4 p m hm
  · exact hfam

theorem mem_v6Reaches {level : IsLevel} {r : Ipv6Reach} (h : r ∈ s.v6Reaches level) :
    ∃ p ∈ s.v6Nets level, r.prefixLen = p.len ∧ r.pfx = asV6 p.addr ∧ r.subTlvs = none := by
  have hmem : (r.prefixLen, r.pfx, r.subTlvs) ∈ (s.v6Reaches level).map fun r => (r.prefixLen, r.pfx, r.subTlvs) :=
    List.mem_map.mpr ⟨r, h, rfl⟩
  rw [s.map_v6Reaches fun len pfx sub => (len, pfx, sub)] at hmem
  obtain ⟨p, hp, heq⟩ := List.mem_map.mp hmem
  obtain ⟨hlen, hpfx, hsub⟩ : p.len = r.prefixLen ∧ asV6 p.addr = r.pfx ∧ none = r.subTlvs := by simpa using heq
  exact ⟨p, hp, hlen.symm, hpfx.symm, hsub.symm⟩

theorem isIpv4_of_mem_v6Nets {level : IsLevel} {p : Prefix} (h : p ∈ s.v6Nets level) : p.addr.isIpv4 = false := by
  simp only [v6Nets, List.mem_append, List.mem_filter] at h
  rcases h with (hreach | hext) | ⟨-, hfam⟩
  · exact s.native.v6Reach_isIpv6 p hreach
  · obtain ⟨m, hm⟩ := Option.isSome_iff_exists.mp
      (Std.ExtTreeMap.isSome_getElem?_iff_mem.mpr (Std.ExtTreeMap.mem_keys.mp hext))
    exact s.native.extV6_isIpv6 p m hm
  · simpa using hfam

theorem asV4_spec {p : Prefix} (h : p.addr.isIpv4 = true) :
    p.len ≤ 32 ∧ (asV4 p.addr &&& if p.len = 0 then 0 else BitVec.allOnes 32 <<< (32 - p.len.toNat)) = asV4 p.addr := by
  obtain ⟨addr, len, hlen, hmask⟩ := p
  cases addr with
  | v4 a => exact ⟨hlen, IpAddr.v4.inj hmask⟩
  | v6 a => cases h

theorem asV6_spec {p : Prefix} (h : p.addr.isIpv4 = false) : p.len ≤ 128 ∧
    (asV6 p.addr &&& if p.len = 0 then 0 else BitVec.allOnes 128 <<< (128 - p.len.toNat)) = asV6 p.addr := by
  obtain ⟨addr, len, hlen, hmask⟩ := p
  cases addr with
  | v4 a => cases h
  | v6 a => exact ⟨hlen, IpAddr.v6.inj hmask⟩

theorem cut_v4Reaches_iff (level : IsLevel) :
    Tlv.cut (.extendedIpReachability (s.v4Reaches level)) = some (.extendedIpReachability (s.v4Reaches level)) ↔
      reachOctets 5 (s.v4Nets level) ≤ 255 := by
  have hall : ∀ r ∈ s.v4Reaches level, r.prefixLen ≤ 32 ∧
      (r.pfx &&& if r.prefixLen = 0 then 0 else BitVec.allOnes 32 <<< (32 - r.prefixLen.toNat)) = r.pfx ∧
      r.subTlvs = none := by
    intro r hr
    obtain ⟨p, hp, hlen, hpfx, hsub⟩ := s.mem_v4Reaches hr
    obtain ⟨hle, hmask⟩ := asV4_spec (s.isIpv4_of_mem_v4Nets hp)
    rw [hlen, hpfx]
    exact ⟨hle, hmask, hsub⟩
  have hsum := s.map_v4Reaches (fun len _ _ => 5 + pfxBytes len) level
  rw [Tlv.cut_extendedIpReachability_iff (fun r hr => (hall r hr).1) (fun r hr => (hall r hr).2.1)
    (fun r hr => (hall r hr).2.2), hsum, reachOctets]

theorem cut_v6Reaches_iff (level : IsLevel) :
    Tlv.cut (.ipv6Reachability (s.v6Reaches level)) = some (.ipv6Reachability (s.v6Reaches level)) ↔
      reachOctets 6 (s.v6Nets level) ≤ 255 := by
  have hall : ∀ r ∈ s.v6Reaches level, r.prefixLen ≤ 128 ∧
      (r.pfx &&& if r.prefixLen = 0 then 0 else BitVec.allOnes 128 <<< (128 - r.prefixLen.toNat)) = r.pfx ∧
      r.subTlvs = none := by
    intro r hr
    obtain ⟨p, hp, hlen, hpfx, hsub⟩ := s.mem_v6Reaches hr
    obtain ⟨hle, hmask⟩ := asV6_spec (s.isIpv4_of_mem_v6Nets hp)
    rw [hlen, hpfx]
    exact ⟨hle, hmask, hsub⟩
  have hsum := s.map_v6Reaches (fun len _ _ => 6 + pfxBytes len) level
  rw [Tlv.cut_ipv6Reachability_iff (fun r hr => (hall r hr).1) (fun r hr => (hall r hr).2.1)
    (fun r hr => (hall r hr).2.2), hsum, reachOctets]

theorem cut_linkReach_iff (level : IsLevel) :
    Tlv.cut (.extendedIsReachability (s.linkReach level)) = some (.extendedIsReachability (s.linkReach level)) ↔
      s.linkCount level ≤ 23 ∧ (s.linkCount level ≠ 0 → s.cfg.metric.toNat < 2 ^ 24) := by
  rw [Tlv.cut_extendedIsReachability_iff (fun r hr => (s.linkReach_plain hr).2), s.length_linkReach]
  have hmetric : (∀ r ∈ s.linkReach level, r.metric.toNat < 2 ^ 24) ↔
      (s.linkCount level ≠ 0 → s.cfg.metric.toNat < 2 ^ 24) := by
    constructor
    · intro h hne
      have hpos : 0 < (s.linkReach level).length := by
        rw [s.length_linkReach]
        omega
      have hmem := List.getElem_mem hpos
      rw [← (s.linkReach_plain hmem).1]
      exact h _ hmem
    · intro h r hr
      rw [(s.linkReach_plain hr).1]
      refine h ?_
      have hpos := List.length_pos_of_mem hr
      rw [s.length_linkReach] at hpos
      omega
  rw [hmetric]
  have hcount : 11 * s.linkCount level ≤ 255 ↔ s.linkCount level ≤ 23 := by omega
  rw [hcount]

theorem length_tlvOf_le {α : Type} (mk : List α → Tlv) (l : List α) : (tlvOf mk l).length ≤ 1 := by
  cases l <;> simp [tlvOf]

theorem length_ownTlvs_le (level : IsLevel) : (s.ownTlvs level).length ≤ 100 := by
  have h1 := length_tlvOf_le .ipv4InterfaceAddresses (s.ifaces.flatMap (·.v4))
  have h2 := length_tlvOf_le .ipv6InterfaceAddresses (s.ifaces.flatMap (·.v6))
  have h3 := length_tlvOf_le .extendedIsReachability (s.linkReach level)
  have h4 := length_tlvOf_le .extendedIpReachability (s.v4Reaches level)
  have h5 := length_tlvOf_le .ipv6Reachability (s.v6Reaches level)
  simp only [ownTlvs, List.length_append, List.length_cons, List.length_nil]
  omega

/-- An empty list is left out, and would fit anyway. -/
theorem forall_mem_tlvOf_cut {α : Type} {mk : List α → Tlv} {l : List α} {Q : Prop}
    (h : (mk l).cut = some (mk l) ↔ Q) (hnil : l = [] → Q) : (∀ t ∈ tlvOf mk l, t.cut = some t) ↔ Q := by
  rw [forall_mem_tlvOf, h]
  by_cases hl : l = []
  · simp [hl, hnil hl]
  · simp [hl]

theorem survives_ownLsp_iff (level : IsLevel) (seq : UInt32) :
    Survives s.cfg.auth ⟨0, .lsp (s.buildOurLsp level seq)⟩ ↔ s.Fits level := by
  have htype : ∀ t ∈ s.ownTlvs level, t.typeCode ≠ 10 := by
    simp [ownTlvs, forall_mem_tlvOf, or_imp, forall_and, Tlv.typeCode]
  have h1 : (∀ t ∈ tlvOf .ipv4InterfaceAddresses (s.ifaces.flatMap (·.v4)), t.cut = some t) ↔
      (s.ifaces.flatMap (·.v4)).length ≤ 63 :=
    forall_mem_tlvOf_cut ((Tlv.cut_ipv4InterfaceAddresses_iff _).trans (by omega)) (fun h => by simp [h])
  have h2 : (∀ t ∈ tlvOf .ipv6InterfaceAddresses (s.ifaces.flatMap (·.v6)), t.cut = some t) ↔
      (s.ifaces.flatMap (·.v6)).length ≤ 15 :=
    forall_mem_tlvOf_cut ((Tlv.cut_ipv6InterfaceAddresses_iff _).trans (by omega)) (fun h => by simp [h])
  have h3 : (∀ t ∈ tlvOf .extendedIsReachability (s.linkReach level), t.cut = some t) ↔ _ :=
    forall_mem_tlvOf_cut (s.cut_linkReach_iff level) (fun h => by simp [← s.length_linkReach, h])
  have h4 : (∀ t ∈ tlvOf .extendedIpReachability (s.v4Reaches level), t.cut = some t) ↔ _ :=
    forall_mem_tlvOf_cut (s.cut_v4Reaches_iff level) (fun h => by
      rw [reachOctets, ← s.map_v4Reaches (fun len _ _ => 5 + pfxBytes len), h]
      simp)
  have h5 : (∀ t ∈ tlvOf .ipv6Reachability (s.v6Reaches level), t.cut = some t) ↔ _ :=
    forall_mem_tlvOf_cut (s.cut_v6Reaches_iff level) (fun h => by
      rw [reachOctets, ← s.map_v6Reaches (fun len _ _ => 6 + pfxBytes len), h]
      simp)
  have hprotocols : Tlv.cut (.protocolsSupported [nlpidIpv4, nlpidIpv6]) =
      some (.protocolsSupported [nlpidIpv4, nlpidIpv6]) := rfl
  rw [s.survives_pushAuth_iff rfl (s.length_ownTlvs_le level) htype, ownTlvs]
  simp only [List.forall_mem_append, h1, h2, h3, h4, h5, List.forall_mem_cons, Tlv.cut_areaAddresses_iff, hprotocols]
  constructor
  · rintro ⟨⟨⟨⟨⟨⟨harea, -⟩, hv4⟩, hv6⟩, hlinks, hmetric⟩, hnets4⟩, hnets6⟩
    exact ⟨harea, hv4, hv6, hlinks, hmetric, hnets4, hnets6⟩
  · rintro ⟨harea, hv4, hv6, hlinks, hmetric, hnets4, hnets6⟩
    exact ⟨⟨⟨⟨⟨⟨harea, by simp⟩, hv4⟩, hv6⟩, hlinks, hmetric⟩, hnets4⟩, hnets6⟩

/-! ### The pseudonode LSP and the sequence-number PDUs -/

variable {s} in
theorem cut_pseudonodeReach_iff {f : Iface} {level : IsLevel} :
    Tlv.cut (.extendedIsReachability (s.pseudonodeReach f level)) =
      some (.extendedIsReachability (s.pseudonodeReach f level)) ↔ (f.upNeighbors level).length ≤ 22 := by
  have hplain : ∀ r ∈ s.pseudonodeReach f level, r.metric = 0 ∧ r.subTlvs = [] := by
    intro r hr
    rcases List.mem_cons.mp hr with rfl | hup
    · exact ⟨rfl, rfl⟩
    · obtain ⟨e, -, rfl⟩ := List.mem_map.mp hup
      exact ⟨rfl, rfl⟩
  have hlen : (s.pseudonodeReach f level).length = (f.upNeighbors level).length + 1 := by simp [pseudonodeReach]
  have hmetric : ∀ r ∈ s.pseudonodeReach f level, r.metric.toNat < 2 ^ 24 := by
    intro r hr
    rw [(hplain r hr).1]
    decide
  rw [Tlv.cut_extendedIsReachability_iff fun r hr => (hplain r hr).2, hlen]
  constructor
  · intro h
    omega
  · intro h
    exact ⟨by omega, hmetric⟩

theorem survives_pseudonodeLsp_iff (f : Iface) (level : IsLevel) (seq : UInt32) :
    Survives s.cfg.auth ⟨0, .lsp (s.buildPseudonodeLsp f level seq)⟩ ↔ (f.upNeighbors level).length ≤ 22 := by
  rw [s.survives_pushAuth_iff rfl (by simp) (by simp [Tlv.typeCode]), List.forall_mem_singleton, cut_pseudonodeReach_iff]

theorem survives_psnp_iff (level : IsLevel) (ids : List LspId) :
    Survives s.cfg.auth ⟨0, .psnp (s.psnp level ids)⟩ ↔ ids.length ≤ 15 := by
  rw [s.survives_pushAuth_iff rfl (by simp) (by simp [Tlv.typeCode]), List.forall_mem_singleton,
    Tlv.cut_lspEntries_iff, List.length_map]
  omega

theorem survives_csnp_iff (f : Iface) (level : IsLevel) (fragment : LspId × LspId × List LspEntry) :
    Survives s.cfg.auth ⟨0, .csnp (s.csnp f level fragment)⟩ ↔ fragment.2.2.length ≤ 15 := by
  rw [s.survives_pushAuth_iff rfl (by simp) (by simp [Tlv.typeCode]), List.forall_mem_singleton,
    Tlv.cut_lspEntries_iff]
  omega

/-- The first fragment of a database takes all that it may. -/
theorem forall_fragments_iff (db : Lsdb) :
    (∀ fragment ∈ csnpFragments db.summary maxCsnpLspEntries, fragment.2.2.length ≤ 15) ↔ db.len ≤ 15 := by
  have hlen : db.summary.length = db.len := by
    rw [Lsdb.summary, Lsdb.iter, List.length_map, List.length_map]
    exact Std.ExtTreeMap.length_toList
  rw [← hlen]
  constructor
  · intro h
    by_cases hnil : db.summary = []
    · simp [hnil]
    · have hfirst : db.summary.take 64 ∈
          (fragmentsFrom .lowest (Chunks.chunks 64 db.summary)).map fun f => f.2.2 := by
        rw [flatten_fragmentsFrom, Chunks.chunks_of_ne_nil (by norm_num) hnil]
        exact List.mem_cons_self
      obtain ⟨fragment, hmem, heq⟩ := List.mem_map.mp hfirst
      have hfragments : csnpFragments db.summary maxCsnpLspEntries =
          fragmentsFrom .lowest (Chunks.chunks 64 db.summary) := by
        rw [csnpFragments, if_neg (by simpa using hnil)]
        rfl
      have hle := h fragment (by rw [hfragments]; exact hmem)
      rw [heq, List.length_take] at hle
      omega
  · intro h fragment hmem
    obtain ⟨-, hlisted, -⟩ := csnpFragments_spec db maxCsnpLspEntries
    have hsub : fragment.2.2.Sublist ((csnpFragments db.summary maxCsnpLspEntries).flatMap (·.2.2)) := by
      rw [List.flatMap_def]
      exact List.sublist_flatten_of_mem (List.mem_map_of_mem hmem)
    rw [hlisted] at hsub
    exact hsub.length_le.trans h

/-- What is originated survives exactly where it fits: the own LSP, the pseudonode LSP of a LAN, a request, and the
description of the database. -/
theorem survives_iff_fits (level : IsLevel) :
    (∀ seq, Survives s.cfg.auth ⟨0, .lsp (s.buildOurLsp level seq)⟩ ↔ s.Fits level) ∧
      (∀ f seq, Survives s.cfg.auth ⟨0, .lsp (s.buildPseudonodeLsp f level seq)⟩ ↔
        (f.upNeighbors level).length ≤ 22) ∧
      (∀ ids, Survives s.cfg.auth ⟨0, .psnp (s.psnp level ids)⟩ ↔ ids.length ≤ 15) ∧
      ∀ f, (∀ fragment ∈ csnpFragments (s.dbs.get level).summary maxCsnpLspEntries,
        Survives s.cfg.auth ⟨0, .csnp (s.csnp f level fragment)⟩) ↔ (s.dbs.get level).len ≤ 15 := by
  refine ⟨s.survives_ownLsp_iff level, fun f => s.survives_pseudonodeLsp_iff f level, s.survives_psnp_iff level, ?_⟩
  intro f
  rw [← forall_fragments_iff]
  exact forall₂_congr fun fragment _ => s.survives_csnp_iff f level fragment

/-- A request for sixteen LSPs is refused by its receiver. -/
theorem not_survives_sixteen :
    ¬ ∀ (s : Isis) (level : IsLevel),
      (∀ seq, Survives s.cfg.auth ⟨0, .lsp (s.buildOurLsp level seq)⟩) ∧
        (∀ f seq, Survives s.cfg.auth ⟨0, .lsp (s.buildPseudonodeLsp f level seq)⟩) ∧
        (∀ ids, Survives s.cfg.auth ⟨0, .psnp (s.psnp level ids)⟩) ∧
        ∀ f, ∀ fragment ∈ csnpFragments (s.dbs.get level).summary maxCsnpLspEntries,
          Survives s.cfg.auth ⟨0, .csnp (s.csnp f level fragment)⟩ := by
  intro h
  have hpsnp := (h (fresh 7 [Iface.quiet .broadcast 5]) .l2).2.2.1 (List.replicate 16 .lowest)
  have hlen := (survives_psnp_iff _ .l2 (List.replicate 16 .lowest)).mp hpsnp
  rw [List.length_replicate] at hlen
  omega

end Isis
end Wren.Daemon
