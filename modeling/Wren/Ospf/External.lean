import Wren.Ospf.ShortestPaths

/-! Routes to destinations outside the AS. A type 1 metric adds to the cost of the way to the ASBR. A type 2 metric stands
for itself, and only where there is no type 1. -/

namespace Wren.Ospf
open OrdMap RouteTree Offer
open Std (TransOrd LawfulEqOrd ExtTreeMap)

def lsInfinity : UInt32 := 0xffffff

def saturatingAdd (a b : UInt32) : UInt32 := UInt32.ofNat (min (a.toNat + b.toNat) 4294967295)

/-- What an LSA of an ASBR that can be reached says of a prefix. -/
structure Advert (K G : Type) where
  pfx : K
  externalType2 : Bool
  metric : UInt32
  costToAsbr : UInt32
  gateways : List G

namespace Advert
variable {K G : Type}

def total (a : Advert K G) : UInt32 := if a.externalType2 then a.metric else saturatingAdd a.costToAsbr a.metric

def info (a : Advert K G) : Info G := ⟨a.total, a.gateways⟩

variable [Ord K] [TransOrd K] [LawfulEqOrd K] [DecidableEq K] [DecidableEq G]

/-- The routes with the lowest total. -/
def table (l : List (Advert K G)) : BTreeMap K (Info G) := l.foldl (fun m a => Topology.addRoute m (a.pfx, a.info)) ∅

end Advert

def advert (intra : SpfResult) (selfId : Ipv4Addr) (lsa : Lsa) : Option (Advert Core.Prefix Ipv4Addr) :=
  match lsa.body with
  | .asExternal ext =>
    let asbr := lsa.header.advertisingRouter
    if asbr = selfId ∨ lsInfinity ≤ ext.metric ∨ maxAge ≤ lsa.header.lsAge then none
    else if ext.forwardingAddress ≠ 0 then none
    else do
      let costToAsbr ← intra.routers[asbr]?
      let pfx ← (Core.Prefix.new (.v4 lsa.header.linkStateId) (maskLen ext.networkMask)).toOption
      some ⟨pfx, ext.externalType2, ext.metric, costToAsbr, (intra.routerNexthops[asbr]?).getD []⟩
  | _ => none

/-- Type 1 and type 2 do not compete. A prefix without type 1 takes the route of type 2. -/
def externalRoutesOfType (lsdb : Lsdb) (intra : SpfResult) (selfId : Ipv4Addr) (lsType : LsType) : List SpfRoute :=
  let adverts := (lsdb.iterType lsType).filterMap (advert intra selfId)
  let (e1, e2) : BTreeMap Core.Prefix (Info Ipv4Addr) × BTreeMap Core.Prefix (Info Ipv4Addr) :=
    adverts.foldl (fun m a =>
      if a.externalType2 then (m.1, Topology.addRoute m.2 (a.pfx, a.info))
      else (Topology.addRoute m.1 (a.pfx, a.info), m.2)) (∅, ∅)
  let merged := e2.toList.foldl (fun m e => m.insertIfNew e.1 e.2) e1
  merged.toList.map fun e => ⟨e.1, e.2.dist, e.2.gateways⟩

def externalRoutes (lsdb : Lsdb) (intra : SpfResult) (selfId : Ipv4Addr) : List SpfRoute :=
  externalRoutesOfType lsdb intra selfId .asExternal

def nssaRoutes (lsdb : Lsdb) (intra : SpfResult) (selfId : Ipv4Addr) : List SpfRoute :=
  externalRoutesOfType lsdb intra selfId .nssa

/-- The LSA counts: it is not our own, reachable, younger than MaxAge, below LSInfinity, and forwards by its ASBR. -/
def Eligible (intra : SpfResult) (selfId : Ipv4Addr) (lsa : Lsa) (a : Advert Core.Prefix Ipv4Addr) : Prop :=
  ∃ ext, lsa.body = .asExternal ext ∧ lsa.header.advertisingRouter ≠ selfId ∧ ext.metric < lsInfinity ∧
    lsa.header.lsAge < maxAge ∧ ext.forwardingAddress = 0 ∧
    intra.routers[lsa.header.advertisingRouter]? = some a.costToAsbr ∧
    Core.Prefix.new (.v4 lsa.header.linkStateId) (maskLen ext.networkMask) = .ok a.pfx ∧
    a.externalType2 = ext.externalType2 ∧ a.metric = ext.metric ∧
    a.gateways = (intra.routerNexthops[lsa.header.advertisingRouter]?).getD []

/-! ### Preference -/

section Preference
variable {K G : Type} (A : Advert K G → Prop)

/-- A way to a prefix by type 1, at the full cost of it. -/
def Type1 (k : K) (n : ℕ) (a : Advert K G) : Prop :=
  A a ∧ a.pfx = k ∧ a.externalType2 = false ∧ a.costToAsbr.toNat + a.metric.toNat = n

def Type2 (k : K) (n : ℕ) (a : Advert K G) : Prop := A a ∧ a.pfx = k ∧ a.externalType2 = true ∧ a.metric.toNat = n

/-- A prefix with type 1 has the least of these costs and the next hops of all that reach it. One without has the least
metric of type 2. -/
structure Prefers (route : K → UInt32 → List G → Prop) : Prop where
  unique : ∀ {k c gs c' gs'}, route k c gs → route k c' gs' → c = c' ∧ gs = gs'
  type1 : ∀ k, (∃ n a, Type1 A k n a) → ∃ c gs, route k c gs ∧
    IsLeast (Set.ofPred fun n => ∃ a, Type1 A k n a) c.toNat ∧ ∀ g, g ∈ gs ↔ ∃ a, Type1 A k c.toNat a ∧ g ∈ a.gateways
  type2 : ∀ k, (¬ ∃ n a, Type1 A k n a) → ∀ n, (∃ c gs, route k c gs ∧ c.toNat = n) ↔
    IsLeast (Set.ofPred fun n => ∃ a, Type2 A k n a) n

/-- The least cost by type 1 fits into 32 bits, and no rival undercuts it or adds a next hop at the same total. -/
def Undisputed (rivals : Advert K G → Prop) : Prop :=
  ∀ k m, IsLeast (Set.ofPred fun n => ∃ a, Type1 A k n a) m → m < 2 ^ 32 ∧ ∀ r, rivals r → r.pfx = k →
    m ≤ r.total.toNat ∧ (r.total.toNat = m → ∀ g ∈ r.gateways, ∃ a, Type1 A k m a ∧ g ∈ a.gateways)

end Preference

theorem toNat_saturatingAdd (a b : UInt32) : (saturatingAdd a b).toNat = min (a.toNat + b.toNat) 4294967295 := by
  rw [saturatingAdd]
  exact UInt32.toNat_ofNat_of_lt' (by change _ < 4294967296; omega)

section Table
variable {K G : Type} [Ord K] [TransOrd K] [LawfulEqOrd K] [DecidableEq K] [DecidableEq G]
  {A rivals : Advert K G → Prop} {l : List (Advert K G)}

/-- The table holds under each prefix the least total and the next hops of all that have it. -/
theorem holds_advertTable (l : List (Advert K G)) (k : K) (g : G) :
    Holds (fun i : Info G => i.dist.toNat) (fun i => g ∈ i.gateways)
      (fun d i => ∃ a ∈ l, a.pfx = k ∧ d = a.total.toNat ∧ i = a.info) (Advert.table l)[k]? :=
  @holds_table ℕ (Info G) _ (fun i => i.dist.toNat)
    (fun e i => { e with gateways := mergeGateways e.gateways i.gateways }) (fun i => g ∈ i.gateways) K _ _ _ _
    (fun _ => rfl) (Advert K G) Advert.pfx Advert.info l (fun e i => mem_mergeGateways e.gateways i.gateways g) k

theorem exists_advertTable_iff (l : List (Advert K G)) (k : K) (n : ℕ) :
    (∃ i, (Advert.table l)[k]? = some i ∧ i.dist.toNat = n) ↔
      IsLeast (Set.ofPred fun n => ∃ a ∈ l, a.pfx = k ∧ n = a.total.toNat) n :=
  @exists_table_iff ℕ (Info G) _ (fun i => i.dist.toNat)
    (fun e i => { e with gateways := mergeGateways e.gateways i.gateways }) K _ _ _ _ (fun _ => rfl) (Advert K G)
    Advert.pfx Advert.info l k n

theorem advertTable_isSome {a : Advert K G} (ha : a ∈ l) : ∃ i, (Advert.table l)[a.pfx]? = some i := by
  have hne : (Set.ofPred fun n => ∃ b ∈ l, b.pfx = a.pfx ∧ n = b.total.toNat).Nonempty := ⟨_, a, ha, rfl, rfl⟩
  obtain ⟨i, hi, -⟩ := (exists_advertTable_iff l a.pfx _).mpr (isLeast_csInf hne)
  exact ⟨i, hi⟩

theorem advertTable_eq_none {k : K} (h : ∀ a ∈ l, a.pfx ≠ k) : (Advert.table l)[k]? = none := by
  cases hi : (Advert.table l)[k]? with
  | none => rfl
  | some i =>
    obtain ⟨⟨a, ha, hk, -⟩, -⟩ := (exists_advertTable_iff l k _).mp ⟨i, hi, rfl⟩
    exact absurd hk (h a ha)

variable (hl : ∀ r, r ∈ l ↔ rivals r) (hsub : ∀ a, A a → a.externalType2 = false → rivals a)
include hl hsub

omit [Ord K] [TransOrd K] [LawfulEqOrd K] [DecidableEq K] [DecidableEq G] hl hsub in
theorem Type1.total_eq {k : K} {n : ℕ} {a : Advert K G} (h : Type1 A k n a) : a.total.toNat = min n 4294967295 := by
  obtain ⟨-, -, htype, rfl⟩ := h
  rw [Advert.total, htype]
  exact toNat_saturatingAdd _ _

/-- A table of rivals gives type 1 what it is due exactly if the rivals do not dispute it. -/
theorem type1_iff_undisputed :
    (∀ k, (∃ n a, Type1 A k n a) → ∃ c gs, (Advert.table l)[k]? = some ⟨c, gs⟩ ∧
      IsLeast (Set.ofPred fun n => ∃ a, Type1 A k n a) c.toNat ∧ ∀ g, g ∈ gs ↔ ∃ a, Type1 A k c.toNat a ∧ g ∈ a.gateways) ↔
    Undisputed A rivals := by
  constructor
  · intro h k m hm
    obtain ⟨c, gs, hc, hleast, hgs⟩ := h k ⟨m, hm.1⟩
    obtain rfl := hleast.unique hm
    obtain ⟨-, hle⟩ := (exists_advertTable_iff l k _).mp ⟨_, hc, rfl⟩
    refine ⟨c.toNat_lt, ?_⟩
    intro r hr hk
    refine ⟨hle ⟨r, (hl r).mpr hr, hk, rfl⟩, ?_⟩
    intro htotal g hg
    have hbest := holds_advertTable l k g
    rw [hc] at hbest
    exact (hgs g).mp (hbest.hop_iff.mpr ⟨r.info, ⟨r, (hl r).mpr hr, hk, htotal.symm, rfl⟩, hg⟩)
  · rintro h k ⟨n, a, ha⟩
    have hne : (Set.ofPred fun n => ∃ a, Type1 A k n a).Nonempty := ⟨n, a, ha⟩
    obtain ⟨m, hleast⟩ : ∃ m, IsLeast (Set.ofPred fun n => ∃ a, Type1 A k n a) m := ⟨_, isLeast_csInf hne⟩
    obtain ⟨hfits, hrivals⟩ := h k m hleast
    obtain ⟨b, hb⟩ := hleast.1
    have hbk : b.pfx = k := hb.2.1
    have hmem : b ∈ l := (hl b).mpr (hsub b hb.1 hb.2.2.1)
    have htotal : b.total.toNat = m := by
      rw [hb.total_eq]
      omega
    obtain ⟨⟨c, gs⟩, hc, hdist⟩ := (exists_advertTable_iff l k m).mpr ⟨⟨b, hmem, hbk, htotal.symm⟩, by
      rintro d ⟨r, hr, hk, rfl⟩
      exact (hrivals r ((hl r).mp hr) hk).1⟩
    obtain rfl : c.toNat = m := hdist
    refine ⟨c, gs, hc, hleast, ?_⟩
    intro g
    have hbest := holds_advertTable l k g
    rw [hc] at hbest
    constructor
    · intro hg
      obtain ⟨i, ⟨r, hr, hk, hd, rfl⟩, hi⟩ := hbest.hop_iff.mp hg
      exact (hrivals r ((hl r).mp hr) hk).2 hd.symm g hi
    · rintro ⟨a', ha', hg⟩
      have hsame : a'.total.toNat = c.toNat := by
        rw [ha'.total_eq]
        omega
      exact hbest.hop_iff.mpr
        ⟨a'.info, ⟨a', (hl a').mpr (hsub a' ha'.1 ha'.2.2.1), ha'.2.1, hsame.symm, rfl⟩, hg⟩

omit hl hsub in
/-- Without type 1 there, a table gives the least metric of type 2. -/
theorem type2_advertTable {k : K} (hk : ∀ r, r ∈ l ∧ r.pfx = k ↔ A r ∧ r.pfx = k ∧ r.externalType2 = true) (n : ℕ) :
    (∃ c gs, (Advert.table l)[k]? = some ⟨c, gs⟩ ∧ c.toNat = n) ↔
      IsLeast (Set.ofPred fun n => ∃ a, Type2 A k n a) n := by
  have hset : (Set.ofPred fun n => ∃ a ∈ l, a.pfx = k ∧ n = a.total.toNat) = Set.ofPred fun n => ∃ a, Type2 A k n a := by
    congr 1
    funext m
    refine propext ?_
    constructor
    · rintro ⟨a, ha, hak, rfl⟩
      obtain ⟨hA, -, htype⟩ := (hk a).mp ⟨ha, hak⟩
      exact ⟨a, hA, hak, htype, by rw [Advert.total, if_pos htype]⟩
    · rintro ⟨a, hA, hak, htype, rfl⟩
      exact ⟨a, ((hk a).mpr ⟨hA, hak, htype⟩).1, hak, by rw [Advert.total, if_pos htype]⟩
  rw [← hset, ← exists_advertTable_iff]
  constructor
  · rintro ⟨c, gs, h, hd⟩
    exact ⟨_, h, hd⟩
  · rintro ⟨⟨c, gs⟩, h, hd⟩
    exact ⟨c, gs, h, hd⟩

end Table

/-! ### The routes of OSPFv2 -/

theorem advert_eq_some_iff {intra : SpfResult} {selfId : Ipv4Addr} {lsa : Lsa} {a : Advert Core.Prefix Ipv4Addr} :
    advert intra selfId lsa = some a ↔ Eligible intra selfId lsa a := by
  unfold advert Eligible
  cases hbody : lsa.body with
  | asExternal ext =>
    dsimp only
    constructor
    · intro h
      split_ifs at h with hskip hforward
      push Not at hskip hforward
      obtain ⟨hself, hmetric, hage⟩ := hskip
      obtain ⟨cost, hcost, h⟩ := Option.bind_eq_some_iff.mp h
      obtain ⟨p, hp, h⟩ := Option.bind_eq_some_iff.mp h
      obtain rfl := Option.some.inj h
      exact ⟨ext, rfl, hself, UInt32.not_le.mp hmetric, by simpa using hage, hforward, hcost,
        Spf.toOption_eq_some.mp hp, rfl, rfl, rfl⟩
    · rintro ⟨ext', hext, hself, hmetric, hage, hforward, hcost, hp, htype, hm, hgs⟩
      obtain rfl := LsaBody.asExternal.inj hext
      have hskip : ¬ (lsa.header.advertisingRouter = selfId ∨ lsInfinity ≤ ext.metric ∨ maxAge ≤ lsa.header.lsAge) := by
        rintro (h | h | h)
        · exact hself h
        · exact UInt32.not_lt.mpr h hmetric
        · exact absurd hage (by simpa using h)
      obtain ⟨pfx, t, metric, cost, gs⟩ := a
      dsimp only at htype hm hgs hcost hp
      subst htype hm hgs
      rw [if_neg hskip, if_neg (fun h => h hforward), hcost, hp]
      rfl
  | _ =>
    constructor
    · exact fun h => by cases h
    · rintro ⟨ext, hext, -⟩
      cases hext

/-- What is already there stays. -/
theorem getElem?_foldl_insertIfNew {K V : Type} [Ord K] [TransOrd K] [LawfulEqOrd K] [DecidableEq K] (l : List (K × V))
    (m : BTreeMap K V) (k : K) : (l.foldl (fun m e => m.insertIfNew e.1 e.2) m)[k]? =
      (m[k]?).or ((l.find? fun e => e.1 = k).map Prod.snd) := by
  induction l generalizing m with
  | nil => simp
  | cons e l ih =>
    rw [List.foldl_cons, ih, ExtTreeMap.getElem?_insertIfNew, List.find?_cons]
    by_cases hk : e.1 = k
    · subst hk
      cases hm : m[e.1]? with
      | none =>
        have hmem : ¬ e.1 ∈ m := by
          rw [← ExtTreeMap.isSome_getElem?_iff_mem, hm]
          simp
        simp [hmem]
      | some v =>
        have hmem : e.1 ∈ m := by
          rw [← ExtTreeMap.isSome_getElem?_iff_mem, hm]
          rfl
        simp [hmem]
    · simp [hk]

section Routes
variable (lsdb : Lsdb) (intra : SpfResult) (selfId : Ipv4Addr) (lsType : LsType)

/-- Where type 1 has a route it is taken. -/
theorem mem_externalRoutesOfType {k : Core.Prefix} {c : UInt32} {gs : List Ipv4Addr} :
    ⟨k, c, gs⟩ ∈ externalRoutesOfType lsdb intra selfId lsType ↔
      (let adverts := (lsdb.iterType lsType).filterMap (advert intra selfId)
       ((Advert.table (adverts.filter fun a => !a.externalType2))[k]?).or
        (Advert.table (adverts.filter fun a => a.externalType2))[k]?) = some ⟨c, gs⟩ := by
  have hfold : ∀ (l : List (Advert Core.Prefix Ipv4Addr))
      (m : BTreeMap Core.Prefix (Info Ipv4Addr) × BTreeMap Core.Prefix (Info Ipv4Addr)),
      l.foldl (fun m a =>
        if a.externalType2 then (m.1, Topology.addRoute m.2 (a.pfx, a.info))
        else (Topology.addRoute m.1 (a.pfx, a.info), m.2)) m =
      ((l.filter fun a => !a.externalType2).foldl (fun m a => Topology.addRoute m (a.pfx, a.info)) m.1,
        (l.filter fun a => a.externalType2).foldl (fun m a => Topology.addRoute m (a.pfx, a.info)) m.2) := by
    intro l
    induction l with
    | nil => exact fun m => rfl
    | cons a l ih =>
      intro m
      rw [List.foldl_cons, ih]
      cases h : a.externalType2 <;> simp [h]
  rw [externalRoutesOfType]
  dsimp only
  rw [hfold]
  simp only [List.mem_map]
  constructor
  · rintro ⟨⟨k', i⟩, hmem, heq⟩
    obtain ⟨rfl, rfl, rfl⟩ := SpfRoute.mk.inj heq
    rw [ExtTreeMap.mem_toList_iff_getElem?_eq_some, getElem?_foldl_insertIfNew, find?_toList] at hmem
    rw [Option.map_map] at hmem
    simpa [Advert.table] using hmem
  · intro h
    refine ⟨(k, ⟨c, gs⟩), ?_, rfl⟩
    rw [ExtTreeMap.mem_toList_iff_getElem?_eq_some, getElem?_foldl_insertIfNew, find?_toList, Option.map_map]
    simpa [Advert.table] using h

/-- The LSAs of a type that count. -/
def Adverts (a : Advert Core.Prefix Ipv4Addr) : Prop := ∃ lsa ∈ lsdb.iterType lsType, Eligible intra selfId lsa a

theorem mem_adverts_iff {a : Advert Core.Prefix Ipv4Addr} :
    a ∈ (lsdb.iterType lsType).filterMap (advert intra selfId) ↔ Adverts lsdb intra selfId lsType a := by
  simp only [List.mem_filterMap, advert_eq_some_iff, Adverts]

/-- Only LSAs of type 1 are rivals of each other, so only totals that do not fit can spoil a preference. -/
theorem prefers_externalRoutesOfType_iff :
    Prefers (Adverts lsdb intra selfId lsType) (fun k c gs => ⟨k, c, gs⟩ ∈ externalRoutesOfType lsdb intra selfId lsType) ↔
      Undisputed (Adverts lsdb intra selfId lsType)
        fun r => Adverts lsdb intra selfId lsType r ∧ r.externalType2 = false := by
  have hmem : ∀ {k c gs}, ⟨k, c, gs⟩ ∈ externalRoutesOfType lsdb intra selfId lsType ↔ _ :=
    @mem_externalRoutesOfType lsdb intra selfId lsType
  dsimp only at hmem
  obtain ⟨adverts, hadverts⟩ : ∃ l, (lsdb.iterType lsType).filterMap (advert intra selfId) = l := ⟨_, rfl⟩
  have hA : ∀ a, a ∈ adverts ↔ Adverts lsdb intra selfId lsType a := by
    intro a
    rw [← hadverts]
    exact mem_adverts_iff lsdb intra selfId lsType
  rw [hadverts] at hmem
  have hone : ∀ r, r ∈ adverts.filter (fun a => !a.externalType2) ↔
      Adverts lsdb intra selfId lsType r ∧ r.externalType2 = false := by
    intro r
    rw [List.mem_filter, hA, Bool.not_eq_true']
  rw [← type1_iff_undisputed hone fun a ha htype => ⟨ha, htype⟩]
  have hfirst : ∀ k, (∃ n a, Type1 (Adverts lsdb intra selfId lsType) k n a) → ∀ c gs,
      ⟨k, c, gs⟩ ∈ externalRoutesOfType lsdb intra selfId lsType ↔
        (Advert.table (adverts.filter fun a => !a.externalType2))[k]? = some ⟨c, gs⟩ := by
    rintro k ⟨n, a, ha, rfl, htype, -⟩ c gs
    obtain ⟨i, hi⟩ := advertTable_isSome ((hone a).mpr ⟨ha, htype⟩)
    rw [hmem, hi, Option.some_or]
  constructor
  · intro h k hk
    obtain ⟨c, gs, hroute, hrest⟩ := h.type1 k hk
    exact ⟨c, gs, (hfirst k hk c gs).mp hroute, hrest⟩
  · intro h
    refine ⟨?_, ?_, ?_⟩
    · intro k c gs c' gs' h₁ h₂
      rw [hmem] at h₁ h₂
      exact Info.mk.inj (Option.some.inj (h₁.symm.trans h₂))
    · intro k hk
      obtain ⟨c, gs, hroute, hrest⟩ := h k hk
      exact ⟨c, gs, (hfirst k hk c gs).mpr hroute, hrest⟩
    · intro k hk n
      have hnone : (Advert.table (adverts.filter fun a => !a.externalType2))[k]? = none := by
        refine advertTable_eq_none ?_
        intro a ha hak
        obtain ⟨hadv, htype⟩ := (hone a).mp ha
        exact hk ⟨_, a, hadv, hak, htype, rfl⟩
      simp only [hmem, hnone, Option.none_or]
      refine type2_advertTable ?_ n
      intro r
      rw [List.mem_filter, hA]
      tauto

end Routes

end Wren.Ospf
