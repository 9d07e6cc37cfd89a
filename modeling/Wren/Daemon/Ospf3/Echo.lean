import Wren.Ospfv3.Codec
import Wren.Ospfv3.Lsa

/-! Own LSAs of the OSPFv3 task that come back from a neighbour. -/

namespace Wren.Daemon.Ospf3
open Wren.Ospf (Ipv4Addr maxAge maxAgeDiff minLsArrival FloodDecision FloodInput)
open Wren.Ospfv3 OrdMap

def initialSequenceNumber : Int32 := -0x7fffffff

/-- Sequence number, checksum and length are left for later. -/
def selfHeader (routerId : Ipv4Addr) (lsType : LsType) (linkStateId : Ipv4Addr) : LsaHeader where
  lsAge := 0
  lsType
  linkStateId
  advertisingRouter := routerId
  lsSeq := 0
  lsChecksum := 0
  length := 0

/-- The LSA that `build_*_lsa` makes of a body. -/
def build (routerId linkStateId : Ipv4Addr) (body : LsaBody) : Lsa := ⟨selfHeader routerId body.lsType linkStateId, body⟩

def withSeq (l : Lsa) (seq : Int32) : Lsa := { l with header := { l.header with lsSeq := seq } }

/-- The database of a flooding scope, and the sequence numbers that come next there. -/
structure Scoped where
  lsdb : Lsdb
  lsaSeqs : BTreeMap LsaKey Int32

namespace Scoped

def nextSeq (w : Scoped) (key : LsaKey) : Int32 := w.lsaSeqs[key]?.getD initialSequenceNumber

/-- The LSA gets the next sequence number, is installed, and goes out. -/
def installArea (w : Scoped) (lsa : Lsa) : Scoped × Lsa :=
  let seq := w.nextSeq lsa.key
  let lsa := withSeq lsa seq
  ({ lsdb := (w.lsdb.install lsa).1, lsaSeqs := w.lsaSeqs.insert lsa.key (seq + 1) }, lsa)

end Scoped

/-- An own LSA is in the database without checksum and length. Its copy on the wire has a checksum, and so counts as
more recent: it is never taken for an acknowledgment. -/
theorem echo_installed {routerId linkStateId : Ipv4Addr} {body : LsaBody} {seq : Int32} {db : Lsdb} {held : UInt16}
    {wire : Lsa} {n : ℕ} (age : UInt16) (input : FloodInput)
    (hdb : db.get (build routerId linkStateId body).key =
      some ((withSeq (build routerId linkStateId body) seq).withAge held))
    (hwire : Lsa.decode (withSeq (build routerId linkStateId body) seq).encode = some (wire, n)) :
    wire.header.lsChecksum ≠ 0 ∧ wire.header.length = UInt16.ofNat (20 + body.encode.length) ∧
      decideFlood db (wire.withAge age) input =
        (if ∃ since ∈ input.dbCopyAgeSinceInstall, since < minLsArrival then .discard .minLsArrival
        else .install (routerId == input.selfRouterId)) ∧
      decideFlood db (wire.withAge age) input ≠ .impliedAck ∧ decideFlood db (wire.withAge age) input ≠ .directAck := by
  obtain ⟨c, hc, hheader⟩ := Lsa.header_of_decode_encode hwire
  have htype : LsType.fromU16 (build routerId linkStateId body).header.lsType.asU16 = body.lsType :=
    LsType.fromU16_asU16 body
  have hkey : (wire.withAge age).key = (build routerId linkStateId body).key := by
    rw [Lsa.key, Lsa.withAge, hheader]
    simp only [LsaHeader.key, withSeq, htype]
    rfl
  have hrecent : (wire.withAge age).header.compareRecency
      ((withSeq (build routerId linkStateId body) seq).withAge held).header = .gt := by
    have hpos : (0 : UInt16) < c := by
      rw [UInt16.lt_iff_toNat_lt]
      have hne : c.toNat ≠ 0 := fun h0 => hc (UInt16.toNat_inj.mp h0)
      show 0 < c.toNat
      omega
    have hcmp : compare c 0 = .gt := Std.compare_eq_gt.mpr hpos
    rw [Lsa.withAge, hheader]
    simp only [LsaHeader.compareRecency, Lsa.withAge, withSeq, build, selfHeader, Std.compare_self, hcmp]
  have hdecision : decideFlood db (wire.withAge age) input =
      if ∃ since ∈ input.dbCopyAgeSinceInstall, since < minLsArrival then .discard .minLsArrival
      else .install (routerId == input.selfRouterId) := by
    have hheld : db.header (wire.withAge age).key =
        some ((withSeq (build routerId linkStateId body) seq).withAge held).header := by
      rw [hkey, Lsdb.header, hdb, Option.map_some]
    have hself : (wire.withAge age).header.advertisingRouter = routerId := by
      rw [Lsa.withAge, hheader]
      rfl
    simp only [decideFlood, hheld, hrecent, hself, reduceCtorEq, false_and, and_false, if_false]
  refine ⟨?_, ?_, hdecision, ?_, ?_⟩
  · rw [hheader]
    exact hc
  · rw [hheader]
    rfl
  · rw [hdecision]
    split_ifs <;> simp
  · rw [hdecision]
    split_ifs <;> simp

/-- The Router-LSA of a router without links. -/
def ownRouterLsa : Lsa := build 1 0 (.router ⟨0, 0x13, []⟩)

/-- It is originated for the first time. -/
def originated : Scoped × Lsa := Scoped.installArea ⟨.new, ∅⟩ ownRouterLsa

/-- That LSA as a neighbour has it. -/
def echoed : Lsa where
  header := { originated.2.header with lsChecksum := 0x2809, length := 24 }
  body := ownRouterLsa.body

/-- A neighbour that is neither asked for the LSA nor still has to acknowledge it. -/
def settled : FloodInput where
  selfRouterId := 1
  dbCopyAgeSinceInstall := none
  onRequestList := false
  onRetransmitList := false
  anyNeighborExchanging := false

theorem echo_installed_first : decideFlood originated.1.lsdb (echoed.withAge 7) settled = .install true := by
  have hdb : originated.1.lsdb.get (build 1 0 (.router ⟨0, 0x13, []⟩)).key =
      some ((withSeq (build 1 0 (.router ⟨0, 0x13, []⟩)) initialSequenceNumber).withAge 0) := by
    decide +kernel
  have hwire : Lsa.decode (withSeq (build 1 0 (.router ⟨0, 0x13, []⟩)) initialSequenceNumber).encode =
      some (echoed, 24) := by
    decide +kernel
  exact (echo_installed 7 settled hdb hwire).2.2.1

/-- An echo of the first instance is installed, where an acknowledgment is due. -/
theorem echo_not_acknowledged :
    ¬ ∀ (routerId linkStateId : Ipv4Addr) (body : LsaBody) (seq : Int32) (db : Lsdb) (held age : UInt16) (wire : Lsa)
      (n : ℕ) (input : FloodInput), held < maxAge → age < maxAge →
      max held.toNat age.toNat - min held.toNat age.toNat ≤ maxAgeDiff.toNat →
      db.get (build routerId linkStateId body).key =
        some ((withSeq (build routerId linkStateId body) seq).withAge held) →
      Lsa.decode (withSeq (build routerId linkStateId body) seq).encode = some (wire, n) →
      decideFlood db (wire.withAge age) input = .impliedAck ∨ decideFlood db (wire.withAge age) input = .directAck := by
  intro h
  have hack := h 1 0 (.router ⟨0, 0x13, []⟩) initialSequenceNumber originated.1.lsdb 0 7 echoed 24 settled (by decide)
    (by decide) (by decide) (by decide +kernel) (by decide +kernel)
  have hinstall : decideFlood originated.1.lsdb (echoed.withAge 7) settled = .install true := by decide +kernel
  rw [hinstall] at hack
  cases hack with
  | inl himplied => cases himplied
  | inr hdirect => cases hdirect

end Wren.Daemon.Ospf3
