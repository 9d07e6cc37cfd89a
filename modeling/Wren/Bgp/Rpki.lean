import Wren.Bgp.Attr

/-! RPKI origin validation against a set of ROAs. -/

namespace Wren.Bgp
open Wren.Core

structure Roa where
  pfx : Prefix
  maxLength : UInt8
  originAs : UInt32
deriving DecidableEq

inductive Validity where
  | valid
  | invalid
  | notFound
deriving DecidableEq

structure RoaTable where
  roas : List Roa
deriving DecidableEq

namespace RoaTable

def isEmpty (t : RoaTable) : Bool := t.roas.isEmpty

/-- The ROAs of the same family whose network holds `p`. -/
def covering (t : RoaTable) (p : Prefix) : List Roa :=
  t.roas.filter fun roa =>
    roa.pfx.isIpv4 == p.isIpv4 && roa.pfx.len ≤ p.len && roa.pfx.contains p.addr

def validate (t : RoaTable) (p : Prefix) (originAs : UInt32) : Validity :=
  if (t.covering p).any fun roa => p.len ≤ roa.maxLength && roa.originAs == originAs then .valid
  else if (t.covering p).isEmpty then .notFound
  else .invalid

end RoaTable

/-- The right-most AS of a path. Of a set any member will do. -/
def originAs (asPath : List AsPathSegment) : Option UInt32 :=
  asPath.reverse.findSome? fun
    | .sequence a | .confedSequence a => a.getLast?
    | .set a | .confedSet a => a.head?

end Wren.Bgp
