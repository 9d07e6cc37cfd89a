import Wren.Lib.Reduce
import Wren.Isis.Basic

/-! The adjacency state machine, and the election of the Designated Intermediate System of a LAN. -/

namespace Wren.Isis
open Reduce

inductive AdjState where
  | down
  | initializing
  | up
deriving DecidableEq

inductive AdjEvent where
  | helloOneWay
  | helloTwoWay
  | holdingTimerExpired
  | circuitDown
deriving DecidableEq

inductive AdjAction where
  | startHoldingTimer
  | resetHoldingTimer
  | stopHoldingTimer
  | adjacencyUp
  | adjacencyDown
deriving DecidableEq

structure Adjacency where
  neighborId : SystemId
  level : IsLevel
  state : AdjState
  priority : UInt8
  snpa : Snpa
  lanId : SystemId × UInt8
deriving DecidableEq

namespace Adjacency

def new (neighborId : SystemId) (level : IsLevel) : Adjacency := ⟨neighborId, level, .down, 0, 0, (0, 0)⟩

def isUp (a : Adjacency) : Bool := a.state = .up

def handle (a : Adjacency) (ev : AdjEvent) : Adjacency × List AdjAction :=
  match a.state, ev with
  | _, .circuitDown => ({ a with state := .down }, if a.isUp then [.stopHoldingTimer, .adjacencyDown] else [.stopHoldingTimer])
  | _, .holdingTimerExpired => ({ a with state := .down }, if a.isUp then [.adjacencyDown] else [])
  | .down, .helloOneWay => ({ a with state := .initializing }, [.startHoldingTimer])
  | .down, .helloTwoWay => ({ a with state := .up }, [.startHoldingTimer, .adjacencyUp])
  | .initializing, .helloOneWay => (a, [.resetHoldingTimer])
  | .initializing, .helloTwoWay => ({ a with state := .up }, [.resetHoldingTimer, .adjacencyUp])
  | .up, .helloTwoWay => (a, [.resetHoldingTimer])
  | .up, .helloOneWay => ({ a with state := .initializing }, [.resetHoldingTimer, .adjacencyDown])

/-- After a Hello the adjacency is up exactly if the Hello lists this router. -/
theorem isUp_handle_hello (a : Adjacency) (listed : Bool) :
    (a.handle (if listed then .helloTwoWay else .helloOneWay)).1.isUp = listed := by
  cases listed <;> cases h : a.state <;> simp [handle, h, isUp]

end Adjacency

/-- A router on the LAN, with the address that breaks ties. -/
structure DisCandidate where
  systemId : SystemId
  snpa : Snpa
  priority : UInt8
deriving DecidableEq

namespace DisCandidate

def moreEligible (a b : DisCandidate) : Ordering :=
  (compare a.priority.toNat b.priority.toNat).then (compare a.snpa.toNat b.snpa.toNat)

/-- What the election maximises. -/
def rank (c : DisCandidate) : ℕ ×ₗ ℕ := toLex (c.priority.toNat, c.snpa.toNat)

theorem moreEligible_eq_gt_iff (a b : DisCandidate) : moreEligible a b = .gt ↔ b.rank < a.rank := by
  rw [moreEligible, rank, rank, Prod.Lex.toLex_lt_toLex, Ordering.then_eq_gt, Nat.compare_eq_gt, Nat.compare_eq_gt,
    Nat.compare_eq_eq, eq_comm]

end DisCandidate

def electDis (candidates : List DisCandidate) : Option DisCandidate := maxBy DisCandidate.moreEligible candidates

theorem highest_of_electDis {candidates : List DisCandidate} {w : DisCandidate} (h : electDis candidates = some w) :
    w ∈ candidates ∧ ∀ c ∈ candidates, c.rank ≤ w.rank := highest_of_maxBy DisCandidate.moreEligible_eq_gt_iff h

end Wren.Isis
