import Wren.Ospf.Lsa

/-! The neighbour state machine. It is the same one in OSPFv2 and OSPFv3. -/

namespace Wren.Ospf

inductive NeighborState where
  | down
  | attempt
  | init
  | twoWay
  | exStart
  | exchange
  | loading
  | full
deriving DecidableEq

inductive NeighborEvent where
  | start
  | helloReceived
  | twoWayReceived
  | negotiationDone
  | exchangeDone
  | loadingDone
  | adjOk
  | seqNumberMismatch
  | badLsReq
  | oneWayReceived
  | inactivityTimer
  | killNbr
  | linkDown
deriving DecidableEq

inductive NeighborAction where
  | startInactivityTimer
  | resetInactivityTimer
  | stopInactivityTimer
  | startDdExchange
  | startDatabaseExchange
  | adjacencyUp
  | clearAdjacency
deriving DecidableEq

/-- What the interface decides: whether there should be an adjacency, and whether anything is still requested. -/
structure NeighborContext where
  adjacencyOk : Bool := false
  requestListEmpty : Bool := false

namespace NeighborState

def rank : NeighborState → ℕ
  | down => 0
  | attempt => 1
  | init => 2
  | twoWay => 3
  | exStart => 4
  | exchange => 5
  | loading => 6
  | full => 7

def isBidirectional (s : NeighborState) : Bool := twoWay.rank ≤ s.rank

/-- From ExStart on there is an adjacency, or one comes up. -/
def wasForming (s : NeighborState) : Bool := exStart.rank ≤ s.rank

def handle (s : NeighborState) (ev : NeighborEvent) (ctx : NeighborContext) : NeighborState × List NeighborAction :=
  match ev, s with
  | .killNbr, s | .linkDown, s => (down, .stopInactivityTimer :: if s.wasForming then [.clearAdjacency] else [])
  | .inactivityTimer, s => (down, if s.wasForming then [.clearAdjacency] else [])
  | .start, down => (attempt, [.startInactivityTimer])
  | .helloReceived, down => (init, [.startInactivityTimer])
  | .helloReceived, attempt => (init, [.resetInactivityTimer])
  | .helloReceived, s => (s, [.resetInactivityTimer])
  | .twoWayReceived, init => if ctx.adjacencyOk then (exStart, [.startDdExchange]) else (twoWay, [])
  | .adjOk, twoWay => if ctx.adjacencyOk then (exStart, [.startDdExchange]) else (twoWay, [])
  | .oneWayReceived, twoWay => (init, [])
  | .negotiationDone, exStart => (exchange, [.startDatabaseExchange])
  | .exchangeDone, exchange => if ctx.requestListEmpty then (full, [.adjacencyUp]) else (loading, [])
  | .loadingDone, loading => (full, [.adjacencyUp])
  | .adjOk, exStart | .adjOk, exchange | .adjOk, loading | .adjOk, full =>
    if ctx.adjacencyOk then (s, []) else (twoWay, [.clearAdjacency])
  | .seqNumberMismatch, exchange | .seqNumberMismatch, loading | .seqNumberMismatch, full
  | .badLsReq, exchange | .badLsReq, loading | .badLsReq, full => (exStart, [.clearAdjacency, .startDdExchange])
  | .oneWayReceived, exStart | .oneWayReceived, exchange | .oneWayReceived, loading | .oneWayReceived, full =>
    (init, [.clearAdjacency])
  | _, s => (s, [])

end NeighborState
end Wren.Ospf
