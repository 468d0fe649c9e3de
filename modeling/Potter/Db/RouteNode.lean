import Potter.Lib.BestFirst
import Potter.Utils.Arith

/-!
# Route nodes

A node of the routing graph (`db/routeNode.h`). What the router never changes is a `RouteNode`; the
counters and costs it does change are a `NodeState`; the entry of one thread's working memory for a
node is a `NodeInfo`.

The children of a node are kept in a small inline array first and in an overflow vector once the
array is full (`Children`). Their order is that of insertion (`getChildren_setChildren`).
-/

namespace Potter

open Lib

inductive NodeType
  | pinfeedO
  | pinfeedI
  | pinbounce
  | superLongLine
  | lagunaI
  | wire
deriving DecidableEq, Repr

/-- `NODE_CAPACITY`. -/
def nodeCapacity : Int := 1

/-- `INLINE_CAPACITY`. -/
def inlineCapacity : Nat := 8

/-! ## The children of a node -/

/-- The overflow vector is used only once the inline array is full. -/
structure Children (V : Type) where
  inlineChildren : List V
  overflowChildren : List V
  inlineSize_le : inlineChildren.length ≤ inlineCapacity
  overflow_eq_nil : inlineChildren.length < inlineCapacity → overflowChildren = []

namespace Children

variable {V : Type}

def clearChildren : Children V := ⟨[], [], Nat.zero_le _, fun _ => rfl⟩

def addChildren (cs : Children V) (c : V) : Children V :=
  if h : cs.inlineChildren.length < inlineCapacity then
    ⟨cs.inlineChildren ++ [c], cs.overflowChildren, by rw [List.length_append]; exact h,
      fun _ => cs.overflow_eq_nil h⟩
  else
    ⟨cs.inlineChildren, cs.overflowChildren ++ [c], cs.inlineSize_le, fun h' => absurd h' h⟩

def setChildren (l : List V) : Children V := l.foldl addChildren clearChildren

def getChildren (cs : Children V) : List V := cs.inlineChildren ++ cs.overflowChildren

theorem getChildren_addChildren (cs : Children V) (c : V) :
    (cs.addChildren c).getChildren = cs.getChildren ++ [c] := by
  unfold addChildren getChildren
  split
  · rename_i h
    simp [cs.overflow_eq_nil h]
  · simp

/-- **The children come back in the order they were given.** -/
theorem getChildren_setChildren (l : List V) : (setChildren l).getChildren = l := by
  have h : ∀ cs : Children V, (l.foldl addChildren cs).getChildren = cs.getChildren ++ l := by
    induction l with
    | nil => simp
    | cons c l ih =>
      intro cs
      rw [List.foldl_cons, ih, getChildren_addChildren, List.append_assoc, List.singleton_append]
  exact h clearChildren

end Children

/-- The part of a node that is fixed while routing. -/
structure RouteNode (V K : Type) where
  beginTileXCoordinate : Int
  beginTileYCoordinate : Int
  endTileXCoordinate : Int
  endTileYCoordinate : Int
  baseCost : K
  length : Int
  type : NodeType
  isAccessibleWire : Bool
  isNodePinBounce : Bool
  children : Children V

/-! ## The counters and costs of a node -/

structure NodeState (K : Type) where
  occupancy : Int
  needUpdateBatchStamp : Int
  presentCongestionCost : K
  historicalCongestionCost : K
deriving DecidableEq

namespace NodeState

variable {K : Type}

def incrementOccupancy (s : NodeState K) : NodeState K := { s with occupancy := s.occupancy + 1 }

def decrementOccupancy (s : NodeState K) : NodeState K := { s with occupancy := s.occupancy - 1 }

def setNeedUpdateBatchStamp (s : NodeState K) (batchStamp : Int) : NodeState K :=
  { s with needUpdateBatchStamp := batchStamp }

def setPresentCongestionCost (s : NodeState K) (cost : K) : NodeState K :=
  { s with presentCongestionCost := cost }

def setHistoricalCongestionCost (s : NodeState K) (cost : K) : NodeState K :=
  { s with historicalCongestionCost := cost }

/-- A new node. -/
def init [IntCast K] : NodeState K := ⟨0, -1, (1 : Int), (1 : Int)⟩

variable [Arith K]

/-- Set the present cost from an occupancy `occ`, the node's own unless other threads write it. -/
def updatePresentCongestionCost (s : NodeState K) (occ : Int) (presFac : K) : NodeState K :=
  if occ < nodeCapacity then s.setPresentCongestionCost (1 : Int)
  else
    s.setPresentCongestionCost
      (Arith.toFloat ((1 : Int) + Arith.toFloat (((occ - nodeCapacity + 1 : Int) : K) * presFac)))

@[simp] theorem updatePresentCongestionCost_occupancy (s : NodeState K) (occ : Int) (presFac : K) :
    (s.updatePresentCongestionCost occ presFac).occupancy = s.occupancy := by
  unfold updatePresentCongestionCost
  split <;> rfl

end NodeState

/-! ## The working memory of a search -/

/-- The marks of the searches, and the uncommitted change of the occupancy with the batch it belongs
to. -/
structure NodeInfo (V K : Type) extends BestFirst.Mark V K where
  occChange : Int
  occChangeBatchStamp : Int
deriving DecidableEq

namespace NodeInfo

variable {V K : Type}

/-- A new entry. -/
def init [IntCast K] : NodeInfo V K := ⟨⟨none, (0 : Int), (0 : Int), -1, -1⟩, 0, -1⟩

/-- A record of another batch counts as none. -/
def getOccChange (i : NodeInfo V K) (batchStamp : Int) : Int :=
  if batchStamp ≠ i.occChangeBatchStamp then 0 else i.occChange

def incOccChange (i : NodeInfo V K) (batchStamp : Int) : NodeInfo V K :=
  if batchStamp ≠ i.occChangeBatchStamp then
    { i with occChangeBatchStamp := batchStamp, occChange := 1 }
  else { i with occChange := i.occChange + 1 }

def decOccChange (i : NodeInfo V K) (batchStamp : Int) : NodeInfo V K :=
  if batchStamp ≠ i.occChangeBatchStamp then
    { i with occChangeBatchStamp := batchStamp, occChange := -1 }
  else { i with occChange := i.occChange - 1 }

end NodeInfo

end Potter
