import Potter.Db.BBox
import Potter.Lib.Interleaving
import Potter.Lib.Scheduling

/-!
# The state of the router

`AStarRoute` holds what is fixed while routing: the design, the mode, the weights of the cost
function, and the implementations of `std::priority_queue` and `std::sort`, whose order among equal
elements is not specified. `RouterState` holds what the routing methods change.

A method returns no state when the program stops, by `assert_t` or by `exit`; both end it at once.

Threads other than the running one may write occupancies and present costs while it works. What it
then reads of them is given by `Reads`; the methods take it as an argument, and `Reads.own` is the
case that no other thread interferes.
-/

namespace Potter

open Lib

/-- The control variables of the main loop. -/
structure Control (K : Type) where
  iter : Int
  connectionIdBase : Int
  currentBatchStamp : Int
  presentCongestionFactor : K
  historicalCongestionFactor : K
  presentCongestionMultiplier : K
  isCongestedDesign : Bool
  useOverlapRouting : Bool

/-- The fixed part of a router. -/
structure AStarRoute (K : Type) [Arith K] where
  database : Database K
  numThread : Nat
  isRuntimeFirst : Bool
  useParallel : Bool
  maxIter : Int
  rnodeCostWeight : K
  sharingWeight : K
  rnodeWLWeight : K
  estWLWeight : K
  maxPresentCongestionFactor : K
  queue : PriorityQueue database.NodeId K
  sorter : Sorter

/-- What the routing methods change. The working memory has one table for every thread. Of the log
only the number of its `Routing failure` lines is kept. -/
structure RouterState {K : Type} (D : Database K) where
  ctl : Control K
  node : D.NodeId → NodeState K
  conn : D.ConnId → ConnState D.NodeId
  net : D.NetId → NetUsers D.NodeId
  info : Nat → D.NodeId → NodeInfo D.NodeId K
  routedConnectionNum : Int
  failRouteNum : Int
  numOverUsedRNodes : Int
  loggedFailures : Int

namespace RouterState

variable {K : Type} {D : Database K}

def withNode (st : RouterState D) (r : D.NodeId) (s : NodeState K) : RouterState D :=
  { st with node := Function.update st.node r s }

def withConn (st : RouterState D) (c : D.ConnId) (s : ConnState D.NodeId) : RouterState D :=
  { st with conn := Function.update st.conn c s }

def withNet (st : RouterState D) (n : D.NetId) (u : NetUsers D.NodeId) : RouterState D :=
  { st with net := Function.update st.net n u }

def withInfo (st : RouterState D) (tid : Nat) (info : D.NodeId → NodeInfo D.NodeId K) :
    RouterState D :=
  { st with info := Function.update st.info tid info }

/-- The marks of a thread's table. -/
def marks (st : RouterState D) (tid : Nat) : D.NodeId → BestFirst.Mark D.NodeId K :=
  fun r => (st.info tid r).toMark

/-- Replace the marks of a thread's table. The occupancy changes recorded there stay. -/
def withMarks (st : RouterState D) (tid : Nat) (m : D.NodeId → BestFirst.Mark D.NodeId K) :
    RouterState D :=
  st.withInfo tid fun r => { st.info tid r with toMark := m r }

/-- Log that a connection could not be routed. -/
def logFailure (st : RouterState D) : RouterState D :=
  { st with loggedFailures := st.loggedFailures + 1 }

section Projections

variable (st : RouterState D)

@[simp] theorem withNode_ctl (r s) : (st.withNode r s).ctl = st.ctl := rfl
@[simp] theorem withNode_node (r s) : (st.withNode r s).node = Function.update st.node r s := rfl
@[simp] theorem withNode_conn (r s) : (st.withNode r s).conn = st.conn := rfl
@[simp] theorem withNode_net (r s) : (st.withNode r s).net = st.net := rfl
@[simp] theorem withNode_info (r s) : (st.withNode r s).info = st.info := rfl
@[simp] theorem withConn_ctl (c s) : (st.withConn c s).ctl = st.ctl := rfl
@[simp] theorem withConn_node (c s) : (st.withConn c s).node = st.node := rfl
@[simp] theorem withConn_conn (c s) : (st.withConn c s).conn = Function.update st.conn c s := rfl
@[simp] theorem withConn_net (c s) : (st.withConn c s).net = st.net := rfl
@[simp] theorem withConn_info (c s) : (st.withConn c s).info = st.info := rfl
@[simp] theorem withNet_ctl (n u) : (st.withNet n u).ctl = st.ctl := rfl
@[simp] theorem withNet_node (n u) : (st.withNet n u).node = st.node := rfl
@[simp] theorem withNet_conn (n u) : (st.withNet n u).conn = st.conn := rfl
@[simp] theorem withNet_net (n u) : (st.withNet n u).net = Function.update st.net n u := rfl
@[simp] theorem withNet_info (n u) : (st.withNet n u).info = st.info := rfl
@[simp] theorem withMarks_ctl (tid m) : (st.withMarks tid m).ctl = st.ctl := rfl
@[simp] theorem withMarks_node (tid m) : (st.withMarks tid m).node = st.node := rfl
@[simp] theorem withMarks_conn (tid m) : (st.withMarks tid m).conn = st.conn := rfl
@[simp] theorem withMarks_net (tid m) : (st.withMarks tid m).net = st.net := rfl
@[simp] theorem marks_withMarks (tid m) : (st.withMarks tid m).marks tid = m := by
  funext r
  simp [marks, withMarks, withInfo]
@[simp] theorem withNode_loggedFailures (r s) :
    (st.withNode r s).loggedFailures = st.loggedFailures := rfl
@[simp] theorem withConn_loggedFailures (c s) :
    (st.withConn c s).loggedFailures = st.loggedFailures := rfl
@[simp] theorem withNet_loggedFailures (n u) :
    (st.withNet n u).loggedFailures = st.loggedFailures := rfl
@[simp] theorem withMarks_loggedFailures (tid m) :
    (st.withMarks tid m).loggedFailures = st.loggedFailures := rfl

end Projections

end RouterState

/-! ## A new router -/

/-- The initial values of the control variables. -/
def Control.init {K : Type} [Arith K] : Control K where
  iter := 0
  connectionIdBase := 0
  currentBatchStamp := -1
  presentCongestionFactor := ((1 : Int) : K) / (2 : Int)
  historicalCongestionFactor := (1 : Int)
  presentCongestionMultiplier := (2 : Int)
  isCongestedDesign := false
  useOverlapRouting := true

/-- The state before anything is routed. The source gives no initial value to the flags of the
connections and to two of the counters; the arguments stand for what their memory holds. -/
def RouterState.init {K : Type} [Arith K] {D : Database K}
    (isRouted isRoutedThisIter : D.ConnId → Bool) (routedConnectionNum failRouteNum : Int) :
    RouterState D where
  ctl := .init
  node _ := .init
  conn c := ⟨[], isRouted c, isRoutedThisIter c, 0, -1⟩
  net _ := .init
  info _ _ := .init
  routedConnectionNum := routedConnectionNum
  failRouteNum := failRouteNum
  numOverUsedRNodes := 0
  loggedFailures := 0

/-- What a thread reads of a node that other threads may be writing, next to the value that the
state holds. -/
structure Reads (V K : Type) where
  occupancy : NodeState K → V → Int
  presentCongestionCost : NodeState K → V → K

/-- No interference: a thread reads what the state holds. -/
def Reads.own {V K : Type} : Reads V K where
  occupancy s _ := s.occupancy
  presentCongestionCost s _ := s.presentCongestionCost

/-! ## Columns of independent nets

The smallest designs there are: `k` nets of one connection each, net `i` from node `2 * i` to node
`2 * i + 1`, both in column `3 * i`. The box of a connection holds its own column only. -/

/-- The two nodes of a column are linked or not. -/
abbrev columnsDatabase (k : Nat) (linked : Bool) : Database ℚ where
  numNodes := 2 * k
  numNets := k
  numConns := k
  routeNodes r :=
    { beginTileXCoordinate := 3 * (r / 2 : Nat)
      beginTileYCoordinate := 0
      endTileXCoordinate := 3 * (r / 2 : Nat)
      endTileYCoordinate := 0
      baseCost := 1
      length := 1
      type := if r.val % 2 = 0 then .pinfeedO else .pinfeedI
      isAccessibleWire := false
      isNodePinBounce := false
      children := .setChildren
        (if h : linked = true ∧ r.val % 2 = 0 then [⟨r + 1, by have := r.isLt; omega⟩] else []) }
  indirectConnections c :=
    { netId := c
      source := ⟨2 * c, by have := c.isLt; omega⟩
      sink := ⟨2 * c + 1, by have := c.isLt; omega⟩
      xmin := 3 * (c : Nat)
      xmax := 3 * (c : Nat)
      ymin := 0
      ymax := 0
      bbox := .set (3 * (c : Nat) - 1) (-1) (3 * (c : Nat) + 1) 1
      hpwl := 4 }
  nets n :=
    { indirectConns := [n]
      xCenter := 3 * (n : Nat)
      yCenter := 0
      doubleHpwl := 12
      xmin := 3 * (n : Nat) - 1
      xmax := 3 * (n : Nat) + 1
      ymin := -1
      ymax := 1 }
  layout := .set 0 0 108 300
  deviceXMax := 3 * k
  deviceYMax := 0
  mem_indirectConns := by
    intro n c
    exact List.mem_singleton
  nodup_indirectConns n := List.nodup_singleton n
  source_eq h := by
    dsimp only at h
    rw [h]

/-- A router on such a design. -/
abbrev columns (k numThread : Nat) (linked isRuntimeFirst : Bool) : AStarRoute ℚ where
  database := columnsDatabase k linked
  numThread := numThread
  isRuntimeFirst := isRuntimeFirst
  useParallel := true
  maxIter := 500
  rnodeCostWeight := 1
  sharingWeight := 1
  rnodeWLWeight := 1 / 5
  estWLWeight := 4 / 5
  maxPresentCongestionFactor := 1000000
  queue := scanQueue _ ℚ
  sorter := insertionSorter

/-! ## A fork

The smallest net that uses a node twice: two connections that part at their source. -/

/-- A router on a design with one net, from node `0` to the nodes `1` and `2`. -/
abbrev fork (baseCost : ℚ) : AStarRoute ℚ where
  database :=
    { numNodes := 3
      numNets := 1
      numConns := 2
      routeNodes := fun r =>
        { beginTileXCoordinate := 0
          beginTileYCoordinate := 0
          endTileXCoordinate := 0
          endTileYCoordinate := 0
          baseCost := baseCost
          length := 1
          type := if r.val = 0 then .pinfeedO else .pinfeedI
          isAccessibleWire := false
          isNodePinBounce := false
          children := .setChildren (if r.val = 0 then [idx 1, idx 2] else []) }
      indirectConnections := fun c =>
        { netId := idx 0
          source := idx 0
          sink := ⟨c + 1, by have := c.isLt; omega⟩
          xmin := 0
          xmax := 0
          ymin := 0
          ymax := 0
          bbox := .set (-1) (-1) 1 1
          hpwl := 4 }
      nets := fun _ =>
        { indirectConns := [idx 0, idx 1]
          xCenter := 0
          yCenter := 0
          doubleHpwl := 12
          xmin := -1
          xmax := 1
          ymin := -1
          ymax := 1 }
      layout := .set 0 0 108 300
      deviceXMax := 3
      deviceYMax := 0
      mem_indirectConns := by decide
      nodup_indirectConns := by decide
      source_eq := fun _ => rfl }
  numThread := 1
  isRuntimeFirst := false
  useParallel := true
  maxIter := 500
  rnodeCostWeight := 1
  sharingWeight := 1
  rnodeWLWeight := 1 / 5
  estWLWeight := 4 / 5
  maxPresentCongestionFactor := 1000000
  queue := scanQueue _ ℚ
  sorter := insertionSorter

/-! ## A crossing

Two nets that meet at a wire: net 0 goes from node 0 to node 1 through wire 4, net 1 from node 2 to
node 3 through wire 4 or wire 5. -/

def crossingChildren : Nat → List Nat
  | 0 => [4]
  | 2 => [4, 5]
  | 4 => [1, 3]
  | 5 => [3]
  | _ => []

abbrev crossingDatabase : Database ℚ where
  numNodes := 6
  numNets := 2
  numConns := 2
  routeNodes r :=
    let x := if 4 ≤ r.val then 1 else if r.val = 0 ∨ r.val = 2 then 0 else 2
    { beginTileXCoordinate := x
      beginTileYCoordinate := 0
      endTileXCoordinate := x
      endTileYCoordinate := 0
      baseCost := 1
      length := 1
      type := if 4 ≤ r.val then .wire else if r.val = 0 ∨ r.val = 2 then .pinfeedO else .pinfeedI
      isAccessibleWire := false
      isNodePinBounce := false
      children := .setChildren ((crossingChildren r).map idx) }
  indirectConnections c :=
    { netId := c
      source := if c.val = 0 then idx 0 else idx 2
      sink := if c.val = 0 then idx 1 else idx 3
      xmin := 0
      xmax := 0
      ymin := 0
      ymax := 0
      bbox := .set 0 0 0 0
      hpwl := 0 }
  nets n :=
    { indirectConns := [n]
      xCenter := 0
      yCenter := 0
      doubleHpwl := 0
      xmin := intMax
      xmax := 0
      ymin := intMax
      ymax := 0 }
  layout := .set 0 0 108 300
  deviceXMax := 108
  deviceYMax := 300
  mem_indirectConns := by decide
  nodup_indirectConns := by decide
  source_eq := by decide

/-- A router on the crossing, with the boxes of the router's margins. -/
abbrev crossing (numThread : Nat) (isRuntimeFirst : Bool) : AStarRoute ℚ :=
  { columns 1 numThread true isRuntimeFirst with
    database := crossingDatabase.boxed 3 15
    queue := scanQueue _ ℚ }

namespace crossing

variable {numThread : Nat} {isRuntimeFirst : Bool}

abbrev node (r : Nat) : (crossing numThread isRuntimeFirst).database.NodeId := (idx r : Fin 6)
abbrev conn (c : Nat) : (crossing numThread isRuntimeFirst).database.ConnId := (idx c : Fin 2)
abbrev net (n : Nat) : (crossing numThread isRuntimeFirst).database.NetId := (idx n : Fin 2)

end crossing

end Potter
