import Potter.Route.Search

/-!
# Stable-first routing of a batch of nets

A batch runs in three phases with a barrier after each (`stableFirstRouting.cpp`). The route workers
route the nets of their lists and note the changes of their nets' user counts; the net workers merge
these into the counts and the occupancies; the cost workers recompute the present costs of the nodes
whose occupancy changed.

The steps a schedule can interleave are one net in the first two phases and one node in the third
(`runBatch`).
-/

namespace Potter

open Lib

namespace AStarRoute

variable {K : Type} [Arith K] (R : AStarRoute K)

/-! ## Reserving the sinks -/

/-- The program stops when two connections have one sink. -/
def reserveSink (c : R.database.ConnId) (st : RouterState R.database) :
    Option (RouterState R.database) :=
  let n := R.database.netOf c
  let sink := R.database.sink c
  let st := R.useNode .own n st sink
  if (st.node sink).occupancy > 1 ∨ (st.net n).countConnectionsOfUser sink > 1 then none
  else some st

/-- `sortConnections` leaves the connections in the order of their ids. -/
def sortedConnectionIds : List R.database.ConnId := List.finRange R.database.numConns

def updateSinkNodeUsage (st : RouterState R.database) : Option (RouterState R.database) :=
  runAll R.reserveSink R.sortedConnectionIds st

/-! ## The routing phase -/

/-- One connection in the loop of `routeWorker`. A failure is logged and nothing else. -/
def routeWorkerConnection (tid : Nat) (c : R.database.ConnId) (st : RouterState R.database) :
    Option (RouterState R.database) :=
  let st := st.withConn c ((st.conn c).setRoutedThisIter false)
  if R.shouldRoute .own st c then
    (R.ripup .own c true st).bind fun st =>
      (R.routeOneConnection .own c tid true st).map fun (success, st) =>
        if success then st else st.logFailure
  else some st

/-- The nodes on the routes of a net, as often as they occur. -/
def routedNodes (st : RouterState R.database) (n : R.database.NetId) : List R.database.NodeId :=
  (R.database.nets n).indirectConns.flatMap fun c => (st.conn c).rnodes

/-- Record the nodes a net has entered and those it has left. An entered node is recorded for every
connection that uses it, a node left only once. -/
def recordOccChanges (stamp : Int) (before after : List R.database.NodeId)
    (info : R.database.NodeId → NodeInfo R.database.NodeId K) :
    R.database.NodeId → NodeInfo R.database.NodeId K :=
  let info := after.foldl (fun info r =>
    if r ∈ before then info else Function.update info r ((info r).incOccChange stamp)) info
  before.dedup.foldl (fun info r =>
    if r ∈ after then info else Function.update info r ((info r).decOccChange stamp)) info

/-- Forget the changes noted for a net in an earlier batch. -/
def clearPreUsers (n : R.database.NetId) (st : RouterState R.database) : RouterState R.database :=
  st.withNet n (st.net n).clearPreDecrement.clearPreIncrement

/-- One net in the loop of `routeWorker`. -/
def routeWorkerNet (tid : Nat) (n : R.database.NetId) (st : RouterState R.database) :
    Option (RouterState R.database) :=
  let st := R.clearPreUsers n st
  let usedRNodesBefore := R.routedNodes st n
  (runAll (R.routeWorkerConnection tid) (R.database.nets n).indirectConns st).map fun st =>
    st.withInfo tid (R.recordOccChanges st.ctl.currentBatchStamp usedRNodesBefore
      (R.routedNodes st n) (st.info tid))

def routeWorker (netIds : List R.database.NetId) (tid : Nat) (st : RouterState R.database) :
    Option (RouterState R.database) :=
  runAll (R.routeWorkerNet tid) netIds st

/-! ## The phase that merges the user counts -/

/-- One entry of the pre-increment map: `cnt` more connections of the net use the node. -/
def commitIncrement (batchStamp : Int) (n : R.database.NetId) (e : Sigma fun _ : R.database.NodeId => Int)
    (st : RouterState R.database) : RouterState R.database :=
  let (counts, newlyAdd) := (st.net n).usersConnectionCounts.incrTimes e.2.toNat e.1
  let st := st.withNet n { st.net n with usersConnectionCounts := counts }
  if newlyAdd then
    st.withNode e.1 ((st.node e.1).incrementOccupancy.setNeedUpdateBatchStamp batchStamp)
  else st

/-- One entry of the pre-decrement map. The program stops when more connections would leave than
there are. -/
def commitDecrement (batchStamp : Int) (n : R.database.NetId) (e : Sigma fun _ : R.database.NodeId => Int)
    (st : RouterState R.database) : Option (RouterState R.database) :=
  match (st.net n).usersConnectionCounts.lookup e.1 with
  | none => none
  | some k =>
    if e.2 ≤ k then
      let (counts, isErased) := (st.net n).usersConnectionCounts.decrTimes e.2.toNat e.1
      let st := st.withNet n { st.net n with usersConnectionCounts := counts }
      if isErased then
        some (st.withNode e.1 ((st.node e.1).decrementOccupancy.setNeedUpdateBatchStamp batchStamp))
      else some st
    else none

def updatePreIncrement (batchStamp : Int) (n : R.database.NetId) (st : RouterState R.database) :
    RouterState R.database :=
  (st.net n).userConnectionToIncrement.entries.foldl
    (fun st e => R.commitIncrement batchStamp n e st) st

def updatePreDecrement (batchStamp : Int) (n : R.database.NetId) (st : RouterState R.database) :
    Option (RouterState R.database) :=
  runAll (R.commitDecrement batchStamp n) (st.net n).userConnectionToDecrement.entries st

/-- One net in the loop of `updateNetsWorker`: increments first. -/
def updateNet (n : R.database.NetId) (st : RouterState R.database) :
    Option (RouterState R.database) :=
  R.updatePreDecrement st.ctl.currentBatchStamp n
    (R.updatePreIncrement st.ctl.currentBatchStamp n st)

def updateNetsWorker (netIds : List R.database.NetId) (st : RouterState R.database) :
    Option (RouterState R.database) :=
  runAll R.updateNet netIds st

/-! ## The phase that recomputes the present costs -/

/-- One node in the loop of `updatePresentCongCostWorker`. -/
def updatePresentCongCost (rnode : R.database.NodeId) (st : RouterState R.database) :
    RouterState R.database :=
  let node := st.node rnode
  if node.needUpdateBatchStamp = st.ctl.currentBatchStamp then
    st.withNode rnode
      (node.updatePresentCongestionCost node.occupancy st.ctl.presentCongestionFactor)
  else st

/-- The nodes of a thread's strided loop. -/
def nodesOfThread (tid : Nat) : List R.database.NodeId :=
  strided R.database.numNodes R.numThread R.database.numNodes tid

def updatePresentCongCostWorker (tid : Nat) (st : RouterState R.database) :
    RouterState R.database :=
  (R.nodesOfThread tid).foldl (fun st r => R.updatePresentCongCost r st) st

/-! ## A batch -/

/-- The net lists of a batch as threads, each net with its thread. -/
def netThreads (lists : List (List R.database.NetId)) : List (List (Nat × R.database.NetId)) :=
  lists.zipIdx.map fun p => p.1.map fun n => (p.2, n)

/-- The loops of the cost workers. -/
def nodeThreads : List (List R.database.NodeId) := (List.range R.numThread).map R.nodesOfThread

/-- The three phases of a batch, with the threads of each one after the other. -/
def batchInOrder (lists : List (List R.database.NetId)) (st : RouterState R.database) :
    Option (RouterState R.database) :=
  ((runAll (fun p => R.routeWorker p.1 p.2) lists.zipIdx st).bind
    (runAll R.updateNetsWorker lists)).bind
    (runAll (fun tid st => some (R.updatePresentCongCostWorker tid st)) (List.range R.numThread))

/-- The three phases of a batch, each by a schedule of its steps. -/
def runBatch (routing commits : List (Nat × R.database.NetId)) (costs : List R.database.NodeId)
    (st : RouterState R.database) : Option (RouterState R.database) :=
  ((runAll (fun p => R.routeWorkerNet p.1 p.2) routing st).bind
    (runAll (fun p => R.updateNet p.2) commits)).bind
    (runAll (fun r st => some (R.updatePresentCongCost r st)) costs)

end AStarRoute

end Potter
