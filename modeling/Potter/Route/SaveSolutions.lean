import Mathlib.Data.Set.List
import Potter.Db.WriteBack
import Potter.Lib.Interleaving
import Potter.Lib.LabelCorrecting
import Potter.Route.State
import Potter.Utils.MTStat

/-!
# Saving the routing

`saveAllRoutingSolutions` collects, for every node, the net that uses it and its successors there. A
net is the union of the paths of its connections. An indirect connection is routed between two
interconnect nodes; its path is completed by the fixed paths from the source pin and to the sink pin.
A direct connection is routed from pin to pin.

The paths of one net may meet again after they parted, or run into each other from different nodes.
A net that used a node twice is therefore reduced to a tree of cheapest paths (`fixNetRoutes`).

On the way the types of the nodes are set for the writer: `PINFEED_I` marks the sink pins.
-/

namespace Potter

open Lib

/-! ## Sets of nodes -/

/-- Insert into a `std::set`, which is kept in increasing order. -/
def emplace {V : Type} [LT V] [DecidableLT V] [DecidableEq V] (v : V) : List V → List V
  | [] => [v]
  | u :: l => if v < u then v :: u :: l else if v = u then u :: l else u :: emplace v l

section Emplace

variable {V : Type} [LinearOrder V] {u v : V} {l : List V}

@[simp] theorem mem_emplace : u ∈ emplace v l ↔ u = v ∨ u ∈ l := by
  induction l with
  | nil => simp [emplace]
  | cons w l ih =>
    unfold emplace
    split_ifs with hlt heq
    · exact List.mem_cons
    · subst heq
      simp
    · rw [List.mem_cons, ih, List.mem_cons]
      exact or_left_comm

theorem pairwise_emplace (h : l.Pairwise (· < ·)) : (emplace v l).Pairwise (· < ·) := by
  induction l with
  | nil => exact List.pairwise_singleton _ v
  | cons w l ih =>
    obtain ⟨hw, hl⟩ := List.pairwise_cons.1 h
    unfold emplace
    split_ifs with hlt heq
    · refine List.pairwise_cons.2 ⟨fun x hx => ?_, h⟩
      rcases List.mem_cons.1 hx with rfl | hx
      · exact hlt
      · exact lt_trans hlt (hw x hx)
    · exact h
    · refine List.pairwise_cons.2 ⟨fun x hx => ?_, ih hl⟩
      rcases mem_emplace.1 hx with rfl | hx
      · exact lt_of_le_of_ne (not_lt.1 hlt) (Ne.symm heq)
      · exact hw x hx

end Emplace

namespace RouteResult

variable {V N : Type} [LinearOrder V]

/-- A node that no net uses. -/
def init : RouteResult V N := ⟨none, [], List.Pairwise.nil⟩

def setNetId (res : RouteResult V N) (netId : N) : RouteResult V N := { res with netId := some netId }

def addBranch (res : RouteResult V N) (v : V) : RouteResult V N :=
  ⟨res.netId, emplace v res.branches, pairwise_emplace res.sorted⟩

def clearBranches (res : RouteResult V N) : RouteResult V N := ⟨res.netId, [], List.Pairwise.nil⟩

end RouteResult

/-! ## What is saved -/

/-- A direct connection with its route, from its sink to its source. -/
structure DirectConnection (V : Type) where
  source : V
  sink : V
  rnodes : List V

/-- The site pins of a net. -/
structure NetPins (V : Type) where
  indirectSourcePin : Option V
  indirectSinkPins : List V
  directSourcePin : Option V
  directSinkPins : List V

/-- The pins and paths the netlist reader found, and the routes. -/
structure Solution {K : Type} (D : Database K) where
  sourceToIntPath : D.ConnId → List D.NodeId
  intToSinkPath : D.ConnId → List D.NodeId
  rnodes : D.ConnId → List D.NodeId
  directConnections : Nat → DirectConnection D.NodeId
  pins : D.NetId → NetPins D.NodeId

/-- What saving changes. -/
structure SaveState {K : Type} (D : Database K) where
  nodeType : D.NodeId → NodeType
  nodeRoutingResults : D.NodeId → RouteResult D.NodeId D.NetId

/-- The last node of the whole vector, `rnodes.back()`. -/
def Database.IsBack {K : Type} (D : Database K) (v : D.NodeId) : Prop := v.val + 1 = D.numNodes

instance {K : Type} (D : Database K) (v : D.NodeId) : Decidable (D.IsBack v) :=
  inferInstanceAs (Decidable (_ = _))

/-- `rnodes.back().setNodeType(WIRE)`. -/
def recoverBackType {K : Type} {D : Database K} (types : D.NodeId → NodeType) : D.NodeId → NodeType :=
  fun r => if D.IsBack r then .wire else types r

namespace SaveState

variable {K : Type} {D : Database K}

def setNodeType (s : SaveState D) (r : D.NodeId) (type : NodeType) : SaveState D :=
  { s with nodeType := Function.update s.nodeType r type }

def recoverBack (s : SaveState D) : SaveState D :=
  { s with nodeType := recoverBackType s.nodeType }

def setResult (s : SaveState D) (r : D.NodeId) (res : RouteResult D.NodeId D.NetId) : SaveState D :=
  { s with nodeRoutingResults := Function.update s.nodeRoutingResults r res }

def branches (s : SaveState D) (r : D.NodeId) : List D.NodeId := (s.nodeRoutingResults r).branches

theorem setResult_branches (s : SaveState D) (r u : D.NodeId)
    (res : RouteResult D.NodeId D.NetId) :
    (s.setResult r res).branches u = if u = r then res.branches else s.branches u := by
  unfold branches setResult
  by_cases e : u = r
  · subst e
    simp
  · simp [e]

end SaveState

/-- The local variables of `saveOneNet`, next to the state. -/
structure NetSave {K : Type} (D : Database K) extends SaveState D where
  netRNodes : List D.NodeId
  hasMultiDriver : Bool

/-! ## Fixing the routes of a net -/

namespace AStarRoute

variable {K : Type} [Arith K] (R : AStarRoute K)

/-- The pins between which a net was routed: the indirect ones, if it uses that source pin. The
program stops at a net with both kinds of connections, and at one without a source pin. -/
def fixPins (n : R.database.NetId) (pins : NetPins R.database.NodeId)
    (netRNodes : List R.database.NodeId) : Option (R.database.NodeId × List R.database.NodeId) :=
  let net := R.database.nets n
  if net.getConnectionSize = 0 ∨ net.getDirectConnectionSize = 0 then
    match pins.indirectSourcePin.filter netRNodes.contains with
    | some sourcePin => some (sourcePin, pins.indirectSinkPins)
    | none =>
      if net.getConnectionSize = 0 then
        (pins.directSourcePin.filter netRNodes.contains).map (·, pins.directSinkPins)
      else none
  else none

/-- The costs at the start: `INT32_MAX` stands for a node that was not reached. -/
def initLabels (sourcePin : R.database.NodeId) (netRNodes : List R.database.NodeId) :
    LabelCorrecting.Labels R.database.NodeId K where
  cost r :=
    if r = sourcePin then (0 : Int) else if netRNodes.contains r then (intMax : Int) else (0 : Int)
  prev _ := none
  visited := netRNodes.contains
  queue := R.queue.push (fun r => if r = sourcePin then ((0 : Int) : K)
    else if netRNodes.contains r then (intMax : Int) else (0 : Int)) sourcePin []

/-- The bound of both watchdogs. -/
def watchDogLimit : Nat := 1000000

/-- Enough for every node that the expansions before the watchdog can queue. -/
def fixFuel (branches : R.database.NodeId → List R.database.NodeId)
    (netRNodes : List R.database.NodeId) : Nat :=
  2 + (watchDogLimit + 1) * (netRNodes.map fun r => (branches r).length).sum

/-- The loop over the queue. -/
def findPrevs (branches : R.database.NodeId → List R.database.NodeId)
    (sourcePin : R.database.NodeId) (netRNodes : List R.database.NodeId) :
    LabelCorrecting.Outcome R.database.NodeId K :=
  LabelCorrecting.loop R.queue branches (fun r => (R.database.routeNodes r).baseCost) watchDogLimit
    (R.fixFuel branches netRNodes) 0 (R.initLabels sourcePin netRNodes)

/-- The nodes on the ways from the sink pins up to the source pin. -/
def inRoute (nodeType : R.database.NodeId → NodeType)
    (prevs : R.database.NodeId → Option R.database.NodeId) (sourcePin : R.database.NodeId) :
    List R.database.NodeId → Option (List R.database.NodeId)
  | [] => some []
  | rnode :: sinkPins =>
    if nodeType rnode = .pinfeedI then do
      let way ← LabelCorrecting.climb prevs sourcePin (watchDogLimit + 1) rnode
      let rest ← inRoute nodeType prevs sourcePin sinkPins
      some (way ++ rest)
    else none

/-- Make a node a branch of its predecessor, if it is on a way. -/
def linkRoute (prevs : R.database.NodeId → Option R.database.NodeId)
    (sourcePin : R.database.NodeId) (route : List R.database.NodeId)
    (s : SaveState R.database) (rnode : R.database.NodeId) : Option (SaveState R.database) :=
  if rnode ≠ sourcePin ∧ route.contains rnode then
    (prevs rnode).map fun u => s.setResult u ((s.nodeRoutingResults u).addBranch rnode)
  else some s

def clearNet (netRNodes : List R.database.NodeId) (s : SaveState R.database) :
    SaveState R.database :=
  netRNodes.foldl (fun s r => s.setResult r (s.nodeRoutingResults r).clearBranches) s

def fixNetRoutes (n : R.database.NetId) (pins : NetPins R.database.NodeId)
    (netRNodes : List R.database.NodeId) (s : SaveState R.database) :
    Option (SaveState R.database) := do
  let (sourcePin, sinkPins) ← R.fixPins n pins netRNodes
  match R.findPrevs s.branches sourcePin netRNodes with
  | .done labels =>
    let route ← R.inRoute s.nodeType labels.prev sourcePin sinkPins
    netRNodes.foldlM (R.linkRoute labels.prev sourcePin route) (R.clearNet netRNodes s)
  | _ => none

/-! ## Saving -/

/-- One node of a path, with the next one if there is one. The program stops at a node of another
net. -/
def saveNode (n : R.database.NetId) (cur : R.database.NodeId) (next : Option R.database.NodeId)
    (s : NetSave R.database) : Option (NetSave R.database) :=
  let res := s.nodeRoutingResults cur
  if res.netId = none ∨ res.netId = some n then
    let res' := res.setNetId n
    some
      { toSaveState := s.setResult cur ((next.map res'.addBranch).getD res')
        netRNodes := emplace cur s.netRNodes
        hasMultiDriver := s.hasMultiDriver || res.netId.isSome }
  else none

/-- A path from a source pin to a sink pin. -/
def savePath (n : R.database.NetId) :
    List R.database.NodeId → NetSave R.database → Option (NetSave R.database)
  | [], s => some s
  | cur :: path, s => (R.saveNode n cur path.head? s).bind (savePath n path)

/-- The source pin of an indirect connection, and the reset of the last node. -/
def saveSource (n : R.database.NetId) (sol : Solution R.database) (c : R.database.ConnId)
    (s : SaveState R.database) : Option (SaveState R.database) := do
  let first ← (sol.sourceToIntPath c).head?
  if some first = (sol.pins n).indirectSourcePin then
    some (s.recoverBack.setNodeType first .pinfeedO)
  else none

/-- The types at the ends of the path from the interconnect to the sink pin. -/
def saveSink (sol : Solution R.database) (c : R.database.ConnId) (s : SaveState R.database) :
    Option (SaveState R.database) := do
  let first ← (sol.intToSinkPath c).head?
  let last ← (sol.intToSinkPath c).getLast?
  some ((s.setNodeType first .wire).setNodeType last .pinfeedI)

/-- The path from source pin to sink pin, whose three parts have to meet. -/
def totalPath (sol : Solution R.database) (c : R.database.ConnId) :
    Option (List R.database.NodeId) :=
  let path := sol.sourceToIntPath c
  let rnodes := sol.rnodes c
  if path.getLast? = rnodes.getLast? ∧ 2 ≤ rnodes.length then
    let path := path ++ rnodes.dropLast.reverse
    if (sol.intToSinkPath c).head? = path.getLast? then some (path ++ (sol.intToSinkPath c).tail)
    else none
  else none

def saveConnection (n : R.database.NetId) (sol : Solution R.database) (s : NetSave R.database)
    (c : R.database.ConnId) : Option (NetSave R.database) := do
  let types ← R.saveSource n sol c s.toSaveState
  let types ← R.saveSink sol c types
  let path ← R.totalPath sol c
  R.savePath n path { s with toSaveState := types }

def saveDirectConnection (n : R.database.NetId) (sol : Solution R.database)
    (s : NetSave R.database) (c : Nat) : Option (NetSave R.database) :=
  let conn := sol.directConnections c
  let types := (s.toSaveState.setNodeType conn.source .pinfeedO).setNodeType conn.sink .pinfeedI
  R.savePath n conn.rnodes.reverse { s with toSaveState := types }

/-- What is done when the connections of a net have been saved. -/
def finishNet (sol : Solution R.database) (n : R.database.NetId) (s : NetSave R.database) :
    Option (SaveState R.database) :=
  if s.hasMultiDriver then
    if s.netRNodes.all fun r => s.branches r = [] → s.nodeType r = .pinfeedI then
      R.fixNetRoutes n (sol.pins n) s.netRNodes s.toSaveState
    else none
  else some s.toSaveState

def saveOneNet (sol : Solution R.database) (n : R.database.NetId) (s : SaveState R.database) :
    Option (SaveState R.database) := do
  let net := R.database.nets n
  let s ← net.indirectConns.foldlM (R.saveConnection n sol)
    { toSaveState := s, netRNodes := [], hasMultiDriver := false }
  let s ← net.directConns.foldlM (R.saveDirectConnection n sol) s
  R.finishNet sol n s

/-- The nets in the order they are saved in. -/
def saveAllRoutingSolutions (sol : Solution R.database) (order : List R.database.NetId)
    (s : SaveState R.database) : Option (SaveState R.database) :=
  runAll (R.saveOneNet sol) order s

/-- The nets are the jobs of `runJobsMT`, which saves them in an order that has each of them once. -/
theorem exists_saveOrder {numThread : Int} {handled : List Int}
    (hfit : min (R.database.numNets : Int) numThread ≤ 1 ∨
      R.database.numNets + min (R.database.numNets : Int) numThread ≤ intMax + 1)
    (h : RunJobsMT R.database.numNets numThread handled) :
    ∃ order : List R.database.NetId,
      handled = order.map (fun n : R.database.NetId => ((n : Nat) : Int)) ∧
      order.Nodup ∧ ∀ n, n ∈ order := by
  have hperm := h.perm (Int.natCast_nonneg _) hfit
  have hlift : handled ∈ Set.range (List.map fun n : R.database.NetId => ((n : Nat) : Int)) := by
    rw [Set.range_list_map]
    intro i hi
    obtain ⟨h0, hlt⟩ := mem_sequentialJobs.1 (hperm.mem_iff.1 hi)
    exact ⟨⟨i.toNat, by omega⟩, Int.toNat_of_nonneg h0⟩
  obtain ⟨order, rfl⟩ := hlift
  refine ⟨order, rfl, (hperm.nodup_iff.2 nodup_sequentialJobs).of_map _, fun n => ?_⟩
  have hmem := hperm.mem_iff.2 (mem_sequentialJobs.2 ⟨Int.natCast_nonneg n, by omega⟩)
  obtain ⟨m, hm, heq⟩ := List.mem_map.1 hmem
  rwa [← Fin.ext (Int.ofNat.inj heq)]

end AStarRoute

end Potter
