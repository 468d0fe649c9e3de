import Potter.Lib.BestFirst
import Potter.Route.State

/-!
# Routing one connection

`ripup` and `routeOneConnection` of `aStarRoute.cpp`, with the functions they call. The argument
`sync` tells the two disciplines apart: with it, a net's changes are collected in its pre-increment
and pre-decrement maps until a barrier; without it, counts, occupancies and present costs are
changed at once.

The search of `routeOneConnection` goes over the inline and then the overflow children of a node
(`searchLoop`); it is the best-first search of the library over all children (`searchLoop_eq`).
-/

namespace Potter

open Lib
open BestFirst (Problem Verdict Frontier Scan Outcome Mark)

namespace AStarRoute

variable {K : Type} [Arith K] (R : AStarRoute K)

/-! ## Which nodes a search may enter -/

def isAccessible (rnode : R.database.NodeId) (c : R.database.ConnId) : Bool :=
  decide (R.database.InBox c rnode)

/-- `RouteNodeGraph::isAccessible`: some wires are used only right above or below the sink. -/
def graphIsAccessible (child : R.database.NodeId) (c : R.database.ConnId) : Bool :=
  let node := R.database.routeNodes child
  let sink := R.database.routeNodes (R.database.sink c)
  if ¬ node.isAccessibleWire then true
  else if node.beginTileXCoordinate ≠ sink.beginTileXCoordinate then false
  else decide (|node.beginTileYCoordinate - sink.beginTileYCoordinate| ≤ 1)

def isAccessiblePinbounce (child : R.database.NodeId) (c : R.database.ConnId) : Bool :=
  R.graphIsAccessible child c

/-- A sink pin is entered as the target, or as a bounce pin the net already uses. -/
def isAccessiblePinfeedI (users : NetUsers R.database.NodeId) (child : R.database.NodeId)
    (isTarget : Bool) : Bool :=
  if isTarget then true
  else if users.countConnectionsOfUser child = 0 ∨
      ¬ (R.database.routeNodes child).isNodePinBounce then false
  else true

/-! ## Costs -/

/-- No cost when the assertion on the number of users fails. -/
def getNodeCost (ρ : Reads R.database.NodeId K) (st : RouterState R.database)
    (rnode : R.database.NodeId) (c : R.database.ConnId)
    (occChange countSourceUses countSourceUsesOrigin : Int) (sharingFactor : K) (isTarget : Bool) :
    Option K :=
  let node := R.database.routeNodes rnode
  let net := R.database.nets (R.database.netOf c)
  if countSourceUses < 0 then none
  else
    let preDecOcc : Int := if countSourceUsesOrigin > 0 ∧ countSourceUses = 0 then 1 else 0
    let preIncOcc : Int := if countSourceUsesOrigin = 0 ∧ countSourceUses > 0 then 1 else 0
    let presentCongestionCost : K :=
      if countSourceUses ≠ 0 then
        let overOccupancy := ρ.occupancy (st.node rnode) rnode - preDecOcc + preIncOcc + occChange -
          nodeCapacity
        Arith.toFloat ((1 : Int) +
          Arith.toFloat ((overOccupancy : K) * st.ctl.presentCongestionFactor))
      else ρ.presentCongestionCost (st.node rnode) rnode
    let biasCost : K :=
      if isTarget then (0 : Int)
      else
        Arith.toFloat (node.baseCost / net.getConnectionSize) *
          (Arith.fabs ((node.endTileXCoordinate : K) - net.xCenter) +
            Arith.fabs ((node.endTileYCoordinate : K) - net.yCenter)) / net.doubleHpwl
    some (Arith.toFloat (node.baseCost * (st.node rnode).historicalCongestionCost) *
      presentCongestionCost / sharingFactor + biasCost)

/-- The verdict on an accessible child: its costs from the partial cost of its parent. -/
def evaluateChild (ρ : Reads R.database.NodeId K) (st : RouterState R.database)
    (c : R.database.ConnId) (tid : Nat) (sync : Bool) (child : R.database.NodeId)
    (isTarget : Bool) : Verdict K :=
  let net := st.net (R.database.netOf c)
  let node := R.database.routeNodes child
  let sinkNode := R.database.routeNodes (R.database.sink c)
  let countSourceUsesOrigin := net.countConnectionsOfUser child
  let countSourceUses :=
    if sync then
      countSourceUsesOrigin - net.getPreDecrementUser child + net.getPreIncrementUser child
    else countSourceUsesOrigin
  let occChange := if sync then (st.info tid child).getOccChange st.ctl.currentBatchStamp else 0
  let sharingFactor : K := (1 : Int) + R.sharingWeight * countSourceUses
  match R.getNodeCost ρ st child c occChange countSourceUses countSourceUsesOrigin sharingFactor
      isTarget with
  | none => .halt
  | some nodeCost =>
    if ((0 : Int) : K) ≤ nodeCost then
      let deltaX := |node.endTileXCoordinate - sinkNode.beginTileXCoordinate|
      let deltaY := |node.endTileYCoordinate - sinkNode.beginTileYCoordinate|
      let distanceToSink : K := ((deltaX + deltaY : Int) : K)
      .visit fun partialCost =>
        let newPartialPathCost := partialCost + R.rnodeCostWeight * nodeCost +
          R.rnodeWLWeight * (node.length : K) / sharingFactor
        (newPartialPathCost + R.estWLWeight * distanceToSink / sharingFactor, newPartialPathCost)
    else .halt

/-- What becomes of a child that is neither marked nor the sink, by its box and its type. -/
def childVerdict (ρ : Reads R.database.NodeId K) (st : RouterState R.database)
    (c : R.database.ConnId) (tid : Nat) (sync : Bool) (child : R.database.NodeId)
    (isTarget : Bool) : Verdict K :=
  if ¬ R.isAccessible child c then .skip
  else
    match (R.database.routeNodes child).type with
    | .wire =>
      if ¬ R.graphIsAccessible child c then .skip
      else R.evaluateChild ρ st c tid sync child isTarget
    | .pinbounce =>
      if isTarget then .halt
      else if ¬ R.isAccessiblePinbounce child c then .skip
      else R.evaluateChild ρ st c tid sync child isTarget
    | .pinfeedI =>
      if ¬ R.isAccessiblePinfeedI (st.net (R.database.netOf c)) child isTarget then .skip
      else R.evaluateChild ρ st c tid sync child isTarget
    | .lagunaI => .skip
    | .superLongLine => .halt
    | .pinfeedO => .halt

/-! ## The search -/

/-- `connectionUniqueId`. -/
def connectionUniqueId (st : RouterState R.database) (c : R.database.ConnId) : Int :=
  (c : Nat) + st.ctl.connectionIdBase

/-- The search `routeOneConnection` makes from the state `st`. -/
def problem (ρ : Reads R.database.NodeId K) (st : RouterState R.database) (c : R.database.ConnId)
    (tid : Nat) (sync : Bool) : Problem R.database.NodeId K where
  uid := R.connectionUniqueId st c
  source := R.database.source c
  sink := R.database.sink c
  zero := (0 : Int)
  verdict := R.childVerdict ρ st c tid sync

/-- The inline children, then the overflow children unless the sink was among the first. -/
def expandNode (P : Problem R.database.NodeId K) (rnode : R.database.NodeId) (partialCost : K)
    (f : Frontier R.database.NodeId K) : Scan R.database.NodeId K :=
  match BestFirst.expand R.queue P rnode partialCost f
      (R.database.routeNodes rnode).children.inlineChildren with
  | .next f =>
    BestFirst.expand R.queue P rnode partialCost f
      (R.database.routeNodes rnode).children.overflowChildren
  | .found f => .found f
  | .halted => .halted

/-- The loop over the queue, with the number of nodes popped. -/
def searchLoop (P : Problem R.database.NodeId K) :
    Nat → Nat → Frontier R.database.NodeId K → Outcome R.database.NodeId K
  | 0, _, f => .exhausted f
  | fuel + 1, nodesPopped, f =>
    match R.queue.pop (fun r => (f.marks r).cost) f.queue with
    | none => .exhausted f
    | some (rnode, q) =>
      match R.expandNode P rnode (f.marks rnode).partialCost { f with queue := q } with
      | .next f => searchLoop P fuel (nodesPopped + 1) f
      | .found f => .found f.marks (nodesPopped + 1)
      | .halted => .halted

/-- Every node is pushed at most once, so the loop ends after at most `numNodes` rounds. -/
def search (ρ : Reads R.database.NodeId K) (st : RouterState R.database) (c : R.database.ConnId)
    (tid : Nat) (sync : Bool) : Outcome R.database.NodeId K :=
  let P := R.problem ρ st c tid sync
  R.searchLoop P (R.database.numNodes + 1) 0 (BestFirst.start R.queue P (st.marks tid))

theorem expandNode_expand (P : Problem R.database.NodeId K) (rnode : R.database.NodeId)
    (partialCost : K) (f : Frontier R.database.NodeId K) :
    R.expandNode P rnode partialCost f =
      BestFirst.expand R.queue P rnode partialCost f (R.database.children rnode) := by
  rw [Database.children, Children.getChildren, BestFirst.expand_append, expandNode]
  cases BestFirst.expand R.queue P rnode partialCost f
    (R.database.routeNodes rnode).children.inlineChildren <;> rfl

/-- **The two child loops are one search over all children.** -/
theorem searchLoop_eq (P : Problem R.database.NodeId K) :
    ∀ (fuel popped : Nat) (f : Frontier R.database.NodeId K),
      R.searchLoop P fuel popped f = BestFirst.loop R.queue P R.database.children fuel popped f
  | 0, _, _ => rfl
  | fuel + 1, popped, f => by
    simp only [searchLoop, BestFirst.loop]
    cases R.queue.pop (fun r => (f.marks r).cost) f.queue with
    | none => rfl
    | some p =>
      obtain ⟨rnode, q⟩ := p
      dsimp only
      rw [expandNode_expand]
      cases BestFirst.expand R.queue P rnode (f.marks rnode).partialCost { f with queue := q }
          (R.database.children rnode) with
      | next g => exact searchLoop_eq P fuel (popped + 1) g
      | found g => rfl
      | halted => rfl

/-! ## Counts, occupancies and costs of the nodes on a path -/

/-- One more connection of net `n` uses the node. -/
def useNode (ρ : Reads R.database.NodeId K) (n : R.database.NetId) (st : RouterState R.database)
    (rnode : R.database.NodeId) : RouterState R.database :=
  let (users, newlyAdd) := (st.net n).incrementUser rnode
  let node := if newlyAdd then (st.node rnode).incrementOccupancy else st.node rnode
  (st.withNet n users).withNode rnode
    (node.updatePresentCongestionCost (ρ.occupancy node rnode) st.ctl.presentCongestionFactor)

/-- One connection of net `n` less uses the node. -/
def leaveNode (ρ : Reads R.database.NodeId K) (n : R.database.NetId) (st : RouterState R.database)
    (rnode : R.database.NodeId) : RouterState R.database :=
  let (users, isErased) := (st.net n).decrementUser rnode
  let node := if isErased then (st.node rnode).decrementOccupancy else st.node rnode
  (st.withNet n users).withNode rnode
    (node.updatePresentCongestionCost (ρ.occupancy node rnode) st.ctl.presentCongestionFactor)

def updateUsersAndPresentCongestionCost (ρ : Reads R.database.NodeId K)
    (st : RouterState R.database) (c : R.database.ConnId) : RouterState R.database :=
  (st.conn c).rnodes.foldl (R.useNode ρ (R.database.netOf c)) st

/-- Note that a connection of net `n` will leave the node. -/
def preDecrement (n : R.database.NetId) (rnode : R.database.NodeId) (st : RouterState R.database) :
    Option (RouterState R.database) :=
  ((st.net n).preDecrementUser rnode).map (st.withNet n)

/-- Note that a connection of net `n` will use the node. -/
def preIncrement (n : R.database.NetId) (st : RouterState R.database) (rnode : R.database.NodeId) :
    RouterState R.database :=
  st.withNet n ((st.net n).preIncrementUser rnode)

/-! ## Rip-up, search and commit -/

/-- The nodes a rip-up releases. A connection without a route has its sink reserved. -/
def heldNodes (st : RouterState R.database) (c : R.database.ConnId) : List R.database.NodeId :=
  if (st.conn c).rnodes = [] then [R.database.sink c] else (st.conn c).rnodes

def ripup (ρ : Reads R.database.NodeId K) (c : R.database.ConnId) (sync : Bool)
    (st : RouterState R.database) : Option (RouterState R.database) :=
  if (st.conn c).rnodes = [] ∧ (st.conn c).isRouted then none
  else
    let n := R.database.netOf c
    let released :=
      if sync then runAll (R.preDecrement n) (R.heldNodes st c) st
      else some ((R.heldNodes st c).foldl (R.leaveNode ρ n) st)
    released.map fun st => st.withConn c ((st.conn c).resetRoute.setRouted false)

def isCongested (ρ : Reads R.database.NodeId K) (st : RouterState R.database)
    (c : R.database.ConnId) : Bool :=
  (st.conn c).rnodes.any fun rnode => decide (nodeCapacity < ρ.occupancy (st.node rnode) rnode)

def shouldRoute (ρ : Reads R.database.NodeId K) (st : RouterState R.database)
    (c : R.database.ConnId) : Bool :=
  !(st.conn c).isRouted || R.isCongested ρ st c

/-- Append the path found to the route. The watchdog stops the program at the 10000th node. -/
def saveRouting (c : R.database.ConnId) (rnode : R.database.NodeId) (tid : Nat)
    (st : RouterState R.database) : Option (RouterState R.database) :=
  (BestFirst.trace (st.marks tid) (R.database.source c) 9999 rnode).bind fun path =>
    let conn := st.conn c
    let rnodes := conn.rnodes ++ path
    if rnodes.length > 1 then some (st.withConn c { conn with rnodes := rnodes }) else none

/-- Enter a saved route in the user counts, now or at the next barrier. -/
def commitRoute (ρ : Reads R.database.NodeId K) (c : R.database.ConnId) (sync : Bool)
    (nodesPopped : Nat) (st : RouterState R.database) : RouterState R.database :=
  if sync then
    let st := (st.conn c).rnodes.foldl (R.preIncrement (R.database.netOf c)) st
    st.withConn c { st.conn c with
      isRouted := true, numNodesExplored := nodesPopped, lastRoutedIter := st.ctl.iter }
  else
    R.updateUsersAndPresentCongestionCost ρ (st.withConn c ((st.conn c).setRouted true)) c

/-- The counters and flags set before the search. -/
def beginRoute (c : R.database.ConnId) (st : RouterState R.database) : RouterState R.database :=
  { st.withConn c ((st.conn c).setRoutedThisIter true) with
    routedConnectionNum := st.routedConnectionNum + 1 }

/-- The result says whether the connection was routed. -/
def routeOneConnection (ρ : Reads R.database.NodeId K) (c : R.database.ConnId) (tid : Nat)
    (sync : Bool) (st : RouterState R.database) : Option (Bool × RouterState R.database) :=
  let st := R.beginRoute c st
  match R.search ρ st c tid sync with
  | .halted => none
  | .exhausted f => if f.queue = [] then some (false, st.withMarks tid f.marks) else none
  | .found marks nodesPopped =>
    (R.saveRouting c (R.database.sink c) tid (st.withMarks tid marks)).map fun st =>
      (true, R.commitRoute ρ c sync nodesPopped st)

/-- Rip up a connection and route it again at once, with no other thread running. -/
def reroute (c : R.database.ConnId) (st : RouterState R.database) :
    Option (RouterState R.database) :=
  (R.ripup .own c false st).bind fun st => (R.routeOneConnection .own c 0 false st).map Prod.snd

/-! ## What routing a connection does -/

section Spec

variable {R} {ρ : Reads R.database.NodeId K} {st st' : RouterState R.database}
  {c : R.database.ConnId} {tid : Nat} {sync : Bool}

/-- A search enters nodes of the connection's box only. -/
theorem inBox_of_accepts {v : R.database.NodeId} (h : (R.problem ρ st c tid sync).Accepts v) :
    R.database.InBox c v := by
  obtain ⟨t, costs, hv⟩ := h
  by_contra hn
  simp only [problem, childVerdict, isAccessible, hn, decide_false, Bool.false_eq_true,
    not_false_eq_true, ↓reduceIte] at hv
  cases hv

/-- A path the search finds is a route of the connection. -/
theorem isPath_of_found {marks : R.database.NodeId → Mark R.database.NodeId K} {k : Nat}
    (h : R.search ρ st c tid sync = .found marks k) {fuel : Nat} {p : List R.database.NodeId}
    (ht : BestFirst.trace marks (R.database.source c) fuel (R.database.sink c) = some p) :
    R.database.IsPath c p := by
  rw [search, searchLoop_eq] at h
  obtain ⟨hr, -⟩ := BestFirst.found_route
    (BestFirst.loop_found (BestFirst.start_searching _) h) ht
  refine ⟨hr.head, hr.last, hr.nodup, hr.chain, fun v hv => ?_⟩
  rcases hr.accepted v hv with h | h | h
  · exact Or.inl h
  · exact Or.inr (Or.inl h)
  · exact Or.inr (Or.inr (inBox_of_accepts h))

/-- The loop has fuel enough to empty the queue. -/
theorem search_exhausted {f : Frontier R.database.NodeId K}
    (h : R.search ρ st c tid sync = .exhausted f) : f.queue = [] := by
  rw [search, searchLoop_eq] at h
  refine BestFirst.loop_exhausted (BestFirst.start_searching _) ?_ ?_ h
  · have hperm := R.queue.push_perm (fun u => (Function.update (st.marks tid)
      (R.problem ρ st c tid sync).source ⟨none, (R.problem ρ st c tid sync).zero,
        (R.problem ρ st c tid sync).zero, (R.problem ρ st c tid sync).uid, -1⟩ u).cost)
      (R.problem ρ st c tid sync).source []
    simpa [BestFirst.start, BestFirst.pushNode] using hperm.length_eq.symm
  · rw [Fintype.card_fin]
    omega

/-- The route of `c` after `path` was appended to it. -/
def appendPath (c : R.database.ConnId) (path : List R.database.NodeId)
    (st : RouterState R.database) : RouterState R.database :=
  st.withConn c { st.conn c with rnodes := (st.conn c).rnodes ++ path }

/-- What an attempt can do. -/
theorem routeOneConnection_cases {success : Bool}
    (h : R.routeOneConnection ρ c tid sync st = some (success, st')) :
    (success = false ∧ ∃ f, R.search ρ (R.beginRoute c st) c tid sync = .exhausted f ∧
      st' = (R.beginRoute c st).withMarks tid f.marks) ∨
    (success = true ∧ ∃ marks k path, R.search ρ (R.beginRoute c st) c tid sync = .found marks k ∧
      BestFirst.trace marks (R.database.source c) 9999 (R.database.sink c) = some path ∧
      st' = R.commitRoute ρ c sync k
        (appendPath c path ((R.beginRoute c st).withMarks tid marks))) := by
  simp only [routeOneConnection] at h
  split at h
  · cases h
  · rename_i f hf
    split at h
    · cases h
      exact Or.inl ⟨rfl, f, hf, rfl⟩
    · cases h
  · rename_i marks k hs
    simp only [Option.map_eq_some_iff, Prod.mk.injEq, saveRouting,
      Option.bind_eq_some_iff, RouterState.marks_withMarks] at h
    obtain ⟨_, ⟨path, hp, he⟩, rfl, rfl⟩ := h
    split at he
    · cases he
      exact Or.inr ⟨rfl, marks, k, path, hs, hp, rfl⟩
    · cases he

/-- A failed attempt changes counters, flags and marks. -/
theorem routeOneConnection_false (h : R.routeOneConnection ρ c tid sync st = some (false, st')) :
    ∃ marks, st' = (R.beginRoute c st).withMarks tid marks := by
  rcases routeOneConnection_cases h with ⟨-, f, -, rfl⟩ | ⟨hne, -⟩
  · exact ⟨f.marks, rfl⟩
  · cases hne

/-- **A successful attempt appends a route and commits it.** -/
theorem routeOneConnection_true (h : R.routeOneConnection ρ c tid sync st = some (true, st')) :
    ∃ marks k path, R.database.IsPath c path ∧
      st' = R.commitRoute ρ c sync k
        (appendPath c path ((R.beginRoute c st).withMarks tid marks)) := by
  rcases routeOneConnection_cases h with ⟨hne, -⟩ | ⟨-, marks, k, path, hs, hp, rfl⟩
  · cases hne
  · exact ⟨marks, k, path, isPath_of_found hs hp, rfl⟩

/-- An attempt ends unless a search meets a fatal error or a path is too long. -/
theorem routeOneConnection_isSome (h : R.search ρ (R.beginRoute c st) c tid sync ≠ .halted)
    (hp : ∀ marks k, R.search ρ (R.beginRoute c st) c tid sync = .found marks k →
      ∃ p, BestFirst.trace marks (R.database.source c) 9999 (R.database.sink c) = some p) :
    (R.routeOneConnection ρ c tid sync st).isSome := by
  simp only [routeOneConnection]
  split
  · exact absurd ‹_› h
  · rename_i f hf
    rw [if_pos (search_exhausted hf)]
    rfl
  · rename_i marks k hf
    obtain ⟨p, ht⟩ := hp marks k hf
    have hlen : 2 ≤ p.length := by
      rw [search, searchLoop_eq] at hf
      exact (BestFirst.found_route
        (BestFirst.loop_found (BestFirst.start_searching _) hf) ht).2
    have hlong : ((R.beginRoute c st).conn c).rnodes.length + p.length > 1 := by omega
    simp [saveRouting, ht, hlong]

end Spec

end AStarRoute

end Potter
