import Mathlib.Order.Bounds.Defs
import Potter.Db.Database
import Potter.Db.Device
import Potter.Lib.Peeling

/-!
# The routing graph

`Device::read` puts the nodes of interconnect and Laguna tiles that are joined by an edge into the
graph. `reduceRouteNode` takes the dead ends out again, `setRouteNodeChildren` puts the ends of the
connections back and gives every node of the graph its children.

Both spread their loops over threads. A thread writes only entries of its own nodes, or writes the
same value as the others, so the order does not matter and the loops are modelled in one order.
-/

namespace Potter

open Lib

/-- `INT`. -/
def intTile : Nat := 56

/-- `LAG_LAG`. -/
def lagLag : Nat := 28

namespace Device

section Graph

variable {V : Type} (D : Device V)

/-- `nodeInfos[node].tileType`. -/
def tileType (node : V) : Nat := D.tileToType (D.beginTileId node)

def nodeInAllowedTile (node : V) : Bool := D.tileType node = intTile ∨ D.tileType node = lagLag

/-- One edge of the loop that fills `nodes_in_graph`. -/
def markEdge [DecidableEq V] (node : V) (inGraph : V → Bool) (child : V) : V → Bool :=
  if (D.tileType child = intTile ∨ D.tileType child = lagLag) ∧ D.nodeInAllowedTile node ∧
      D.nodeInAllowedTile child then
    Function.update (Function.update inGraph node true) child true
  else inGraph

end Graph

variable {n : Nat} (D : Device (Fin n))

/-- `nodes_in_graph`, as the device reader leaves it. -/
def nodesInGraph : Fin n → Bool :=
  (List.finRange n).foldl (fun inGraph node =>
    (D.getOutgoingNodes node).foldl (D.markEdge node) inGraph) fun _ => false

variable {D}

theorem markEdge_apply (node : Fin n) (inGraph : Fin n → Bool) (child v : Fin n) :
    D.markEdge node inGraph child v = true ↔ inGraph v = true ∨
      (D.nodeInAllowedTile node = true ∧ D.nodeInAllowedTile child = true ∧
        (v = node ∨ v = child)) := by
  unfold markEdge
  split
  · next h =>
    rw [Function.update_apply, Function.update_apply]
    split_ifs with h₁ h₂
    · simp [h.2, h₁]
    · simp [h.2, h₂]
    · simp [h₁, h₂]
  · next h =>
    constructor
    · exact Or.inl
    · rintro (hv | ⟨hnode, hchild, -⟩)
      · exact hv
      · refine absurd ⟨?_, hnode, hchild⟩ h
        unfold nodeInAllowedTile at hchild
        exact of_decide_eq_true hchild

theorem foldl_markEdge (node : Fin n) (v : Fin n) : ∀ (children : List (Fin n)) (inGraph : Fin n → Bool),
    children.foldl (D.markEdge node) inGraph v = true ↔ inGraph v = true ∨
      ∃ child ∈ children, D.nodeInAllowedTile node = true ∧ D.nodeInAllowedTile child = true ∧
        (v = node ∨ v = child) := by
  intro children
  induction children with
  | nil => simp
  | cons child children ih =>
    intro inGraph
    rw [List.foldl_cons, ih, markEdge_apply]
    simp only [List.mem_cons, exists_eq_or_imp, or_assoc]

/-- The graph holds the ends of the edges between allowed tiles. -/
theorem nodesInGraph_iff (v : Fin n) : D.nodesInGraph v = true ↔
    ∃ node, ∃ child ∈ D.getOutgoingNodes node, D.nodeInAllowedTile node = true ∧
      D.nodeInAllowedTile child = true ∧ (v = node ∨ v = child) := by
  have key : ∀ (nodes : List (Fin n)) (inGraph : Fin n → Bool),
      nodes.foldl (fun inGraph node =>
        (D.getOutgoingNodes node).foldl (D.markEdge node) inGraph) inGraph v = true ↔
      inGraph v = true ∨ ∃ node ∈ nodes, ∃ child ∈ D.getOutgoingNodes node,
        D.nodeInAllowedTile node = true ∧ D.nodeInAllowedTile child = true ∧
          (v = node ∨ v = child) := by
    intro nodes
    induction nodes with
    | nil => simp
    | cons node nodes ih =>
      intro inGraph
      rw [List.foldl_cons, ih, foldl_markEdge]
      simp only [List.mem_cons, exists_eq_or_imp, or_assoc]
  unfold nodesInGraph
  rw [key]
  simp only [Bool.false_eq_true, false_or, List.mem_finRange, true_and]

end Device

namespace Database

variable {K : Type} (D : Database K) (device : Device D.NodeId) (preservedNodes : D.NodeId → Bool)

/-- Mark the source and the sink of every connection. -/
def markPins (marks : D.NodeId → Bool) : D.NodeId → Bool :=
  (List.finRange D.numConns).foldl (fun marks conn =>
    Function.update (Function.update marks (D.source conn) true) (D.sink conn) true) marks

def pinNodes : D.NodeId → Bool := D.markPins fun _ => false

/-- The outgoing nodes that may be children. -/
def routableNodes (nodesInGraph : D.NodeId → Bool) (node : D.NodeId) : List D.NodeId :=
  (device.getOutgoingNodes node).filter fun child =>
    device.nodeInAllowedTile child && !preservedNodes child && nodesInGraph child

/-- The edges counted by `outDegrees`, and by `setRouteNodeChildren`. -/
def successors (nodesInGraph : D.NodeId → Bool) (node : D.NodeId) : List D.NodeId :=
  if nodesInGraph node then D.routableNodes device preservedNodes nodesInGraph node else []

def outDegrees (nodesInGraph : D.NodeId → Bool) (node : D.NodeId) : Int :=
  (D.successors device preservedNodes nodesInGraph node).length

def parents (nodesInGraph : D.NodeId → Bool) (node : D.NodeId) : List D.NodeId :=
  if nodesInGraph node && device.nodeInAllowedTile node && !preservedNodes node then
    (device.getIncomingNodes node).filter nodesInGraph
  else []

/-- The first `deadEndNodeIds`. -/
def deadEndNodeIds (nodesInGraph : D.NodeId → Bool) : List D.NodeId :=
  (List.finRange D.numNodes).filter fun node =>
    nodesInGraph node && D.outDegrees device preservedNodes nodesInGraph node == 0 &&
      !D.pinNodes node

/-- The lists of dead ends round by round, and the graph and the degrees they leave. `fuel` bounds
the rounds of the `while` loop. -/
def reduceRouteNode (fuel : Nat) : Option (List (List D.NodeId) × Peeling.Counters D.NodeId) :=
  Peeling.peel (D.parents device preservedNodes device.nodesInGraph) D.pinNodes fuel
    ⟨device.nodesInGraph, D.outDegrees device preservedNodes device.nodesInGraph⟩
    (D.deadEndNodeIds device preservedNodes device.nodesInGraph)

def withChildren (children : D.NodeId → Children D.NodeId) : Database K :=
  { D with routeNodes := fun node => { D.routeNodes node with children := children node } }

/-- The ends of the connections are in the graph, whatever was removed. -/
def setRouteNodeChildren (fuel : Nat) : Option (Database K) := do
  let (_, c) ← D.reduceRouteNode device preservedNodes fuel
  let nodesInGraph := D.markPins c.alive
  some <| D.withChildren fun node =>
    (D.successors device preservedNodes nodesInGraph node).foldl Children.addChildren
      (D.routeNodes node).children

variable {D device preservedNodes}

/-- The node is an end of a connection. -/
def IsPin (node : D.NodeId) : Prop := ∃ conn, node = D.source conn ∨ node = D.sink conn

theorem markPins_iff (marks : D.NodeId → Bool) (v : D.NodeId) :
    D.markPins marks v = true ↔ marks v = true ∨ IsPin v := by
  have key : ∀ (conns : List D.ConnId) (marks : D.NodeId → Bool),
      conns.foldl (fun marks conn => Function.update (Function.update marks (D.source conn) true)
        (D.sink conn) true) marks v = true ↔
      marks v = true ∨ ∃ conn ∈ conns, v = D.source conn ∨ v = D.sink conn := by
    intro conns
    induction conns with
    | nil => simp
    | cons conn conns ih =>
      intro marks
      have hstep : Function.update (Function.update marks (D.source conn) true)
          (D.sink conn) true v = true ↔ marks v = true ∨ v = D.source conn ∨ v = D.sink conn := by
        rw [Function.update_apply, Function.update_apply]
        split_ifs with h₁ h₂
        · simp [h₁]
        · simp [h₂]
        · simp [h₁, h₂]
      rw [List.foldl_cons, ih, hstep]
      simp only [List.mem_cons, exists_eq_or_imp, or_assoc]
  unfold markPins IsPin
  rw [key]
  simp only [List.mem_finRange, true_and]

theorem pinNodes_iff (v : D.NodeId) : D.pinNodes v = true ↔ IsPin v := by
  unfold pinNodes
  rw [markPins_iff]
  simp only [Bool.false_eq_true, false_or]

theorem mem_routableNodes {nodesInGraph : D.NodeId → Bool} {v w : D.NodeId} :
    w ∈ D.routableNodes device preservedNodes nodesInGraph v ↔ w ∈ device.getOutgoingNodes v ∧
      device.nodeInAllowedTile w = true ∧ preservedNodes w = false ∧ nodesInGraph w = true := by
  unfold routableNodes
  rw [List.mem_filter, Bool.and_eq_true, Bool.and_eq_true, Bool.not_eq_true', and_assoc]

theorem successors_of_mem {nodesInGraph : D.NodeId → Bool} {v : D.NodeId}
    (h : nodesInGraph v = true) : D.successors device preservedNodes nodesInGraph v =
      D.routableNodes device preservedNodes nodesInGraph v := by
  unfold successors
  rw [if_pos h]

/-! ## Dead ends -/

/-- The parents list an edge as often as it is counted. -/
theorem count_parents (hone : device.OneNode) (nodesInGraph : D.NodeId → Bool) (v w : D.NodeId) :
    (D.parents device preservedNodes nodesInGraph w).count v =
      (D.successors device preservedNodes nodesInGraph v).count w := by
  have hparents : (D.parents device preservedNodes nodesInGraph w).count v =
      if nodesInGraph w && device.nodeInAllowedTile w && !preservedNodes w then
        if nodesInGraph v then (device.getIncomingNodes w).count v else 0 else 0 := by
    unfold parents
    by_cases hw : (nodesInGraph w && device.nodeInAllowedTile w && !preservedNodes w) = true
    · rw [if_pos hw, if_pos hw]
      by_cases hv : nodesInGraph v = true
      · rw [if_pos hv, List.count_filter hv]
      · rw [if_neg hv, List.count_eq_zero, List.mem_filter]
        exact fun h => hv h.2
    · rw [if_neg hw, if_neg hw, List.count_nil]
  have hsuccessors : (D.successors device preservedNodes nodesInGraph v).count w =
      if nodesInGraph v then if device.nodeInAllowedTile w && !preservedNodes w && nodesInGraph w then
        (device.getOutgoingNodes v).count w else 0 else 0 := by
    unfold successors routableNodes
    by_cases hv : nodesInGraph v = true
    · rw [if_pos hv, if_pos hv]
      by_cases hw : (device.nodeInAllowedTile w && !preservedNodes w && nodesInGraph w) = true
      · rw [if_pos hw]
        exact List.count_filter hw
      · rw [if_neg hw, List.count_eq_zero, List.mem_filter]
        exact fun h => hw h.2
    · rw [if_neg hv, if_neg hv, List.count_nil]
  rw [hparents, hsuccessors, hone.count_getOutgoingNodes]
  cases nodesInGraph v <;> cases nodesInGraph w <;> cases device.nodeInAllowedTile w <;>
    cases preservedNodes w <;> rfl

/-- The state before the first round. -/
theorem peeled_deadEndNodeIds (nodesInGraph : D.NodeId → Bool) :
    Peeling.Peeled (D.successors device preservedNodes nodesInGraph) nodesInGraph D.pinNodes []
      (D.deadEndNodeIds device preservedNodes nodesInGraph)
      ⟨nodesInGraph, D.outDegrees device preservedNodes nodesInGraph⟩ := by
  have hmem : ∀ v, v ∈ D.deadEndNodeIds device preservedNodes nodesInGraph ↔
      nodesInGraph v = true ∧ D.outDegrees device preservedNodes nodesInGraph v = 0 ∧
        D.pinNodes v = false := by
    intro v
    unfold deadEndNodeIds
    rw [List.mem_filter, Bool.and_eq_true, Bool.and_eq_true, beq_iff_eq, Bool.not_eq_true', and_assoc]
    simp only [List.mem_finRange, true_and]
  refine ⟨?nodup, ?dead, ?alive, ?degree, ?zero, ?complete⟩
  case nodup => exact (List.nodup_finRange _).filter _
  case dead =>
    intro v hv
    obtain ⟨hgraph, hdegree, hpin⟩ := (hmem v).1 hv
    refine .intro hgraph hpin fun w hw => ?_
    unfold outDegrees at hdegree
    rw [List.eq_nil_of_length_eq_zero (Int.ofNat_eq_zero.1 hdegree)] at hw
    cases hw
  case alive => simp
  case degree =>
    intro v
    simp [outDegrees]
  case zero => exact fun v hv => ((hmem v).1 hv).2.1
  case complete => exact fun v hgraph hpin hdegree => (hmem v).2 ⟨hgraph, hdegree, hpin⟩

variable (D device preservedNodes) in
/-- Closed under the rule that a node that is not a pin is a dead end if everything it may lead to
is one. -/
def DeadEndClosed (S : Set D.NodeId) : Prop :=
  ∀ v, ¬ IsPin v → (∀ w ∈ device.getOutgoingNodes v, device.nodeInAllowedTile w = true →
    preservedNodes w = false → device.nodesInGraph w = true → w ∈ S) → v ∈ S

variable (D device preservedNodes) in
/-- The dead ends: not a pin, and leading only to what the rounds remove. -/
def deadEnds : Set D.NodeId :=
  {v | ¬ IsPin v ∧ ∀ w ∈ D.routableNodes device preservedNodes device.nodesInGraph v,
    Peeling.Dead (D.successors device preservedNodes device.nodesInGraph) device.nodesInGraph
      D.pinNodes w}

/-- Within the graph, these are the nodes that are removed. -/
theorem dead_iff {v : D.NodeId} (hv : device.nodesInGraph v = true) :
    Peeling.Dead (D.successors device preservedNodes device.nodesInGraph) device.nodesInGraph
      D.pinNodes v ↔ v ∈ D.deadEnds device preservedNodes := by
  constructor
  · rintro ⟨-, hpin, hsuccs⟩
    rw [successors_of_mem hv] at hsuccs
    refine ⟨fun h => ?_, hsuccs⟩
    rw [(pinNodes_iff v).2 h] at hpin
    cases hpin
  · rintro ⟨hpin, hsuccs⟩
    rw [← successors_of_mem hv] at hsuccs
    exact .intro hv (Bool.eq_false_iff.2 fun h => hpin ((pinNodes_iff v).1 h)) hsuccs

theorem isLeast_deadEnds :
    IsLeast {S | D.DeadEndClosed device preservedNodes S} (D.deadEnds device preservedNodes) := by
  constructor
  · intro v hpin hall
    refine ⟨hpin, fun w hw => ?_⟩
    obtain ⟨hout, hallowed, hpreserved, hgraph⟩ := mem_routableNodes.1 hw
    exact (dead_iff hgraph).2 (hall w hout hallowed hpreserved hgraph)
  · intro S hS v hv
    have hdead : ∀ w, Peeling.Dead (D.successors device preservedNodes device.nodesInGraph)
        device.nodesInGraph D.pinNodes w → w ∈ S := by
      intro w hw
      induction hw with
      | @intro u hgraph hpin _ ih =>
        refine hS u (fun h => ?_) fun x hout hallowed hpreserved hx => ih x ?_
        · rw [(pinNodes_iff u).2 h] at hpin
          cases hpin
        · rw [successors_of_mem hgraph]
          exact mem_routableNodes.2 ⟨hout, hallowed, hpreserved, hx⟩
    refine hS v hv.1 fun w hout hallowed hpreserved hgraph => hdead w (hv.2 w ?_)
    exact mem_routableNodes.2 ⟨hout, hallowed, hpreserved, hgraph⟩

variable (preservedNodes) in
/-- What `reduceRouteNode` leaves. -/
theorem reduceRouteNode_spec (hone : device.OneNode) {fuel : Nat} (hfuel : D.numNodes ≤ fuel) :
    ∃ rounds c, D.reduceRouteNode device preservedNodes fuel = some (rounds, c) ∧
      rounds.flatten.Nodup ∧
      (∀ v, v ∈ rounds.flatten ↔
        device.nodesInGraph v = true ∧ v ∈ D.deadEnds device preservedNodes) ∧
      (∀ v, c.alive v = true ↔
        device.nodesInGraph v = true ∧ v ∉ D.deadEnds device preservedNodes) ∧
      ∀ v, 0 ≤ c.degree v := by
  have hactive : ∀ v, D.successors device preservedNodes device.nodesInGraph v ≠ [] →
      device.nodesInGraph v = true := by
    intro v hv
    by_contra hgraph
    unfold successors at hv
    rw [if_neg hgraph] at hv
    exact hv rfl
  have hcard : Fintype.card D.NodeId ≤ fuel := by
    rw [Fintype.card_fin]
    exact hfuel
  obtain ⟨rounds, c, hpeel, hnodup, hmem, halive, hdegree⟩ := Peeling.peel_spec
    (count_parents hone device.nodesInGraph) hactive (peeled_deadEndNodeIds device.nodesInGraph)
    hcard
  refine ⟨rounds, c, hpeel, hnodup, fun v => ?_, fun v => ?_, hdegree⟩
  · rw [hmem]
    constructor
    · intro h
      have hgraph : device.nodesInGraph v = true := by
        cases h with
        | intro hgraph _ _ => exact hgraph
      exact ⟨hgraph, (dead_iff hgraph).1 h⟩
    · rintro ⟨hgraph, h⟩
      exact (dead_iff hgraph).2 h
  · rw [halive]
    constructor
    · rintro ⟨hgraph, h⟩
      exact ⟨hgraph, fun hd => h ((dead_iff hgraph).2 hd)⟩
    · rintro ⟨hgraph, h⟩
      exact ⟨hgraph, fun hd => h ((dead_iff hgraph).1 hd)⟩

/-! ## The children -/

theorem Children.mem_getChildren_foldl {V : Type} (l : List V) (cs : Children V) (v : V) :
    v ∈ (l.foldl Children.addChildren cs).getChildren ↔ v ∈ cs.getChildren ∨ v ∈ l := by
  induction l generalizing cs with
  | nil => simp
  | cons c l ih =>
    rw [List.foldl_cons, ih, Children.getChildren_addChildren, List.mem_append, List.mem_singleton,
      List.mem_cons, or_assoc]

variable (preservedNodes) in
/-- A node gets the children it may have in the graph that the rounds have left, with the pins put
back. -/
theorem setRouteNodeChildren_spec (hone : device.OneNode) {fuel : Nat} (hfuel : D.numNodes ≤ fuel) :
    ∃ children, D.setRouteNodeChildren device preservedNodes fuel = some (D.withChildren children) ∧
      ∃ nodesInGraph : D.NodeId → Bool,
        (∀ v, nodesInGraph v = true ↔ IsPin v ∨
          (device.nodesInGraph v = true ∧ v ∉ D.deadEnds device preservedNodes)) ∧
        ∀ u v : D.NodeId, v ∈ (D.withChildren children).children u ↔
          v ∈ D.children u ∨ v ∈ D.successors device preservedNodes nodesInGraph u := by
  obtain ⟨rounds, c, hreduce, -, -, halive, -⟩ := reduceRouteNode_spec preservedNodes hone hfuel
  refine ⟨fun node => (D.successors device preservedNodes (D.markPins c.alive) node).foldl
    Children.addChildren (D.routeNodes node).children, ?_, D.markPins c.alive, fun v => ?_,
    fun u v => Children.mem_getChildren_foldl _ _ v⟩
  · unfold setRouteNodeChildren
    rw [hreduce]
    rfl
  · rw [markPins_iff, halive, or_comm]

variable (D device preservedNodes) in
/-- A way from the source of a connection to its sink, over nodes that may be children. -/
structure IsRoutable (conn : D.ConnId) (p : List D.NodeId) : Prop where
  head : p.head? = some (D.source conn)
  last : p.getLast? = some (D.sink conn)
  chain : p.IsChain fun u v => v ∈ device.getOutgoingNodes u
  allowed : ∀ v ∈ p.tail, device.nodeInAllowedTile v = true ∧ preservedNodes v = false

/-- A way to a pin over nodes that may be children holds no dead end. -/
theorem not_mem_deadEnds_of_chain : ∀ {p : List D.NodeId} {v : D.NodeId},
    (v :: p).IsChain (fun u w => w ∈ device.getOutgoingNodes u) →
    (∀ w ∈ v :: p, device.nodeInAllowedTile w = true ∧ preservedNodes w = false) →
    (∀ w, (v :: p).getLast? = some w → IsPin w) →
    ∀ w ∈ v :: p, IsPin w ∨ (device.nodesInGraph w = true ∧ w ∉ D.deadEnds device preservedNodes) := by
  intro p
  induction p with
  | nil =>
    intro v _ _ hlast w hw
    rw [List.mem_singleton] at hw
    subst hw
    exact Or.inl (hlast w rfl)
  | cons u p ih =>
    intro v hchain hallowed hlast w hw
    obtain ⟨hedge, hchain'⟩ := List.isChain_cons_cons.1 hchain
    have hrest := ih hchain' (fun x hx => hallowed x (List.mem_cons_of_mem _ hx)) fun x hx =>
      hlast x (by rw [List.getLast?_cons_cons]; exact hx)
    rcases List.mem_cons.1 hw with rfl | hw
    · obtain ⟨hw, -⟩ := hallowed w List.mem_cons_self
      obtain ⟨hu, hpreserved⟩ := hallowed u (List.mem_cons_of_mem _ List.mem_cons_self)
      have hgraph : ∀ x, x = w ∨ x = u → device.nodesInGraph x = true := fun x hx =>
        (Device.nodesInGraph_iff x).2 ⟨w, u, hedge, hw, hu, hx⟩
      refine Or.inr ⟨hgraph w (Or.inl rfl), fun hdead => ?_⟩
      -- the next node is not a dead end, and it is one of those that count
      have hdead' := (dead_iff (hgraph u (Or.inr rfl))).1 (hdead.2 u
        (mem_routableNodes.2 ⟨hedge, hu, hpreserved, hgraph u (Or.inr rfl)⟩))
      rcases hrest u List.mem_cons_self with hpin | ⟨-, hnot⟩
      · exact hdead'.1 hpin
      · exact hnot hdead'
    · exact hrest w hw

/-- The nodes of a way from source to sink stay in the graph. -/
theorem IsRoutable.kept {conn : D.ConnId} {p : List D.NodeId}
    (h : D.IsRoutable device preservedNodes conn p) : ∀ v ∈ p,
      IsPin v ∨ (device.nodesInGraph v = true ∧ v ∉ D.deadEnds device preservedNodes) := by
  obtain ⟨hhead, hlast, hchain, hallowed⟩ := h
  rcases p with - | ⟨u, p⟩
  · cases hhead
  · intro v hv
    rcases List.mem_cons.1 hv with rfl | hv
    · exact Or.inl ⟨conn, Or.inl (Option.some.inj hhead)⟩
    · rcases p with - | ⟨w, p⟩
      · cases hv
      · refine not_mem_deadEnds_of_chain (List.isChain_cons_cons.1 hchain).2 hallowed ?_ v hv
        intro x hx
        rw [List.getLast?_cons_cons, hx] at hlast
        exact ⟨conn, Or.inr (Option.some.inj hlast)⟩

variable (preservedNodes) in
/-- **Pruning removes the least set of dead ends, and no way from a source to a sink.** The rounds
end; no node is listed twice, and no degree falls below zero. -/
theorem setRouteNodeChildren_complete (hone : device.OneNode) {fuel : Nat}
    (hfuel : D.numNodes ≤ fuel) :
    (∃ rounds c, D.reduceRouteNode device preservedNodes fuel = some (rounds, c) ∧
      rounds.flatten.Nodup ∧ (∀ v, 0 ≤ c.degree v) ∧
      ∃ S, IsLeast {S | D.DeadEndClosed device preservedNodes S} S ∧
        (∀ v ∈ S, ¬ IsPin v) ∧
        (∀ v, v ∈ rounds.flatten ↔ device.nodesInGraph v = true ∧ v ∈ S) ∧
        ∀ v, c.alive v = true ↔ device.nodesInGraph v = true ∧ v ∉ S) ∧
    ∃ children, D.setRouteNodeChildren device preservedNodes fuel = some (D.withChildren children) ∧
      ∀ conn p, D.IsRoutable device preservedNodes conn p →
        p.IsChain fun u v : D.NodeId => v ∈ (D.withChildren children).children u := by
  constructor
  · obtain ⟨rounds, c, hreduce, hnodup, hmem, halive, hdegree⟩ :=
      reduceRouteNode_spec preservedNodes hone hfuel
    exact ⟨rounds, c, hreduce, hnodup, hdegree, D.deadEnds device preservedNodes, isLeast_deadEnds,
      fun v hv => hv.1, hmem, halive⟩
  · obtain ⟨children, hset, nodesInGraph, hgraph, hchildren⟩ :=
      setRouteNodeChildren_spec preservedNodes hone hfuel
    refine ⟨children, hset, fun conn p hp => ?_⟩
    have hin : ∀ v ∈ p, nodesInGraph v = true := fun v hv => (hgraph v).2 (hp.kept v hv)
    refine hp.chain.imp_of_mem_tail_imp fun u v hu hv hedge => (hchildren u v).2 (Or.inr ?_)
    obtain ⟨hallowed, hpreserved⟩ := hp.allowed v hv
    rw [successors_of_mem (hin u hu)]
    exact mem_routableNodes.2 ⟨hedge, hallowed, hpreserved, hin v (List.mem_of_mem_tail hv)⟩

/-! One tile with the edges 0 → 1 → 2 and 0 → 3 → 4, and a connection from 0 to 2. -/

def deadEndDevice : Device (Fin 5) where
  siteNameToIdx _ := none
  sites _ := ⟨0, 0, 0, 0⟩
  siteTypePinNameToIdx _ _ := none
  tileTypeSitePinToWireIdx _ _ _ := 0
  tileTypes t :=
    if t = intTile then
      .ofPips id [⟨0, 1, true⟩, ⟨1, 2, true⟩, ⟨0, 3, true⟩, ⟨3, 4, true⟩] (by decide) (by decide)
    else .noPips id
  stringList _ := ""
  tileToNameIdx t := t
  tileToType _ := intTile
  tileWireToNode t i := if t = 0 then (if h : i < 5 then some ⟨i, h⟩ else none) else none
  nodeToWires v := [⟨0, intTile, v⟩]
  beginTileId _ := 0
  nullTile_pips := fun _ _ => rfl
  wire_type := by
    intro v w hw
    revert w
    revert v
    decide
  wire_lt := by
    intro v w hw
    revert w
    revert v
    decide
  begin_eq := by decide
  wire_of_node := by
    intro t i v h
    split at h
    · next ht =>
      split at h
      · cases h
        exact ⟨_, List.mem_singleton_self _, ht.symm, rfl⟩
      · cases h
    · cases h
  node_of_wire := by
    intro v w hw
    revert w
    revert v
    decide

def deadEndDesign : Database ℚ where
  numNodes := 5
  numNets := 1
  numConns := 1
  routeNodes _ := ⟨0, 0, 0, 0, 1, 0, .wire, true, false, .clearChildren⟩
  indirectConnections _ := ⟨idx 0, idx 0, idx 2, 0, 0, 0, 0, .set (-1) (-1) 1 1, 4⟩
  nets _ := ⟨[idx 0], [], 0, 0, 4, 0, 0, 0, 0⟩
  layout := .set 0 0 108 300
  deviceXMax := 0
  deviceYMax := 0
  mem_indirectConns := by decide
  nodup_indirectConns := by decide
  source_eq := fun _ => rfl

theorem oneNode_deadEndDevice : deadEndDevice.OneNode where
  unique := by
    intro u v w w' hw hw' htile hwire
    have key : ∀ u v : Fin 5, ∀ w ∈ deadEndDevice.nodeToWires u,
        ∀ w' ∈ deadEndDevice.nodeToWires v,
        w.tileIdx = w'.tileIdx → w.wireInTileIdx = w'.wireInTileIdx → u = v := by decide
    exact key u v w hw w' hw' htile hwire
  nodup := by decide

/-- The dead ends go in two rounds, the way from 0 to 2 stays. -/
theorem setRouteNodeChildren_complete_deadEndDesign :
    (deadEndDesign.reduceRouteNode deadEndDevice (fun _ => false) 5).map Prod.fst =
      some ([[4], [3]] : List (List (Fin 5))) ∧
    ∃ children, deadEndDesign.setRouteNodeChildren deadEndDevice (fun _ => false) 5 =
        some (deadEndDesign.withChildren children) ∧
      ([0, 1, 2] : List (Fin 5)).IsChain fun u v : Fin 5 =>
        v ∈ (deadEndDesign.withChildren children).children u := by
  obtain ⟨-, children, hset, hpaths⟩ := setRouteNodeChildren_complete (D := deadEndDesign)
    (fun _ => false) oneNode_deadEndDevice (Nat.le_refl 5)
  have hchain : ([0, 1, 2] : List (Fin 5)).IsChain fun u v =>
      v ∈ deadEndDevice.getOutgoingNodes u := by decide +kernel
  have hallowed : ∀ v ∈ ([1, 2] : List (Fin 5)), deadEndDevice.nodeInAllowedTile v = true ∧
      false = false := by decide
  exact ⟨rfl, children, hset, hpaths (0 : Fin 1) ([0, 1, 2] : List (Fin 5))
    ⟨rfl, rfl, hchain, hallowed⟩⟩

end Database

end Potter
