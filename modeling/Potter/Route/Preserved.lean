import Potter.Db.ParseNetlist
import Potter.Route.MainLoop

/-!
# Routes keep off the preserved nodes

No preserved node is a child of a node (`setRouteNodeChildren`), and every node of a route but the
source is a child of the next one. So a route enters no preserved node, whatever was routed before and
whatever other threads do.
-/

namespace Potter

open Lib

namespace Database

variable {K : Type} {D : Database K}

theorem withChildren_inj {f g : D.NodeId → Children D.NodeId}
    (h : D.withChildren f = D.withChildren g) : f = g := by
  unfold withChildren at h
  injection h with _ _ _ hnodes
  funext node
  have hnode := congrFun hnodes node
  injection hnode

/-- The children a node has got are not preserved. -/
theorem not_preserved_of_mem_children {device : Device D.NodeId} {preservedNodes : D.NodeId → Bool}
    {fuel : Nat} {children : D.NodeId → Children D.NodeId} (hempty : ∀ v, D.children v = [])
    (h : D.setRouteNodeChildren device preservedNodes fuel = some (D.withChildren children))
    {u v : D.NodeId} (hv : v ∈ (D.withChildren children).children u) : preservedNodes v = false := by
  unfold setRouteNodeChildren at h
  obtain ⟨⟨rounds, c⟩, -, h⟩ := Option.bind_eq_some_iff.1 h
  have hchildren := withChildren_inj (Option.some.inj h)
  have hmem : v ∈ (children u).getChildren := hv
  rw [← hchildren, Children.mem_getChildren_foldl] at hmem
  rcases hmem with hmem | hmem
  · have hnil : (D.routeNodes u).children.getChildren = [] := hempty u
    rw [hnil] at hmem
    cases hmem
  · unfold successors at hmem
    split at hmem
    · exact (mem_routableNodes.1 hmem).2.2.1
    · cases hmem

/-- Every node of a path is its source or a child. -/
theorem IsPath.source_or_child {c : D.ConnId} {p : List D.NodeId} (h : D.IsPath c p) :
    ∀ v ∈ p, v = D.source c ∨ ∃ u, v ∈ D.children u := by
  obtain ⟨-, hlast, -, hchain, -⟩ := h
  induction p with
  | nil =>
    intro v hv
    cases hv
  | cons w p ih =>
    intro v hv
    cases p with
    | nil =>
      rw [List.mem_singleton.1 hv]
      exact Or.inl (Option.some.inj hlast)
    | cons x p =>
      obtain ⟨hwx, hchain⟩ := List.isChain_cons_cons.1 hchain
      rw [List.getLast?_cons_cons] at hlast
      rcases List.mem_cons.1 hv with rfl | hv
      · exact Or.inr ⟨x, hwx⟩
      · exact ih hlast hchain v hv

end Database

namespace AStarRoute

variable {K : Type} [Arith K] {R : AStarRoute K} {st st' : RouterState R.database}

/-! ## What the calls do to a route -/

/-- **A call leaves a route as it is, clears it, or appends a path to it.** -/
theorem Act.rnodes (h : R.Act st st') (c : R.database.ConnId) :
    (st'.conn c).rnodes = (st.conn c).rnodes ∨ (st'.conn c).rnodes = [] ∨
      ∃ path, R.database.IsPath c path ∧ (st'.conn c).rnodes = (st.conn c).rnodes ++ path := by
  cases h with
  | @reserveSink d _ _ h =>
    unfold AStarRoute.reserveSink at h
    dsimp only at h
    split at h
    · cases h
    · cases h
      exact Or.inl rfl
  | @ripup ρ d sync _ _ h =>
    rw [ripup_conn h]
    by_cases hd : c = d
    · subst hd
      rw [Function.update_self]
      exact Or.inr (Or.inl rfl)
    · rw [Function.update_of_ne hd]
      exact Or.inl rfl
  | @route ρ d tid sync success _ _ h =>
    cases success with
    | false =>
      obtain ⟨marks, rfl⟩ := routeOneConnection_false h
      left
      by_cases hd : c = d
      · subst hd
        simp [beginRoute, ConnState.setRoutedThisIter]
      · simp [beginRoute, hd]
    | true =>
      obtain ⟨marks, k, path, hpath, rfl⟩ := routeOneConnection_true h
      obtain ⟨s, hs, hrnodes, -⟩ := commitRoute_conn ρ d sync k
        (appendPath d path ((R.beginRoute d st).withMarks tid marks))
      rw [hs]
      by_cases hd : c = d
      · subst hd
        refine Or.inr (Or.inr ⟨path, hpath, ?_⟩)
        rw [Function.update_self, hrnodes]
        simp [appendPath, beginRoute, ConnState.setRoutedThisIter]
      · left
        rw [Function.update_of_ne hd]
        simp [appendPath, beginRoute, hd]
  | setRoutedThisIter d routed =>
    left
    by_cases hd : c = d
    · subst hd
      simp [ConnState.setRoutedThisIter]
    · simp [hd]
  | clearPreUsers n => exact Or.inl rfl
  | recordOccChanges tid info => exact Or.inl rfl
  | updateNet h =>
    rw [updateNet_frame RouterState.conn (fun _ _ _ => rfl) (fun _ _ _ => rfl) h]
    exact Or.inl rfl
  | updatePresentCongCost r =>
    unfold AStarRoute.updatePresentCongCost
    dsimp only
    split <;> exact Or.inl rfl
  | refreshCost r =>
    unfold AStarRoute.refreshCost
    dsimp only
    split
    · exact Or.inl rfl
    · split <;> exact Or.inl rfl
  | control => exact Or.inl rfl

/-- Every node of a route is the source of its connection or a child. -/
theorem Reachable.source_or_child (h : R.Reachable st) (c : R.database.ConnId) :
    ∀ v ∈ (st.conn c).rnodes, v = R.database.source c ∨ ∃ u, v ∈ R.database.children u := by
  obtain ⟨isRouted, isRoutedThisIter, routedConnectionNum, failRouteNum, hacts⟩ := h
  induction hacts with
  | refl =>
    intro v hv
    cases hv
  | tail _ hact ih =>
    intro v hv
    rcases hact.rnodes c with heq | heq | ⟨path, hpath, heq⟩
    · rw [heq] at hv
      exact ih v hv
    · rw [heq] at hv
      cases hv
    · rw [heq] at hv
      rcases List.mem_append.1 hv with hv | hv
      · exact ih v hv
      · exact hpath.source_or_child v hv

/-! ## Preserved nodes -/

/-- The router on the graph with these children. -/
def withChildren (R : AStarRoute K) (children : R.database.NodeId → Children R.database.NodeId) :
    AStarRoute K :=
  { R with database := R.database.withChildren children, queue := R.queue }

/-- **No route enters a preserved node**, unless it starts there. -/
theorem Reachable.not_preserved {device : Device R.database.NodeId} {strList : List String}
    {physNets : List PhysNet} {preservedNodes : R.database.NodeId → Bool} {fuel : Nat}
    {children : R.database.NodeId → Children R.database.NodeId}
    (hempty : ∀ v, R.database.children v = [])
    (hparse : device.parsePreserved strList physNets = some preservedNodes)
    (hset : R.database.setRouteNodeChildren device preservedNodes fuel =
      some (R.database.withChildren children))
    {st : RouterState (R.withChildren children).database}
    (hst : (R.withChildren children).Reachable st) (c : R.database.ConnId) {r : R.database.NodeId}
    (hr : r ∈ (st.conn c).rnodes)
    (hpreserved : ∃ physNet ∈ physNets, device.PreservedBy strList physNet r) :
    r = R.database.source c := by
  rcases hst.source_or_child c r hr with hsource | ⟨u, hu⟩
  · exact hsource
  · have hmark := (Device.parsePreserved_iff hparse r).2 hpreserved
    rw [Database.not_preserved_of_mem_children hempty hset hu] at hmark
    cases hmark

/-! The design with two dead ends, and a supply net on the wires of nodes 0 and 3. -/

def supplyDevice : Device (Fin 5) :=
  { Database.deadEndDevice with
    tileNameToIdx := fun _ => some 0
    tileNameToType := fun _ => some intTile
    wireNameToIdxInTileType := fun _ wireName =>
      if wireName = "W0" then some 0 else if wireName = "W3" then some 3 else none }

def supplyNet : PhysNet where
  sources := [.node (.pip { PhysPIP.init with wire0 := 1, wire1 := 2 }) []]
  stubs := []
  type := .vcc

def supplyRouter : AStarRoute ℚ :=
  { columns 1 1 true false with database := Database.deadEndDesign, queue := scanQueue _ ℚ }

def supplyPreserved : Fin 5 → Bool :=
  (supplyDevice.parsePreserved ["T", "W0", "W3"] [supplyNet]).getD fun _ => false

def supplyChildren (node : Fin 5) : Children (Fin 5) :=
  match Database.deadEndDesign.reduceRouteNode supplyDevice supplyPreserved 5 with
  | none => .clearChildren
  | some (_, c) =>
    (Database.deadEndDesign.successors supplyDevice supplyPreserved
      (Database.deadEndDesign.markPins c.alive) node).foldl Children.addChildren .clearChildren

/-- The connection starts at a preserved node, and its route meets no other. -/
theorem Reachable.not_preserved_supply :
    ∃ st, (supplyRouter.withChildren supplyChildren).Reachable st ∧
      (st.conn (0 : Fin 1)).rnodes.map Fin.val = [2, 1, 0] ∧
      (∃ physNet ∈ [supplyNet], supplyDevice.PreservedBy ["T", "W0", "W3"] physNet 0) ∧
      (0 : Fin 5) = supplyRouter.database.source (0 : Fin 1) := by
  have hrun : ∃ st₁ ∈ (supplyRouter.withChildren supplyChildren).updateSinkNodeUsage
      (.init (fun _ => false) (fun _ => false) 0 0),
      ∃ st₂ ∈ (supplyRouter.withChildren supplyChildren).ripup .own (0 : Fin 1) false st₁,
      ∃ p ∈ (supplyRouter.withChildren supplyChildren).routeOneConnection .own (0 : Fin 1) 0 false st₂,
      (p.2.conn (0 : Fin 1)).rnodes.map Fin.val = [2, 1, 0] := by
    decide +kernel
  obtain ⟨st₁, hstart, st₂, hrip, ⟨success, st₃⟩, hroute, hpath⟩ := hrun
  have hreach : (supplyRouter.withChildren supplyChildren).Reachable st₃ := by
    refine ⟨fun _ => false, fun _ => false, 0, 0, ?_⟩
    have hacts := runAll_acts (fun c _ s t hc => .single (.reserveSink hc)) hstart
    exact (hacts.tail (.ripup hrip)).tail (.route hroute)
  have hsupply : ∃ physNet ∈ [supplyNet],
      supplyDevice.PreservedBy ["T", "W0", "W3"] physNet 0 := by
    refine ⟨supplyNet, List.mem_singleton_self _,
      .pip (b := supplyNet.sources.head (List.cons_ne_nil _ _)) ?_ List.mem_cons_self
        (RoseTree.label_mem_labels _) (Or.inl ?_) ?_⟩
    · exact ⟨fun h => h.2 rfl, Or.inr (Or.inl rfl)⟩
    · decide +kernel
    · decide +kernel
  have hparse : supplyDevice.parsePreserved ["T", "W0", "W3"] [supplyNet] = some supplyPreserved :=
    rfl
  have hset : Database.deadEndDesign.setRouteNodeChildren supplyDevice supplyPreserved 5 =
      some (Database.deadEndDesign.withChildren supplyChildren) := rfl
  have hmem : (0 : Fin 5) ∈ (st₃.conn (0 : Fin 1)).rnodes := by
    have h : 0 ∈ (st₃.conn (0 : Fin 1)).rnodes.map Fin.val := by
      rw [hpath]
      decide
    obtain ⟨v, hv, hzero⟩ := List.mem_map.1 h
    rw [show (0 : Fin 5) = v from Fin.ext hzero.symm]
    exact hv
  exact ⟨st₃, hreach, hpath, hsupply, Reachable.not_preserved (R := supplyRouter) (fun _ => rfl)
    hparse hset hreach (0 : Fin 1) hmem hsupply⟩

end AStarRoute

end Potter
