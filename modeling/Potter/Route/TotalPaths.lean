import Potter.Db.BBox
import Potter.Db.ReadNets
import Potter.Route.Preserved
import Potter.Route.SaveSolutions

/-!
# From source pin to sink pin

The path that is saved for an indirect connection has three parts: the reader found the first and the
last one on the device, the router the one in between, on a graph whose edges are edges of the
device. Here the three are put together. They meet, and the whole is a walk of the device from the
source pin of the net to one of its sink pins.

The one assertion that depends on the design is that a route has two nodes. It fails for a connection
that ends where it begins, which takes a source pin in an interconnect tile.
-/

namespace Potter

open Lib

namespace Device

variable {V : Type} {D : Device V} {u v w : V} {p q : List V}

theorem IsWalk.append (hp : D.IsWalk u v p) (hq : D.IsWalk v w (v :: q)) : D.IsWalk u w (p ++ q) := by
  refine ⟨?_, ?_, ?_⟩
  · rw [List.head?_append, hp.head, Option.some_or]
  · have hlast := hq.last
    rw [List.getLast?_cons] at hlast
    rw [List.getLast?_append, hp.last, ← hlast]
    cases q.getLast? <;> rfl
  · rw [List.isChain_append]
    refine ⟨hp.chain, hq.chain.tail, fun x hx y hy => ?_⟩
    rw [hp.last] at hx
    cases hx
    obtain ⟨rest, rfl⟩ := List.head?_eq_some_iff.1 hy
    exact (List.isChain_cons_cons.1 hq.chain).1

end Device

namespace Database

variable {K : Type} {D : Database K}

/-- The edges of the graph are edges of the device. -/
theorem mem_getOutgoingNodes_of_mem_children {device : Device D.NodeId}
    {preservedNodes : D.NodeId → Bool} {fuel : Nat} {children : D.NodeId → Children D.NodeId}
    (hone : device.OneNode) (hfuel : D.numNodes ≤ fuel) (hempty : ∀ v, D.children v = [])
    (h : D.setRouteNodeChildren device preservedNodes fuel = some (D.withChildren children))
    {u v : D.NodeId} (hv : v ∈ (D.withChildren children).children u) :
    v ∈ device.getOutgoingNodes u := by
  obtain ⟨children', hset, nodesInGraph, -, hmem⟩ :=
    setRouteNodeChildren_spec preservedNodes hone hfuel
  rw [h] at hset
  obtain rfl := withChildren_inj (Option.some.inj hset)
  rcases (hmem u v).1 hv with hold | hnew
  · rw [hempty u] at hold
    cases hold
  · unfold successors at hnew
    split at hnew
    · exact (mem_routableNodes.1 hnew).1
    · cases hnew

/-- A route, read from its source, is a walk. -/
theorem IsPath.isWalk {device : Device D.NodeId} {c : D.ConnId} {p : List D.NodeId}
    (h : D.IsPath c p) (hedges : ∀ u v, v ∈ D.children u → v ∈ device.getOutgoingNodes u) :
    device.IsWalk (D.source c) (D.sink c) p.reverse := by
  refine ⟨?_, ?_, ?_⟩
  · rw [List.head?_reverse, h.last]
  · rw [List.getLast?_reverse, h.head]
  · rw [List.isChain_reverse]
    exact h.chain.imp fun v u hv => hedges u v hv

/-- The route of a connection has two nodes exactly if it leads somewhere. -/
theorem IsPath.two_le_length_iff {c : D.ConnId} {p : List D.NodeId} (h : D.IsPath c p) :
    2 ≤ p.length ↔ D.source c ≠ D.sink c := by
  obtain ⟨rest, rfl⟩ := List.head?_eq_some_iff.1 h.head
  have hlast := h.last
  cases rest with
  | nil =>
    have heq : D.sink c = D.source c := Option.some.inj hlast
    simp [heq]
  | cons v rest =>
    refine iff_of_true (by simp) fun heq => ?_
    rw [List.getLast?_cons_cons] at hlast
    have hmem := List.mem_of_getLast? hlast
    rw [heq] at hmem
    exact (List.nodup_cons.1 h.nodup).1 hmem

end Database

/-- The pins and the fixed paths are those that were read. -/
structure Solution.ReadFrom {K : Type} {D : Database K} (sol : Solution D) (st : ReadState D.NodeId) :
    Prop where
  paths : ∀ (c : D.ConnId) (conn : ReadConnection D.NodeId),
    st.indirectConnections[c.val]? = some conn →
      sol.sourceToIntPath c = conn.sourceToIntPath ∧ sol.intToSinkPath c = conn.intToSinkPath
  pins : ∀ (n : D.NetId) (net : ReadNet D.NodeId), st.nets[n.val]? = some net →
    sol.pins n = ⟨net.indirectSourcePin, net.indirectSinkPins, net.directSourcePin,
      net.directSinkPins⟩

/-- What saving gets: the paths and pins that were read, and the routes. -/
def ReadState.toSolution {K : Type} {D : Database K} (st : ReadState D.NodeId)
    (rnodes : D.ConnId → List D.NodeId) (directConnections : Nat → DirectConnection D.NodeId) :
    Solution D where
  sourceToIntPath c := (st.indirectConnections[c.val]?).elim [] ReadConnection.sourceToIntPath
  intToSinkPath c := (st.indirectConnections[c.val]?).elim [] ReadConnection.intToSinkPath
  rnodes := rnodes
  directConnections := directConnections
  pins n := (st.nets[n.val]?).elim ⟨none, [], none, []⟩ fun net =>
    ⟨net.indirectSourcePin, net.indirectSinkPins, net.directSourcePin, net.directSinkPins⟩

theorem ReadState.readFrom_toSolution {K : Type} {D : Database K} (st : ReadState D.NodeId)
    (rnodes : D.ConnId → List D.NodeId) (directConnections : Nat → DirectConnection D.NodeId) :
    (st.toSolution rnodes directConnections).ReadFrom st where
  paths c conn hconn := by simp [toSolution, hconn]
  pins n net hnet := by simp [toSolution, hnet]

theorem Net.foldl_updateBB_directConns {C : Type} (net : Net C) (boxes : List BoxT) :
    (boxes.foldl Net.updateBB net).directConns = net.directConns := by
  induction boxes generalizing net with
  | nil => rfl
  | cons b boxes ih => exact (ih (net.updateBB b)).trans rfl

theorem Database.boxedNet_directConns {K : Type} (D : Database K) (xMargin yMargin : Int)
    (n : D.NetId) : (D.boxedNet xMargin yMargin n).directConns = (D.nets n).directConns := by
  have hcenter : (D.centeredNet n).directConns = (D.nets n).directConns :=
    Net.foldl_updateBB_directConns _ _
  unfold boxedNet Net.updateExtent
  split
  · exact hcenter
  · exact (Net.foldl_updateBB_directConns _ _).trans hcenter

/-- The boxes leave nets, connections and their ends as they were read. -/
theorem Database.ReadFrom.boxed {K : Type} {D : Database K} {st : ReadState D.NodeId}
    (h : D.ReadFrom st) (xMargin yMargin : Int) : (D.boxed xMargin yMargin).ReadFrom st where
  conn := h.conn
  net n := by
    obtain ⟨net, hnet, hconns, hdirect⟩ := h.net n
    refine ⟨net, hnet, ?_, ?_⟩
    · exact (congrArg (List.map Fin.val) (D.boxedNet_indirectConns xMargin yMargin n)).trans hconns
    · exact (D.boxedNet_directConns xMargin yMargin n).trans hdirect

namespace AStarRoute

variable {K : Type} [Arith K] {R : AStarRoute K} {device : Device R.database.NodeId}
  {st : ReadState R.database.NodeId} {sol : Solution R.database} {c : R.database.ConnId}

/-- The parts of the path meet if the route has two nodes. -/
theorem totalPath_eq {rest : List R.database.NodeId} (hpath : R.database.IsPath c (sol.rnodes c))
    (hsource : (sol.sourceToIntPath c).getLast? = some (R.database.source c))
    (hsink : sol.intToSinkPath c = R.database.sink c :: rest) :
    R.totalPath sol c = if R.database.source c ≠ R.database.sink c then
      some (sol.sourceToIntPath c ++ (sol.rnodes c).dropLast.reverse ++ rest) else none := by
  unfold totalPath
  dsimp only
  rw [hsource, hpath.last, hsink, List.head?_cons, List.tail_cons]
  by_cases hne : R.database.source c ≠ R.database.sink c
  · have hlen := hpath.two_le_length_iff.2 hne
    have hmeet : (sol.sourceToIntPath c ++ (sol.rnodes c).dropLast.reverse).getLast? =
        some (R.database.sink c) := by
      rw [List.getLast?_append, List.getLast?_reverse, List.head?_dropLast,
        if_pos (Nat.lt_of_succ_le hlen), hpath.head, Option.some_or]
    rw [if_pos ⟨rfl, hlen⟩, if_pos hmeet.symm, if_pos hne]
  · rw [if_neg fun h => hne (hpath.two_le_length_iff.1 h.2), if_neg hne]

/-- The whole path, if there is one, is a walk. -/
theorem isWalk_totalPath {pin sinkPin : R.database.NodeId} {rest path : List R.database.NodeId}
    (hedges : ∀ u v, v ∈ R.database.children u → v ∈ device.getOutgoingNodes u)
    (hpath : R.database.IsPath c (sol.rnodes c))
    (hsource : device.IsWalk pin (R.database.source c) (sol.sourceToIntPath c))
    (hsink : sol.intToSinkPath c = R.database.sink c :: rest)
    (hrest : device.IsWalk (R.database.sink c) sinkPin (R.database.sink c :: rest))
    (h : R.totalPath sol c = some path) : device.IsWalk pin sinkPin path := by
  rw [totalPath_eq hpath hsource.last hsink] at h
  split at h
  · cases h
    -- the route without its source, which ends the first part
    have hroute : (sol.rnodes c).reverse =
        R.database.source c :: (sol.rnodes c).dropLast.reverse := by
      obtain ⟨front, hfront⟩ := List.getLast?_eq_some_iff.1 hpath.last
      rw [hfront, List.dropLast_concat, List.reverse_append, List.reverse_singleton,
        List.singleton_append]
    have hwalk := hpath.isWalk hedges
    rw [hroute] at hwalk
    exact (hsource.append hwalk).append hrest
  · cases h

/-- What saving a path needs of the reader and of the router. -/
theorem totalPath_of_wellRead (hone : device.OneNode) (hwell : device.WellRead st)
    (hdesign : R.database.ReadFrom st) (hsol : sol.ReadFrom st)
    (hedges : ∀ u v, v ∈ R.database.children u → v ∈ device.getOutgoingNodes u)
    (hpath : R.database.IsPath c (sol.rnodes c)) :
    (∀ s, (R.saveSource (R.database.netOf c) sol c s).isSome ∧ (R.saveSink sol c s).isSome) ∧
    ((R.totalPath sol c).isSome ↔ R.database.source c ≠ R.database.sink c) ∧
    ∃ pin, (sol.pins (R.database.netOf c)).indirectSourcePin = some pin ∧
      (¬device.IsInt pin → R.database.source c ≠ R.database.sink c) ∧
      ∀ path, R.totalPath sol c = some path →
        ∃ sinkPin ∈ (sol.pins (R.database.netOf c)).indirectSinkPins,
          device.IsWalk pin sinkPin path := by
  obtain ⟨conn, hconn, hnetId, hsrc, hsnk⟩ := hdesign.conn c
  obtain ⟨net, hnet, hfits⟩ := hwell.indirect.fits conn (List.mem_of_getElem? hconn)
  rw [hnetId] at hnet
  obtain ⟨pin, hpin, hsource⟩ := hfits.sourcePath
  obtain ⟨sinkPin, hsinkPin, hlast⟩ := hfits.sinkPin
  obtain ⟨rest, hrest⟩ := List.head?_eq_some_iff.1 hfits.sink.1
  have hchain := hfits.sinkPath
  obtain ⟨hfirst, hsecond⟩ := hsol.paths c conn hconn
  have hpins := hsol.pins (R.database.netOf c) net hnet
  rw [hsrc, ← hfirst] at hsource
  rw [hrest, hsnk] at hlast hchain hsecond
  -- the reader followed the edges back from the sink pin
  have hwalk : device.IsWalk (R.database.sink c) sinkPin (R.database.sink c :: rest) := by
    refine ⟨rfl, hlast, hchain.imp fun u v huv => ?_⟩
    rw [← List.count_pos_iff, hone.count_getOutgoingNodes, List.count_pos_iff]
    exact huv
  rw [hpins]
  refine ⟨fun s => ⟨?_, ?_⟩, ?_, pin, hpin, fun hint heq => ?_, fun path htotal => ?_⟩
  · simp [saveSource, hsource.walk.head, hpins, hpin]
  · simp [saveSink, hsecond, hlast]
  · rw [totalPath_eq hpath hsource.walk.last hsecond]
    split
    · next hne => exact iff_of_true rfl hne
    · next heq => exact iff_of_false Bool.false_ne_true heq
  · refine hsource.outer hint _ (List.mem_of_getLast? hsource.walk.last) ?_
    rw [heq, ← hsnk]
    exact hfits.sink.2
  · exact ⟨sinkPin, hsinkPin, isWalk_totalPath hedges hpath hsource.walk hsecond hwalk htotal⟩

/-- **The three parts of a saved path meet**, but for a connection that ends where it begins, and are
a walk of the device from the source pin of the net to one of its sink pins. -/
theorem totalPath_of_readNets {fuel : Nat} {strList : List String}
    {nodeType : R.database.NodeId → NodeType} {nets : List RawNet}
    {preservedNodes : R.database.NodeId → Bool} {rounds : Nat}
    {children : R.database.NodeId → Children R.database.NodeId}
    {sol : Solution (R.withChildren children).database} {c : R.database.ConnId}
    (hone : device.OneNode) (hread : device.readNets fuel strList nodeType nets = some st)
    (hdesign : R.database.ReadFrom st) (hempty : ∀ v, R.database.children v = [])
    (hrounds : R.database.numNodes ≤ rounds)
    (hset : R.database.setRouteNodeChildren device preservedNodes rounds =
      some (R.database.withChildren children))
    (hsol : sol.ReadFrom st)
    (hpath : (R.withChildren children).database.IsPath c (sol.rnodes c)) :
    (∀ s, ((R.withChildren children).saveSource (R.database.netOf c) sol c s).isSome ∧
      ((R.withChildren children).saveSink sol c s).isSome) ∧
    (((R.withChildren children).totalPath sol c).isSome ↔
      R.database.source c ≠ R.database.sink c) ∧
    ∃ pin, (sol.pins (R.database.netOf c)).indirectSourcePin = some pin ∧
      (¬device.IsInt pin → R.database.source c ≠ R.database.sink c) ∧
      ∀ path, (R.withChildren children).totalPath sol c = some path →
        ∃ sinkPin ∈ (sol.pins (R.database.netOf c)).indirectSinkPins,
          device.IsWalk pin sinkPin path :=
  totalPath_of_wellRead (R := R.withChildren children) hone (Device.wellRead_of_readNets hread)
    ⟨hdesign.conn, hdesign.net⟩ hsol
    (fun _ _ hv => Database.mem_getOutgoingNodes_of_mem_children hone hrounds hempty hset hv) hpath

/-! The two sites: the routes lead from node `4 n + 1`, before the interconnect tile, to node
`4 n + 2`. -/

theorem oneNode_pinSite : Device.pinSite.OneNode where
  unique := by
    intro u v w w' hw hw' htile hwire
    have key : ∀ u v : Fin 8, ∀ w ∈ Device.pinSite.nodeToWires u,
        ∀ w' ∈ Device.pinSite.nodeToWires v,
        w.tileIdx = w'.tileIdx → w.wireInTileIdx = w'.wireInTileIdx → u = v := by decide
    exact key u v w hw w' hw' htile hwire
  nodup := by decide

/-- The router on the design that was read. -/
def pinRouter (st : ReadState (Fin 8)) (h : Device.pinSite.WellRead st) : AStarRoute ℚ :=
  let node : RouteNode (Fin 8) ℚ := ⟨0, 0, 0, 0, 1, 0, .wire, false, false, .clearChildren⟩
  { columns 1 1 true false with
    database := (st.toDatabase h (fun _ => node) (.set 0 0 108 300) 107 299).boxed 3 15
    queue := scanQueue _ ℚ }

section PinSite

variable {st : ReadState (Fin 8)} (hwell : Device.pinSite.WellRead st)
  (hst : Device.pinSite.readNets 8 Device.pinSiteStrList (fun _ => .wire) Device.pinSiteNets = some st)
include hst

/-- The connections of the router are those of the sites. -/
theorem getElem?_pinSiteConns (c : (pinRouter st hwell).database.ConnId) :
    Device.pinSiteConns[c.val]? = some ((st.indirectConnections.get c).netId,
      ((pinRouter st hwell).database.source c, (pinRouter st hwell).database.sink c),
      (st.indirectConnections.get c).sourceToIntPath,
      (st.indirectConnections.get c).intToSinkPath) := by
  obtain ⟨st', hst', -, hconns, -⟩ := Device.exists_readNets_pinSite
  cases hst.symm.trans hst'
  rw [← hconns, List.getElem?_map, List.getElem?_eq_getElem c.isLt]
  rfl

/-- The router's graph: every connection can be routed by one edge. -/
theorem exists_pinRouter_routed :
    ∃ children, (pinRouter st hwell).database.setRouteNodeChildren Device.pinSite (fun _ => false) 8 =
        some ((pinRouter st hwell).database.withChildren children) ∧
      ∀ c, (pinRouter st hwell).database.source c ≠ (pinRouter st hwell).database.sink c ∧
        ((pinRouter st hwell).withChildren children).database.IsPath c
          [(pinRouter st hwell).database.sink c, (pinRouter st hwell).database.source c] := by
  obtain ⟨children, hset, nodesInGraph, hgraph, hmem⟩ :=
    Database.setRouteNodeChildren_spec (D := (pinRouter st hwell).database)
      (fun _ => false) oneNode_pinSite (le_refl 8)
  refine ⟨children, hset, fun c => ?_⟩
  have hends : ∀ p ∈ Device.pinSiteConns, p.2.1.1 ≠ p.2.1.2 ∧
      p.2.1.2 ∈ Device.pinSite.getOutgoingNodes p.2.1.1 ∧
      Device.pinSite.nodeInAllowedTile p.2.1.2 = true := by decide
  obtain ⟨hne, hout, hallowed⟩ := hends _ (List.mem_of_getElem? (getElem?_pinSiteConns hwell hst c))
  have hedge : (pinRouter st hwell).database.sink c ∈
      ((pinRouter st hwell).database.withChildren children).children
        ((pinRouter st hwell).database.source c) := by
    refine (hmem _ _).2 (.inr ?_)
    unfold Database.successors
    rw [if_pos ((hgraph _).2 (.inl ⟨c, .inl rfl⟩))]
    exact Database.mem_routableNodes.2 ⟨hout, hallowed, rfl,
      (hgraph _).2 (.inl ⟨c, .inr rfl⟩)⟩
  refine ⟨hne, rfl, rfl, ?_, List.isChain_pair.2 hedge, ?_⟩
  · exact List.nodup_cons.2 ⟨fun h => hne (List.mem_singleton.1 h).symm, List.nodup_singleton _⟩
  · intro v hv
    rcases List.mem_pair.1 hv with rfl | rfl
    · exact .inl rfl
    · exact .inr (.inl rfl)

end PinSite

/-- What saving gets for the sites: the routes of their connections. -/
def pinSolution (st : ReadState (Fin 8)) (hwell : Device.pinSite.WellRead st)
    (children : (pinRouter st hwell).database.NodeId → Children (pinRouter st hwell).database.NodeId) :
    Solution ((pinRouter st hwell).withChildren children).database :=
  ReadState.toSolution st
    (fun c => [(pinRouter st hwell).database.sink c, (pinRouter st hwell).database.source c])
    fun _ => ⟨(idx 0 : Fin 8), (idx 0 : Fin 8), []⟩

theorem totalPath_of_readNets_pinSite :
    ∃ st, Device.pinSite.readNets 8 Device.pinSiteStrList (fun _ => .wire) Device.pinSiteNets =
        some st ∧
      ∃ (h : Device.pinSite.WellRead st)
        (children : (pinRouter st h).database.NodeId → Children (pinRouter st h).database.NodeId)
        (sol : Solution ((pinRouter st h).withChildren children).database),
        (pinRouter st h).database.numConns = 2 ∧
        ∀ c, (sol.rnodes c).length = 2 ∧ ∃ (pin sinkPin : Fin 8) (path : List (Fin 8)),
          ((pinRouter st h).withChildren children).totalPath sol c = some path ∧
          Device.pinSite.IsWalk pin sinkPin path := by
  obtain ⟨st, hst, -, hconns, -⟩ := Device.exists_readNets_pinSite
  have hwell := Device.wellRead_of_readNets hst
  have hlen : st.indirectConnections.length = 2 := by
    rw [← List.length_map, hconns]
    rfl
  obtain ⟨children, hset, hroute⟩ := exists_pinRouter_routed hwell hst
  have hsol : (pinSolution st hwell children).ReadFrom st :=
    ReadState.readFrom_toSolution (D := ((pinRouter st hwell).withChildren children).database) st
      _ _
  refine ⟨st, hst, hwell, children, pinSolution st hwell children, hlen, fun c => ⟨rfl, ?_⟩⟩
  obtain ⟨-, hsome, pin, -, -, hwalk⟩ := totalPath_of_readNets (R := pinRouter st hwell) (c := c)
    oneNode_pinSite hst ((ReadState.readFrom_toDatabase hwell _ _ _ _).boxed 3 15) (fun _ => rfl)
    (le_refl 8) hset hsol (hroute c).2
  obtain ⟨path, htotal⟩ := Option.isSome_iff_exists.1 (hsome.2 (hroute c).1)
  obtain ⟨sinkPin, -, hpins⟩ := hwalk path htotal
  exact ⟨pin, sinkPin, path, htotal, hpins⟩

end AStarRoute

end Potter
