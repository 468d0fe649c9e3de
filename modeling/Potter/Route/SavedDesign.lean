import Potter.Route.DirectConnections
import Potter.Route.SavedTrees
import Potter.Route.TotalPaths

/-!
# The routing of a design

Reader, routers and saver together. The reader gives every net its pins and connections, the routers
give every connection a path, and the saver puts the paths of a net together. If it returns, every
net of the file is routed on the device (`RoutesPins`): each source pin leads to its sink pins, along
edges of the device, no node has two drivers, and no node is in two nets.

Whether it returns depends on the routes only: a route must not end where it begins, no two nets may
share a node, and a net that uses a node twice must be fixable.
-/

namespace Potter

open Lib Relation

/-- The direct connections are those that were read, each with a route. -/
def Solution.RoutesDirect {K : Type} {D : Database K} (sol : Solution D) (device : Device D.NodeId)
    (st : ReadState D.NodeId) : Prop :=
  ∀ (i : Nat) (conn : ReadConnection D.NodeId), st.directConnections[i]? = some conn →
    (sol.directConnections i).source = conn.source ∧ (sol.directConnections i).sink = conn.sink ∧
      device.IsDirectPath conn.source conn.sink (sol.directConnections i).rnodes

namespace AStarRoute

variable {R : AStarRoute ℚ} {device : Device R.database.NodeId} {st : ReadState R.database.NodeId}
  {sol : Solution R.database} {n : R.database.NetId}

/-- The net with the given number is routed from its source pins to its sink pins. -/
structure RoutesPins (R : AStarRoute ℚ) (device : Device R.database.NodeId)
    (sol : Solution R.database) (n : R.database.NetId) (s : SaveState R.database) : Prop where
  edges : ∀ u v, NetEdge (fun r => (s.nodeRoutingResults r).netId = some n) s.branches u v →
    v ∈ device.getOutgoingNodes u ∧ (s.nodeRoutingResults v).netId = some n
  driver_unique : ∀ u u' v,
    NetEdge (fun r => (s.nodeRoutingResults r).netId = some n) s.branches u v →
    NetEdge (fun r => (s.nodeRoutingResults r).netId = some n) s.branches u' v → u = u'
  acyclic : ∀ v, ¬TransGen (NetEdge (fun r => (s.nodeRoutingResults r).netId = some n) s.branches) v v
  indirect : ∀ pin, (sol.pins n).indirectSourcePin = some pin →
    ∀ t ∈ (sol.pins n).indirectSinkPins,
      ReflTransGen (NetEdge (fun r => (s.nodeRoutingResults r).netId = some n) s.branches) pin t
  direct : ∀ pin, (sol.pins n).directSourcePin = some pin → ∀ t ∈ (sol.pins n).directSinkPins,
    ReflTransGen (NetEdge (fun r => (s.nodeRoutingResults r).netId = some n) s.branches) pin t

section Design

variable (hone : device.OneNode) (hwell : device.WellRead st)
  (hlisted : ∀ net ∈ st.nets, Device.PinsListed st net) (hdesign : R.database.ReadFrom st)
  (hsol : sol.ReadFrom st) (hdirect : sol.RoutesDirect device st)

include hwell hdesign hdirect in
/-- A direct connection of a net, as it was read. -/
theorem exists_direct {c : Nat} (hc : c ∈ (R.database.nets n).directConns) :
    ∃ net conn, st.nets[n.val]? = some net ∧ st.directConnections[c]? = some conn ∧
      Device.ConnectsDirectly net conn ∧ (sol.directConnections c).source = conn.source ∧
      (sol.directConnections c).sink = conn.sink ∧
      device.IsDirectPath conn.source conn.sink (sol.directConnections c).rnodes := by
  obtain ⟨net, hnet, -, hconns⟩ := hdesign.net n
  rw [hconns] at hc
  obtain ⟨conn, hconn, hid⟩ := (hwell.direct.mem_iff hnet).1 hc
  obtain ⟨net', hnet', hfits⟩ := hwell.direct.fits conn (List.mem_of_getElem? hconn)
  rw [hid, hnet] at hnet'
  cases hnet'
  exact ⟨net, conn, hnet, hconn, hfits, hdirect c conn hconn⟩

include hwell hlisted hdesign hsol hdirect in
/-- The pins are those of the connections. -/
theorem pinsFit_of_wellRead : R.PinsFit sol n := by
  obtain ⟨net, hnet, hconns, hdirectConns⟩ := hdesign.net n
  have hpins := hsol.pins n net hnet
  have hlist := hlisted net (List.mem_of_getElem? hnet)
  refine ⟨fun hnil => ?_, fun t => ?_, fun c hc => ?_, fun t => ?_, fun c hc => ?_⟩
  · rw [hpins]
    refine hlist.sourcePin ?_
    rw [← hconns, hnil, List.map_nil]
  · rw [hpins]
    constructor
    · intro ht
      obtain ⟨i, hi, conn, hconn, hlast⟩ := hlist.sinkPins t ht
      rw [← hconns] at hi
      obtain ⟨c, hc, rfl⟩ := List.mem_map.1 hi
      exact ⟨c, hc, (congrArg List.getLast? (hsol.paths c conn hconn).2).trans hlast⟩
    · rintro ⟨c, hc, hlast⟩
      obtain ⟨conn, hconn, hid⟩ := (hwell.indirect.mem_iff hnet).1 (hconns ▸ List.mem_map_of_mem hc)
      obtain ⟨net', hnet', hfits⟩ := hwell.indirect.fits conn (List.mem_of_getElem? hconn)
      rw [hid, hnet] at hnet'
      cases hnet'
      obtain ⟨pin, hpin, hend⟩ := hfits.sinkPin
      rw [(hsol.paths c conn hconn).2, hend] at hlast
      cases hlast
      exact hpin
  · obtain ⟨net', conn, hnet', -, hfits, hsource, -⟩ := exists_direct hwell hdesign hdirect hc
    rw [hnet] at hnet'
    cases hnet'
    rw [hpins, hsource]
    exact hfits.source
  · rw [hpins]
    constructor
    · intro ht
      obtain ⟨i, hi, conn, hconn, hsink⟩ := hlist.directSinkPins t ht
      rw [← hdirectConns] at hi
      exact ⟨i, hi, (hdirect i conn hconn).2.1.trans hsink⟩
    · rintro ⟨c, hc, rfl⟩
      obtain ⟨net', conn, hnet', -, hfits, -, hsink, -⟩ := exists_direct hwell hdesign hdirect hc
      rw [hnet] at hnet'
      cases hnet'
      rw [hsink]
      exact hfits.sink
  · obtain ⟨-, conn, -, -, -, hsource, hsink, hpath⟩ := exists_direct hwell hdesign hdirect hc
    rw [hsource, hsink]
    exact ⟨hpath.head, hpath.last⟩

variable (hedges : ∀ u v, v ∈ R.database.children u → v ∈ device.getOutgoingNodes u)
  (hpath : ∀ c, R.database.IsPath c (sol.rnodes c))

include hone hwell hdesign hsol hedges hpath in
/-- The parts of the paths meet, but for a connection that ends where it begins. -/
theorem meets_iff_of_wellRead : (∀ step ∈ R.saveSteps n, R.Meets sol n step) ↔
    ∀ c ∈ (R.database.nets n).indirectConns, R.database.source c ≠ R.database.sink c := by
  unfold saveSteps
  rw [List.forall_mem_append, List.forall_mem_map, List.forall_mem_map]
  refine (and_iff_left fun _ _ => trivial).trans (forall₂_congr fun c hc => ?_)
  obtain rfl := R.database.mem_indirectConns.1 hc
  obtain ⟨-, htotal, pin, hpin, -, hwalk⟩ :=
    totalPath_of_wellRead hone hwell hdesign hsol hedges (hpath c)
  refine (and_iff_left_of_imp fun hsome => ?_).trans htotal
  obtain ⟨path, hp⟩ := Option.isSome_iff_exists.1 hsome
  obtain ⟨sinkPin, -, hw⟩ := hwalk path hp
  rw [← (totalPath_ends hp).2.2.1, hw.head]
  exact hpin.symm

include hone hwell hdesign hsol hdirect hedges hpath in
theorem isChain_savedPath {step : SaveStep R.database.ConnId} (hstep : step ∈ R.saveSteps n) :
    (R.savedPath sol step).IsChain fun u v => v ∈ device.getOutgoingNodes u := by
  cases step with
  | indirect c =>
    rw [savedPath]
    cases hp : R.totalPath sol c with
    | none => exact List.isChain_nil
    | some path =>
      obtain ⟨-, -, pin, -, -, hwalk⟩ :=
        totalPath_of_wellRead hone hwell hdesign hsol hedges (hpath c)
      obtain ⟨sinkPin, -, hw⟩ := hwalk path hp
      exact hw.chain
  | direct c =>
    obtain ⟨-, conn, -, -, -, -, -, hroute⟩ :=
      exists_direct (n := n) hwell hdesign hdirect (mem_directConns_of_mem_saveSteps hstep)
    rw [savedPath, List.isChain_reverse]
    exact hroute.chain

end Design

/-- A saved net whose paths follow the device is routed on the device. -/
theorem SavedNet.routesPins {s : SaveState R.database} (h : R.SavedNet sol n s)
    (hfits : R.PinsFit sol n) (hmeets : ∀ step ∈ R.saveSteps n, R.Meets sol n step)
    (hchain : ∀ step ∈ R.saveSteps n,
      (R.savedPath sol step).IsChain fun u v => v ∈ device.getOutgoingNodes u) :
    R.RoutesPins device sol n s := by
  have hnodes : (fun r => (s.nodeRoutingResults r).netId = some n) = (· ∈ R.netNodes sol n) :=
    funext fun v => propext (h.carries v)
  have hrouting := h.routing
  constructor <;> rw [hnodes]
  · intro u v huv
    have hedge := hrouting.edges u v huv
    refine ⟨?_, (h.carries v).2 (mem_sortedSet.2 hedge.mem.2)⟩
    obtain ⟨p, hp, hsub⟩ := hedge
    obtain ⟨step, hstep, rfl⟩ := List.mem_map.1 hp
    have hpair := List.IsChain.infix (hchain step hstep) hsub
    exact List.isChain_pair.1 hpair
  · exact hrouting.driver_unique
  · exact hrouting.acyclic
  · intro pin hpin t ht
    obtain ⟨c, hc, hlast⟩ := (hfits.sinkPins t).1 ht
    have hstep : SaveStep.indirect c ∈ R.saveSteps n :=
      List.mem_append_left _ (List.mem_map_of_mem hc)
    obtain ⟨-, hend, hhead⟩ := savedPath_ends hfits hmeets hstep
    exact hrouting.connects _ (List.mem_map_of_mem hstep) pin t (hhead.trans hpin)
      (hend.trans hlast)
  · intro pin hpin t ht
    obtain ⟨c, hc, hsink⟩ := (hfits.directSinkPins t).1 ht
    have hstep : SaveStep.direct c ∈ R.saveSteps n :=
      List.mem_append_right _ (List.mem_map_of_mem hc)
    obtain ⟨-, hend, hhead⟩ := savedPath_ends hfits hmeets hstep
    exact hrouting.connects _ (List.mem_map_of_mem hstep) pin t (hhead.trans hpin)
      (hend.trans (congrArg some hsink))

/-- **From the file to the routing.** For an accepted netlist with a route for every connection, and
for every order of the nets: the routing is saved if and only if no connection ends where it begins,
no two nets share a node and the nets that use a node twice can be fixed; and then every net is routed
on the device. -/
theorem saved_of_readNets {R : AStarRoute ℚ} {device : Device R.database.NodeId} {fuel : Nat}
    {strList : List String} {nodeType : R.database.NodeId → NodeType} {nets : List RawNet}
    {st : ReadState R.database.NodeId} {preservedNodes : R.database.NodeId → Bool} {rounds : Nat}
    {children : R.database.NodeId → Children R.database.NodeId}
    {sol : Solution (R.withChildren children).database} {order : List R.database.NetId}
    {s : SaveState (R.withChildren children).database}
    (hone : device.OneNode) (hread : device.readNets fuel strList nodeType nets = some st)
    (hdesign : R.database.ReadFrom st) (hempty : ∀ v, R.database.children v = [])
    (hrounds : R.database.numNodes ≤ rounds)
    (hset : R.database.setRouteNodeChildren device preservedNodes rounds =
      some (R.database.withChildren children))
    (hcost : ∀ r, 0 ≤ R.baseCost r) (hsol : sol.ReadFrom st)
    (hpath : ∀ c, (R.withChildren children).database.IsPath c (sol.rnodes c))
    (hdirect : sol.RoutesDirect device st) (horder : order.Nodup)
    (hunsaved : ∀ v, s.nodeRoutingResults v = .init) :
    ((∃ s', (R.withChildren children).saveAllRoutingSolutions sol order s = some s') ↔
      (∀ n ∈ order, ∀ c ∈ (R.database.nets n).indirectConns,
        R.database.source c ≠ R.database.sink c) ∧
      order.Pairwise (fun m n => List.Disjoint ((R.withChildren children).netNodes sol m)
        ((R.withChildren children).netNodes sol n)) ∧
      ∀ n ∈ order, ¬((R.withChildren children).netPaths sol n).flatten.Nodup →
        (R.withChildren children).Fixable sol n) ∧
    ∀ s', (R.withChildren children).saveAllRoutingSolutions sol order s = some s' →
      ∀ n ∈ order, (R.withChildren children).RoutesPins device sol n s' := by
  have hwell := Device.wellRead_of_readNets hread
  have hlisted := Device.pinsListed_of_readNets hread
  have hdesign' : (R.withChildren children).database.ReadFrom st := ⟨hdesign.conn, hdesign.net⟩
  have hcost' : ∀ r, 0 ≤ (R.withChildren children).baseCost r := hcost
  have hedges : ∀ u v, v ∈ (R.withChildren children).database.children u →
      v ∈ device.getOutgoingNodes u := fun _ _ hv =>
    Database.mem_getOutgoingNodes_of_mem_children hone hrounds hempty hset hv
  have hfits : ∀ n, (R.withChildren children).PinsFit sol n := fun _ =>
    pinsFit_of_wellRead hwell hlisted hdesign' hsol hdirect
  have hmeets := fun n => meets_iff_of_wellRead (R := R.withChildren children) (n := n) hone hwell
    hdesign' hsol hedges hpath
  have hinit : (R.withChildren children).SavedAll sol [] s := savedAll_nil hunsaved
  have hiff := hinit.isSome_iff hcost' (fun n _ => hfits n) horder
  refine ⟨hiff.trans ?_, fun s' hs' n hn => ?_⟩
  · constructor
    · rintro ⟨hsavable, hpair, -⟩
      exact ⟨fun n hn => (hmeets n).1 (hsavable n hn).meets, hpair,
        fun n hn => (hsavable n hn).fixable⟩
    · rintro ⟨hne, hpair, hfix⟩
      exact ⟨fun n hn => ⟨(hmeets n).2 (hne n hn), hfix n hn⟩, hpair,
        fun _ hm => absurd hm List.not_mem_nil⟩
  · have hsaved := (hinit.run hcost' (fun n _ => hfits n) horder hs').savedNet hn
    exact hsaved.routesPins (hfits n) ((hiff.1 ⟨s', hs'⟩).1 n hn).meets fun step hstep =>
      isChain_savedPath (R := R.withChildren children) hone hwell hdesign' hsol hdirect hedges hpath
        hstep

/-- The path of a connection that is routed by one edge. -/
theorem savedPath_of_edge {R : AStarRoute ℚ} {sol : Solution R.database} {c : R.database.ConnId}
    {u v : R.database.NodeId} (hroute : sol.rnodes c = [v, u])
    (hlast : (sol.sourceToIntPath c).getLast? = some u)
    (hhead : (sol.intToSinkPath c).head? = some v) :
    R.savedPath sol (.indirect c) = sol.sourceToIntPath c ++ sol.intToSinkPath c := by
  obtain ⟨rest, hrest⟩ := List.head?_eq_some_iff.1 hhead
  unfold savedPath totalPath
  simp [hroute, hlast, hrest]

/-! The two sites: the path of a connection passes the four nodes of its site. -/

/-- The nodes of a site. -/
def pinPath (site : Nat) : List (Fin 8) := [0, 1, 2, 3].map fun i => idx (4 * site + i)

section PinSite

variable {st : ReadState (Fin 8)} (hwell : Device.pinSite.WellRead st)
  (hst : Device.pinSite.readNets 8 Device.pinSiteStrList (fun _ => .wire) Device.pinSiteNets = some st)
  (children : (pinRouter st hwell).database.NodeId → Children (pinRouter st hwell).database.NodeId)
include hst

theorem savedPath_pinSite (c : (pinRouter st hwell).database.ConnId) :
    ((pinRouter st hwell).withChildren children).savedPath (pinSolution st hwell children)
      (.indirect c) = pinPath c := by
  have hconns : ∀ (i : Nat) (p), Device.pinSiteConns[i]? = some p →
      p.2.2.1.getLast? = some p.2.1.1 ∧ p.2.2.2.head? = some p.2.1.2 ∧
        p.2.2.1 ++ p.2.2.2 = pinPath i := by
    rintro (_ | _ | i) p h <;> cases h <;> decide
  obtain ⟨hlast, hhead, hpath⟩ := hconns c _ (getElem?_pinSiteConns hwell hst c)
  have hsol := ReadState.readFrom_toSolution
    (D := ((pinRouter st hwell).withChildren children).database) st
    (pinSolution st hwell children).rnodes (pinSolution st hwell children).directConnections
  obtain ⟨hsource, hsink⟩ := hsol.paths c _ (List.getElem?_eq_getElem c.isLt)
  have hsaved : ((pinRouter st hwell).withChildren children).savedPath (pinSolution st hwell children)
      (.indirect c) = (pinSolution st hwell children).sourceToIntPath c ++
        (pinSolution st hwell children).intToSinkPath c :=
    savedPath_of_edge rfl ((congrArg List.getLast? hsource).trans hlast)
      ((congrArg List.head? hsink).trans hhead)
  exact hsaved.trans ((congrArg₂ (· ++ ·) hsource hsink).trans hpath)

/-- The one path of a net. -/
theorem netPaths_pinSite (n : (pinRouter st hwell).database.NetId) :
    ((pinRouter st hwell).withChildren children).netPaths (pinSolution st hwell children) n =
      [pinPath n] := by
  obtain ⟨st', hst', hnets, -⟩ := Device.exists_readNets_pinSite
  cases hst.symm.trans hst'
  obtain ⟨net, hnet, hconns, hdirect⟩ :=
    ((ReadState.readFrom_toDatabase hwell _ _ _ _).boxed 3 15).net n
  have hlists : net.indirectConns = [n.val] ∧ net.directConns = [] := by
    have hentry : ∀ (i : Nat) (p), [(([0], []) : List Nat × List Nat), ([1], [])][i]? = some p →
        p = ([i], []) := by
      rintro (_ | _ | i) p h <;> cases h <;> rfl
    refine Prod.mk.inj (hentry n _ ?_)
    rw [← hnets, List.getElem?_map]
    exact congrArg (Option.map _) hnet
  obtain ⟨c, hone, hc⟩ := List.map_eq_singleton_iff.1 (hconns.trans hlists.1)
  have hindirect : (((pinRouter st hwell).withChildren children).database.nets n).indirectConns =
      [c] := hone
  have hnone : (((pinRouter st hwell).withChildren children).database.nets n).directConns = [] :=
    hdirect.trans hlists.2
  unfold netPaths saveSteps
  rw [hindirect, hnone]
  refine congrArg (fun p => [p]) ((savedPath_pinSite hwell hst children c).trans ?_)
  exact congrArg pinPath hc

end PinSite

/-- Both nets are saved, the second one first. -/
theorem saved_of_readNets_pinSite :
    ∃ st, Device.pinSite.readNets 8 Device.pinSiteStrList (fun _ => .wire) Device.pinSiteNets =
        some st ∧
      ∃ (h : Device.pinSite.WellRead st)
        (children : (pinRouter st h).database.NodeId → Children (pinRouter st h).database.NodeId)
        (m n : (pinRouter st h).database.NetId)
        (s' : SaveState ((pinRouter st h).withChildren children).database),
        m.val = 0 ∧ n.val = 1 ∧
        ((pinRouter st h).withChildren children).saveAllRoutingSolutions (pinSolution st h children)
          [n, m] ⟨fun _ => .wire, fun _ => .init⟩ = some s' ∧
        ∀ k ∈ [n, m], ((pinRouter st h).withChildren children).RoutesPins Device.pinSite
          (pinSolution st h children) k s' := by
  obtain ⟨st, hst, hnets, -, hdirect⟩ := Device.exists_readNets_pinSite
  have hwell := Device.wellRead_of_readNets hst
  have hlen : st.nets.length = 2 := by
    rw [← List.length_map, hnets]
    rfl
  obtain ⟨children, hset, hroute⟩ := exists_pinRouter_routed hwell hst
  let m : (pinRouter st hwell).database.NetId := ⟨0, Nat.zero_lt_two.trans_eq hlen.symm⟩
  let n : (pinRouter st hwell).database.NetId := ⟨1, Nat.one_lt_two.trans_eq hlen.symm⟩
  have hsol : (pinSolution st hwell children).ReadFrom st :=
    ReadState.readFrom_toSolution (D := ((pinRouter st hwell).withChildren children).database) st
      _ _
  have horder : [n, m].Nodup := by
    refine List.nodup_cons.2 ⟨fun h => ?_, List.nodup_singleton m⟩
    cases congrArg Fin.val (List.mem_singleton.1 h)
  obtain ⟨hiff, hroutes⟩ := saved_of_readNets (R := pinRouter st hwell)
    (s := ⟨fun _ => .wire, fun _ => .init⟩) oneNode_pinSite hst
    ((ReadState.readFrom_toDatabase hwell _ _ _ _).boxed 3 15) (fun _ => rfl) (le_refl 8) hset
    (fun _ => zero_le_one) hsol (fun c => (hroute c).2)
    (fun i conn hconn => by rw [hdirect] at hconn; cases hconn) horder fun _ => rfl
  have hpaths := netPaths_pinSite hwell hst children
  have hdisjoint : List.Disjoint
      (((pinRouter st hwell).withChildren children).netNodes (pinSolution st hwell children) n)
      (((pinRouter st hwell).withChildren children).netNodes (pinSolution st hwell children) m) := by
    intro v hn hm
    replace hn := mem_sortedSet.1 hn
    replace hm := mem_sortedSet.1 hm
    rw [hpaths] at hn hm
    exact (by decide : ∀ v : Fin 8, v ∈ [pinPath 1].flatten → v ∉ [pinPath 0].flatten) v hn hm
  have hnodup : ∀ k ∈ [n, m], (((pinRouter st hwell).withChildren children).netPaths
      (pinSolution st hwell children) k).flatten.Nodup := by
    intro k hk
    rw [hpaths]
    rcases List.mem_pair.1 hk with rfl | rfl
    · exact (by decide : [pinPath 1].flatten.Nodup)
    · exact (by decide : [pinPath 0].flatten.Nodup)
  obtain ⟨s', hs'⟩ := hiff.2 ⟨fun _ _ c _ => (hroute c).1, List.pairwise_pair.2 hdisjoint,
    fun k hk hnot => absurd (hnodup k hk) hnot⟩
  exact ⟨st, hst, hwell, children, m, n, s', rfl, rfl, hs', hroutes s' hs'⟩

end AStarRoute

end Potter
