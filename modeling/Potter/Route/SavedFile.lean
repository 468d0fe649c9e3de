import Potter.Db.ReadBack
import Potter.Lib.Counting
import Potter.Route.SavedTrees

/-!
# The saved routing is written

Saver and writer together. The nodes that the source pin of a saved net leads to are a tree along the
paths of the net, and every leaf of it is a sink pin; so the net can be written (`writable_of_saved`).
It does not matter in which order the nets were saved, nor that nodes which were dropped from the tree
still carry the net.

What the saver cannot promise is that the sink pins still have the type that the writer looks for: the
last node of the graph may have lost it. The file is written if and only if all have it, and then
every net reads back as a tree along its paths, with all its sink pins.
-/

namespace Potter

open Lib Relation

namespace AStarRoute

/-! ## The file and the routing -/

section Statements

variable {K : Type} [Arith K] (R : AStarRoute K) (sol : Solution R.database) (n : R.database.NetId)

/-- What the writer gets. -/
def toNetlist (device : Device R.database.NodeId) (strList : List String)
    (s : SaveState R.database) : Netlist R.database.NodeId R.database.NetId R.database.ConnId where
  device := device
  nodeType := s.nodeType
  nets := R.database.nets
  strList := strList
  nodeRoutingResults := s.nodeRoutingResults

/-- The nets of the file in the order they are written. -/
def fileNets (file : R.database.NetId → PhysNet) : List (R.database.NetId × PhysNet) :=
  (List.finRange R.database.numNets).map fun n => (n, file n)

/-- What the file promises about a net. Its stubs are at different site pins, the sink pins of its
connections. All connections start at one pin, whose branch is still bare, and no other site pin
among the sources is on a node of the net; nor is any site pin but those at the ends of its paths. -/
structure FileFits (W : Netlist R.database.NodeId R.database.NetId R.database.ConnId)
    (physNet : PhysNet) (source : Nat × List Nat) (root : R.database.NodeId) : Prop where
  connected : R.saveSteps n ≠ []
  stubs_size : (physNet.stubs.length : Int) =
    (R.database.nets n).getConnectionSize + (R.database.nets n).getDirectConnectionSize
  stub_pin : ∀ b ∈ physNet.stubs, (W.pinNode b).isSome
  stub_inj : (physNet.stubs.map W.pinNode).Nodup
  sinkPin_iff : ∀ v, (∃ b ∈ physNet.stubs, W.pinNode b = some v) ↔
    ∃ step ∈ R.saveSteps n, step.sinkPin sol = some v
  sourcePin : ∀ step ∈ R.saveSteps n, step.sourcePin sol = some root
  source_branch : ∃ rb, Netlist.branchAt? physNet.sources source = some rb ∧
    W.pinNode rb = some root ∧ rb.children = []
  source_pin : ∀ {x : Nat × List Nat} {rb sp}, Netlist.branchAt? physNet.sources x = some rb →
    rb.label = .sitePin sp → ∃ v, W.sitePinNode sp = some v ∧ (v ∈ R.netNodes sol n → x = source)
  pins : ∀ {sp v}, W.sitePinNode sp = some v → v ∈ R.netNodes sol n →
    v = root ∨ ∃ step ∈ R.saveSteps n, step.sinkPin sol = some v

/-- Every sink pin has the type that the writer looks for. -/
def SinksMarked (s : SaveState R.database) : Prop :=
  ∀ n, ∀ step ∈ R.saveSteps n, ∀ v, step.sinkPin sol = some v → s.nodeType v = .pinfeedI

/-- A tree along the paths of a net, from the source pin to all its sink pins. -/
structure RoutedTree (root : R.database.NodeId) (t : RoseTree R.database.NodeId) : Prop where
  label : t.label = root
  nodup : t.labels.Nodup
  edges : t.Linked (PathEdge (R.netPaths sol n))
  sinkPin : ∀ step ∈ R.saveSteps n, ∀ v, step.sinkPin sol = some v → v ∈ t.labels

end Statements

variable {R : AStarRoute ℚ} {sol : Solution R.database} {n : R.database.NetId}
  {s s' : SaveState R.database} {order : List R.database.NetId}
  {device : Device R.database.NodeId} {strList : List String}

/-! ## The types -/

/-- Only sink pins are marked in the end, if the reader marked only nodes where searches end. -/
theorem exists_sinkPin_of_pinfeedI (hall : ∀ n, n ∈ order)
    (hmarked : ∀ v, s.nodeType v = .pinfeedI → ∃ c, (sol.intToSinkPath c).head? = some v)
    (h : R.saveAllRoutingSolutions sol order s = some s') {v : R.database.NodeId}
    (hv : s'.nodeType v = .pinfeedI) : ∃ step ∈ R.allSaveSteps order, step.sinkPin sol = some v := by
  rw [R.saveAll_nodeType h, foldl_marked (P := fun types => types v = NodeType.pinfeedI)
    fun types a => retype_eq_pinfeedI sol types a v] at hv
  rcases hv with ⟨pre, step, post, e, hstep, -⟩ | ⟨hinit, hnone⟩
  · exact ⟨step, e ▸ List.mem_append_right pre List.mem_cons_self, hstep⟩
  · obtain ⟨c, hc⟩ := hmarked v hinit
    exact absurd (.inr (.inl hc)) (hnone _ (mem_allSaveSteps hall c))

/-! ## One net -/

section OneNet

variable (hfits : R.PinsFit sol n) (hmeets : ∀ step ∈ R.saveSteps n, R.Meets sol n step)
include hfits hmeets

/-- The path of a connection leads from its source pin to its sink pin. -/
theorem savedPath_pins {step : SaveStep R.database.ConnId} (hstep : step ∈ R.saveSteps n) :
    (R.savedPath sol step).head? = step.sourcePin sol ∧
      (R.savedPath sol step).getLast? = step.sinkPin sol := by
  obtain ⟨-, hlast, hhead⟩ := savedPath_ends hfits hmeets hstep
  refine ⟨hhead.trans ?_, hlast⟩
  cases step with
  | indirect c => exact (hmeets _ hstep).2.symm
  | direct c => exact hfits.directSourcePin c (mem_directConns_of_mem_saveSteps hstep)

theorem mem_netNodes_of_sinkPin {step : SaveStep R.database.ConnId} (hstep : step ∈ R.saveSteps n)
    {v : R.database.NodeId} (hv : step.sinkPin sol = some v) : v ∈ R.netNodes sol n := by
  have hlast := (savedPath_pins hfits hmeets hstep).2.trans hv
  exact mem_netNodes.2 ⟨_, List.mem_map_of_mem hstep, List.mem_of_getLast? hlast⟩

variable {physNet : PhysNet} {source : Nat × List Nat} {root : R.database.NodeId}
  (hfile : R.FileFits sol n (R.toNetlist device strList s) physNet source root)
include hfile

theorem exists_savedPath : ∃ step ∈ R.saveSteps n, ∃ t,
    (R.savedPath sol step).head? = some root ∧ step.sinkPin sol = some t := by
  obtain ⟨step, hstep⟩ := List.exists_mem_of_ne_nil _ hfile.connected
  obtain ⟨hne, -⟩ := savedPath_ends hfits hmeets hstep
  obtain ⟨hhead, hlast⟩ := savedPath_pins hfits hmeets hstep
  obtain ⟨t, ht⟩ := Option.ne_none_iff_exists'.1 (mt List.getLast?_eq_none_iff.1 hne)
  exact ⟨step, hstep, t, hhead.trans (hfile.sourcePin step hstep), hlast.symm.trans ht⟩

variable (hsaved : R.SavedNet sol n s')
include hsaved

omit hfits hmeets hfile in
theorem reached_iff {v : R.database.NodeId} : (R.toNetlist device strList s').Reached n root v ↔
    ReflTransGen (NetEdge (· ∈ R.netNodes sol n) s'.branches) root v := by
  have hedge : (fun u v => (R.toNetlist device strList s').Carries n u ∧
      v ∈ (R.toNetlist device strList s').branches u) =
      NetEdge (· ∈ R.netNodes sol n) s'.branches :=
    funext fun u => funext fun v => propext (and_congr_left' (hsaved.carries u))
  unfold Netlist.Reached
  rw [hedge]

theorem reached_of_sinkPin {step : SaveStep R.database.ConnId} (hstep : step ∈ R.saveSteps n)
    {v : R.database.NodeId} (hv : step.sinkPin sol = some v) :
    (R.toNetlist device strList s').Reached n root v := by
  obtain ⟨hhead, hlast⟩ := savedPath_pins hfits hmeets hstep
  rw [reached_iff hsaved]
  exact hsaved.routing.connects _ (List.mem_map_of_mem hstep) root v
    (hhead.trans (hfile.sourcePin step hstep)) (hlast.trans hv)

/-- The nodes that the source pin leads to are nodes of the net. -/
theorem mem_netNodes_of_reached {v : R.database.NodeId}
    (hv : (R.toNetlist device strList s').Reached n root v) : v ∈ R.netNodes sol n := by
  rw [reached_iff hsaved] at hv
  rcases hv.cases_tail with rfl | ⟨u, -, huv⟩
  · obtain ⟨step, hstep, -, hhead, -⟩ := exists_savedPath hfits hmeets hfile
    exact mem_netNodes.2 ⟨_, List.mem_map_of_mem hstep, List.mem_of_mem_head? hhead⟩
  · exact mem_sortedSet.2 (hsaved.routing.edges u v huv).mem.2

/-- Every node that the source pin leads to leads to a sink pin. -/
theorem exists_sinkPin_of_reached {v : R.database.NodeId}
    (hv : (R.toNetlist device strList s').Reached n root v) :
    ∃ step ∈ R.saveSteps n, ∃ t, step.sinkPin sol = some t ∧
      ReflTransGen (NetEdge (· ∈ R.netNodes sol n) s'.branches) v t := by
  have hreach := (reached_iff hsaved).1 hv
  rcases hreach.cases_tail with rfl | ⟨u, -, huv⟩
  · obtain ⟨step, hstep, t, -, ht⟩ := exists_savedPath hfits hmeets hfile
    exact ⟨step, hstep, t, ht,
      (reached_iff hsaved).1 (reached_of_sinkPin hfits hmeets hfile hsaved hstep ht)⟩
  · obtain ⟨p, hp, t, ht, hvt⟩ := hsaved.routing.leads u v huv
    obtain ⟨step, hstep, rfl⟩ := List.mem_map.1 hp
    exact ⟨step, hstep, t, (savedPath_pins hfits hmeets hstep).2.symm.trans ht, hvt⟩

/-- **A saved net can be written**, if its sink pins and no other nodes of it are marked. -/
theorem writable_of_saved
    (htype : ∀ v ∈ R.netNodes sol n,
      (s'.nodeType v = .pinfeedI ↔ ∃ step ∈ R.saveSteps n, step.sinkPin sol = some v))
    (hedges : ∀ u v, PathEdge (R.netPaths sol n) u v →
      (R.toNetlist device strList s).DenotesEdge u v) :
    (R.toNetlist device strList s').Writable n physNet source root := by
  have hmem {v : R.database.NodeId} (hv : (R.toNetlist device strList s').Reached n root v) :
      v ∈ R.netNodes sol n := mem_netNodes_of_reached hfits hmeets hfile hsaved hv
  have hedge {u v : R.database.NodeId} (hu : (R.toNetlist device strList s').Reached n root u)
      (hv : v ∈ (R.toNetlist device strList s').branches u) :
      NetEdge (· ∈ R.netNodes sol n) s'.branches u v := ⟨hmem hu, hv⟩
  have hrouting := hsaved.routing
  apply Netlist.writable_of_reached
  case hsize => exact hfile.stubs_size
  case hstub =>
    intro b hb
    obtain ⟨v, hv⟩ := Option.isSome_iff_exists.1 (hfile.stub_pin b hb)
    obtain ⟨step, hstep, hsink⟩ := (hfile.sinkPin_iff v).1 ⟨b, hb, hv⟩
    exact ⟨v, hv, reached_of_sinkPin hfits hmeets hfile hsaved hstep hsink⟩
  case hinj => exact hfile.stub_inj
  case hcarries => exact fun hv => (hsaved.carries _).2 (hmem hv)
  case hroot =>
    intro u hu hv
    obtain ⟨step, hstep, -, hhead, -⟩ := exists_savedPath hfits hmeets hfile
    exact hrouting.source_undriven _ (List.mem_map_of_mem hstep) root hhead u (hedge hu hv)
  case hparent =>
    intro u u' v hu hu' hv hv'
    exact hrouting.driver_unique u u' v (hedge hu hv) (hedge hu' hv')
  case hpip =>
    intro u v hu hv
    obtain ⟨pip, hpip, -⟩ := hedges u v (hrouting.edges u v (hedge hu hv))
    exact Device.getTileTypePIP_isSome_iff.1 (Option.isSome_iff_exists.2 ⟨pip, hpip⟩)
  case htype => exact fun hv => (htype _ (hmem hv)).trans (hfile.sinkPin_iff _).symm
  case hleaf =>
    intro v hv hnil
    obtain ⟨step, hstep, t, ht, hvt⟩ := exists_sinkPin_of_reached hfits hmeets hfile hsaved hv
    rcases hvt.cases_head with rfl | ⟨w, hvw, -⟩
    · exact (hfile.sinkPin_iff v).2 ⟨step, hstep, ht⟩
    · have hw : w ∈ (R.toNetlist device strList s').branches v := hvw.2
      rw [hnil] at hw
      cases hw
  case hbranch => exact hfile.source_branch
  case hsource =>
    intro x rb sp hrb hsp
    obtain ⟨v, hv, honly⟩ := hfile.source_pin hrb hsp
    exact ⟨v, hv, fun hcarries => honly ((hsaved.carries v).1 hcarries)⟩
  case hpins =>
    intro sp v hv hcarries
    rcases hfile.pins hv ((hsaved.carries v).1 hcarries) with rfl | ⟨step, hstep, hsink⟩
    · exact .refl
    · exact reached_of_sinkPin hfits hmeets hfile hsaved hstep hsink

end OneNet

/-! ## All nets -/

section AllNets

variable (hcost : ∀ r, 0 ≤ R.baseCost r) (hfits : ∀ n, R.PinsFit sol n) (horder : order.Nodup)
  (hall : ∀ n, n ∈ order) (hunsaved : ∀ v, s.nodeRoutingResults v = .init)
  (hmarked : ∀ v, s.nodeType v = .pinfeedI → ∃ c, (sol.intToSinkPath c).head? = some v)
  (h : R.saveAllRoutingSolutions sol order s = some s')
include hcost hfits horder hall hunsaved h

theorem saved_of_saveAll (n : R.database.NetId) :
    R.SavedNet sol n s' ∧ ∀ step ∈ R.saveSteps n, R.Meets sol n step := by
  have hempty : R.SavedAll sol [] s := savedAll_nil hunsaved
  have hsavable := ((hempty.isSome_iff hcost (fun n _ => hfits n) horder).1 ⟨s', h⟩).1 n (hall n)
  exact ⟨(hempty.run hcost (fun n _ => hfits n) horder h).savedNet (hall n), hsavable.meets⟩

include hmarked in
/-- A node of a net is marked if and only if it is one of its sink pins, if these are marked. -/
theorem pinfeedI_iff_of_marks (hmarks : R.SinksMarked sol s') {v : R.database.NodeId}
    (hv : v ∈ R.netNodes sol n) : s'.nodeType v = .pinfeedI ↔
      ∃ step ∈ R.saveSteps n, step.sinkPin sol = some v := by
  constructor
  · intro htype
    obtain ⟨step, hstep, hsink⟩ := exists_sinkPin_of_pinfeedI hall hmarked h htype
    obtain ⟨m, -, hstep⟩ := List.mem_flatMap.1 hstep
    have hsaved := saved_of_saveAll hcost hfits horder hall hunsaved h
    -- the node is in one net only
    have hm := ((hsaved m).1.carries v).2 (mem_netNodes_of_sinkPin (hfits m) (hsaved m).2 hstep hsink)
    rw [((hsaved n).1.carries v).2 hv] at hm
    cases hm
    exact ⟨step, hstep, hsink⟩
  · rintro ⟨step, hstep, hsink⟩
    exact hmarks n step hstep v hsink

variable {file : R.database.NetId → PhysNet} {source : R.database.NetId → Nat × List Nat}
  {root : R.database.NetId → R.database.NodeId} {fuel : Nat}
  (hfile : ∀ n, R.FileFits sol n (R.toNetlist device strList s) (file n) (source n) (root n))
  (hedges : ∀ n u v, PathEdge (R.netPaths sol n) u v →
    (R.toNetlist device strList s).DenotesEdge u v)
include hfile

omit hcost hfits horder hall hunsaved h in
/-- The writer returns only if all sink pins are marked. -/
theorem marks_of_write {out : List PhysNet × List String}
    (hwrite : (R.toNetlist device strList s').write fuel (R.fileNets file) = some out) :
    R.SinksMarked sol s' := by
  intro n step hstep v hsink
  obtain ⟨r, hr, -⟩ := Option.bind_eq_some_iff.1 hwrite
  obtain ⟨b, hb, hv⟩ := ((hfile n).sinkPin_iff v).2 ⟨step, hstep, hsink⟩
  exact Netlist.pinfeedI_of_writeNets hr (List.mem_map_of_mem (List.mem_finRange n)) hb hv

include hmarked hedges

/-- **The routing that was saved reaches the file.** For every order in which the nets were saved: the
file is written if and only if every sink pin still is marked as one, and then each net reads back as
a tree along its paths, with all its sink pins. -/
theorem write_saved (hnamed : device.Named) (hnodes : R.database.numNodes ≤ fuel)
    (hsources : ∀ n, ((file n).sources.map fun t => t.labels.length).sum ≤ fuel) :
    ((∃ out, (R.toNetlist device strList s').write fuel (R.fileNets file) = some out) ↔
      R.SinksMarked sol s') ∧
    ∀ out, (R.toNetlist device strList s').write fuel (R.fileNets file) = some out →
      strList <+: out.2 ∧ ∀ n, ∃ t branches, R.RoutedTree sol n (root n) t ∧
        out.1[n.val]? = some { file n with
          sources := (file n).sources.modify (source n).1 (RoseTree.modify (source n).2
            (RoseTree.setChildren branches))
          stubs := [] } ∧
        device.readNode out.2 (root n) branches =
          some (t.map fun v => (v, (R.toNetlist device strList s').stubPins (file n).stubs v)) := by
  have hsaved := saved_of_saveAll hcost hfits horder hall hunsaved h
  have hwritable : R.SinksMarked sol s' → ∀ n, (R.toNetlist device strList s').Writable n (file n)
      (source n) (root n) := fun hmarks n =>
    writable_of_saved (hfits n) (hsaved n).2 (hfile n) (hsaved n).1
      (fun v hv => pinfeedI_iff_of_marks hcost hfits horder hall hunsaved hmarked h hmarks hv)
      (hedges n)
  have hfuel : Fintype.card R.database.NodeId ≤ fuel := (Fintype.card_fin _).trans_le hnodes
  have hsizes : ∀ net ∈ R.fileNets file, (net.2.sources.map fun t => t.labels.length).sum ≤ fuel :=
    List.forall_mem_map.2 fun n _ => hsources n
  have hexists := fun hmarks => Netlist.exists_write hfuel hsizes
    (List.forall_mem_map.2 fun n _ => hwritable hmarks n)
  refine ⟨⟨fun ⟨out, hout⟩ => marks_of_write hfile hout, fun hmarks => ?_⟩, fun out hout => ?_⟩
  · obtain ⟨out, hout, -⟩ := hexists hmarks
    exact ⟨out, hout⟩
  · have hmarks := marks_of_write hfile hout
    obtain ⟨out', hout', hstr, hnets⟩ := hexists hmarks
    cases hout.symm.trans hout'
    refine ⟨hstr, fun n => ?_⟩
    rw [fileNets, List.forall₂_map_left_iff] at hnets
    obtain ⟨physNet, hget, t, branches, ht, rfl, hread⟩ := exists_getElem?_of_forall₂ hnets n
    have hcarried := fun u v (hu : (R.toNetlist device strList s').Carries n u)
        (hv : v ∈ (R.toNetlist device strList s').branches u) =>
      (hsaved n).1.routing.edges u v ⟨((hsaved n).1.carries u).1 hu, hv⟩
    have hlinked := (hwritable hmarks n).linked ht hcarried
    refine ⟨t, branches, ⟨ht.label, ht.nodup, hlinked, fun step hstep v hsink => ?_⟩, hget, ?_⟩
    · rw [ht.mem_labels]
      exact reached_of_sinkPin (hfits n) (hsaved n).2 (hfile n) (hsaved n).1 hstep hsink
    · exact hread hnamed fun p part hp c hc => hedges n _ _ (hlinked p part hp c hc)

end AllNets

/-! The two forks, one in each tile, on the site pins `O`, `A` and `B`. -/

theorem fileFits_forks (n : Fin 2) : forks.FileFits forksSolution n
    (forks.toNetlist Netlist.forksDevice Netlist.forksStrList forksUnsaved) (Netlist.forksNet n)
    (0, [0]) (Netlist.forksRoot n) where
  connected := by
    revert n
    decide
  stubs_size := by
    revert n
    decide
  stub_pin := by
    revert n
    decide +kernel
  stub_inj := by
    revert n
    decide +kernel
  sinkPin_iff := by
    revert n
    decide +kernel
  sourcePin := by
    revert n
    decide +kernel
  source_branch := by
    refine ⟨_, rfl, ?_, rfl⟩
    revert n
    decide +kernel
  source_pin := by
    intro x rb sp hrb hsp
    obtain ⟨rfl, rfl⟩ := Netlist.label_branchAt?_forksNet hrb hsp
    have hroot : ∀ n : Fin 2, (forks.toNetlist Netlist.forksDevice Netlist.forksStrList
        forksUnsaved).sitePinNode ⟨n, 2⟩ = some (Netlist.forksRoot n) := by
      decide +kernel
    exact ⟨Netlist.forksRoot n, hroot n, fun _ => rfl⟩
  pins := by
    intro _ v _ hv
    have hends : ∀ (n : Fin 2), ∀ v ∈ forks.netNodes forksSolution n, v = Netlist.forksRoot n ∨
        ∃ step ∈ forks.saveSteps n, step.sinkPin forksSolution = some v := by
      decide +kernel
    exact hends n v hv

theorem denotesEdge_forks (n : Fin 2) (u v : Fin 7)
    (h : PathEdge (forks.netPaths forksSolution n) u v) :
    (forks.toNetlist Netlist.forksDevice Netlist.forksStrList forksUnsaved).DenotesEdge u v := by
  have hpips : ∀ (n : Fin 2) (u v : Fin 7),
      (∃ p ∈ forks.netPaths forksSolution n, [u, v] <:+: p) →
      ∃ pip ∈ Netlist.forksDevice.getTileTypePIP u v,
        pip ∈ Netlist.forksDevice.tileTypePipList 0 ∧
        Netlist.forksDevice.tileWireToNode (v / 3) pip.driver = some u ∧
        Netlist.forksDevice.tileWireToNode (v / 3) pip.driven = some v := by
    decide +kernel
  obtain ⟨pip, hpip, hlisted, hdriver, hdriven⟩ := hpips n u v h
  exact ⟨pip, hpip, hlisted, hdriver, hdriven⟩

/-- The second net is saved first. -/
theorem write_saved_forks :
    ∃ s', forks.saveAllRoutingSolutions forksSolution [(1 : Fin 2), (0 : Fin 2)] forksUnsaved =
        some s' ∧
      ∃ out, (forks.toNetlist Netlist.forksDevice Netlist.forksStrList s').write 7
          (forks.fileNets fun n => Netlist.forksNet n) = some out ∧
        ∀ n : Fin 2, ∃ t branches, forks.RoutedTree forksSolution n (Netlist.forksRoot n) t ∧
          out.1[n.val]? = some { Netlist.forksNet n with
            sources := (Netlist.forksNet n).sources.modify 0 (RoseTree.modify [0]
              (RoseTree.setChildren branches))
            stubs := [] } ∧
          Netlist.forksDevice.readNode out.2 (Netlist.forksRoot n) branches =
            some (t.map fun v =>
              (v, (forks.toNetlist Netlist.forksDevice Netlist.forksStrList s').stubPins
                (Netlist.forksNet n).stubs v)) := by
  obtain ⟨s', hs', hmarks⟩ := exists_saved_forks
  obtain ⟨hiff, hread⟩ := write_saved (R := forks) (fun _ => zero_le_one) pinsFit_forks
    (by decide) (by decide) (fun _ => rfl) (fun _ h => by cases h) hs' fileFits_forks
    denotesEdge_forks Netlist.named_forksDevice (le_refl 7) (by decide)
  obtain ⟨out, hout⟩ := hiff.2 hmarks
  exact ⟨s', hs', out, hout, (hread out hout).2⟩

end AStarRoute

end Potter
