import Potter.Db.ParseNetlist
import Potter.Db.StringList

/-!
# The written file, read back

What a reader of the written physical netlist gets. It looks every name up in the string list of the
file. A PIP must be one of the tile it names and lead on from the node the reader is at, and a site
pin must be on that node; then the branches below a source pin are a tree of nodes with their site
pins (`readNode`).

* A net may carry nodes that its source pin does not lead to: those that were dropped when its paths
  were cut down to a tree. The writer never comes to them (`writeNet_cut`).
* The file as a whole is written, all nets with one string list, and every net reads back as the tree
  of the nodes its source pin leads to, with the pins of its stubs.
-/

namespace Potter

open Lib Relation

/-! ## The reader -/

namespace Device

variable {V : Type} (device : Device V) (strList : List String)

section Reader

variable [DecidableEq V]

/-- The node behind a PIP, which must be one of its tile and be driven from the given node. -/
def readPip (rnode : V) (p : PhysPIP) : Option V := do
  let tileName ← strList[p.tile]?
  let wire0Name ← strList[p.wire0]?
  let wire1Name ← strList[p.wire1]?
  let tileIdx ← device.tileNameToIdx tileName
  let tileTypeIdx ← device.tileNameToType tileName
  let wire0 ← device.wireNameToIdxInTileType tileTypeIdx wire0Name
  let wire1 ← device.wireNameToIdxInTileType tileTypeIdx wire1Name
  let pip : TileTypePIP := ⟨wire0, wire1, p.forward⟩
  if pip ∈ device.tileTypePipList tileTypeIdx ∧
      device.tileWireToNode tileIdx pip.driver = some rnode then
    device.tileWireToNode tileIdx pip.driven
  else none

/-- Nodes with the site pins on them. -/
abbrev PinTree (V : Type) := RoseTree (V × List PhysSitePin)

mutual

/-- A branch below the branch of a node: the tree behind a PIP, or a site pin. -/
def readBranch (rnode : V) : RouteBranch → Option (List (PinTree V) × List PhysSitePin)
  | .node segment branches =>
    match segment with
    | .pip p => do
      let child ← device.readPip strList rnode p
      let (below, pins) ← readBelow child branches
      some ([.node (child, pins) below], [])
    | .sitePin sp => if device.pinNode strList sp = some rnode then some ([], [sp]) else none
    | _ => none

def readBelow (rnode : V) : List RouteBranch → Option (List (PinTree V) × List PhysSitePin)
  | [] => some ([], [])
  | b :: bs => do
    let (trees, pins) ← readBranch rnode b
    let (trees', pins') ← readBelow rnode bs
    some (trees ++ trees', pins ++ pins')

end

/-- The tree of a node, by the branches below the branch of the node. -/
def readNode (rnode : V) (branches : List RouteBranch) : Option (PinTree V) :=
  (device.readBelow strList rnode branches).map fun r => .node (rnode, r.2) r.1

variable {device strList} in
theorem readBelow_append {rnode : V} {bs bs' : List RouteBranch} {trees trees' : List (PinTree V)}
    {pins pins' : List PhysSitePin} (h : device.readBelow strList rnode bs = some (trees, pins))
    (h' : device.readBelow strList rnode bs' = some (trees', pins')) :
    device.readBelow strList rnode (bs ++ bs') = some (trees ++ trees', pins ++ pins') := by
  induction bs generalizing trees pins with
  | nil =>
    rw [readBelow] at h
    cases h
    exact h'
  | cons b bs ih =>
    rw [readBelow] at h
    obtain ⟨⟨t, p⟩, hb, h⟩ := Option.bind_eq_some_iff.1 h
    obtain ⟨⟨ts, ps⟩, hbs, h⟩ := Option.bind_eq_some_iff.1 h
    cases h
    simp only [List.cons_append, readBelow, hb, ih hbs, Option.bind_eq_bind, Option.bind_some,
      List.append_assoc]

end Reader

/-- Names lead back to the tiles where nodes begin and to the wires that PIPs join. -/
structure Named (device : Device V) : Prop where
  tile : ∀ v, device.tileNameToIdx (device.getTileName (device.beginTileId v)).2 =
    some (device.beginTileId v)
  tileType : ∀ v, device.tileNameToType (device.getTileName (device.beginTileId v)).2 =
    some (device.tileToType (device.beginTileId v))
  wire : ∀ tileType, ∀ pip ∈ device.tileTypePipList tileType,
    ∀ w, w = pip.wire0ItIdx ∨ w = pip.wire1ItIdx →
      device.wireNameToIdxInTileType tileType
        (device.stringList ((device.tileTypes tileType).wireToNameIdx w)) = some w

variable {device strList}

/-- A device whose PIPs are all in tiles of one type. -/
theorem Named.of_oneType
    (htile : ∀ v, device.tileNameToIdx (device.getTileName (device.beginTileId v)).2 =
      some (device.beginTileId v))
    (htileType : ∀ v, device.tileNameToType (device.getTileName (device.beginTileId v)).2 =
      some (device.tileToType (device.beginTileId v)))
    (hnone : ∀ tileType, tileType ≠ 0 → ∃ names, device.tileTypes tileType = .noPips names)
    (hwire : ∀ pip ∈ device.tileTypePipList 0, ∀ w ∈ [pip.wire0ItIdx, pip.wire1ItIdx],
      device.wireNameToIdxInTileType 0
        (device.stringList ((device.tileTypes 0).wireToNameIdx w)) = some w) : device.Named where
  tile := htile
  tileType := htileType
  wire := by
    intro tileType pip hpip w hw
    by_cases h : tileType = 0
    · subst h
      exact hwire pip hpip w (by simpa using hw)
    · obtain ⟨names, hnames⟩ := hnone tileType h
      unfold tileTypePipList at hpip
      rw [hnames] at hpip
      cases hpip

/-- What was read by a string list is read alike by a longer one. -/
theorem pinNode_mono {strList' : List String} (hstr : strList <+: strList') {sp : PhysSitePin}
    {v : V} (h : device.pinNode strList sp = some v) : device.pinNode strList' sp = some v := by
  obtain ⟨rest, rfl⟩ := hstr
  obtain ⟨site, hsite, h⟩ := Option.bind_eq_some_iff.1 h
  obtain ⟨pin, hpin, h⟩ := Option.bind_eq_some_iff.1 h
  have hleft : ∀ i < strList.length, (strList ++ rest)[i]? = strList[i]? := fun _ hi =>
    List.getElem?_append_left hi
  unfold pinNode
  simp only [hleft _ (List.getElem?_eq_some_iff.1 hsite).1,
    hleft _ (List.getElem?_eq_some_iff.1 hpin).1, hsite, hpin, Option.bind_eq_bind,
    Option.bind_some, h]

end Device

namespace Netlist

variable {V N C : Type} [LT V] (W : Netlist V N C)

/-! ## An edge and its names -/

/-- The PIP that is written for an edge leads along it. -/
def DenotesEdge (u v : V) : Prop :=
  ∃ pip, W.device.getTileTypePIP u v = some pip ∧ W.device.Denotes u v pip

/-- The indices in the device of the names that are written for an edge. -/
def edgeNames (u v : V) : List Nat :=
  match W.device.getTileTypePIP u v with
  | some pip =>
    let tileId := W.device.beginTileId v
    [(W.device.getTileName tileId).1, (W.device.getWireName tileId pip.wire0ItIdx).1,
      (W.device.getWireName tileId pip.wire1ItIdx).1]
  | none => []

variable {W}

theorem index_eq_of_edgeSegment_eq {index index' : Nat → Nat} {u v : V}
    (h : W.edgeSegment index u v = W.edgeSegment index' u v) :
    ∀ id ∈ W.edgeNames u v, index id = index' id := by
  unfold edgeNames
  unfold edgeSegment at h
  cases hpip : W.device.getTileTypePIP u v with
  | none =>
    intro id hid
    cases hid
  | some pip =>
    rw [hpip] at h
    simp only [RouteSegment.pip.injEq, PhysPIP.mk.injEq] at h
    obtain ⟨htile, hwire0, hwire1, -⟩ := h
    simp only [List.mem_cons, List.not_mem_nil, or_false]
    rintro id (rfl | rfl | rfl)
    · exact htile
    · exact hwire0
    · exact hwire1

variable [DecidableEq V]

/-- **An edge reads back** from the names that are written for it. -/
theorem readPip_edgeSegment (hnamed : W.device.Named) {u v : V} (hedge : W.DenotesEdge u v)
    {index : Nat → Nat} {strList : List String}
    (hnames : ∀ id ∈ W.edgeNames u v, strList[index id]? = some (W.device.stringList id)) :
    ∃ p, W.edgeSegment index u v = .pip p ∧ W.device.readPip strList u p = some v := by
  obtain ⟨pip, hpip, hdenotes⟩ := hedge
  unfold edgeNames at hnames
  rw [hpip] at hnames
  simp only [List.mem_cons, List.not_mem_nil, or_false, forall_eq_or_imp, forall_eq] at hnames
  obtain ⟨htile, hwire0, hwire1⟩ := hnames
  have hname := hnamed.wire _ pip hdenotes.listed
  unfold edgeSegment
  rw [hpip]
  refine ⟨_, rfl, ?_⟩
  have hidx : W.device.tileNameToIdx (W.device.stringList (W.device.getTileName
      (W.device.beginTileId v)).1) = some (W.device.beginTileId v) := hnamed.tile v
  have htype : W.device.tileNameToType (W.device.stringList (W.device.getTileName
      (W.device.beginTileId v)).1) = some (W.device.tileToType (W.device.beginTileId v)) :=
    hnamed.tileType v
  have hname0 : W.device.wireNameToIdxInTileType (W.device.tileToType (W.device.beginTileId v))
      (W.device.stringList (W.device.getWireName (W.device.beginTileId v) pip.wire0ItIdx).1) =
      some pip.wire0ItIdx := hname _ (.inl rfl)
  have hname1 : W.device.wireNameToIdxInTileType (W.device.tileToType (W.device.beginTileId v))
      (W.device.stringList (W.device.getWireName (W.device.beginTileId v) pip.wire1ItIdx).1) =
      some pip.wire1ItIdx := hname _ (.inr rfl)
  unfold Device.readPip
  simp only [htile, hwire0, hwire1, hidx, htype, hname0, hname1, Option.bind_eq_bind,
    Option.bind_some]
  rw [if_pos ⟨hdenotes.listed, hdenotes.driver⟩]
  exact hdenotes.driven

/-! ## A routing and its branches -/

variable (W) in
/-- The site pins of the stubs at a node. -/
def stubPins (stubs : List RouteBranch) (v : V) : List PhysSitePin :=
  (stubs.filter fun b => W.pinNode b = some v).filterMap fun b => b.label.sitePin?

/-- The copies of the stubs at a node read back as their pins. -/
theorem readBelow_sinkCopies {strList : List String} (hstr : W.strList <+: strList)
    (stubs : List RouteBranch) (v : V) :
    W.device.readBelow strList v (W.sinkCopies stubs v) = some ([], W.stubPins stubs v) := by
  unfold sinkCopies stubPins
  have hat : ∀ b ∈ stubs.filter (fun b => W.pinNode b = some v), W.pinNode b = some v :=
    fun b hb => of_decide_eq_true (List.mem_filter.1 hb).2
  generalize stubs.filter (fun b => W.pinNode b = some v) = bs at hat
  induction bs with
  | nil => rfl
  | cons b bs ih =>
    obtain ⟨sp, hsp, hnode⟩ := label_of_pinNode (hat b List.mem_cons_self)
    have hpin : W.device.pinNode strList sp = some v := Device.pinNode_mono hstr hnode
    have hrest := ih fun c hc => hat c (List.mem_cons_of_mem b hc)
    obtain ⟨segment, branches⟩ := b
    cases hsp
    simp only [List.map_cons, copyBranch, copySegment, Device.readBelow, Device.readBranch, hpin,
      hrest, if_true, Option.bind_eq_bind, Option.bind_some, List.filterMap_cons,
      RoseTree.label_node, RouteSegment.sitePin?, List.nil_append, List.singleton_append]

/-- **What is written for a tree reads back as the tree**, with the pins of the stubs. -/
theorem readNode_render (hnamed : W.device.Named) {strList : List String}
    (hstr : W.strList <+: strList) {index : Nat → Nat} {stubs : List RouteBranch} {t : RoseTree V}
    (hlinked : t.Linked fun u v => W.DenotesEdge u v ∧
      ∀ id ∈ W.edgeNames u v, strList[index id]? = some (W.device.stringList id)) :
    W.device.readNode strList t.label (W.render index stubs t) =
      some (t.map fun v => (v, W.stubPins stubs v)) := by
  induction t with
  | node v ts ih =>
    have hbelow : W.device.readBelow strList v (W.renderEdges index stubs v ts) =
        some (ts.map (RoseTree.map fun v => (v, W.stubPins stubs v)), []) := by
      rw [RoseTree.linked_node] at hlinked
      induction ts with
      | nil => rfl
      | cons t ts ihs =>
        obtain ⟨⟨hedge, hnames⟩, hlink⟩ := hlinked t List.mem_cons_self
        obtain ⟨p, hp, hread⟩ := readPip_edgeSegment hnamed hedge hnames
        have ht := ih t List.mem_cons_self hlink
        obtain ⟨r, hr, htree⟩ := Option.map_eq_some_iff.1 ht
        have hrest := ihs (fun s hs => ih s (List.mem_cons_of_mem t hs))
          fun s hs => hlinked s (List.mem_cons_of_mem t hs)
        simp only [renderEdges, Device.readBelow, Device.readBranch, hp, hread, hr, hrest, htree,
          Option.bind_eq_bind, Option.bind_some, List.map_cons, List.singleton_append,
          List.append_nil]
    have happend := Device.readBelow_append hbelow (readBelow_sinkCopies hstr stubs v)
    unfold Device.readNode
    rw [render, RoseTree.label_node, happend, Option.map_some, RoseTree.map_node, List.append_nil,
      List.nil_append]

end Netlist

/-! ## Nodes that are not reached -/

namespace Netlist

variable {V N C : Type} [LT V] {W : Netlist V N C}

section Cut

variable (W) in
/-- The source pin leads to the node, along the branches of the net. -/
def Reached (ni : N) (root : V) : V → Prop :=
  ReflTransGen (fun u v => W.Carries ni u ∧ v ∈ W.branches u) root

open Classical in
variable (W) in
/-- The netlist with the routing of some nodes forgotten. -/
noncomputable def cut (P : V → Prop) : Netlist V N C :=
  { W with nodeRoutingResults := fun v => if P v then W.nodeRoutingResults v else ⟨none, [], .nil⟩ }

variable {P : V → Prop} {ni : N}

theorem branches_cut {v : V} (hv : P v) : (W.cut P).branches v = W.branches v := by
  unfold branches cut
  dsimp only
  rw [if_pos hv]

theorem carries_cut {v : V} : (W.cut P).Carries ni v ↔ P v ∧ W.Carries ni v := by
  unfold Carries cut
  dsimp only
  by_cases hv : P v
  · rw [if_pos hv, and_iff_right hv]
  · rw [if_neg hv]
    refine iff_of_false (fun h => ?_) fun h => hv h.1
    cases h

variable {stubs : List RouteBranch} {stubOf : V → Option Nat} {fuel : Nat}

theorem initNode_cut {v : V} (hv : P v) :
    (W.cut P).initNode stubs stubOf v = W.initNode stubs stubOf v := by
  unfold initNode
  rw [branches_cut hv]
  rfl

theorem writePips_cut (rnode : V) (nextRNodes : List V) (i : Nat) (branches : List RouteBranch)
    (strings : NewStrings) :
    (W.cut P).writePips rnode nextRNodes i branches strings =
      W.writePips rnode nextRNodes i branches strings := by
  induction nextRNodes generalizing i branches strings with
  | nil => rfl
  | cons child nextRNodes ih =>
    rw [writePips, writePips]
    exact Option.bind_congr fun r _ => ih _ _ _

variable (hclosed : ∀ {u v}, P u → W.Carries ni u → v ∈ W.branches u → P v)
  (hpins : ∀ {sp v}, W.sitePinNode sp = some v → W.Carries ni v → P v)

section Walk

variable [DecidableEq N]

theorem visitNode_cut {st : Walk} {item : List Nat × V} (hv : P item.2) :
    (W.cut P).visitNode ni stubs stubOf st item = W.visitNode ni stubs stubOf st item := by
  unfold visitNode
  dsimp only
  rw [branches_cut hv, initNode_cut hv]
  simp only [writePips_cut]
  refine Option.bind_congr fun rb _ => ?_
  exact if_congr (and_congr_left' (carries_cut.trans (and_iff_right hv))) rfl rfl

theorem mem_of_visitNode {st st' : Walk} {item : List Nat × V} {new : List (List Nat × V)}
    (h : W.visitNode ni stubs stubOf st item = some (st', new)) :
    W.Carries ni item.2 ∧ ∀ x ∈ new, x.2 ∈ W.branches item.2 := by
  obtain ⟨rb, -, h⟩ := Option.bind_eq_some_iff.1 h
  dsimp only at h
  split at h
  · next hcarries =>
    obtain ⟨branches, -, h⟩ := Option.bind_eq_some_iff.1 h
    obtain ⟨⟨out, strings⟩, -, h⟩ := Option.bind_eq_some_iff.1 h
    cases h
    refine ⟨hcarries.1, fun x hx => ?_⟩
    obtain ⟨⟨c, i⟩, hc, rfl⟩ := List.mem_map.1 hx
    exact List.fst_mem_of_mem_zipIdx hc
  · cases h

include hclosed hpins in
theorem visitSource_cut (st : NetWalk) (item : Nat × List Nat) :
    (W.cut P).visitSource fuel ni stubs stubOf st item = W.visitSource fuel ni stubs stubOf st item := by
  unfold visitSource
  refine Option.bind_congr fun rb _ => ?_
  dsimp only
  split
  · next sp _ =>
    refine Option.bind_congr fun v hv => ?_
    by_cases hcarries : W.Carries ni v
    · have hPv : P v := hpins hv hcarries
      rw [if_pos hcarries, if_pos (carries_cut.2 ⟨hPv, hcarries⟩)]
      have hrun (st : Walk) : Worklist.run ((W.cut P).visitNode ni stubs stubOf) fuel st [([], v)] =
          Worklist.run (W.visitNode ni stubs stubOf) fuel st [([], v)] := by
        refine Worklist.run_congr (fun x => P x.2) (fun _ _ hx => visitNode_cut hx) ?_
          (List.forall_mem_singleton.2 hPv)
        intro _ _ _ _ hx hstep y hy
        rw [visitNode_cut hx] at hstep
        obtain ⟨hu, hnew⟩ := mem_of_visitNode hstep
        exact hclosed hx hu (hnew y hy)
      rw [hrun]
    · rw [if_neg hcarries, if_neg fun h => hcarries (carries_cut.1 h).2]
  · rfl

end Walk

variable [DecidableEq V]

theorem render_cut (index : Nat → Nat) (stubs : List RouteBranch) (t : RoseTree V) :
    (W.cut P).render index stubs t = W.render index stubs t := by
  induction t with
  | node v ts ih =>
    rw [render, render, renderEdges_eq, renderEdges_eq]
    refine congrArg₂ _ (List.map_congr_left fun t ht => ?_) rfl
    exact congrArg _ (ih t ht)

theorem sinkPinStub_cut (stubs : List RouteBranch) (i : Nat) (m : V → Option Nat) :
    (W.cut P).sinkPinStub stubs i m = W.sinkPinStub stubs i m := by
  induction stubs generalizing i m with
  | nil => rfl
  | cons b stubs ih =>
    rw [sinkPinStub, sinkPinStub]
    split
    · refine Option.bind_congr fun v _ => ?_
      exact if_congr Iff.rfl (ih _ _) rfl
    · exact ih _ _

variable [DecidableEq N]

include hclosed hpins in
/-- **The writer does not come to nodes that are not reached**, if no site pin is on one. -/
theorem writeNet_cut (physNet : PhysNet) (strings : NewStrings) (numPIPs : Nat) :
    (W.cut P).writeNet fuel ni physNet strings numPIPs =
      W.writeNet fuel ni physNet strings numPIPs := by
  have hstep : (W.cut P).visitSource fuel ni physNet.stubs = W.visitSource fuel ni physNet.stubs :=
    funext fun stubOf => funext fun st => funext fun item => visitSource_cut hclosed hpins st item
  unfold writeNet
  dsimp only
  rw [hstep, sinkPinStub_cut]
  rfl

end Cut

/-! ## The names of a written routing -/

/-- An index of an added name leads to the name in the written list. -/
theorem Asked.getElem?_mergedStrList {s : NewStrings} (h : W.Asked .empty s) {id i : Nat}
    (hid : s.newStrIdMap id = some i) :
    (s.mergedStrList W.strList)[i]? = some (W.device.stringList id) := by
  obtain ⟨ids, -, rfl⟩ := h
  rcases hcalls : NewStrings.getStringIndices W.device.stringList W.strList.length ids .empty with
    ⟨is, s⟩
  rw [hcalls] at hid
  obtain ⟨keys, hkeyed, -, -, -⟩ := NewStrings.keyed_empty.getStringIndices ids hcalls
  obtain ⟨k, hk, rfl⟩ := hkeyed.map.1 hid
  unfold NewStrings.mergedStrList
  rw [List.getElem?_append_right (Nat.le_add_right _ _), Nat.add_sub_cancel_left, hkeyed.list,
    List.getElem?_map, hk, Option.map_some]

variable [DecidableEq V]

theorem linked_of_render_eq {index index' : Nat → Nat} {stubs : List RouteBranch} {t : RoseTree V}
    (h : W.render index stubs t = W.render index' stubs t) :
    t.Linked fun u v => W.edgeSegment index u v = W.edgeSegment index' u v := by
  induction t with
  | node v ts ih =>
    rw [render, render] at h
    have hedges := List.append_cancel_right h
    rw [renderEdges_eq, renderEdges_eq, List.map_inj_left] at hedges
    rw [RoseTree.linked_node]
    intro t ht
    obtain ⟨hsegment, hbelow⟩ := RoseTree.node.inj (hedges t ht)
    exact ⟨hsegment, ih t ht hbelow⟩

/-- **Branches that hold a routing under all indices the added names may have** read back as the
routing. -/
theorem readNode_of_render (hnamed : W.device.Named) {s : NewStrings} (hasked : W.Asked .empty s)
    {stubs branches : List RouteBranch} {t : RoseTree V} (hedges : t.Linked W.DenotesEdge)
    (hbranches : ∀ index, s.Agrees index → branches = W.render index stubs t) :
    W.device.readNode (s.mergedStrList W.strList) t.label branches =
      some (t.map fun v => (v, W.stubPins stubs v)) := by
  obtain ⟨index, hindex⟩ := s.exists_agrees
  rw [hbranches index hindex]
  refine readNode_render hnamed (List.prefix_append _ _) fun p part hp c hc => ?_
  refine ⟨hedges p part hp c hc, fun id hid => ?_⟩
  have hfiled : s.newStrIdMap id = some (index id) := by
    refine NewStrings.newStrIdMap_eq_of_agrees fun index' hindex' => ?_
    have hrender := (hbranches index' hindex').symm.trans (hbranches index hindex)
    exact index_eq_of_edgeSegment_eq (linked_of_render_eq hrender p part hp c hc) id hid
  exact hasked.getElem?_mergedStrList hfiled

end Netlist

/-! ## The whole file -/

namespace Netlist

variable {V N C : Type} [Preorder V] {W : Netlist V N C}

variable (W) in
/-- The net can be written: it is ready once the nodes its source pin does not lead to are forgotten,
and no site pin is on one of those. -/
structure Writable (ni : N) (physNet : PhysNet) (source : Nat × List Nat) (root : V) : Prop where
  ready : (W.cut (W.Reached ni root)).Ready ni physNet source root
  pins : ∀ {sp v}, W.sitePinNode sp = some v → W.Carries ni v → W.Reached ni root v

variable (W) in
/-- The tree of the nodes the source pin leads to. -/
structure RoutingTree (ni : N) (root : V) (t : RoseTree V) : Prop where
  label : t.label = root
  nodup : t.labels.Nodup
  mem_labels : ∀ v, v ∈ t.labels ↔ W.Reached ni root v
  follows : t.Follows W.branches

section Writable

variable {ni : N} {physNet : PhysNet} {source : Nat × List Nat} {root : V}

/-- What the nodes that are reached have to satisfy. -/
theorem writable_of_reached
    (hsize : (physNet.stubs.length : Int) =
      (W.nets ni).getConnectionSize + (W.nets ni).getDirectConnectionSize)
    (hstub : ∀ b ∈ physNet.stubs, ∃ v, W.pinNode b = some v ∧ W.Reached ni root v)
    (hinj : (physNet.stubs.map W.pinNode).Nodup)
    (hcarries : ∀ {v}, W.Reached ni root v → W.Carries ni v)
    (hroot : ∀ {u}, W.Reached ni root u → root ∉ W.branches u)
    (hparent : ∀ {u u' v}, W.Reached ni root u → W.Reached ni root u' → v ∈ W.branches u →
      v ∈ W.branches u' → u = u')
    (hpip : ∀ {u v}, W.Reached ni root u → v ∈ W.branches u → W.device.HasPip u v)
    (htype : ∀ {v}, W.Reached ni root v →
      (W.nodeType v = .pinfeedI ↔ ∃ b ∈ physNet.stubs, W.pinNode b = some v))
    (hleaf : ∀ {v}, W.Reached ni root v → W.branches v = [] →
      ∃ b ∈ physNet.stubs, W.pinNode b = some v)
    (hbranch : ∃ rb, branchAt? physNet.sources source = some rb ∧ W.pinNode rb = some root ∧
      rb.children = [])
    (hsource : ∀ {x : Nat × List Nat} {rb sp}, branchAt? physNet.sources x = some rb →
      rb.label = .sitePin sp → ∃ v, W.sitePinNode sp = some v ∧ (W.Carries ni v → x = source))
    (hpins : ∀ {sp v}, W.sitePinNode sp = some v → W.Carries ni v → W.Reached ni root v) :
    W.Writable ni physNet source root := by
  have hiff {v : V} : (W.cut (W.Reached ni root)).Carries ni v ↔ W.Reached ni root v :=
    carries_cut.trans (and_iff_left_of_imp hcarries)
  have hedge {u v : V} (hu : (W.cut (W.Reached ni root)).Carries ni u)
      (hv : v ∈ (W.cut (W.Reached ni root)).branches u) :
      W.Reached ni root u ∧ v ∈ W.branches u := by
    have hreached := hiff.1 hu
    rw [branches_cut hreached] at hv
    exact ⟨hreached, hv⟩
  obtain ⟨leaf, hleaf', hroot', hbare⟩ := hbranch
  refine ⟨⟨⟨hsize, ?_, hinj, ⟨hiff.2 .refl, ?_, ?_, ?_, ?_⟩, ?_, ?_, ?_, ⟨leaf, hleaf', hroot'⟩⟩, ?_, ?_⟩,
    hpins⟩
  · intro b hb
    obtain ⟨v, hv, hreached⟩ := hstub b hb
    exact ⟨v, hv, hiff.2 hreached⟩
  · intro u v hu hv
    obtain ⟨hreached, hv⟩ := hedge hu hv
    exact hiff.2 (hreached.tail ⟨hcarries hreached, hv⟩)
  · intro v hv
    have hreached := hiff.1 hv
    clear hv
    induction hreached with
    | refl => exact .refl
    | @tail u v hu huv ih =>
      have hbranches := branches_cut (W := W) (P := W.Reached ni root) hu
      exact ih.tail ⟨hiff.2 hu, hbranches ▸ huv.2⟩
  · intro u hu hv
    obtain ⟨hreached, hv⟩ := hedge hu hv
    exact hroot hreached hv
  · intro u u' v hu hu' hv hv'
    obtain ⟨hreached, hv⟩ := hedge hu hv
    obtain ⟨hreached', hv'⟩ := hedge hu' hv'
    exact hparent hreached hreached' hv hv'
  · intro u v hu hv
    obtain ⟨hreached, hv⟩ := hedge hu hv
    exact hpip hreached hv
  · intro v hv
    exact htype (hiff.1 hv)
  · intro v hv hnil
    rw [branches_cut (hiff.1 hv)] at hnil
    exact hleaf (hiff.1 hv) hnil
  · intro rb hrb
    cases hleaf'.symm.trans hrb
    exact hbare
  · intro x rb sp hrb hsp
    obtain ⟨v, hv, honly⟩ := hsource hrb hsp
    exact ⟨v, hv, fun h => honly (carries_cut.1 h).2⟩

theorem Writable.carries_iff (h : W.Writable ni physNet source root) {v : V} :
    (W.cut (W.Reached ni root)).Carries ni v ↔ W.Reached ni root v := by
  refine ⟨fun hv => (carries_cut.1 hv).1, fun hv => ?_⟩
  induction hv with
  | refl => exact h.ready.arborescence.root_mem
  | tail hu huv ih =>
    refine h.ready.arborescence.closed ih ?_
    have hbranches := branches_cut (W := W) (P := W.Reached ni root) hu
    exact hbranches ▸ huv.2

theorem Writable.routingTree (h : W.Writable ni physNet source root) {t : RoseTree V}
    (ht : (W.cut (W.Reached ni root)).Spans ni root t) : W.RoutingTree ni root t := by
  have hmem (v : V) : v ∈ t.labels ↔ W.Reached ni root v := (ht.mem_labels v).trans h.carries_iff
  refine ⟨ht.label, ht.nodup, hmem, fun p s hs => ?_⟩
  rw [ht.follows p s hs]
  exact branches_cut ((hmem _).1 (RoseTree.label_mem_labels_of_get? hs))

theorem Writable.linked (h : W.Writable ni physNet source root) {t : RoseTree V}
    (ht : W.RoutingTree ni root t) {E : V → V → Prop}
    (hE : ∀ u v, W.Carries ni u → v ∈ W.branches u → E u v) : t.Linked E := by
  intro p s hs c hc
  have hreached := (ht.mem_labels _).1 (RoseTree.label_mem_labels_of_get? hs)
  refine hE _ _ (carries_cut.1 (h.carries_iff.2 hreached)).2 ?_
  rw [← ht.follows p s hs]
  exact List.mem_map_of_mem hc

variable [DecidableEq V] [DecidableEq N]

/-- A net that can be written is written, with its tree below the branch of the source pin. -/
theorem Writable.writeNet [Fintype V] (h : W.Writable ni physNet source root)
    (strings : NewStrings) (numPIPs : Nat) {fuel : Nat} (hnodes : Fintype.card V ≤ fuel)
    (hsources : (physNet.sources.map fun t => t.labels.length).sum ≤ fuel) :
    ∃ t branches out, W.RoutingTree ni root t ∧
      W.writeNet fuel ni physNet strings numPIPs = some out ∧
      out.1 = { physNet with
        sources := physNet.sources.modify source.1 (RoseTree.modify source.2
          (RoseTree.setChildren branches))
        stubs := [] } ∧
      ∀ index, out.2.strings.Agrees index → strings.Agrees index ∧
        branches = W.render index physNet.stubs t := by
  obtain ⟨t, branches, out, hspans, hrun, hout, hrender, -, -⟩ :=
    h.ready.exists_writeNet strings numPIPs hnodes hsources
  rw [writeNet_cut (fun hu hcarries hv => hu.tail ⟨hcarries, hv⟩) h.pins] at hrun
  simp only [render_cut] at hrender
  exact ⟨t, branches, out, h.routingTree hspans, hrun, hout, hrender⟩

end Writable

/-! The program stops at a stub whose node is not marked as a sink pin. -/

variable [DecidableEq V]

theorem pinfeedI_of_sinkPinStub {stubs : List RouteBranch} {i : Nat} {m m' : V → Option Nat}
    (h : W.sinkPinStub stubs i m = some m') {b : RouteBranch} (hb : b ∈ stubs) {v : V}
    (hv : W.pinNode b = some v) : W.nodeType v = .pinfeedI := by
  obtain ⟨sp, hsp, hnode⟩ := label_of_pinNode hv
  induction stubs generalizing i m with
  | nil => exact absurd hb List.not_mem_nil
  | cons c stubs ih =>
    rw [sinkPinStub] at h
    rcases List.mem_cons.1 hb with rfl | hb
    · rw [hsp] at h
      obtain ⟨u, hu, h⟩ := Option.bind_eq_some_iff.1 h
      cases hu.symm.trans hnode
      exact (Option.ite_none_right_eq_some.1 h).1
    · split at h
      · obtain ⟨u, -, h⟩ := Option.bind_eq_some_iff.1 h
        exact ih (Option.ite_none_right_eq_some.1 h).2 hb
      · exact ih h hb

variable [DecidableEq N]

theorem pinfeedI_of_writeNets {fuel : Nat} {nets : List (N × PhysNet)} {strings : NewStrings}
    {numPIPs : Nat} {out : List PhysNet × NewStrings × Nat}
    (h : W.writeNets fuel nets strings numPIPs = some out) {net : N × PhysNet} (hnet : net ∈ nets)
    {b : RouteBranch} (hb : b ∈ net.2.stubs) {v : V} (hv : W.pinNode b = some v) :
    W.nodeType v = .pinfeedI := by
  induction nets generalizing strings numPIPs out with
  | nil => exact absurd hnet List.not_mem_nil
  | cons first nets ih =>
    obtain ⟨r, hr, h⟩ := Option.bind_eq_some_iff.1 h
    obtain ⟨rest, hrest, -⟩ := Option.bind_eq_some_iff.1 h
    rcases List.mem_cons.1 hnet with rfl | hnet
    · obtain ⟨-, hr⟩ := Option.ite_none_right_eq_some.1 hr
      obtain ⟨stubOf, hstubOf, -⟩ := Option.bind_eq_some_iff.1 hr
      exact pinfeedI_of_sinkPinStub hstubOf hb hv
    · exact ih hrest hnet

section File

variable [Fintype V] {source : N → Nat × List Nat} {root : N → V} {fuel : Nat}
  (hnodes : Fintype.card V ≤ fuel) {nets : List (N × PhysNet)}
  (hsources : ∀ net ∈ nets, (net.2.sources.map fun t => t.labels.length).sum ≤ fuel)
  (hnets : ∀ net ∈ nets, W.Writable net.1 net.2 (source net.1) (root net.1))
include hnodes hsources hnets

/-- All nets are written, one after another. -/
theorem exists_writeNets (strings : NewStrings) (numPIPs : Nat) :
    ∃ out, W.writeNets fuel nets strings numPIPs = some out ∧
      (∀ index, out.2.1.Agrees index → strings.Agrees index) ∧
      List.Forall₂ (fun net physNet => ∃ t branches, W.RoutingTree net.1 (root net.1) t ∧
        physNet = { net.2 with
          sources := net.2.sources.modify (source net.1).1 (RoseTree.modify (source net.1).2
            (RoseTree.setChildren branches))
          stubs := [] } ∧
        ∀ index, out.2.1.Agrees index → branches = W.render index net.2.stubs t) nets out.1 := by
  induction nets generalizing strings numPIPs with
  | nil => exact ⟨_, rfl, fun _ h => h, .nil⟩
  | cons net nets ih =>
    obtain ⟨t, branches, r, ht, hone, hr, hbranches⟩ := (hnets net List.mem_cons_self).writeNet
      strings numPIPs hnodes (hsources net List.mem_cons_self)
    obtain ⟨rest, hrest, hagrees, hall⟩ :=
      ih (fun net hnet => hsources net (List.mem_cons_of_mem _ hnet))
        (fun net hnet => hnets net (List.mem_cons_of_mem _ hnet)) r.2.strings r.2.numPIPs
    have hboth := fun index h => hbranches index (hagrees index h)
    refine ⟨(r.1 :: rest.1, rest.2), ?_, fun index h => (hboth index h).1,
      .cons ⟨t, branches, ht, hr, fun index h => (hboth index h).2⟩ hall⟩
    rw [writeNets, hone, Option.bind_some, hrest, Option.bind_some]

/-- The file is written, and what stands below a source pin reads back if the PIPs of its tree lead
along the edges. -/
theorem exists_write : ∃ out, W.write fuel nets = some out ∧ W.strList <+: out.2 ∧
    List.Forall₂ (fun net physNet => ∃ t branches, W.RoutingTree net.1 (root net.1) t ∧
      physNet = { net.2 with
        sources := net.2.sources.modify (source net.1).1 (RoseTree.modify (source net.1).2
          (RoseTree.setChildren branches))
        stubs := [] } ∧
      (W.device.Named → t.Linked W.DenotesEdge → W.device.readNode out.2 (root net.1) branches =
        some (t.map fun v => (v, W.stubPins net.2.stubs v)))) nets out.1 := by
  obtain ⟨out, hout, -, hall⟩ := exists_writeNets hnodes hsources hnets .empty 0
  refine ⟨(out.1, out.2.1.mergedStrList W.strList), ?_, List.prefix_append _ _, hall.imp ?_⟩
  · rw [write, hout, Option.bind_some]
  · rintro net physNet ⟨t, branches, ht, hphys, hbranches⟩
    refine ⟨t, branches, ht, hphys, fun hnamed hlinked => ?_⟩
    rw [← ht.label]
    exact readNode_of_render hnamed (asked_writeNets hout) hlinked hbranches

/-- **The file reads back as it was routed.** If every net can be written and the PIPs written for
its edges lead along them, the writer returns; it keeps the strings of the netlist, and every net
reads back as the tree of the nodes its source pin leads to, with the pins of its stubs. -/
theorem write_readBack (hnamed : W.device.Named)
    (hedges : ∀ net ∈ nets, ∀ u v, W.Carries net.1 u → v ∈ W.branches u → W.DenotesEdge u v) :
    ∃ out, W.write fuel nets = some out ∧ W.strList <+: out.2 ∧
      List.Forall₂ (fun net physNet => ∃ t branches, W.RoutingTree net.1 (root net.1) t ∧
        physNet = { net.2 with
          sources := net.2.sources.modify (source net.1).1 (RoseTree.modify (source net.1).2
            (RoseTree.setChildren branches))
          stubs := [] } ∧
        W.device.readNode out.2 (root net.1) branches =
          some (t.map fun v => (v, W.stubPins net.2.stubs v))) nets out.1 := by
  obtain ⟨out, hout, hstr, hall⟩ := exists_write hnodes hsources hnets
  refine ⟨out, hout, hstr, ?_⟩
  have hboth := fun net hnet => And.intro (hnets net hnet) (hedges net hnet)
  refine ((List.forall₂_and_left _ _).2 ⟨hboth, hall⟩).imp ?_
  rintro net physNet ⟨⟨hwritable, hdenotes⟩, t, branches, ht, hphys, hread⟩
  exact ⟨t, branches, ht, hphys, hread hnamed (hwritable.linked ht hdenotes)⟩

end File

/-! Two tiles, each with a site whose pin `O` drives the pins `A` and `B`, and one net in each. Node 6,
in a tile of its own, was dropped from the first net, but still carries it. -/

def forksDevice : Device (Fin 7) where
  siteNameToIdx s := ["S", "T"].idxOf? s
  sites i := ⟨i, 0, 0, 0⟩
  siteTypePinNameToIdx _ s := ["O", "A", "B"].idxOf? s
  tileTypeSitePinToWireIdx _ _ pin := pin
  tileTypes t :=
    if t = 0 then .ofPips (· + 3) [⟨0, 1, true⟩, ⟨0, 2, true⟩] (by decide) (by decide)
    else .noPips (· + 3)
  stringList i := ["INT_X0Y0", "INT_X0Y1", "INT_X0Y2", "LOGIC_OUTS", "IMUX_A", "IMUX_B"].getD i ""
  tileToNameIdx t := t
  tileToType _ := 0
  tileWireToNode tile wire :=
    if h : 3 * tile + wire < 7 ∧ wire < 3 then some ⟨3 * tile + wire, h.1⟩ else none
  nodeToWires v := [⟨v / 3, 0, v % 3⟩]
  beginTileId v := v / 3
  tileNameToIdx s := ["INT_X0Y0", "INT_X0Y1", "INT_X0Y2"].idxOf? s
  tileNameToType s := if s ∈ ["INT_X0Y0", "INT_X0Y1", "INT_X0Y2"] then some 0 else none
  wireNameToIdxInTileType t s :=
    if t = 0 then ["LOGIC_OUTS", "IMUX_A", "IMUX_B"].idxOf? s else none
  nullTile_pips := fun _ _ => rfl
  wire_type := by
    intro v w hw
    rw [List.mem_singleton.1 hw]
  wire_lt := by
    intro v w hw
    rw [List.mem_singleton.1 hw]
    exact (Nat.mod_lt _ (by decide)).trans (by decide)
  begin_eq := fun _ => rfl
  wire_of_node := by
    intro tile wire v h
    split at h
    · next hlt =>
      cases h
      refine ⟨_, List.mem_singleton_self _, ?_, ?_⟩
      · change (3 * tile + wire) / 3 = tile
        omega
      · change (3 * tile + wire) % 3 = wire
        omega
    · cases h
  node_of_wire := by
    intro v w hw
    rw [List.mem_singleton.1 hw]
    have hdiv := Nat.div_add_mod v.val 3
    have hmod := Nat.mod_lt v.val (by decide : 3 > 0)
    have hwire : 3 * (v.val / 3) + v.val % 3 < 7 ∧ v.val % 3 < 3 := ⟨hdiv.trans_lt v.isLt, hmod⟩
    rw [dif_pos hwire]
    rfl

theorem named_forksDevice : forksDevice.Named :=
  .of_oneType (by decide +kernel) (by decide +kernel) (fun _ h => ⟨(· + 3), if_neg h⟩)
    (by decide +kernel)

def forksStrList : List String := ["S", "T", "O", "A", "B"]

/-- The net of a site in the file. -/
def forksNet (site : Nat) : PhysNet where
  sources := [.node (.belPin ⟨site, 0, 2⟩) [.node (.sitePin ⟨site, 2⟩) []]]
  stubs := [.node (.sitePin ⟨site, 3⟩) [], .node (.sitePin ⟨site, 4⟩) []]

def prunedNetlist : Netlist (Fin 7) (Fin 2) (Fin 4) where
  device := forksDevice
  nodeType v := if v.val % 3 = 0 then .wire else .pinfeedI
  nets n := { indirectConns := [idx (2 * n), idx (2 * n + 1)], xCenter := 0, yCenter := 0,
              doubleHpwl := 4, xmin := 0, xmax := 0, ymin := 0, ymax := 0 }
  strList := forksStrList
  nodeRoutingResults v :=
    if v.val = 0 then ⟨some (idx 0), [idx 1, idx 2], by decide⟩
    else if v.val = 3 then ⟨some (idx 1), [idx 4, idx 5], by decide⟩
    else if v.val = 4 ∨ v.val = 5 then ⟨some (idx 1), [], List.Pairwise.nil⟩
    else ⟨some (idx 0), [], List.Pairwise.nil⟩

/-- The one site pin among the sources of a net. -/
theorem label_branchAt?_forksNet {site : Nat} {x : Nat × List Nat} {rb : RouteBranch}
    {sp : PhysSitePin} (hrb : branchAt? (forksNet site).sources x = some rb)
    (hsp : rb.label = .sitePin sp) : x = (0, [0]) ∧ sp = ⟨site, 2⟩ := by
  obtain ⟨i, addr⟩ := x
  rcases i with _ | i
  · rcases addr with _ | ⟨j, addr⟩
    · cases hrb
      cases hsp
    · rcases j with _ | j
      · rcases addr with _ | ⟨k, addr⟩
        · cases hrb
          cases hsp
          exact ⟨rfl, rfl⟩
        · cases hrb
      · cases hrb
  · cases hrb

/-- The source pin of a net. -/
def forksRoot (n : Fin 2) : Fin 7 := idx (3 * n)

theorem reached_prunedNetlist {n : Fin 2} {v : Fin 7} :
    prunedNetlist.Reached n (forksRoot n) v ↔ v.val / 3 = n := by
  constructor
  · intro h
    induction h with
    | refl => exact (by decide : ∀ n : Fin 2, (forksRoot n).val / 3 = n) n
    | @tail u v _ huv ih =>
      have hedge : ∀ u v, v ∈ prunedNetlist.branches u → v.val / 3 = u.val / 3 := by decide
      exact (hedge u v huv.2).trans ih
  · intro hv
    have hroot : ∀ n : Fin 2, ∀ v : Fin 7, v.val / 3 = n → v = forksRoot n ∨
        prunedNetlist.Carries n (forksRoot n) ∧ v ∈ prunedNetlist.branches (forksRoot n) := by
      decide
    rcases hroot n v hv with rfl | hedge
    · exact .refl
    · exact .single hedge

theorem writable_forksNet (n : Fin 2) :
    prunedNetlist.Writable n (forksNet n) (0, [0]) (forksRoot n) := by
  have hreached : prunedNetlist.Reached n (forksRoot n) = fun v => v.val / 3 = n.val :=
    funext fun _ => propext reached_prunedNetlist
  have hroot : ∀ n : Fin 2, prunedNetlist.sitePinNode ⟨n, 2⟩ = some (forksRoot n) := by
    decide +kernel
  apply writable_of_reached <;> try rw [hreached]
  all_goals clear hreached
  case hsize => revert n; decide
  case hstub => revert n; decide +kernel
  case hinj => revert n; decide +kernel
  case hcarries => revert n; decide
  case hroot => revert n; decide
  case hparent => revert n; decide
  case hpip => revert n; decide +kernel
  case htype => revert n; decide +kernel
  case hleaf => revert n; decide +kernel
  case hbranch => exact ⟨_, rfl, hroot n, rfl⟩
  case hsource =>
    intro x rb sp hrb hsp
    obtain ⟨rfl, rfl⟩ := label_branchAt?_forksNet hrb hsp
    exact ⟨forksRoot n, hroot n, fun _ => rfl⟩
  case hpins =>
    intro sp v hv hcarries
    -- node 6 is on no site pin
    have hne : v ≠ 6 := by
      rintro rfl
      obtain ⟨site, hsite, hv⟩ := Option.bind_eq_some_iff.1 hv
      obtain ⟨pin, hpin, hv⟩ := Option.bind_eq_some_iff.1 hv
      exact (by decide +kernel : ∀ site ∈ forksStrList, ∀ pin ∈ forksStrList,
        forksDevice.getSitePinNode site pin ≠ some 6) site (List.mem_of_getElem? hsite) pin
        (List.mem_of_getElem? hpin) hv
    have hsite : ∀ n : Fin 2, ∀ v : Fin 7, prunedNetlist.Carries n v → v ≠ 6 → v.val / 3 = n := by
      decide
    exact hsite n v hcarries hne

/-- Both nets read back, the first one without node 6. -/
theorem write_readBack_pruned : prunedNetlist.Carries 0 6 ∧
    ∃ out ∈ prunedNetlist.write 7 [(0, forksNet 0), (1, forksNet 1)],
      ∃ t₀ t₁ branches₀ branches₁, prunedNetlist.RoutingTree 0 0 t₀ ∧ 6 ∉ t₀.labels ∧
      prunedNetlist.RoutingTree 1 3 t₁ ∧
      out.1 = [(0, branches₀), (1, branches₁)].map (fun (site, branches) => { forksNet site with
        sources := (forksNet site).sources.modify 0
          (RoseTree.modify [0] (RoseTree.setChildren branches))
        stubs := [] }) ∧
      forksDevice.readNode out.2 0 branches₀ =
        some (t₀.map fun v => (v, prunedNetlist.stubPins (forksNet 0).stubs v)) ∧
      forksDevice.readNode out.2 3 branches₁ =
        some (t₁.map fun v => (v, prunedNetlist.stubPins (forksNet 1).stubs v)) := by
  have hpips : ∀ u v, v ∈ prunedNetlist.branches u →
      ∃ pip ∈ forksDevice.getTileTypePIP u v, pip ∈ forksDevice.tileTypePipList 0 ∧
        forksDevice.tileWireToNode (v / 3) pip.driver = some u ∧
        forksDevice.tileWireToNode (v / 3) pip.driven = some v := by
    decide +kernel
  have hedges : ∀ u v, v ∈ prunedNetlist.branches u → prunedNetlist.DenotesEdge u v := by
    intro u v hv
    obtain ⟨pip, hpip, hlisted, hdriver, hdriven⟩ := hpips u v hv
    exact ⟨pip, hpip, hlisted, hdriver, hdriven⟩
  have hsizes : ∀ net ∈ [((0 : Fin 2), forksNet 0), (1, forksNet 1)],
      (net.2.sources.map fun t => t.labels.length).sum ≤ 7 := by
    decide
  have hwritable : ∀ net ∈ [((0 : Fin 2), forksNet 0), (1, forksNet 1)],
      prunedNetlist.Writable net.1 net.2 (0, [0]) (forksRoot net.1) := by
    intro net hnet
    rcases List.mem_pair.1 hnet with rfl | rfl
    · exact writable_forksNet 0
    · exact writable_forksNet 1
  obtain ⟨out, hout, -, hall⟩ := @write_readBack _ _ _ _ prunedNetlist _ _ _ (fun _ => (0, [0]))
    forksRoot 7 (Fintype.card_fin 7).le _ hsizes hwritable named_forksDevice
    fun _ _ u v _ hv => hedges u v hv
  obtain ⟨_, _, ⟨t₀, branches₀, ht₀, rfl, hread₀⟩, hall, hnets⟩ := List.forall₂_cons_left_iff.1 hall
  obtain ⟨_, _, ⟨t₁, branches₁, ht₁, rfl, hread₁⟩, hnil, rfl⟩ := List.forall₂_cons_left_iff.1 hall
  cases hnil
  refine ⟨by decide, out, hout, t₀, t₁, branches₀, branches₁, ht₀, ?_, ht₁, hnets, hread₀, hread₁⟩
  have hout : ¬prunedNetlist.Reached 0 (forksRoot 0) 6 := by
    rw [reached_prunedNetlist]
    decide
  exact fun h => hout ((ht₀.mem_labels 6).1 h)

end Netlist

end Potter
