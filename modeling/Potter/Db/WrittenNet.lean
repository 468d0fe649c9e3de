import Potter.Db.WriteBack
import Potter.Lib.Arborescence

/-!
# A net is written whole

`render` computes what the branch of a node holds when its part of the routing is written. The walk
from the branch of the source pin writes exactly that (`Ready.walk`): while it goes on, writing what is
behind the queued branches would finish the routing (`Walking`). The walk through the sources meets
the source pin once (`Sourcing`), so a net whose nodes form an arborescence is written whole.

`Holds` says what that means without the writer: in the place of every node stands a branch with one
branch for every edge, a PIP by its names, and with copies of the stubs at the node. It takes a bare
branch of the source pin, and no second site pin on a node of the net (`Ready` against `Routed`).
-/

namespace Potter

open Lib

namespace Netlist

variable {V N C : Type} [LT V] (W : Netlist V N C)

/-! ## What is written -/

/-- The node of a branch at a site pin. -/
def pinNode (b : RouteBranch) : Option V :=
  match b.label with
  | .sitePin sp => W.sitePinNode sp
  | _ => none

/-- The segment of an edge, with the given indices for the names. -/
def edgeSegment (index : Nat → Nat) (rnode child : V) : RouteSegment :=
  match W.device.getTileTypePIP rnode child with
  | some pip =>
    let tileId := W.device.beginTileId child
    .pip { PhysPIP.init with
      tile := index (W.device.getTileName tileId).1
      wire0 := index (W.device.getWireName tileId pip.wire0ItIdx).1
      wire1 := index (W.device.getWireName tileId pip.wire1ItIdx).1
      forward := pip.forward }
  | none => RouteBranch.init.label

section Render

variable [DecidableEq V]

/-- The copies of the stubs at a node. -/
def sinkCopies (stubs : List RouteBranch) (rnode : V) : List RouteBranch :=
  (stubs.filter fun b => W.pinNode b = some rnode).map copyBranch

mutual

/-- What the branch of a node holds: one branch for every edge, in which the routing behind the edge
is held in the same way, and the copies of the stubs at the node. -/
def render (index : Nat → Nat) (stubs : List RouteBranch) : RoseTree V → List RouteBranch
  | .node rnode ts => renderEdges index stubs rnode ts ++ W.sinkCopies stubs rnode

def renderEdges (index : Nat → Nat) (stubs : List RouteBranch) (rnode : V) :
    List (RoseTree V) → List RouteBranch
  | [] => []
  | t :: ts =>
    .node (W.edgeSegment index rnode t.label) (render index stubs t) ::
      renderEdges index stubs rnode ts

end

theorem renderEdges_eq (index : Nat → Nat) (stubs : List RouteBranch) (rnode : V)
    (ts : List (RoseTree V)) :
    W.renderEdges index stubs rnode ts =
      ts.map fun t => .node (W.edgeSegment index rnode t.label) (W.render index stubs t) := by
  induction ts with
  | nil => rfl
  | cons t ts ih => rw [renderEdges, ih, List.map_cons]

end Render

variable {W}

/-! ## The PIPs of a node -/

theorem pip_spec {rnode child : V} (h : W.device.HasPip rnode child) (strings : NewStrings) :
    ∃ pip strings', W.pip rnode child strings = some (pip, strings') ∧
      ∀ index, strings'.Agrees index →
        strings.Agrees index ∧ .pip pip = W.edgeSegment index rnode child := by
  obtain ⟨pip, hpip⟩ := Option.isSome_iff_exists.1 (Device.getTileTypePIP_isSome h)
  rcases h₁ : strings.getStringIndex W.strList.length
    (W.device.getTileName (W.device.beginTileId child)) with ⟨tile, s₁⟩
  rcases h₂ : s₁.getStringIndex W.strList.length
    (W.device.getWireName (W.device.beginTileId child) pip.wire0ItIdx) with ⟨wire0, s₂⟩
  rcases h₃ : s₂.getStringIndex W.strList.length
    (W.device.getWireName (W.device.beginTileId child) pip.wire1ItIdx) with ⟨wire1, s₃⟩
  refine ⟨{ PhysPIP.init with tile := tile, wire0 := wire0, wire1 := wire1, forward := pip.forward },
    s₃, ?_, fun index hindex => ?_⟩
  · unfold Netlist.pip
    rw [hpip, Option.bind_eq_bind, Option.bind_some]
    dsimp only
    rw [h₁]
    dsimp only
    rw [h₂]
    dsimp only
    rw [h₃]
  · obtain ⟨hs₂, rfl⟩ := NewStrings.getStringIndex_spec h₃ hindex
    obtain ⟨hs₁, rfl⟩ := NewStrings.getStringIndex_spec h₂ hs₂
    obtain ⟨hs₀, rfl⟩ := NewStrings.getStringIndex_spec h₁ hs₁
    refine ⟨hs₀, ?_⟩
    unfold edgeSegment
    rw [hpip]

/-- The loop over the successors fills the branches that were made for them. -/
theorem writePips_spec {rnode : V} (rest : List RouteBranch) :
    ∀ {nextRNodes : List V}, (∀ c ∈ nextRNodes, W.device.HasPip rnode c) →
      ∀ (done : List RouteBranch) (strings : NewStrings),
      ∃ branches strings', W.writePips rnode nextRNodes done.length
          (done ++ (RouteBranch.initBranches nextRNodes.length ++ rest)) strings =
          some (branches, strings') ∧
        ∀ index, strings'.Agrees index → strings.Agrees index ∧
          branches = done ++
            (nextRNodes.map (fun c => .node (W.edgeSegment index rnode c) []) ++ rest) := by
  intro nextRNodes
  induction nextRNodes with
  | nil =>
    intro _ done strings
    exact ⟨_, _, rfl, fun index hindex => ⟨hindex, rfl⟩⟩
  | cons child nextRNodes ih =>
    intro h done strings
    obtain ⟨pip, strings₁, hpip, hspec⟩ := pip_spec (h child List.mem_cons_self) strings
    obtain ⟨branches, strings₂, hrest, hspec'⟩ :=
      ih (fun c hc => h c (List.mem_cons_of_mem child hc)) (done ++ [.node (.pip pip) []]) strings₁
    rw [List.length_append, List.length_singleton, List.append_assoc] at hrest
    refine ⟨branches, strings₂, ?_, fun index hindex => ?_⟩
    · rw [writePips, hpip, ← hrest]
      refine congrArg (fun bs => W.writePips rnode nextRNodes (done.length + 1) bs strings₁) ?_
      exact modify_length_append done RouteBranch.init _ _
    · obtain ⟨hindex₁, hbranches⟩ := hspec' index hindex
      obtain ⟨hindex₀, hsegment⟩ := hspec index hindex₁
      refine ⟨hindex₀, ?_⟩
      rw [hbranches, hsegment, List.append_assoc]
      rfl

/-! ## Nets that are routed -/

variable (W) in
/-- A net that is routed. Its nodes form an arborescence below the node of the source pin, along PIPs.
The stubs are at different site pins, on nodes of the net; those nodes are the sink pins, which every
leaf is. -/
structure Routed (ni : N) (physNet : PhysNet) (source : Nat × List Nat) (root : V) : Prop where
  stubs_size : (physNet.stubs.length : Int) =
    (W.nets ni).getConnectionSize + (W.nets ni).getDirectConnectionSize
  stub_pin : ∀ b ∈ physNet.stubs, ∃ v, W.pinNode b = some v ∧ W.Carries ni v
  stub_inj : (physNet.stubs.map W.pinNode).Nodup
  arborescence : IsArborescence W.branches (W.Carries ni) root
  hasPip : ∀ {u v}, W.Carries ni u → v ∈ W.branches u → W.device.HasPip u v
  pinfeedI_iff : ∀ {v}, W.Carries ni v →
    (W.nodeType v = .pinfeedI ↔ ∃ b ∈ physNet.stubs, W.pinNode b = some v)
  leaf : ∀ {v}, W.Carries ni v → W.branches v = [] → ∃ b ∈ physNet.stubs, W.pinNode b = some v
  source_branch : ∃ rb, branchAt? physNet.sources source = some rb ∧ W.pinNode rb = some root

variable (W) in
/-- It is ready to be written: the branch of the source pin is still bare, and no other site pin among
the sources is on a node of the net. -/
structure Ready (ni : N) (physNet : PhysNet) (source : Nat × List Nat) (root : V) : Prop
    extends W.Routed ni physNet source root where
  bare : ∀ {rb}, branchAt? physNet.sources source = some rb → rb.children = []
  source_pin : ∀ {x : Nat × List Nat} {rb sp},
    branchAt? physNet.sources x = some rb → rb.label = .sitePin sp →
    ∃ v, W.sitePinNode sp = some v ∧ (W.Carries ni v → x = source)

theorem label_of_pinNode {b : RouteBranch} {v : V} (h : W.pinNode b = some v) :
    ∃ sp, b.label = .sitePin sp ∧ W.sitePinNode sp = some v := by
  unfold pinNode at h
  split at h
  · next sp hsp => exact ⟨sp, hsp, h⟩
  · cases h

variable (W) in
/-- A sink pin counts one. -/
def pinCount (v : V) : Nat := if W.nodeType v = .pinfeedI then 1 else 0

/-- The sink pins of a tree that spans the net are the stubs. -/
theorem Routed.weight_pinCount {ni : N} {physNet : PhysNet} {source : Nat × List Nat} {root : V}
    (h : W.Routed ni physNet source root) {t : RoseTree V}
    (hnodup : t.labels.Nodup) (hmem : ∀ v, v ∈ t.labels ↔ W.Carries ni v) :
    t.weight W.pinCount = physNet.stubs.length := by
  have hcount : t.weight W.pinCount =
      (t.labels.filter fun v => W.nodeType v = .pinfeedI).length := by
    unfold RoseTree.weight
    induction t.labels with
    | nil => rfl
    | cons v l ih =>
      rw [List.map_cons, List.sum_cons, ih, List.filter_cons, pinCount]
      by_cases hv : W.nodeType v = .pinfeedI
      · rw [if_pos hv, if_pos (decide_eq_true hv), List.length_cons, Nat.add_comm]
      · rw [if_neg hv, if_neg (by rwa [decide_eq_true_eq]), Nat.zero_add]
  have hperm : ((t.labels.filter fun v => W.nodeType v = .pinfeedI).map some).Perm
      (physNet.stubs.map W.pinNode) := by
    have hleft : ((t.labels.filter fun v => W.nodeType v = .pinfeedI).map some).Nodup :=
      (hnodup.filter _).map (Option.some_injective V)
    rw [List.perm_ext_iff_of_nodup hleft h.stub_inj]
    intro o
    rw [List.mem_map, List.mem_map]
    constructor
    · rintro ⟨v, hv, rfl⟩
      rw [List.mem_filter, hmem, decide_eq_true_eq] at hv
      exact (h.pinfeedI_iff hv.1).1 hv.2
    · rintro ⟨b, hb, rfl⟩
      obtain ⟨v, hv, hcarries⟩ := h.stub_pin b hb
      refine ⟨v, ?_, hv.symm⟩
      rw [List.mem_filter, hmem, decide_eq_true_eq]
      exact ⟨hcarries, (h.pinfeedI_iff hcarries).2 ⟨b, hb, hv⟩⟩
  have hlength := hperm.length_eq
  rw [List.length_map, List.length_map] at hlength
  rw [hcount, hlength]

/-! ## The stubs of a net -/

section Stubs

variable [DecidableEq V]

/-- Every stub is found at its node. -/
theorem sinkPinStub_spec : ∀ {stubs : List RouteBranch},
    (∀ b ∈ stubs, ∃ v, W.pinNode b = some v ∧ W.nodeType v = .pinfeedI) →
    (stubs.map W.pinNode).Nodup → ∀ (i : Nat) (m : V → Option Nat),
    ∃ m', W.sinkPinStub stubs i m = some m' ∧
      (∀ j b v, stubs[j]? = some b → W.pinNode b = some v → m' v = some (i + j)) ∧
      ∀ v, some v ∉ stubs.map W.pinNode → m' v = m v := by
  intro stubs
  induction stubs with
  | nil =>
    intro _ _ i m
    refine ⟨m, rfl, fun j b v hj => ?_, fun _ _ => rfl⟩
    cases hj
  | cons b stubs ih =>
    intro hpin hnodup i m
    obtain ⟨v, hv, htype⟩ := hpin b List.mem_cons_self
    obtain ⟨sp, hsp, hnode⟩ := label_of_pinNode hv
    rw [List.map_cons, List.nodup_cons] at hnodup
    obtain ⟨m', hm', hat, hother⟩ := ih (fun b hb => hpin b (List.mem_cons_of_mem _ hb)) hnodup.2
      (i + 1) (Function.update m v (some i))
    refine ⟨m', ?_, fun j c w hj hw => ?_, fun w hw => ?_⟩
    · rw [sinkPinStub, hsp]
      dsimp only
      rw [hnode, Option.bind_eq_bind, Option.bind_some, if_pos htype, hm']
    · cases j with
      | zero =>
        rw [List.getElem?_cons_zero, Option.some_inj] at hj
        subst hj
        cases hv.symm.trans hw
        rw [hother v (hv ▸ hnodup.1), Function.update_self, Nat.add_zero]
      | succ j =>
        rw [hat j c w hj hw]
        congr 1
        omega
    · rw [List.map_cons, List.mem_cons, not_or] at hw
      rw [hother w hw.2, Function.update_of_ne]
      rintro rfl
      exact hw.1 hv.symm

/-- The stub at a pin is the only one there. -/
theorem filter_stubs {stubs : List RouteBranch} (hnodup : (stubs.map W.pinNode).Nodup)
    {b : RouteBranch} {v : V} (hb : b ∈ stubs) (hv : W.pinNode b = some v) :
    (stubs.filter fun c => W.pinNode c = some v) = [b] := by
  induction stubs with
  | nil => cases hb
  | cons c stubs ih =>
    rw [List.map_cons, List.nodup_cons] at hnodup
    rcases List.mem_cons.1 hb with rfl | hb
    · rw [List.filter_cons, if_pos (decide_eq_true hv), List.filter_eq_nil_iff.2]
      intro c hc hcv
      rw [hv, ← of_decide_eq_true hcv] at hnodup
      exact hnodup.1 (List.mem_map_of_mem hc)
    · rw [List.filter_cons, if_neg, ih hnodup.2 hb]
      intro hcv
      rw [of_decide_eq_true hcv, ← hv] at hnodup
      exact hnodup.1 (List.mem_map_of_mem hb)

variable {ni : N} {physNet : PhysNet} {source : Nat × List Nat} {root : V}
  (h : W.Routed ni physNet source root)
include h

theorem Routed.exists_stubOf : ∃ stubOf, W.sinkPinStub physNet.stubs 0 (fun _ => none) = some stubOf ∧
    ∀ b ∈ physNet.stubs, ∀ v, W.pinNode b = some v →
      physNet.stubs[(stubOf v).getD 0]? = some b := by
  obtain ⟨stubOf, hrun, hat, -⟩ := sinkPinStub_spec (W := W) (fun b hb => by
    obtain ⟨v, hv, hcarries⟩ := h.stub_pin b hb
    exact ⟨v, hv, (h.pinfeedI_iff hcarries).2 ⟨b, hb, hv⟩⟩) h.stub_inj 0 fun _ => none
  refine ⟨stubOf, hrun, fun b hb v hv => ?_⟩
  obtain ⟨j, hj⟩ := List.getElem?_of_mem hb
  rw [hat j b v hj hv, Option.getD_some, Nat.zero_add, hj]

/-- A node that is no sink pin has no stub to copy. -/
theorem Routed.sinkCopies_eq_nil {v : V} (hv : W.Carries ni v) (htype : W.nodeType v ≠ .pinfeedI) :
    W.sinkCopies physNet.stubs v = [] := by
  unfold sinkCopies
  rw [List.map_eq_nil_iff, List.filter_eq_nil_iff]
  intro b hb hbv
  exact htype ((h.pinfeedI_iff hv).2 ⟨b, hb, of_decide_eq_true hbv⟩)

/-- The branches below a node are made with the copy of its stub in place. -/
theorem Routed.initNode_eq {stubOf : V → Option Nat}
    (hstub : ∀ b ∈ physNet.stubs, ∀ v, W.pinNode b = some v →
      physNet.stubs[(stubOf v).getD 0]? = some b) {v : V} (hv : W.Carries ni v) :
    W.initNode physNet.stubs stubOf v =
      some (RouteBranch.initBranches (W.branches v).length ++ W.sinkCopies physNet.stubs v) := by
  unfold initNode
  by_cases htype : W.nodeType v = .pinfeedI
  · obtain ⟨b, hb, hbv⟩ := (h.pinfeedI_iff hv).1 htype
    rw [if_pos htype, hstub b hb v hbv, Option.bind_eq_bind, Option.bind_some, sinkCopies,
      filter_stubs h.stub_inj hb hbv]
    unfold RouteBranch.initBranches
    rw [List.length_replicate, Nat.add_sub_cancel, List.replicate_succ', List.set_append_right,
      List.length_replicate, Nat.sub_self]
    · rfl
    · rw [List.length_replicate]
  · have hnext : (W.branches v).length ≠ 0 := by
      intro hnil
      exact htype ((h.pinfeedI_iff hv).2 (h.leaf hv (List.eq_nil_of_length_eq_zero hnil)))
    rw [if_neg htype, if_pos hnext, h.sinkCopies_eq_nil hv htype, List.append_nil]

end Stubs

/-! ## The walk through the nodes -/

section Walk

variable [DecidableEq V] {ni : N} {physNet : PhysNet} {source : Nat × List Nat} {root : V}
  {tree : V → RoseTree V}

/-- The walk is on its way from `st₀`: the queued branches are bare and none lies in another, and
writing what is behind them, with the indices the new names have, would finish the routing. The
counts miss exactly what is behind the queued branches. -/
structure Walking (W : Netlist V N C) (ni : N) (stubs : List RouteBranch) (tree : V → RoseTree V)
    (root : V) (st₀ st : Walk) (queue : List (List Nat × V)) : Prop where
  bare : ∀ x ∈ queue, W.Carries ni x.2 ∧ ∃ rb, st.rb.get? x.1 = some rb ∧ rb.children = []
  apart : queue.Pairwise fun x y => Apart x.1 y.1
  written : ∀ index, st.strings.Agrees index → st₀.strings.Agrees index ∧
    RoseTree.modifyAll (fun v => RoseTree.setChildren (W.render index stubs (tree v))) queue st.rb =
      st₀.rb.setChildren (W.render index stubs (tree root))
  routedPinNum : st.routedPinNum + (queue.map fun x => (tree x.2).weight W.pinCount).sum =
    st₀.routedPinNum + (tree root).weight W.pinCount
  numPIPs : st.numPIPs + (queue.map fun x => (tree x.2).weight fun v => (W.branches v).length).sum =
    st₀.numPIPs + (tree root).weight fun v => (W.branches v).length

theorem walking_init (hroot : W.Carries ni root) {st₀ : Walk} (hbare : st₀.rb.children = []) :
    Walking W ni physNet.stubs tree root st₀ st₀ [([], root)] where
  bare := by
    intro x hx
    cases List.mem_singleton.1 hx
    exact ⟨hroot, st₀.rb, RoseTree.get?_nil _, hbare⟩
  apart := List.pairwise_singleton _ _
  written := by
    intro index hindex
    rw [RoseTree.modifyAll_cons, RoseTree.modifyAll_nil, RoseTree.modify_nil]
    exact ⟨hindex, rfl⟩
  routedPinNum := by rw [List.map_singleton, List.sum_singleton]
  numPIPs := by rw [List.map_singleton, List.sum_singleton]

/-- The children of a node stand for the node in every count. -/
theorem sum_queued {U : Type} (f : U → Nat) (tree : U → RoseTree U) (addr : List Nat) (cs : List U) :
    ((cs.zipIdx.map fun x => (addr ++ [x.2], x.1)).map fun x => (tree x.2).weight f).sum =
      (cs.map fun c => (tree c).weight f).sum := by
  congr 1
  rw [List.map_map]
  exact (List.map_map (l := cs.zipIdx) (f := Prod.fst) (g := fun c => (tree c).weight f)).symm.trans
    (congrArg _ (List.zipIdx_map_fst 0 cs))

theorem render_tree (h : W.Routed ni physNet source root)
    (htree : Unfolding W.branches (W.Carries ni) tree) (index : Nat → Nat) {v : V}
    (hv : W.Carries ni v) :
    W.render index physNet.stubs (tree v) =
      (W.branches v).map (fun c =>
        .node (W.edgeSegment index v c) (W.render index physNet.stubs (tree c))) ++
      W.sinkCopies physNet.stubs v := by
  rw [htree v hv, render, renderEdges_eq, List.map_map]
  congr 1
  refine List.map_congr_left fun c hc => ?_
  rw [Function.comp_apply, IsArborescence.label_tree htree (h.arborescence.closed hv hc)]

variable [DecidableEq N]

/-- **What a step of the walk does**: the bare branch of a node gets a bare branch for every edge and
the copies of the stubs at the node. -/
theorem Routed.visitNode_spec (h : W.Routed ni physNet source root) {stubOf : V → Option Nat}
    (hstub : ∀ b ∈ physNet.stubs, ∀ v, W.pinNode b = some v →
      physNet.stubs[(stubOf v).getD 0]? = some b)
    {st : Walk} {addr : List Nat} {rb : RouteBranch} {v : V} (hv : W.Carries ni v)
    (hrb : st.rb.get? addr = some rb) (hbare : rb.children = []) :
    ∃ branches strings, W.visitNode ni physNet.stubs stubOf st (addr, v) = some (⟨
          st.rb.modify addr (RoseTree.setChildren branches), strings,
          st.routedPinNum + W.pinCount v,
          st.numPIPs + (W.branches v).length⟩,
        (W.branches v).zipIdx.map fun x => (addr ++ [x.2], x.1)) ∧
      ∀ index, strings.Agrees index → st.strings.Agrees index ∧
        branches = (W.branches v).map (fun c => .node (W.edgeSegment index v c) []) ++
          W.sinkCopies physNet.stubs v := by
  obtain ⟨branches, strings, hpips, hspec⟩ := writePips_spec (W := W)
    (W.sinkCopies physNet.stubs v) (fun c hc => h.hasPip hv hc) [] st.strings
  refine ⟨branches, strings, ?_, hspec⟩
  rw [List.length_nil, List.nil_append] at hpips
  unfold visitNode
  dsimp only
  rw [hrb, Option.bind_eq_bind, Option.bind_some, if_pos ⟨hv, by rw [hbare]; rfl⟩,
    h.initNode_eq hstub hv, Option.bind_eq_bind, Option.bind_some, hpips, Option.bind_eq_bind,
    Option.bind_some]
  rfl

/-- **A step takes the walk further**, and what it queues weighs less than what it took. -/
theorem Walking.step (h : W.Routed ni physNet source root)
    (htree : Unfolding W.branches (W.Carries ni) tree) {stubOf : V → Option Nat}
    (hstub : ∀ b ∈ physNet.stubs, ∀ v, W.pinNode b = some v →
      physNet.stubs[(stubOf v).getD 0]? = some b)
    {st₀ st : Walk} {x : List Nat × V} {queue : List (List Nat × V)}
    (hw : Walking W ni physNet.stubs tree root st₀ st (x :: queue)) :
    ∃ st' new, W.visitNode ni physNet.stubs stubOf st x = some (st', new) ∧
      Walking W ni physNet.stubs tree root st₀ st' (queue ++ new) ∧
      (new.map fun x => (tree x.2).weight fun _ => 1).sum < (tree x.2).weight fun _ => 1 := by
  obtain ⟨addr, v⟩ := x
  obtain ⟨hv, rb, hrb, hbare⟩ := hw.bare (addr, v) List.mem_cons_self
  obtain ⟨branches, strings, hstep, hspec⟩ := h.visitNode_spec hstub hv hrb hbare
  obtain ⟨hfirst, hqueue⟩ := List.pairwise_cons.1 hw.apart
  have hweight (f : V → Nat) := IsArborescence.weight_tree htree f hv
  have hclosed {c : V} (hc : c ∈ W.branches v) := h.arborescence.closed hv hc
  refine ⟨_, _, hstep, ⟨?bare, ?apart, ?written, ?routed, ?pips⟩, ?size⟩
  case bare =>
    intro y hy
    rcases List.mem_append.1 hy with hy | hy
    · obtain ⟨hcarries, rb', hrb', hbare'⟩ := hw.bare y (List.mem_cons_of_mem _ hy)
      refine ⟨hcarries, rb', ?_, hbare'⟩
      exact (RoseTree.get?_modify_of_apart (hfirst y hy) _ _).trans hrb'
    · obtain ⟨⟨c, i⟩, hci, rfl⟩ := List.mem_map.1 hy
      rw [List.mk_mem_zipIdx_iff_getElem?] at hci
      refine ⟨hclosed (List.mem_of_getElem? hci), ?_⟩
      obtain ⟨index, hindex⟩ := strings.exists_agrees
      refine ⟨.node (W.edgeSegment index v c) [], ?_, rfl⟩
      obtain ⟨lbl, bs⟩ := rb
      have hi : i < ((W.branches v).map fun c =>
          RoseTree.node (W.edgeSegment index v c) []).length := by
        rw [List.length_map]
        exact (List.getElem?_eq_some_iff.1 hci).1
      show (RoseTree.modify addr _ _).get? (addr ++ [i]) = _
      rw [RoseTree.get?_append, RoseTree.get?_modify_self, hrb, Option.map_some, Option.bind_some,
        RoseTree.setChildren_node, RoseTree.get?, (hspec index hindex).2,
        List.getElem?_append_left hi, List.getElem?_map, hci]
      rfl
  case apart =>
    refine List.pairwise_append.2 ⟨hqueue, ?_, fun y hy z hz => ?_⟩
    · rw [List.pairwise_map]
      refine List.Pairwise.imp (fun hlt => apart_append_singleton (Nat.ne_of_lt hlt)) ?_
      rw [← List.pairwise_map (f := Prod.snd), List.zipIdx_map_snd]
      exact List.pairwise_lt_range'
    · obtain ⟨⟨c, i⟩, -, rfl⟩ := List.mem_map.1 hz
      exact (hfirst y hy).symm.append [i]
  case written =>
    intro index hindex
    obtain ⟨hindex', hbranches⟩ := hspec index hindex
    obtain ⟨hindex₀, hdone⟩ := hw.written index hindex'
    refine ⟨hindex₀, ?_⟩
    rw [RoseTree.modifyAll_cons, RoseTree.modifyAll_modify _ hfirst] at hdone
    rw [RoseTree.modifyAll_append, RoseTree.modifyAll_modify _ hfirst, hbranches,
      RoseTree.modifyAll_children, ← hdone, render_tree h htree index hv]
    rfl
  case routed =>
    have hcount := hw.routedPinNum
    rw [List.map_cons, List.sum_cons, hweight] at hcount
    rw [List.map_append, List.sum_append, sum_queued, ← hcount]
    dsimp only
    omega
  case pips =>
    have hcount := hw.numPIPs
    rw [List.map_cons, List.sum_cons, hweight] at hcount
    rw [List.map_append, List.sum_append, sum_queued, ← hcount]
    dsimp only
    omega
  case size =>
    rw [sum_queued, hweight]
    omega

/-- **The walk ends, with the routing written below the branch it started from.** -/
theorem Routed.walk (h : W.Routed ni physNet source root)
    (htree : Unfolding W.branches (W.Carries ni) tree) {stubOf : V → Option Nat}
    (hstub : ∀ b ∈ physNet.stubs, ∀ v, W.pinNode b = some v →
      physNet.stubs[(stubOf v).getD 0]? = some b)
    {fuel : Nat} (hfuel : (tree root).labels.length ≤ fuel) (st₀ : Walk)
    (hbare : st₀.rb.children = []) :
    ∃ st, Worklist.run (W.visitNode ni physNet.stubs stubOf) fuel st₀ [([], root)] = some st ∧
      (∀ index, st.strings.Agrees index → st₀.strings.Agrees index ∧
        st.rb = st₀.rb.setChildren (W.render index physNet.stubs (tree root))) ∧
      st.routedPinNum = st₀.routedPinNum + (tree root).weight W.pinCount ∧
      st.numPIPs = st₀.numPIPs + (tree root).weight fun v => (W.branches v).length := by
  have hinit : Walking W ni physNet.stubs tree root st₀ st₀ [([], root)] :=
    walking_init h.arborescence.root_mem hbare
  have hsize : ([(([] : List Nat), root)].map fun x => (tree x.2).weight fun _ => 1).sum ≤ fuel := by
    rw [List.map_singleton, List.sum_singleton, RoseTree.weight_one]
    exact hfuel
  obtain ⟨st, hrun, hend⟩ := Worklist.run_total _ _ (fun hw => Walking.step h htree hstub hw)
    hinit hsize
  exact ⟨st, hrun, hend.written, hend.routedPinNum, hend.numPIPs⟩

end Walk

/-! ## The walk through the sources -/

/-- The sources as the children of one branch. -/
def rootOf (sources : List RouteBranch) : RouteBranch := .node RouteBranch.init.label sources

theorem get?_rootOf (sources : List RouteBranch) (x : Nat × List Nat) :
    (rootOf sources).get? (x.1 :: x.2) = branchAt? sources x := rfl

/-- The branch is on the way to the source pin. -/
def OnWay (source x : Nat × List Nat) : Prop := x.1 :: x.2 <+: source.1 :: source.2

instance (source x : Nat × List Nat) : Decidable (OnWay source x) :=
  inferInstanceAs (Decidable (_ <+: _))

theorem countP_behind {sources : List RouteBranch} {source x : Nat × List Nat} {rb : RouteBranch}
    (hrb : branchAt? sources x = some rb) (hsource : (branchAt? sources source).isSome)
    (hne : x ≠ source) :
    (behind x rb).countP (OnWay source ·) = if OnWay source x then 1 else 0 := by
  rw [← get?_rootOf] at hrb hsource
  unfold behind
  rw [List.countP_map]
  split
  · next hway =>
    refine RoseTree.countP_children hrb hsource hway ?_
    intro heq
    injection heq with h₁ h₂
    exact hne (Prod.ext h₁ h₂)
  · next hway => exact RoseTree.countP_children_eq_zero hway _

theorem valid_behind {sources : List RouteBranch} {x : Nat × List Nat} {rb : RouteBranch}
    (hrb : branchAt? sources x = some rb) {y : Nat × List Nat} (hy : y ∈ behind x rb) :
    (branchAt? sources y).isSome := by
  obtain ⟨i, hi, rfl⟩ := List.mem_map.1 hy
  rw [← get?_rootOf] at hrb
  have hget := RoseTree.get?_append_singleton hrb i
  rw [List.getElem?_eq_getElem (List.mem_range.1 hi)] at hget
  exact Option.isSome_of_eq_some hget

/-- The number of branches from a branch on. -/
def sourceSize (sources : List RouteBranch) (x : Nat × List Nat) : Nat :=
  ((branchAt? sources x).map (RoseTree.weight fun _ => 1)).getD 0

theorem sum_behind_lt {sources : List RouteBranch} {x : Nat × List Nat} {rb : RouteBranch}
    (hrb : branchAt? sources x = some rb) :
    ((behind x rb).map (sourceSize sources)).sum < sourceSize sources x := by
  have hsize : sourceSize sources x = 1 + (rb.children.map (RoseTree.weight fun _ => 1)).sum := by
    obtain ⟨lbl, bs⟩ := rb
    unfold sourceSize
    rw [hrb, Option.map_some, Option.getD_some, RoseTree.weight_node, RoseTree.children_node]
  rw [← get?_rootOf] at hrb
  have hsum := RoseTree.sum_get?_children hrb (RoseTree.weight fun _ => 1)
  unfold behind
  rw [List.map_map, hsize, ← hsum]
  exact Nat.lt_add_of_pos_left Nat.one_pos

section Sources

variable [DecidableEq N] {ni : N} {physNet : PhysNet} {source : Nat × List Nat} {root : V}

/-- A branch that is not at a pin of the net is passed over. -/
theorem visitSource_skip {fuel : Nat} {ni : N} {stubs : List RouteBranch} {stubOf : V → Option Nat}
    {st : NetWalk} {x : Nat × List Nat} {rb : RouteBranch} (hrb : branchAt? st.sources x = some rb)
    (hpin : ∀ sp, rb.label = .sitePin sp → ∃ v, W.sitePinNode sp = some v ∧ ¬ W.Carries ni v) :
    W.visitSource fuel ni stubs stubOf st x = some (st, behind x rb) := by
  unfold visitSource
  rw [hrb, Option.bind_eq_bind, Option.bind_some]
  dsimp only
  split
  · next sp hsp =>
    obtain ⟨v, hv, hcarries⟩ := hpin sp hsp
    rw [hv, Option.bind_eq_bind, Option.bind_some, if_neg hcarries]
  · rfl

/-- The program stops at the branch of a pin of the net that is not bare. -/
theorem visitSource_eq_none {fuel : Nat} {stubs : List RouteBranch} {stubOf : V → Option Nat}
    {st : NetWalk} {x : Nat × List Nat} {rb : RouteBranch} {v : V}
    (hrb : branchAt? st.sources x = some rb) (hv : W.pinNode rb = some v) (hcarries : W.Carries ni v)
    (hne : rb.children ≠ []) : W.visitSource fuel ni stubs stubOf st x = none := by
  obtain ⟨sp, hsp, hnode⟩ := label_of_pinNode hv
  have hwalk : Worklist.run (W.visitNode ni stubs stubOf) fuel
      ⟨rb, st.strings, st.routedPinNum, st.numPIPs⟩ [([], v)] = none := by
    cases fuel with
    | zero => rfl
    | succ fuel =>
      rw [Worklist.run, visitNode]
      dsimp only
      rw [RoseTree.get?_nil, Option.bind_eq_bind, Option.bind_some, if_neg, Option.bind_none]
      exact fun h => hne (List.eq_nil_of_length_eq_zero h.2)
  unfold visitSource
  rw [hrb, Option.bind_eq_bind, Option.bind_some]
  dsimp only
  rw [hsp]
  dsimp only
  rw [hnode, Option.bind_eq_bind, Option.bind_some, if_pos hcarries, hwalk]
  rfl

/-- What a step of the walk returns stays with more fuel. -/
theorem visitSource_mono {fuel fuel' : Nat} (hle : fuel ≤ fuel') {stubs : List RouteBranch}
    {stubOf : V → Option Nat} {st : NetWalk} {x : Nat × List Nat}
    {r : NetWalk × List (Nat × List Nat)} (h : W.visitSource fuel ni stubs stubOf st x = some r) :
    W.visitSource fuel' ni stubs stubOf st x = some r := by
  unfold visitSource at h ⊢
  obtain ⟨rb, hrb, h⟩ := Option.bind_eq_some_iff.1 h
  refine Option.bind_eq_some_iff.2 ⟨rb, hrb, ?_⟩
  dsimp only at h ⊢
  split at h
  · obtain ⟨v, hv, h⟩ := Option.bind_eq_some_iff.1 h
    refine Option.bind_eq_some_iff.2 ⟨v, hv, ?_⟩
    split_ifs at h ⊢
    · obtain ⟨walk, hwalk, h⟩ := Option.bind_eq_some_iff.1 h
      exact Option.bind_eq_some_iff.2 ⟨walk, Worklist.run_mono id hle hwalk, h⟩
    · exact h
  · exact h

/-- The walk through the sources: before the source pin is met nothing was done, and one queued
branch is on the way to it; afterwards the net is written and no queued branch is. -/
structure Sourcing (physNet : PhysNet) (source : Nat × List Nat) (st₀ st₁ st : NetWalk)
    (queue : List (Nat × List Nat)) : Prop where
  valid : ∀ x ∈ queue, (branchAt? physNet.sources x).isSome
  state : (st = st₀ ∧ queue.countP (OnWay source ·) = 1) ∨
    (st = st₁ ∧ queue.countP (OnWay source ·) = 0)

/-- The branch of the source pin leads the walk from `st₀` to `st₁`, which differ in that branch
only. -/
structure Meets (W : Netlist V N C) (fuel : Nat) (ni : N) (physNet : PhysNet)
    (source : Nat × List Nat) (stubOf : V → Option Nat) (st₀ st₁ : NetWalk) : Prop where
  sources : st₀.sources = physNet.sources
  visit : W.visitSource fuel ni physNet.stubs stubOf st₀ source = some (st₁, [])
  only : ∃ f, st₁.sources = physNet.sources.modify source.1 (RoseTree.modify source.2 f)

/-- A step of the walk through the sources. -/
theorem Sourcing.step (h : W.Ready ni physNet source root) {fuel : Nat} {stubOf : V → Option Nat}
    {st₀ st₁ : NetWalk} (hmeets : Meets W fuel ni physNet source stubOf st₀ st₁) {st : NetWalk}
    {x : Nat × List Nat} {queue : List (Nat × List Nat)}
    (hw : Sourcing physNet source st₀ st₁ st (x :: queue)) :
    ∃ st' new, W.visitSource fuel ni physNet.stubs stubOf st x = some (st', new) ∧
      Sourcing physNet source st₀ st₁ st' (queue ++ new) ∧
      (new.map (sourceSize physNet.sources)).sum < sourceSize physNet.sources x := by
  obtain ⟨leaf, hleaf, hroot⟩ := h.source_branch
  have hbare := h.bare hleaf
  have hsource : (branchAt? physNet.sources source).isSome := Option.isSome_of_eq_some hleaf
  obtain ⟨rb, hrb⟩ := Option.isSome_iff_exists.1 (hw.valid x List.mem_cons_self)
  have hvalid : ∀ y ∈ queue, (branchAt? physNet.sources y).isSome := fun y hy =>
    hw.valid y (List.mem_cons_of_mem x hy)
  have hlt := sum_behind_lt hrb
  have hstate := hw.state
  rw [List.countP_cons] at hstate
  by_cases hx : x = source
  · -- the branch of the source pin: it is met once, and holds no branch itself
    subst hx
    have hway : OnWay x x := List.prefix_rfl
    cases hleaf.symm.trans hrb
    rw [decide_eq_true hway, if_pos rfl] at hstate
    rcases hstate with ⟨rfl, hcount⟩ | ⟨-, hcount⟩
    · refine ⟨st₁, [], hmeets.visit, ⟨?_, Or.inr ⟨rfl, ?_⟩⟩, Nat.lt_of_le_of_lt (Nat.zero_le _) hlt⟩
      · rw [List.append_nil]
        exact hvalid
      · rw [List.append_nil]
        omega
    · omega
  · have hpin : ∀ sp, rb.label = .sitePin sp →
        ∃ v, W.sitePinNode sp = some v ∧ ¬ W.Carries ni v := by
      intro sp hsp
      obtain ⟨v, hv, honly⟩ := h.source_pin hrb hsp
      exact ⟨v, hv, fun hcarries => hx (honly hcarries)⟩
    have hbehind := countP_behind hrb hsource hx
    -- neither state of the walk differs from the sources at `x`
    have hget : branchAt? st.sources x = some rb := by
      rcases hstate with ⟨rfl, -⟩ | ⟨rfl, hcount⟩
      · rw [hmeets.sources, hrb]
      · obtain ⟨f, hf⟩ := hmeets.only
        have hoff : ¬ OnWay source x := by
          intro hway
          rw [decide_eq_true hway, if_pos rfl] at hcount
          omega
        rw [← get?_rootOf] at hrb hleaf
        have hapart := RoseTree.apart_of_children_eq_nil hleaf hbare
          (Option.isSome_of_eq_some hrb) hoff
        rw [hf]
        exact (RoseTree.get?_modify_of_apart hapart f _).trans hrb
    refine ⟨st, behind x rb, visitSource_skip hget hpin, ⟨fun y hy => ?_, ?_⟩, hlt⟩
    · rcases List.mem_append.1 hy with hy | hy
      · exact hvalid y hy
      · exact valid_behind hrb hy
    · rw [List.countP_append, hbehind]
      simpa only [decide_eq_true_eq] using hstate

theorem Ready.meets (h : W.Ready ni physNet source root) {fuel : Nat} {stubOf : V → Option Nat}
    (st₀ : NetWalk) (hsources : st₀.sources = physNet.sources) {rb : RouteBranch} {walk : Walk}
    (hrb : branchAt? physNet.sources source = some rb) (hbare : rb.children = [])
    (hroot : W.pinNode rb = some root)
    (hwalk : Worklist.run (W.visitNode ni physNet.stubs stubOf) fuel
      ⟨rb, st₀.strings, st₀.routedPinNum, st₀.numPIPs⟩ [([], root)] = some walk) :
    Meets W fuel ni physNet source stubOf st₀
      ⟨physNet.sources.modify source.1 (RoseTree.modify source.2 fun _ => walk.rb),
        walk.strings, walk.routedPinNum, walk.numPIPs⟩ where
  sources := hsources
  visit := by
    obtain ⟨sp, hsp, hnode⟩ := label_of_pinNode hroot
    unfold visitSource
    rw [hsources, hrb, Option.bind_eq_bind, Option.bind_some]
    dsimp only
    rw [hsp]
    dsimp only
    rw [hnode, Option.bind_eq_bind, Option.bind_some, if_pos h.arborescence.root_mem, hwalk,
      Option.bind_eq_bind, Option.bind_some, behind, hbare]
    rfl
  only := ⟨_, rfl⟩

theorem sourcing_init (hsource : (branchAt? physNet.sources source).isSome) (st₀ st₁ : NetWalk) :
    Sourcing physNet source st₀ st₁ st₀
      ((List.range physNet.sources.length).map fun i => (i, [])) where
  valid := by
    intro x hx
    obtain ⟨i, hi, rfl⟩ := List.mem_map.1 hx
    unfold branchAt?
    rw [List.getElem?_eq_getElem (List.mem_range.1 hi), Option.bind_some, RoseTree.get?_nil]
    rfl
  state := by
    left
    rw [← get?_rootOf] at hsource
    refine ⟨rfl, ?_⟩
    rw [List.countP_map]
    exact RoseTree.countP_children (RoseTree.get?_nil (rootOf physNet.sources)) hsource
      List.nil_prefix (List.cons_ne_nil _ _).symm

theorem sum_sourceSize (sources : List RouteBranch) :
    (((List.range sources.length).map fun i => (i, ([] : List Nat))).map
      (sourceSize sources)).sum = (sources.map fun t => t.labels.length).sum := by
  have hsum := RoseTree.sum_get?_children (RoseTree.get?_nil (rootOf sources))
    (RoseTree.weight fun _ => 1)
  rw [List.map_map]
  refine Eq.trans hsum ?_
  congr 1
  exact List.map_congr_left fun t _ => RoseTree.weight_one t

/-- The walk through the sources ends with the net written. -/
theorem Ready.run_sources (h : W.Ready ni physNet source root) {fuel : Nat}
    {stubOf : V → Option Nat} {st₀ st₁ : NetWalk}
    (hmeets : Meets W fuel ni physNet source stubOf st₀ st₁)
    (hfuel : (physNet.sources.map fun t => t.labels.length).sum ≤ fuel) :
    Worklist.run (W.visitSource fuel ni physNet.stubs stubOf) fuel st₀
      ((List.range physNet.sources.length).map fun i => (i, [])) = some st₁ := by
  obtain ⟨rb, hrb, -⟩ := h.source_branch
  have hinit := sourcing_init (Option.isSome_of_eq_some hrb) st₀ st₁
  have hsize := (sum_sourceSize physNet.sources).trans_le hfuel
  obtain ⟨st, hrun, hend⟩ := Worklist.run_total _ _ (fun hw => Sourcing.step h hmeets hw)
    hinit hsize
  -- no branch is queued any more, so none is on the way to the source pin
  rcases hend.state with ⟨-, hcount⟩ | ⟨rfl, -⟩
  · cases hcount
  · exact hrun

theorem modify_sources_congr {sources : List RouteBranch} {x : Nat × List Nat} {rb : RouteBranch}
    (hrb : branchAt? sources x = some rb) {f g : RouteBranch → RouteBranch} (hfg : f rb = g rb) :
    sources.modify x.1 (RoseTree.modify x.2 f) = sources.modify x.1 (RoseTree.modify x.2 g) := by
  rw [← get?_rootOf] at hrb
  exact congrArg RoseTree.children (RoseTree.modify_congr hrb hfg)

end Sources

/-! ## The writer returns -/

/-- The tree has the node of the source pin at its root, every node of the net exactly once, and
below every node its successors. -/
structure Spans (W : Netlist V N C) (ni : N) (root : V) (t : RoseTree V) : Prop where
  label : t.label = root
  nodup : t.labels.Nodup
  mem_labels : ∀ v, v ∈ t.labels ↔ W.Carries ni v
  follows : t.Follows W.branches

end Netlist

namespace Netlist

variable {V N C : Type} [Preorder V] {W : Netlist V N C} {ni : N} {physNet : PhysNet}
  {source : Nat × List Nat} {root : V}

theorem Routed.spans [Finite V] (h : W.Routed ni physNet source root) {tree : V → RoseTree V}
    (htree : Unfolding W.branches (W.Carries ni) tree) : W.Spans ni root (tree root) := by
  have hbranches (v : V) : (W.branches v).Nodup :=
    (W.nodeRoutingResults v).sorted.imp fun hlt => ne_of_lt hlt
  exact
    { label := IsArborescence.label_tree htree h.arborescence.root_mem
      nodup := h.arborescence.nodup_labels htree hbranches h.arborescence.root_mem
      mem_labels := h.arborescence.mem_labels htree
      follows := h.arborescence.follows htree h.arborescence.root_mem }

variable [DecidableEq V] [DecidableEq N]

/-- A net that is ready is written, with `render` of its tree below the branch of the source pin. -/
theorem Ready.exists_writeNet [Fintype V] (h : W.Ready ni physNet source root) (strings : NewStrings)
    (numPIPs : Nat) {fuel : Nat} (hnodes : Fintype.card V ≤ fuel)
    (hsources : (physNet.sources.map fun t => t.labels.length).sum ≤ fuel) :
    ∃ t branches out, W.Spans ni root t ∧ W.writeNet fuel ni physNet strings numPIPs = some out ∧
      out.1 = { physNet with
        sources := physNet.sources.modify source.1 (RoseTree.modify source.2
          (RoseTree.setChildren branches))
        stubs := [] } ∧
      (∀ index, out.2.strings.Agrees index → strings.Agrees index ∧
        branches = W.render index physNet.stubs t) ∧
      out.2.numPIPs = numPIPs + (t.labels.map fun v => (W.branches v).length).sum ∧
      out.2.routedPinNum = physNet.stubs.length := by
  obtain ⟨tree, htree⟩ := h.arborescence.exists_unfolding
  have hspans := h.spans htree
  obtain ⟨stubOf, hstubOf, hstub⟩ := h.exists_stubOf
  obtain ⟨rb, hrb, hroot⟩ := h.source_branch
  have hbare := h.bare hrb
  obtain ⟨walk, hwalk, hwritten, hpins, hpips⟩ := h.walk htree hstub
    (hspans.nodup.length_le_card.trans hnodes) ⟨rb, strings, 0, numPIPs⟩ hbare
  have hmeets := h.meets ⟨physNet.sources, strings, 0, numPIPs⟩ rfl hrb hbare hroot hwalk
  have hrouted : walk.routedPinNum = physNet.stubs.length := by
    rw [hpins, h.weight_pinCount hspans.nodup hspans.mem_labels]
    exact Nat.zero_add _
  have hsame : walk.rb = rb.setChildren walk.rb.children := by
    obtain ⟨index, hindex⟩ := walk.strings.exists_agrees
    rw [(hwritten index hindex).2, RoseTree.children_setChildren]
  let st : NetWalk :=
    { sources := physNet.sources.modify source.1 (RoseTree.modify source.2 fun _ => walk.rb)
      strings := walk.strings
      routedPinNum := walk.routedPinNum
      numPIPs := walk.numPIPs }
  refine ⟨tree root, walk.rb.children, ({ physNet with sources := st.sources, stubs := [] }, st),
    hspans, ?run, ?sources, fun index hindex => ?branches, hpips, hrouted⟩
  case run =>
    unfold writeNet
    dsimp only
    rw [if_pos h.stubs_size, hstubOf, Option.bind_eq_bind, Option.bind_some,
      h.run_sources hmeets hsources, Option.bind_eq_bind, Option.bind_some, if_pos hrouted]
  case sources =>
    have hchange : st.sources = physNet.sources.modify source.1 (RoseTree.modify source.2
        (RoseTree.setChildren walk.rb.children)) := modify_sources_congr hrb hsame
    rw [hchange]
  case branches =>
    obtain ⟨hindex₀, hrb'⟩ := hwritten index hindex
    refine ⟨hindex₀, ?_⟩
    rw [hrb', RoseTree.children_setChildren]

end Netlist

/-! ## A net is written whole -/

namespace Netlist

variable {V N C : Type} [LT V] (W : Netlist V N C)

/-- The segment stands for the edge: it is the PIP that the device has for it, with the indices that
its names were given. -/
def IsEdge (strings : NewStrings) (rnode child : V) (segment : RouteSegment) : Prop :=
  ∃ pip p, segment = .pip p ∧ W.device.getTileTypePIP rnode child = some pip ∧
    strings.newStrIdMap (W.device.getTileName (W.device.beginTileId child)).1 = some p.tile ∧
    strings.newStrIdMap
      (W.device.getWireName (W.device.beginTileId child) pip.wire0ItIdx).1 = some p.wire0 ∧
    strings.newStrIdMap
      (W.device.getWireName (W.device.beginTileId child) pip.wire1ItIdx).1 = some p.wire1 ∧
    p.forward = pip.forward ∧ p.isFixed = false ∧ p.which = .noSite

/-- The branch holds the tree: in the place of every node stands a branch with one branch for every
edge to a successor, in order, and then a copy of every stub at the node. -/
def Holds [DecidableEq V] (strings : NewStrings) (stubs : List RouteBranch) (t : RoseTree V)
    (rb : RouteBranch) : Prop :=
  ∀ addr part, t.get? addr = some part → ∃ b edges copies, rb.get? addr = some b ∧
    b.children = edges ++ copies ∧
    List.Forall₂ (fun child edge => W.IsEdge strings part.label child.label edge.label)
      part.children edges ∧
    List.Forall₂ IsCopy (stubs.filter fun stub => W.pinNode stub = some part.label) copies

variable {W}

theorem isEdge_edgeSegment {strings : NewStrings} {rnode child : V}
    (hpip : W.device.HasPip rnode child) {index₀ : Nat → Nat}
    (h : ∀ index, strings.Agrees index →
      W.edgeSegment index rnode child = W.edgeSegment index₀ rnode child) :
    W.IsEdge strings rnode child (W.edgeSegment index₀ rnode child) := by
  obtain ⟨pip, hpip⟩ := Option.isSome_iff_exists.1 (Device.getTileTypePIP_isSome hpip)
  unfold edgeSegment at h ⊢
  rw [hpip] at h ⊢
  simp only [RouteSegment.pip.injEq, PhysPIP.mk.injEq, and_true] at h
  exact ⟨pip, _, rfl, hpip, NewStrings.newStrIdMap_eq_of_agrees fun index hi => (h index hi).1,
    NewStrings.newStrIdMap_eq_of_agrees fun index hi => (h index hi).2.1,
    NewStrings.newStrIdMap_eq_of_agrees fun index hi => (h index hi).2.2, rfl, rfl, rfl⟩

/-- What holds a routing under all indices that the names may have. -/
theorem holds_of_render [DecidableEq V] {strings : NewStrings} {stubs : List RouteBranch}
    {t : RoseTree V} {rb : RouteBranch} (hlinked : t.Linked W.device.HasPip)
    (h : ∀ index, strings.Agrees index → rb.children = W.render index stubs t) :
    W.Holds strings stubs t rb := by
  obtain ⟨index₀, hindex₀⟩ := strings.exists_agrees
  intro addr
  induction addr generalizing t rb with
  | nil =>
    intro part hpart
    rw [RoseTree.get?_nil, Option.some_inj] at hpart
    subst hpart
    obtain ⟨rnode, ts⟩ := t
    have h₀ := h index₀ hindex₀
    rw [render, renderEdges_eq] at h₀
    refine ⟨rb, _, _, RoseTree.get?_nil rb, h₀, ?_, ?_⟩
    · rw [List.forall₂_map_right_iff, RoseTree.children_node]
      refine List.forall₂_same.2 fun t ht => isEdge_edgeSegment (RoseTree.linked_node.1 hlinked t ht).1
        fun index hindex => ?_
      have hsame := (h index hindex).symm.trans h₀
      rw [render, renderEdges_eq] at hsame
      exact (RoseTree.node.inj (List.map_inj_left.1 (List.append_cancel_right hsame) t ht)).1
    · unfold sinkCopies
      rw [List.forall₂_map_right_iff]
      exact List.forall₂_same.2 fun stub _ => isCopy_copyBranch stub
  | cons i addr ih =>
    intro part hpart
    obtain ⟨rnode, ts⟩ := t
    obtain ⟨c, hc, hpart⟩ := Option.bind_eq_some_iff.1 hpart
    -- the branch at the index is the one of the edge to `c`
    have hat : ∀ index, strings.Agrees index → rb.children[i]? =
        some (.node (W.edgeSegment index rnode c.label) (W.render index stubs c)) := by
      intro index hindex
      have hlt : i < (W.renderEdges index stubs rnode ts).length := by
        rw [renderEdges_eq, List.length_map]
        exact (List.getElem?_eq_some_iff.1 hc).1
      rw [h index hindex, render, List.getElem?_append_left hlt, renderEdges_eq, List.getElem?_map, hc,
        Option.map_some]
    obtain ⟨e, he⟩ : ∃ e, rb.children[i]? = some e := ⟨_, hat index₀ hindex₀⟩
    have hbelow : ∀ index, strings.Agrees index → e.children = W.render index stubs c := by
      intro index hindex
      rw [Option.some_inj.1 (he.symm.trans (hat index hindex)), RoseTree.children_node]
    obtain ⟨b, edges, copies, hb, hrest⟩ :=
      ih (RoseTree.linked_node.1 hlinked c (List.mem_of_getElem? hc)).2 hbelow part hpart
    refine ⟨b, edges, copies, ?_, hrest⟩
    obtain ⟨segment, bs⟩ := rb
    rw [RoseTree.children_node] at he
    rw [RoseTree.get?, he, Option.bind_some, hb]

end Netlist

namespace Netlist

variable {V N C : Type} [DecidableEq V] [DecidableEq N] [Preorder V] {W : Netlist V N C}

/-- The net was written as the tree `t` of its nodes. The branch of the source pin holds the tree, and
nothing else among the sources has changed; the stubs are gone. The names that had an index keep it,
and the PIPs are as many as there are edges. Every stub is the only one at its node, which is in the
tree, and no pin is missing. -/
structure Written (W : Netlist V N C) (physNet : PhysNet) (source : Nat × List Nat)
    (strings : NewStrings) (numPIPs : Nat) (t : RoseTree V) (out : PhysNet × NetWalk) : Prop where
  sources : ∃ rb branches, branchAt? physNet.sources source = some rb ∧
    W.Holds out.2.strings physNet.stubs t (rb.setChildren branches) ∧
    out.1.sources = physNet.sources.modify source.1 (RoseTree.modify source.2
      (RoseTree.setChildren branches))
  stubs : out.1.stubs = []
  indices : ∀ id i, strings.newStrIdMap id = some i → out.2.strings.newStrIdMap id = some i
  numPIPs_eq : out.2.numPIPs = numPIPs + (t.labels.map fun v => (W.branches v).length).sum
  stub_alone : ∀ b ∈ physNet.stubs, ∃ v ∈ t.labels, W.pinNode b = some v ∧
    (physNet.stubs.filter fun stub => W.pinNode stub = some v) = [b]
  routedPinNum : out.2.routedPinNum = physNet.stubs.length

/-- **A net that is ready is written whole**: enough fuel is as many steps as there are nodes, and
as there are branches among the sources. -/
theorem writeNet_written [Fintype V] {ni : N} {physNet : PhysNet} {source : Nat × List Nat}
    {root : V} (h : W.Ready ni physNet source root) (strings : NewStrings) (numPIPs : Nat)
    {fuel : Nat} (hnodes : Fintype.card V ≤ fuel)
    (hsources : (physNet.sources.map fun t => t.labels.length).sum ≤ fuel) :
    ∃ t out, W.Spans ni root t ∧ W.writeNet fuel ni physNet strings numPIPs = some out ∧
      W.Written physNet source strings numPIPs t out := by
  obtain ⟨t, branches, out, hspans, hrun, hout, hrender, hpips, hrouted⟩ :=
    h.exists_writeNet strings numPIPs hnodes hsources
  obtain ⟨rb, hrb, -⟩ := h.source_branch
  have hlinked : t.Linked W.device.HasPip := by
    intro addr part hpart c hc
    have hcarries := (hspans.mem_labels _).1 (RoseTree.label_mem_labels_of_get? hpart)
    refine h.hasPip hcarries ?_
    rw [← hspans.follows addr part hpart]
    exact List.mem_map_of_mem hc
  refine ⟨t, out, hspans, hrun, ⟨rb, branches, hrb, ?holds, ?sources⟩, ?stubs, ?indices, hpips,
    ?alone, hrouted⟩
  case holds =>
    refine holds_of_render hlinked fun index hindex => ?_
    rw [RoseTree.children_setChildren, (hrender index hindex).2]
  case sources => rw [hout]
  case stubs => rw [hout]
  case indices =>
    intro id i hid
    exact NewStrings.newStrIdMap_eq_of_agrees fun index hindex => (hrender index hindex).1 id i hid
  case alone =>
    intro b hb
    obtain ⟨v, hv, hcarries⟩ := h.stub_pin b hb
    exact ⟨v, (hspans.mem_labels v).2 hcarries, hv, filter_stubs h.stub_inj hb hv⟩

/-! A net with three sink pins in one tile: the source pin `O` drives node 1, that drives the sink
pins `A` and `B`, and the wire of `A` goes on to the sink pin `C`. -/

def fanoutDevice : Device (Fin 5) where
  siteNameToIdx s := if s = "S" then some 0 else none
  sites _ := ⟨0, 0, 0, 0⟩
  siteTypePinNameToIdx _ s := ["O", "A", "B", "C"].idxOf? s
  tileTypeSitePinToWireIdx _ _ pin := [0, 2, 3, 4].getD pin 0
  tileTypes t :=
    if t = 0 then
      .ofPips (· + 1) [⟨0, 1, true⟩, ⟨1, 2, true⟩, ⟨1, 3, true⟩, ⟨2, 4, true⟩] (by decide) (by decide)
    else .noPips (· + 1)
  stringList _ := ""
  tileToNameIdx _ := 0
  tileToType _ := 0
  tileWireToNode tile wire := if h : tile = 0 ∧ wire < 5 then some ⟨wire, h.2⟩ else none
  nodeToWires v := [⟨0, 0, v⟩]
  beginTileId _ := 0
  nullTile_pips := fun _ _ => rfl
  wire_type := by
    intro v w hw
    rw [List.mem_singleton.1 hw]
  wire_lt := by
    intro v w hw
    rw [List.mem_singleton.1 hw]
    exact v.2.trans (by decide)
  begin_eq := fun _ => rfl
  wire_of_node := by
    intro tile wire v h
    split at h
    · next hlt =>
      cases h
      exact ⟨_, List.mem_singleton_self _, hlt.1.symm, rfl⟩
    · cases h
  node_of_wire := by
    intro v w hw
    rw [List.mem_singleton.1 hw, dif_pos ⟨rfl, v.2⟩]
    rfl

def fanoutNetlist : Netlist (Fin 5) (Fin 1) (Fin 3) where
  device := fanoutDevice
  nodeType v := if 2 ≤ v.val then .pinfeedI else .wire
  nets _ := { indirectConns := [idx 0, idx 1, idx 2], xCenter := 0, yCenter := 0, doubleHpwl := 0,
              xmin := 0, xmax := 0, ymin := 0, ymax := 0 }
  strList := ["S", "O", "A", "B", "C"]
  nodeRoutingResults v :=
    if v.val = 0 then ⟨some (idx 0), [idx 1], List.pairwise_singleton _ _⟩
    else if v.val = 1 then ⟨some (idx 0), [idx 2, idx 3], by decide⟩
    else if v.val = 2 then ⟨some (idx 0), [idx 4], List.pairwise_singleton _ _⟩
    else ⟨some (idx 0), [], List.Pairwise.nil⟩

/-- Behind the pin `A` the stub goes on to a pin of a BEL. -/
def fanoutNet : PhysNet where
  sources := [.node (.belPin ⟨0, 0, 1⟩) [.node (.sitePin ⟨0, 1⟩) []]]
  stubs := [.node (.sitePin ⟨0, 2⟩) [.node (.belPin ⟨0, 0, 2⟩) []], .node (.sitePin ⟨0, 3⟩) [],
    .node (.sitePin ⟨0, 4⟩) []]

theorem fanoutNet_reach (v : Fin 5) : Relation.ReflTransGen
    (fun u w => fanoutNetlist.Carries 0 u ∧ w ∈ fanoutNetlist.branches u) 0 v := by
  have hedge : ∀ u w : Fin 5, w ∈ fanoutNetlist.branches u → Relation.ReflTransGen
      (fun u w => fanoutNetlist.Carries 0 u ∧ w ∈ fanoutNetlist.branches u) u w := by
    intro u w hw
    have hall : ∀ u : Fin 5, fanoutNetlist.Carries 0 u := by decide
    exact .single ⟨hall u, hw⟩
  have h₁ := hedge 0 1 (by decide)
  have h₂ := h₁.trans (hedge 1 2 (by decide))
  match v with
  | 0 => exact .refl
  | 1 => exact h₁
  | 2 => exact h₂
  | 3 => exact h₁.trans (hedge 1 3 (by decide))
  | 4 => exact h₂.trans (hedge 2 4 (by decide))

theorem fanoutNet_routed : fanoutNetlist.Routed 0 fanoutNet (0, [0]) 0 where
  stubs_size := by decide
  stub_pin := by decide +kernel
  stub_inj := by decide +kernel
  arborescence :=
    { root_mem := by decide
      closed := by decide
      reach := fun {v} _ => fanoutNet_reach v
      root_not_child := by decide
      parent_unique := by decide +kernel }
  hasPip := by decide +kernel
  pinfeedI_iff := by decide +kernel
  leaf := by decide +kernel
  source_branch := ⟨_, rfl, by decide +kernel⟩

theorem fanoutNet_ready : fanoutNetlist.Ready 0 fanoutNet (0, [0]) 0 where
  toRouted := fanoutNet_routed
  bare := by
    intro rb hrb
    cases hrb
    rfl
  source_pin := by
    rintro ⟨i, addr⟩ rb sp hrb hsp
    rcases i with _ | i
    · rcases addr with _ | ⟨j, addr⟩
      · cases hrb
        cases hsp
      · rcases j with _ | j
        · rcases addr with _ | ⟨k, addr⟩
          · cases hrb
            cases hsp
            exact ⟨0, by decide +kernel, fun _ => rfl⟩
          · cases hrb
        · cases hrb
    · cases hrb

/-- The net is written with four PIPs and its three pins. -/
theorem writeNet_written_fanout : ∃ t out, fanoutNetlist.Spans 0 0 t ∧
    fanoutNetlist.writeNet 5 0 fanoutNet .empty 0 = some out ∧
    fanoutNetlist.Written fanoutNet (0, [0]) .empty 0 t out :=
  writeNet_written fanoutNet_ready .empty 0 (by decide) (by decide)

example : ∃ out ∈ fanoutNetlist.writeNet 5 0 fanoutNet .empty 0,
    out.2.routedPinNum = 3 ∧ out.2.numPIPs = 4 := by
  decide +kernel

/-! A branch that holds one already, at the source pin, and a second branch at that pin. -/

def nestedNet : PhysNet :=
  { fanoutNet with sources := [.node (.sitePin ⟨0, 1⟩) [.node (.belPin ⟨0, 0, 1⟩) []]] }

def doubledNet : PhysNet :=
  { fanoutNet with sources := [.node (.sitePin ⟨0, 1⟩) [], .node (.sitePin ⟨0, 1⟩) []] }

theorem writeNet_nestedNet (fuel : Nat) :
    fanoutNetlist.writeNet fuel 0 nestedNet .empty 0 = none := by
  have hsize : (nestedNet.stubs.length : Int) = (fanoutNetlist.nets 0).getConnectionSize +
      (fanoutNetlist.nets 0).getDirectConnectionSize := by decide
  unfold writeNet
  dsimp only
  rw [if_pos hsize]
  refine Option.bind_eq_none_iff.2 fun stubOf _ => ?_
  have hrun : Worklist.run (fanoutNetlist.visitSource fuel 0 nestedNet.stubs stubOf) fuel
      ⟨nestedNet.sources, .empty, 0, 0⟩ [(0, [])] = none := by
    cases fuel with
    | zero => rfl
    | succ fuel =>
      rw [Worklist.run, visitSource_eq_none rfl (by decide +kernel : fanoutNetlist.pinNode
        (.node (.sitePin ⟨0, 1⟩) [.node (.belPin ⟨0, 0, 1⟩) []]) = some 0) (by decide)
        (List.cons_ne_nil _ _), Option.bind_none]
  rw [show (List.range nestedNet.sources.length).map (fun i => (i, ([] : List Nat))) = [(0, [])] from
    rfl, hrun]
  rfl

theorem writeNet_doubledNet (fuel : Nat) :
    fanoutNetlist.writeNet fuel 0 doubledNet .empty 0 = none := by
  -- with enough fuel the pins are reached twice
  have htwice : ∃ stubOf ∈ fanoutNetlist.sinkPinStub doubledNet.stubs 0 fun _ => none,
      ∃ st ∈ Worklist.run (fanoutNetlist.visitSource 5 0 doubledNet.stubs stubOf) 5
        ⟨doubledNet.sources, .empty, 0, 0⟩ [(0, []), (1, [])], st.routedPinNum = 6 := by
    decide +kernel
  obtain ⟨stubOf, hstubOf, st, hst, hsix⟩ := htwice
  rw [Option.eq_none_iff_forall_ne_some]
  intro out hout
  unfold writeNet at hout
  dsimp only at hout
  obtain ⟨-, hout⟩ := Option.ite_none_right_eq_some.1 hout
  obtain ⟨stubOf', hstubOf', hout⟩ := Option.bind_eq_some_iff.1 hout
  cases Option.mem_unique hstubOf hstubOf'
  obtain ⟨st', hst', hout⟩ := Option.bind_eq_some_iff.1 hout
  obtain ⟨hthree, -⟩ := Option.ite_none_right_eq_some.1 hout
  have hmore := Worklist.run_mono (visitSource_mono (le_max_right fuel 5))
    (le_max_right fuel 5) hst
  have hmore' := Worklist.run_mono (visitSource_mono (le_max_left fuel 5))
    (le_max_left fuel 5) hst'
  cases hmore.symm.trans hmore'
  rw [hsix] at hthree
  cases hthree

/-- **A net that is routed need not be written**: the program stops at a branch of the source pin that
is not bare, and when a second one makes it count every pin twice. -/
theorem routed_not_written :
    (fanoutNetlist.Routed 0 nestedNet (0, []) 0 ∧
      ∀ fuel, fanoutNetlist.writeNet fuel 0 nestedNet .empty 0 = none) ∧
    (fanoutNetlist.Routed 0 doubledNet (0, []) 0 ∧
      ∀ fuel, fanoutNetlist.writeNet fuel 0 doubledNet .empty 0 = none) :=
  ⟨⟨{ fanoutNet_routed with source_branch := ⟨_, rfl, by decide +kernel⟩ }, writeNet_nestedNet⟩,
    { fanoutNet_routed with source_branch := ⟨_, rfl, by decide +kernel⟩ }, writeNet_doubledNet⟩

end Netlist

end Potter
