import Potter.Db.PhysNetlist
import Potter.Db.Pruning
import Potter.Lib.Folds
import Potter.Lib.Worklist

/-!
# The nodes that the netlist reader preserves

`parseNetlist` goes over the nets. A signal net with stubs is to be routed; if it has no source, its
sink pins are kept free. Of the other nets it preserves the clock and the supply nets: the site pins
and the wires of the PIPs in their source trees. Only nodes of interconnect tiles are marked.

The reader walks the trees first in first out (`segmentsOf`). For the site pins it takes a reference to
the front of the queue, pops it and then reads through the reference, which the language leaves
undefined; here the branch that was popped is read. There is no result where the source indexes a
vector out of its range.
-/

namespace Potter

open Lib

/-! ## Segments of a forest -/

def RouteSegment.sitePin? : RouteSegment → Option PhysSitePin
  | .sitePin sp => some sp
  | _ => none

def RouteSegment.pip? : RouteSegment → Option PhysPIP
  | .pip p => some p
  | _ => none

def visitBranch (segments : List RouteSegment) (b : RouteBranch) :
    Option (List RouteSegment × List RouteBranch) :=
  some (segments ++ [b.label], b.children)

/-- The segments of some trees, in the order of the queue. -/
def segmentsOf (branches : List RouteBranch) : Option (List RouteSegment) :=
  Worklist.run visitBranch (branches.map fun b => b.labels.length).sum [] branches

theorem sum_length_children (b : RouteBranch) :
    (b.children.map fun t => t.labels.length).sum < b.labels.length := by
  rcases b with ⟨a, ts⟩
  rw [RoseTree.labels_node, RoseTree.children_node, List.length_cons, List.length_flatMap]
  exact Nat.lt_succ_self _

/-- The walk ends, and passes every segment. -/
theorem segmentsOf_spec (branches : List RouteBranch) :
    ∃ segments, segmentsOf branches = some segments ∧
      ∀ s, s ∈ segments ↔ ∃ b ∈ branches, s ∈ b.labels := by
  -- the segments passed and those below the queue are all there are
  have hrun : ∃ segments, segmentsOf branches = some segments ∧ ∀ s,
      (s ∈ segments ∨ ∃ b ∈ ([] : List RouteBranch), s ∈ b.labels) ↔
        ∃ b ∈ branches, s ∈ b.labels := by
    apply Worklist.run_total (fun (segments : List RouteSegment) (queue : List RouteBranch) => ∀ s,
      (s ∈ segments ∨ ∃ b ∈ queue, s ∈ b.labels) ↔ ∃ b ∈ branches, s ∈ b.labels)
      (fun b : RouteBranch => b.labels.length)
    · intro segments b queue h
      refine ⟨segments ++ [b.label], b.children, rfl, fun s => ?_, sum_length_children b⟩
      rw [← h s]
      rcases b with ⟨a, ts⟩
      simp only [RoseTree.label_node, RoseTree.children_node, List.mem_append, List.mem_cons,
        List.not_mem_nil, or_false, exists_eq_or_imp, RoseTree.labels_node, List.mem_flatMap]
      constructor
      · rintro ((hs | hs) | ⟨t, ht | ht, hs⟩)
        · exact Or.inl hs
        · exact Or.inr (Or.inl (Or.inl hs))
        · exact Or.inr (Or.inr ⟨t, ht, hs⟩)
        · exact Or.inr (Or.inl (Or.inr ⟨t, ht, hs⟩))
      · rintro (hs | (hs | ⟨t, ht, hs⟩) | ⟨t, ht, hs⟩)
        · exact Or.inl (Or.inl hs)
        · exact Or.inl (Or.inr hs)
        · exact Or.inr ⟨t, Or.inr ht, hs⟩
        · exact Or.inr ⟨t, Or.inl ht, hs⟩
    · intro s
      simp
    · exact Nat.le_refl _
  obtain ⟨segments, hsegments, hmem⟩ := hrun
  refine ⟨segments, hsegments, fun s => ?_⟩
  rw [← hmem s]
  simp

def extractSitePins (branches : List RouteBranch) : Option (List PhysSitePin) :=
  (segmentsOf branches).map (List.filterMap RouteSegment.sitePin?)

/-- The first site pin of every tree. -/
def extractSitePinsOneByOne (branches : List RouteBranch) : Option (List PhysSitePin) :=
  (branches.mapM fun b => segmentsOf [b]).map fun trees =>
    trees.filterMap (List.findSome? RouteSegment.sitePin?)

theorem extractSitePins_spec (branches : List RouteBranch) :
    ∃ pins, extractSitePins branches = some pins ∧
      ∀ sp, sp ∈ pins ↔ ∃ b ∈ branches, RouteSegment.sitePin sp ∈ b.labels := by
  obtain ⟨segments, hsegments, hmem⟩ := segmentsOf_spec branches
  refine ⟨segments.filterMap RouteSegment.sitePin?, ?_, fun sp => ?_⟩
  · unfold extractSitePins
    rw [hsegments, Option.map_some]
  · rw [List.mem_filterMap, ← hmem]
    constructor
    · rintro ⟨s, hs, hsp⟩
      cases s with
      | sitePin q =>
        cases hsp
        exact hs
      | belPin _ => cases hsp
      | pip _ => cases hsp
      | sitePIP _ => cases hsp
    · intro hs
      exact ⟨_, hs, rfl⟩

/-! ## Marking nodes -/

namespace Device

variable {V : Type} [DecidableEq V] (device : Device V) (strList : List String)

/-- Only nodes of interconnect tiles are marked. -/
def preserve (marks : V → Bool) (node : V) : V → Bool :=
  if device.tileType node = intTile then Function.update marks node true else marks

def pinNode (sp : PhysSitePin) : Option V := do
  let site ← strList[sp.site]?
  let pin ← strList[sp.pin]?
  device.getSitePinNode site pin

def wireNode (tile wire : Nat) : Option V := do
  let tileName ← strList[tile]?
  let wireName ← strList[wire]?
  device.getNodeIdx tileName wireName

def preservePins (pins : List PhysSitePin) (marks : V → Bool) : Option (V → Bool) :=
  pins.foldlM (fun marks sp => do
    let node ← device.pinNode strList sp
    some (device.preserve marks node)) marks

def preservePips (pips : List PhysPIP) (marks : V → Bool) : Option (V → Bool) :=
  pips.foldlM (fun marks p => do
    let node0 ← device.wireNode strList p.tile p.wire0
    let node1 ← device.wireNode strList p.tile p.wire1
    some (device.preserve (device.preserve marks node0) node1)) marks

def isClkPin (pinName : String) : Bool :=
  ["CLK_OUT", "CLKOUT", "CLKFBOUT"].any fun text => text.toList <:+: pinName.toList

/-- What one net adds to `preservedNodes`. -/
def parseNet (marks : V → Bool) (physNet : PhysNet) : Option (V → Bool) := do
  let sourcePins ← extractSitePins physNet.sources
  if physNet.type = .signal ∧ physNet.stubs ≠ [] then
    let sinkPins ← extractSitePinsOneByOne physNet.stubs
    if sourcePins = [] then device.preservePins strList sinkPins marks else some marks
  else
    let pinNames ← sourcePins.mapM fun sp => strList[sp.pin]?
    let isClkNet := pinNames.any isClkPin
    let isStaticNet := physNet.type = .gnd ∨ physNet.type = .vcc
    if ¬ isClkNet ∧ ¬ isStaticNet then some marks
    else
      let marks ← device.preservePins strList sourcePins marks
      let segments ← segmentsOf physNet.sources
      device.preservePips strList (segments.filterMap RouteSegment.pip?) marks

/-- `preservedNodes`, as the reader leaves it. -/
def parsePreserved (physNets : List PhysNet) : Option (V → Bool) :=
  physNets.foldlM (device.parseNet strList) fun _ => false

/-! ## Which nodes are marked -/

/-- A net whose pins and PIPs are preserved. -/
def IsPreservedNet (physNet : PhysNet) : Prop :=
  ¬ (physNet.type = .signal ∧ physNet.stubs ≠ []) ∧
    (physNet.type = .gnd ∨ physNet.type = .vcc ∨
      ∃ b ∈ physNet.sources, ∃ sp, .sitePin sp ∈ b.labels ∧
        ∃ pinName, strList[sp.pin]? = some pinName ∧ isClkPin pinName = true)

/-- A signal net with stubs and without a source pin. -/
def IsSourceless (physNet : PhysNet) : Prop :=
  physNet.type = .signal ∧ physNet.stubs ≠ [] ∧
    ∀ b ∈ physNet.sources, ∀ sp, .sitePin sp ∉ b.labels

/-- The nodes that one net preserves. -/
inductive PreservedBy (physNet : PhysNet) (v : V) : Prop
  | sitePin {b : RouteBranch} {sp : PhysSitePin} (hnet : IsPreservedNet strList physNet)
      (hb : b ∈ physNet.sources) (hsp : .sitePin sp ∈ b.labels)
      (hv : device.pinNode strList sp = some v) (hint : device.tileType v = intTile)
  | pip {b : RouteBranch} {p : PhysPIP} (hnet : IsPreservedNet strList physNet)
      (hb : b ∈ physNet.sources) (hp : .pip p ∈ b.labels)
      (hv : device.wireNode strList p.tile p.wire0 = some v ∨
        device.wireNode strList p.tile p.wire1 = some v) (hint : device.tileType v = intTile)
  | sinkPin {pins : List PhysSitePin} {sp : PhysSitePin} (hnet : IsSourceless physNet)
      (hpins : extractSitePinsOneByOne physNet.stubs = some pins) (hsp : sp ∈ pins)
      (hv : device.pinNode strList sp = some v) (hint : device.tileType v = intTile)

variable {device strList}

theorem preserve_iff (marks : V → Bool) (node v : V) :
    device.preserve marks node v = true ↔
      marks v = true ∨ (v = node ∧ device.tileType v = intTile) := by
  unfold preserve
  split
  · next hint =>
    rw [Function.update_apply]
    split
    · next hv => simp [hv, hint]
    · next hv => simp [hv]
  · next hint =>
    constructor
    · exact Or.inl
    · rintro (hv | ⟨rfl, hv⟩)
      · exact hv
      · exact absurd hv hint

theorem preservePins_iff {pins : List PhysSitePin} {marks marks' : V → Bool}
    (h : device.preservePins strList pins marks = some marks') (v : V) :
    marks' v = true ↔ marks v = true ∨
      ∃ sp ∈ pins, device.pinNode strList sp = some v ∧ device.tileType v = intTile := by
  refine foldlM_marks (Q := fun sp v => device.pinNode strList sp = some v ∧
    device.tileType v = intTile) (fun {marks marks' sp} hstep v => ?_) h v
  obtain ⟨node, hnode, heq⟩ := Option.bind_eq_some_iff.1 hstep
  cases heq
  rw [preserve_iff, hnode, Option.some_inj, @eq_comm _ v]

theorem preservePips_iff {pips : List PhysPIP} {marks marks' : V → Bool}
    (h : device.preservePips strList pips marks = some marks') (v : V) :
    marks' v = true ↔ marks v = true ∨
      ∃ p ∈ pips, (device.wireNode strList p.tile p.wire0 = some v ∨
        device.wireNode strList p.tile p.wire1 = some v) ∧ device.tileType v = intTile := by
  refine foldlM_marks (Q := fun p v => (device.wireNode strList p.tile p.wire0 = some v ∨
    device.wireNode strList p.tile p.wire1 = some v) ∧ device.tileType v = intTile)
    (fun {marks marks' p} hstep v => ?_) h v
  obtain ⟨node0, hnode0, hstep⟩ := Option.bind_eq_some_iff.1 hstep
  obtain ⟨node1, hnode1, heq⟩ := Option.bind_eq_some_iff.1 hstep
  cases heq
  rw [preserve_iff, preserve_iff, hnode0, hnode1, Option.some_inj, Option.some_inj,
    @eq_comm _ v node0, @eq_comm _ v node1, or_assoc, or_and_right]

theorem mem_filterMap_pip {segments : List RouteSegment} {p : PhysPIP} :
    p ∈ segments.filterMap RouteSegment.pip? ↔ .pip p ∈ segments := by
  rw [List.mem_filterMap]
  constructor
  · rintro ⟨s, hs, hp⟩
    cases s with
    | pip q =>
      cases hp
      exact hs
    | sitePin _ => cases hp
    | belPin _ => cases hp
    | sitePIP _ => cases hp
  · intro hs
    exact ⟨_, hs, rfl⟩

/-- The test that the reader makes on a net that is not routed. -/
theorem isPreservedNet_iff {physNet : PhysNet} {sourcePins : List PhysSitePin}
    {pinNames : List String}
    (hnot : ¬ (physNet.type = .signal ∧ physNet.stubs ≠ []))
    (hpins : ∀ sp, sp ∈ sourcePins ↔ ∃ b ∈ physNet.sources, .sitePin sp ∈ b.labels)
    (hnames : (sourcePins.mapM fun sp => strList[sp.pin]?) = some pinNames) :
    IsPreservedNet strList physNet ↔
      ¬ (¬ pinNames.any isClkPin ∧ ¬ (physNet.type = .gnd ∨ physNet.type = .vcc)) := by
  have hname := mem_of_mapM hnames
  have hclk : pinNames.any isClkPin = true ↔ ∃ b ∈ physNet.sources, ∃ sp,
      .sitePin sp ∈ b.labels ∧ ∃ pinName, strList[sp.pin]? = some pinName ∧
        isClkPin pinName = true := by
    rw [List.any_eq_true]
    constructor
    · rintro ⟨name, hmem, hclk⟩
      obtain ⟨sp, hsp, heq⟩ := (hname name).1 hmem
      obtain ⟨b, hb, hlabel⟩ := (hpins sp).1 hsp
      exact ⟨b, hb, sp, hlabel, name, heq, hclk⟩
    · rintro ⟨b, hb, sp, hlabel, name, heq, hclk⟩
      exact ⟨name, (hname name).2 ⟨sp, (hpins sp).2 ⟨b, hb, hlabel⟩, heq⟩, hclk⟩
  unfold IsPreservedNet
  rw [← hclk, not_and_not_right]
  tauto

theorem parseNet_iff {marks marks' : V → Bool} {physNet : PhysNet}
    (h : device.parseNet strList marks physNet = some marks') (v : V) :
    marks' v = true ↔ marks v = true ∨ device.PreservedBy strList physNet v := by
  unfold parseNet at h
  obtain ⟨sourcePins, hsource, hpins⟩ := extractSitePins_spec physNet.sources
  rw [hsource, Option.bind_eq_bind, Option.bind_some] at h
  split at h
  · next hsignal =>
    have hnot : ¬ IsPreservedNet strList physNet := fun hnet => hnet.1 hsignal
    obtain ⟨sinkPins, hsink, h⟩ := Option.bind_eq_some_iff.1 h
    split at h
    · next hnil =>
      have hsourceless : IsSourceless physNet := by
        refine ⟨hsignal.1, hsignal.2, fun b hb sp hsp => ?_⟩
        have hmem := (hpins sp).2 ⟨b, hb, hsp⟩
        rw [hnil] at hmem
        cases hmem
      rw [preservePins_iff h]
      refine or_congr_right ⟨?_, ?_⟩
      · rintro ⟨sp, hsp, hv, hint⟩
        exact .sinkPin hsourceless hsink hsp hv hint
      · rintro (⟨hnet, -⟩ | ⟨hnet, -⟩ | ⟨-, hpins', hsp, hv, hint⟩)
        · exact absurd hnet hnot
        · exact absurd hnet hnot
        · rw [hsink] at hpins'
          cases hpins'
          exact ⟨_, hsp, hv, hint⟩
    · next hne =>
      cases h
      refine ⟨Or.inl, ?_⟩
      rintro (hv | ⟨hnet, -⟩ | ⟨hnet, -⟩ | ⟨hnet, -⟩)
      · exact hv
      · exact absurd hnet hnot
      · exact absurd hnet hnot
      · obtain ⟨sp, hsp⟩ := List.exists_mem_of_ne_nil _ hne
        obtain ⟨b, hb, hlabel⟩ := (hpins sp).1 hsp
        exact absurd hlabel (hnet.2.2 b hb sp)
  · next hsignal =>
    have hnot : ¬ IsSourceless physNet := fun hnet => hsignal ⟨hnet.1, hnet.2.1⟩
    obtain ⟨pinNames, hnames, h⟩ := Option.bind_eq_some_iff.1 h
    have hpreserved := isPreservedNet_iff hsignal hpins hnames
    dsimp only at h
    split at h
    · next htest =>
      have hnet : ¬ IsPreservedNet strList physNet := fun hnet => hpreserved.1 hnet htest
      cases h
      refine ⟨Or.inl, ?_⟩
      rintro (hv | ⟨hnet', -⟩ | ⟨hnet', -⟩ | ⟨hnet', -⟩)
      · exact hv
      · exact absurd hnet' hnet
      · exact absurd hnet' hnet
      · exact absurd hnet' hnot
    · next htest =>
      have hnet := hpreserved.2 htest
      obtain ⟨marks₁, h₁, h⟩ := Option.bind_eq_some_iff.1 h
      obtain ⟨segments, hsegments, hmem⟩ := segmentsOf_spec physNet.sources
      rw [hsegments, Option.bind_eq_bind, Option.bind_some] at h
      rw [preservePips_iff h, preservePins_iff h₁, or_assoc]
      refine or_congr_right ⟨?_, ?_⟩
      · rintro (⟨sp, hsp, hv, hint⟩ | ⟨p, hp, hv, hint⟩)
        · obtain ⟨b, hb, hlabel⟩ := (hpins sp).1 hsp
          exact .sitePin hnet hb hlabel hv hint
        · obtain ⟨b, hb, hlabel⟩ := (hmem _).1 (mem_filterMap_pip.1 hp)
          exact .pip hnet hb hlabel hv hint
      · rintro (⟨-, hb, hlabel, hv, hint⟩ | ⟨-, hb, hlabel, hv, hint⟩ | ⟨hnet', -⟩)
        · exact Or.inl ⟨_, (hpins _).2 ⟨_, hb, hlabel⟩, hv, hint⟩
        · exact Or.inr ⟨_, mem_filterMap_pip.2 ((hmem _).2 ⟨_, hb, hlabel⟩), hv, hint⟩
        · exact absurd hnet' hnot

/-- **The reader marks the nodes that some net preserves.** -/
theorem parsePreserved_iff {physNets : List PhysNet} {preservedNodes : V → Bool}
    (h : device.parsePreserved strList physNets = some preservedNodes) (v : V) :
    preservedNodes v = true ↔ ∃ physNet ∈ physNets, device.PreservedBy strList physNet v := by
  have hmarks := foldlM_marks (Q := fun physNet v => device.PreservedBy strList physNet v)
    (fun {marks marks' physNet} hstep v => parseNet_iff hstep v) h v
  rw [hmarks]
  simp only [Bool.false_eq_true, false_or]

end Device

end Potter
