import Potter.Lib.Counting
import Potter.Lib.Scheduling
import Potter.Lib.Worklist
import Potter.Route.Cutline
import Potter.Route.State

/-!
# The partition tree

`PartitionTree` splits a list of connections by cut lines until no line has a connection on either
side (`buildTree`). A connection whose box a line cuts goes to the middle child, whose box is the
hull of what it gets. The leaves are then coloured greedily, so that the boxes of two leaves of one
level do not intersect strictly (`schedule`); the leaves of a level are routed in parallel.

A middle child that gets no connection keeps the default box, from `INT_MAX` down to `INT_MIN`; the
subtraction that gives its width wraps around to `2`.
-/

namespace Potter

open Lib

/-- A node without children is a leaf. -/
inductive PartitionTreeNode (C : Type)
  | leaf (connectionIds : List C) (bbox : BoxT)
  | node (connectionIds : List C) (bbox : BoxT) (axis : Axis) (cutlinePos : Int)
      (left right middle : PartitionTreeNode C)
deriving DecidableEq

namespace PartitionTreeNode

variable {C : Type}

def connectionIds : PartitionTreeNode C → List C
  | leaf ids _ => ids
  | node ids _ _ _ _ _ _ => ids

def bbox : PartitionTreeNode C → BoxT
  | leaf _ b => b
  | node _ b _ _ _ _ _ => b

/-- The check that the children of a node share out its connections. The program stops when it
fails. -/
def dfsPrint : PartitionTreeNode C → Option Nat
  | leaf ids _ => some ids.length
  | node ids _ _ _ left right middle =>
    left.dfsPrint.bind fun leftTreeConnCnt =>
      middle.dfsPrint.bind fun middleTreeConnCnt =>
        right.dfsPrint.bind fun rightTreeConnCnt =>
          if ids.length = leftTreeConnCnt + rightTreeConnCnt + middleTreeConnCnt then
            some ids.length
          else none

/-- The number of nodes of a tree. -/
def size : PartitionTreeNode C → Nat
  | leaf _ _ => 1
  | node _ _ _ _ left right middle => 1 + left.size + right.size + middle.size

/-- The leaves of a tree, from left to right. -/
def leaves : PartitionTreeNode C → List (PartitionTreeNode C)
  | leaf ids b => [leaf ids b]
  | node _ _ _ _ left right middle => left.leaves ++ right.leaves ++ middle.leaves

/-- One round of the loop of `getLeafNodes`. -/
def visit (nodes : List (PartitionTreeNode C)) :
    PartitionTreeNode C → Option (List (PartitionTreeNode C) × List (PartitionTreeNode C))
  | leaf ids b => some (nodes ++ [leaf ids b], [])
  | node _ _ _ _ left right middle => some (nodes, [left, right, middle])

/-- The leaves in breadth-first order. The program stops if they do not hold as many connections as
the root. -/
def getLeafNodes (root : PartitionTreeNode C) : Option (List (PartitionTreeNode C)) :=
  (Worklist.run visit root.size [] [root]).bind fun nodes =>
    if (nodes.map fun n => n.connectionIds.length).sum = root.connectionIds.length then some nodes
    else none

/-- Two leaves, given by their indices, whose boxes intersect strictly. The map is filled for
`i < j` and copied to the other half. -/
def HasConflict (treeNodes : List (PartitionTreeNode C)) (i j : Fin treeNodes.length) : Prop :=
  i < j ∧ (treeNodes.get i).bbox.HasStrictIntersectWith (treeNodes.get j).bbox ∨
    j < i ∧ (treeNodes.get j).bbox.HasStrictIntersectWith (treeNodes.get i).bbox

instance (treeNodes : List (PartitionTreeNode C)) : DecidableRel (HasConflict treeNodes) :=
  fun _ _ => inferInstanceAs (Decidable (_ ∨ _))

/-- The levels: leaves with more connections are placed first. -/
def schedule (sorter : Sorter) (treeNodes : List (PartitionTreeNode C)) :
    List (List (PartitionTreeNode C)) :=
  let sortedTreeNodeIds := sorter.sort
    (fun l r => (treeNodes.get l).connectionIds.length > (treeNodes.get r).connectionIds.length)
    (List.finRange treeNodes.length)
  (greedy (HasConflict treeNodes) sortedTreeNodeIds).map fun ids => ids.map treeNodes.get

end PartitionTreeNode

namespace Database

variable {K : Type} (D : Database K)

/-- A connection as something to be cut, relative to the extent of the node. -/
def cutItem (span : IntervalT) (axis : Axis) (c : D.ConnId) : CutItem where
  start := max span.low ((D.bbox c).along axis).low - span.low
  stop := min span.high ((D.bbox c).along axis).high - span.low
  weight := 1

def balanceScore [Arith K] (before after : Int) : K :=
  ((|before - after| : Int) : K) * (1 : Int) / ((max before after : Int) : K)

def scanAxis [Arith K] (ids : List D.ConnId) (bbox : BoxT) (axis : Axis) (best : BestCut K) :
    Option (BestCut K) :=
  let span := bbox.along axis
  scanCuts balanceScore axis span.low (toInt32 (span.high - span.low + 1))
    (ids.map (D.cutItem span axis)) best

/-- The best cut line of a node, along the columns first. -/
def findCut [Arith K] (ids : List D.ConnId) (bbox : BoxT) : Option (BestCut K) :=
  (D.scanAxis ids bbox .x .init).bind (D.scanAxis ids bbox .y)

/-- The box of a connection ends at or before the cut line. -/
def EndsBefore (axis : Axis) (pos : Int) (c : D.ConnId) : Prop :=
  ((D.bbox c).along axis).high ≤ pos

/-- The box of a connection starts at or after the cut line. -/
def StartsAfter (axis : Axis) (pos : Int) (c : D.ConnId) : Prop :=
  pos ≤ ((D.bbox c).along axis).low

instance (axis : Axis) (pos : Int) : DecidablePred (D.EndsBefore axis pos) :=
  fun _ => inferInstanceAs (Decidable (_ ≤ _))

instance (axis : Axis) (pos : Int) : DecidablePred (D.StartsAfter axis pos) :=
  fun _ => inferInstanceAs (Decidable (_ ≤ _))

def leftIds (axis : Axis) (pos : Int) (ids : List D.ConnId) : List D.ConnId :=
  ids.filter fun c => D.EndsBefore axis pos c

def rightIds (axis : Axis) (pos : Int) (ids : List D.ConnId) : List D.ConnId :=
  (ids.filter fun c => ¬D.EndsBefore axis pos c).filter fun c => D.StartsAfter axis pos c

def middleIds (axis : Axis) (pos : Int) (ids : List D.ConnId) : List D.ConnId :=
  (ids.filter fun c => ¬D.EndsBefore axis pos c).filter fun c => ¬D.StartsAfter axis pos c

/-- The box of the middle child. -/
def hull (ids : List D.ConnId) : BoxT :=
  ids.foldl (fun b c => (b.update (D.bbox c).lx (D.bbox c).ly).update (D.bbox c).hx (D.bbox c).hy)
    .empty

def buildTree [Arith K] : Nat → List D.ConnId → BoxT → Option (PartitionTreeNode D.ConnId)
  | 0, _, _ => none
  | fuel + 1, ids, bbox => (D.findCut ids bbox).bind fun best =>
    if best.bestPos ≠ intMax then
      let axis := best.bestAxis
      let pos := best.bestPos
      let span := bbox.along axis
      let middle := D.middleIds axis pos ids
      (buildTree fuel (D.leftIds axis pos ids) (bbox.setAlong ⟨span.low, pos⟩ axis)).bind fun l =>
      (buildTree fuel (D.rightIds axis pos ids) (bbox.setAlong ⟨pos, span.high⟩ axis)).bind fun r =>
      (buildTree fuel middle (D.hull middle)).bind fun m =>
        some (.node ids bbox axis pos l r m)
    else some (.leaf ids bbox)

/-- The constructor of `PartitionTree`. Every child has fewer connections than its parent. -/
def partitionTree [Arith K] (ids : List D.ConnId) (bbox : BoxT) : Option (PartitionTreeNode D.ConnId) :=
  D.buildTree (ids.length + 1) ids bbox

/-- A tree with the levels of its leaves, as both users of the tree make it. -/
def scheduledTree [Arith K] (sorter : Sorter) (ids : List D.ConnId) (bbox : BoxT) :
    Option (List (List (PartitionTreeNode D.ConnId))) :=
  (D.partitionTree ids bbox).bind fun tree =>
    tree.dfsPrint.bind fun _ =>
      tree.getLeafNodes.map (PartitionTreeNode.schedule sorter)

/-- The union of the boxes of some connections. -/
def unionBBox (ids : List D.ConnId) : BoxT :=
  ids.foldl (fun b c => b.unionWith (D.bbox c)) .empty

/-! ## Boxes that fit -/

section Fits

/-- The box of a connection has a point inside, and is in range. -/
structure WellBoxed (c : D.ConnId) : Prop where
  wide : ∀ axis, ((D.bbox c).along axis).low + 2 ≤ ((D.bbox c).along axis).high
  range : ∀ axis, ((D.bbox c).along axis).InRange

/-- The box of a node fits its connections. -/
structure Fits (ids : List D.ConnId) (bbox : BoxT) : Prop where
  contains : ∀ c ∈ ids, bbox.Contains (D.bbox c)
  range : ∀ axis, (bbox.along axis).InRange
  empty : ids = [] → bbox = .empty

/-- A cut line with a connection on either side. -/
structure Splits (ids : List D.ConnId) (bbox : BoxT) (axis : Axis) (pos : Int) : Prop where
  low_lt : (bbox.along axis).low < pos
  lt_high : pos < (bbox.along axis).high
  left : ∃ c ∈ ids, D.EndsBefore axis pos c
  right : ∃ c ∈ ids, pos < ((D.bbox c).along axis).low

variable {D} {ids : List D.ConnId} {bbox : BoxT} {axis : Axis} {pos : Int}

/-- The width of a node with connections is computed without overflow. -/
theorem Fits.size_eq (h : D.Fits ids bbox) {c : D.ConnId} (hc : c ∈ ids) (hbox : D.WellBoxed c)
    (axis : Axis) :
    toInt32 ((bbox.along axis).high - (bbox.along axis).low + 1) =
      (bbox.along axis).high - (bbox.along axis).low + 1 := by
  have hcont := BoxT.contains_iff.1 (h.contains c hc) axis
  have hwide := hbox.wide axis
  have hrange := h.range axis
  unfold IntervalT.Contains at hcont
  unfold IntervalT.InRange intMax at hrange
  apply toInt32_of_range
  · unfold intMin
    omega
  · unfold intMax
    omega

theorem Fits.two_le_size (h : D.Fits ids bbox) (hbox : ∀ c ∈ ids, D.WellBoxed c) (axis : Axis) :
    2 ≤ toInt32 ((bbox.along axis).high - (bbox.along axis).low + 1) := by
  cases ids with
  | nil =>
    rw [h.empty rfl]
    cases axis <;> decide
  | cons c ids =>
    have hc : c ∈ c :: ids := List.mem_cons_self
    have hcont := BoxT.contains_iff.1 (h.contains c hc) axis
    have hwide := (hbox c hc).wide axis
    unfold IntervalT.Contains at hcont
    rw [h.size_eq hc (hbox c hc) axis]
    omega

theorem Fits.findCut_isSome [Arith K] (h : D.Fits ids bbox) (hbox : ∀ c ∈ ids, D.WellBoxed c) :
    ∃ best, D.findCut ids bbox = some best := by
  obtain ⟨best, hbest⟩ := scanCuts_isSome (h.two_le_size hbox .x) (.init : BestCut K)
  obtain ⟨best', hbest'⟩ := scanCuts_isSome (h.two_le_size hbox .y) best
  refine ⟨best', ?_⟩
  unfold findCut scanAxis
  rw [hbest]
  exact hbest'

/-- A position found along an axis splits the connections. If the width overflows, it gets smaller. -/
theorem splits_of_isCut (hle : (bbox.along axis).low ≤ (bbox.along axis).high)
    (hcut : IsCut (bbox.along axis).low (toInt32 ((bbox.along axis).high - (bbox.along axis).low + 1))
      (ids.map (D.cutItem (bbox.along axis) axis)) pos) : D.Splits ids bbox axis pos := by
  obtain ⟨i, hi, hstop⟩ := hcut.before
  obtain ⟨j, hj, hstart⟩ := hcut.after
  obtain ⟨c, hc, rfl⟩ := List.mem_map.1 hi
  obtain ⟨d, hd, rfl⟩ := List.mem_map.1 hj
  have hlow := hcut.low_lt
  have hhigh := hcut.lt_high
  have hsize := toInt32_le (z := (bbox.along axis).high - (bbox.along axis).low + 1) (by omega)
  unfold cutItem at hstop hstart
  dsimp only at hstop hstart
  refine ⟨hlow, by omega, ⟨c, hc, ?_⟩, ⟨d, hd, by omega⟩⟩
  unfold EndsBefore
  omega

/-- A node with connections has a column and a row. -/
theorem Fits.low_le_high (h : D.Fits ids bbox) (hbox : ∀ c ∈ ids, D.WellBoxed c) (hne : ids ≠ [])
    (axis : Axis) : (bbox.along axis).low ≤ (bbox.along axis).high := by
  obtain ⟨c, hc⟩ := List.exists_mem_of_ne_nil _ hne
  have hcont := BoxT.contains_iff.1 (h.contains c hc) axis
  have hwide := (hbox c hc).wide axis
  unfold IntervalT.Contains at hcont
  omega

/-- **A cut line that is found splits the connections.** -/
theorem Fits.findCut_spec [Arith K] (h : D.Fits ids bbox) (hbox : ∀ c ∈ ids, D.WellBoxed c)
    {best : BestCut K} (hfind : D.findCut ids bbox = some best) (hne : best.bestPos ≠ intMax) :
    D.Splits ids bbox best.bestAxis best.bestPos := by
  have hsplits : ∀ axis pos, IsCut (bbox.along axis).low
      (toInt32 ((bbox.along axis).high - (bbox.along axis).low + 1))
      (ids.map (D.cutItem (bbox.along axis) axis)) pos → D.Splits ids bbox axis pos := by
    intro axis pos hcut
    obtain ⟨i, hi, -⟩ := hcut.before
    obtain ⟨c, hc, -⟩ := List.mem_map.1 hi
    exact splits_of_isCut (h.low_le_high hbox (List.ne_nil_of_mem hc) axis) hcut
  obtain ⟨first, hfirst, hsecond⟩ := Option.bind_eq_some_iff.1 hfind
  rcases scanCuts_spec hsecond with rfl | ⟨haxis, hcut⟩
  · rcases scanCuts_spec hfirst with rfl | ⟨haxis, hcut⟩
    · exact absurd rfl hne
    · rw [haxis]
      exact hsplits _ _ hcut
  · rw [haxis]
    exact hsplits _ _ hcut

end Fits

/-! ## The children of a node -/

section Children

variable {D} {ids : List D.ConnId} {bbox : BoxT} {axis : Axis} {pos : Int}

/-- The children share out the connections. -/
theorem childIds_perm (axis : Axis) (pos : Int) (ids : List D.ConnId) :
    (D.leftIds axis pos ids ++ D.rightIds axis pos ids ++ D.middleIds axis pos ids).Perm ids := by
  have hsplit := List.filter_append_perm (fun c => decide (D.StartsAfter axis pos c))
    (ids.filter fun c => ¬D.EndsBefore axis pos c)
  have hall := List.filter_append_perm (fun c => decide (D.EndsBefore axis pos c)) ids
  simp only [← decide_not] at hsplit hall
  rw [List.append_assoc]
  exact (hsplit.append_left _).trans hall

theorem mem_of_mem_leftIds {c : D.ConnId} (h : c ∈ D.leftIds axis pos ids) : c ∈ ids :=
  (List.mem_filter.1 h).1

theorem mem_of_mem_rightIds {c : D.ConnId} (h : c ∈ D.rightIds axis pos ids) : c ∈ ids :=
  (List.mem_filter.1 (List.mem_filter.1 h).1).1

theorem mem_of_mem_middleIds {c : D.ConnId} (h : c ∈ D.middleIds axis pos ids) : c ∈ ids :=
  (List.mem_filter.1 (List.mem_filter.1 h).1).1

/-- A node's box, cut down along the axis, still holds the boxes on that side of the line. -/
theorem Fits.side (h : D.Fits ids bbox) {side : List D.ConnId} (hside : ∀ c ∈ side, c ∈ ids)
    (hne : side ≠ []) {i : IntervalT} (hi : (bbox.along axis).Contains i)
    (hcont : ∀ c ∈ side, i.Contains ((D.bbox c).along axis)) :
    D.Fits side (bbox.setAlong i axis) where
  contains c hc := by
    rw [BoxT.contains_iff]
    intro other
    rw [BoxT.along_setAlong]
    split
    · rename_i heq
      rw [heq]
      exact hcont c hc
    · exact BoxT.contains_iff.1 (h.contains c (hside c hc)) other
  range other := by
    rw [BoxT.along_setAlong]
    split
    · exact ⟨(h.range axis).1.trans hi.1, hi.2.trans (h.range axis).2⟩
    · exact h.range other
  empty h := absurd h hne

/-- The hull of some connections holds their boxes. -/
theorem hull_contains (ids : List D.ConnId) : ∀ c ∈ ids, (D.hull ids).Contains (D.bbox c) := by
  have hgen : ∀ (l : List D.ConnId) (b : BoxT),
      let hull := l.foldl (fun b c =>
        (b.update (D.bbox c).lx (D.bbox c).ly).update (D.bbox c).hx (D.bbox c).hy) b
      hull.Contains b ∧ ∀ c ∈ l, hull.Contains (D.bbox c) := by
    intro l
    induction l with
    | nil => exact fun b => ⟨.refl b, fun _ h => absurd h List.not_mem_nil⟩
    | cons c l ih =>
      intro b
      obtain ⟨hstart, hrest⟩ := ih ((b.update (D.bbox c).lx (D.bbox c).ly).update
        (D.bbox c).hx (D.bbox c).hy)
      refine ⟨hstart.trans ((BoxT.contains_update _ _ _).trans (BoxT.contains_update _ _ _)), ?_⟩
      intro d hd
      rcases List.mem_cons.1 hd with rfl | hd
      · exact hstart.trans (BoxT.contains_update_corners b _)
      · exact hrest d hd
  exact (hgen ids .empty).2

theorem fits_hull (hbox : ∀ c ∈ ids, D.WellBoxed c) : D.Fits ids (D.hull ids) where
  contains := hull_contains ids
  range axis := by
    unfold hull
    refine List.foldlRecOn (motive := fun b : BoxT => (b.along axis).InRange) ids _ ?_ ?_
    · cases axis <;> exact IntervalT.inRange_empty
    · intro b hb c hc
      have hwide := (hbox c hc).wide axis
      rw [BoxT.along_update_corners]
      apply hb.update ((hbox c hc).range axis)
      unfold IntervalT.IsValid
      omega
  empty h := by
    rw [h]
    rfl

theorem WellBoxed.isValid {c : D.ConnId} (h : D.WellBoxed c) : (D.bbox c).IsValid := by
  have hx := h.wide .x
  have hy := h.wide .y
  constructor
  · show (D.bbox c).x.low ≤ (D.bbox c).x.high
    simp only [BoxT.along] at hx
    omega
  · show (D.bbox c).y.low ≤ (D.bbox c).y.high
    simp only [BoxT.along] at hy
    omega

/-- The box given to the root. -/
theorem fits_unionBBox (hbox : ∀ c ∈ ids, D.WellBoxed c) : D.Fits ids (D.unionBBox ids) := by
  have hgen : ∀ (l : List D.ConnId) (b : BoxT), (∀ axis, (b.along axis).InRange) →
      (∀ c ∈ l, D.WellBoxed c) →
      let union := l.foldl (fun b c => b.unionWith (D.bbox c)) b
      (b.IsValid → union.Contains b) ∧ (∀ c ∈ l, union.Contains (D.bbox c)) ∧
        ∀ axis, (union.along axis).InRange := by
    intro l
    induction l with
    | nil => exact fun b hb _ => ⟨fun _ => .refl b, fun _ h => absurd h List.not_mem_nil, hb⟩
    | cons c l ih =>
      intro b hb hl
      have hc := hl c List.mem_cons_self
      have hgrown : ∀ axis, ((b.unionWith (D.bbox c)).along axis).InRange := by
        intro axis
        rw [BoxT.along_unionWith]
        exact (hb axis).unionWith (hc.range axis)
      obtain ⟨hstart, hrest, hend⟩ := ih _ hgrown fun d hd => hl d (List.mem_cons_of_mem c hd)
      have hunion := hstart (BoxT.isValid_unionWith b hc.isValid)
      refine ⟨fun hb => hunion.trans (BoxT.contains_unionWith_left hb _), ?_, hend⟩
      intro d hd
      rcases List.mem_cons.1 hd with rfl | hd
      · exact hunion.trans (BoxT.contains_unionWith_right b hc.isValid)
      · exact hrest d hd
  have hempty : ∀ axis, (BoxT.empty.along axis).InRange := by
    intro axis
    cases axis <;> exact IntervalT.inRange_empty
  obtain ⟨-, hcont, hrange⟩ := hgen ids .empty hempty hbox
  exact ⟨hcont, hrange, fun h => by rw [h]; rfl⟩

end Children

/-! ## The tree -/

section Tree

variable {D} {ids : List D.ConnId} {bbox : BoxT} {axis : Axis} {pos : Int}

/-- What is known of a tree built for some connections. -/
structure Built (D : Database K) (ids : List D.ConnId) (t : PartitionTreeNode D.ConnId) : Prop where
  connectionIds_eq : t.connectionIds = ids
  leafIds : (t.leaves.flatMap PartitionTreeNode.connectionIds).Perm ids
  contained : ∀ n ∈ t.leaves, ∀ c ∈ n.connectionIds, n.bbox.Contains (D.bbox c)
  count : t.dfsPrint = some ids.length

theorem Splits.left_ne_nil (h : D.Splits ids bbox axis pos) : D.leftIds axis pos ids ≠ [] := by
  obtain ⟨c, hc, hend⟩ := h.left
  exact List.ne_nil_of_mem (List.mem_filter.2 ⟨hc, decide_eq_true hend⟩)

theorem Splits.right_ne_nil (h : D.Splits ids bbox axis pos)
    (hvalid : ∀ c ∈ ids, (D.bbox c).IsValid) : D.rightIds axis pos ids ≠ [] := by
  obtain ⟨c, hc, hlt⟩ := h.right
  have hle := BoxT.low_le_high (hvalid c hc) axis
  have hnot : ¬D.EndsBefore axis pos c := by
    unfold EndsBefore
    omega
  exact List.ne_nil_of_mem (List.mem_filter.2
    ⟨List.mem_filter.2 ⟨hc, decide_eq_true hnot⟩, decide_eq_true (le_of_lt hlt)⟩)

/-- Every child has fewer connections, since the line leaves one on either side. -/
theorem Splits.length_lt (h : D.Splits ids bbox axis pos) (hvalid : ∀ c ∈ ids, (D.bbox c).IsValid) :
    (D.leftIds axis pos ids).length < ids.length ∧ (D.rightIds axis pos ids).length < ids.length ∧
      (D.middleIds axis pos ids).length < ids.length := by
  have hlen := (childIds_perm axis pos ids).length_eq
  rw [List.length_append, List.length_append] at hlen
  have hl := List.length_pos_of_ne_nil h.left_ne_nil
  have hr := List.length_pos_of_ne_nil (h.right_ne_nil hvalid)
  omega

/-- The boxes of the children fit. -/
theorem Splits.fits (h : D.Splits ids bbox axis pos) (hfits : D.Fits ids bbox)
    (hbox : ∀ c ∈ ids, D.WellBoxed c) :
    D.Fits (D.leftIds axis pos ids) (bbox.setAlong ⟨(bbox.along axis).low, pos⟩ axis) ∧
      D.Fits (D.rightIds axis pos ids) (bbox.setAlong ⟨pos, (bbox.along axis).high⟩ axis) ∧
      D.Fits (D.middleIds axis pos ids) (D.hull (D.middleIds axis pos ids)) := by
  have hspan : ∀ c ∈ ids, (bbox.along axis).Contains ((D.bbox c).along axis) :=
    fun c hc => BoxT.contains_iff.1 (hfits.contains c hc) axis
  refine ⟨?_, ?_, ?_⟩
  · refine hfits.side (fun c hc => mem_of_mem_leftIds hc) h.left_ne_nil
      ⟨le_refl _, le_of_lt h.lt_high⟩ ?_
    intro c hc
    obtain ⟨hmem, hend⟩ := List.mem_filter.1 hc
    exact ⟨(hspan c hmem).1, of_decide_eq_true hend⟩
  · refine hfits.side (fun c hc => mem_of_mem_rightIds hc)
      (h.right_ne_nil fun c hc => (hbox c hc).isValid) ⟨le_of_lt h.low_lt, le_refl _⟩ ?_
    intro c hc
    obtain ⟨hmem, hstart⟩ := List.mem_filter.1 hc
    exact ⟨of_decide_eq_true hstart, (hspan c (List.mem_filter.1 hmem).1).2⟩
  · exact fits_hull fun c hc => hbox c (mem_of_mem_middleIds hc)

theorem built_leaf (hfits : D.Fits ids bbox) : D.Built ids (.leaf ids bbox) where
  connectionIds_eq := rfl
  leafIds := by
    show (ids ++ []).Perm ids
    rw [List.append_nil]
  contained n hn := by
    rw [List.mem_singleton.1 hn]
    exact hfits.contains
  count := rfl

theorem built_node {l r m : PartitionTreeNode D.ConnId}
    (hl : D.Built (D.leftIds axis pos ids) l) (hr : D.Built (D.rightIds axis pos ids) r)
    (hm : D.Built (D.middleIds axis pos ids) m) :
    D.Built ids (.node ids bbox axis pos l r m) where
  connectionIds_eq := rfl
  leafIds := by
    unfold PartitionTreeNode.leaves
    rw [List.flatMap_append, List.flatMap_append]
    exact ((hl.leafIds.append hr.leafIds).append hm.leafIds).trans (childIds_perm axis pos ids)
  contained n hn := by
    rcases List.mem_append.1 hn with hn | hn
    · rcases List.mem_append.1 hn with hn | hn
      · exact hl.contained n hn
      · exact hr.contained n hn
    · exact hm.contained n hn
  count := by
    have hlen := (childIds_perm axis pos ids).length_eq
    rw [List.length_append, List.length_append] at hlen
    unfold PartitionTreeNode.dfsPrint
    rw [hl.count, hr.count, hm.count]
    exact if_pos hlen.symm

/-- **Every list of connections has a tree.** A child has fewer connections than its parent, since
the line leaves one on either side. -/
theorem buildTree_built [Arith K] {fuel : Nat} (hfits : D.Fits ids bbox) (hbox : ∀ c ∈ ids, D.WellBoxed c)
    (hfuel : ids.length < fuel) : ∃ t, D.buildTree fuel ids bbox = some t ∧ D.Built ids t := by
  induction fuel generalizing ids bbox with
  | zero => exact absurd hfuel (Nat.not_lt_zero _)
  | succ fuel ih =>
    obtain ⟨best, hbest⟩ := hfits.findCut_isSome hbox
    unfold buildTree
    rw [hbest, Option.bind_some]
    split
    case isFalse => exact ⟨_, rfl, built_leaf hfits⟩
    rename_i hne
    have hsplit := hfits.findCut_spec hbox hbest hne
    obtain ⟨hleft, hright, hmiddle⟩ := hsplit.fits hfits hbox
    obtain ⟨hl, hr, hm⟩ := hsplit.length_lt fun c hc => (hbox c hc).isValid
    obtain ⟨l, hlrun, hlbuilt⟩ := ih hleft
      (fun c hc => hbox c (mem_of_mem_leftIds hc)) (by omega)
    obtain ⟨r, hrrun, hrbuilt⟩ := ih hright
      (fun c hc => hbox c (mem_of_mem_rightIds hc)) (by omega)
    obtain ⟨m, hmrun, hmbuilt⟩ := ih hmiddle
      (fun c hc => hbox c (mem_of_mem_middleIds hc)) (by omega)
    refine ⟨.node ids bbox _ _ l r m, ?_, built_node hlbuilt hrbuilt hmbuilt⟩
    dsimp only
    rw [hlrun, Option.bind_some, hrrun, Option.bind_some, hmrun]
    rfl

end Tree

end Database

/-! ## The leaves and their levels -/

namespace PartitionTreeNode

variable {C : Type}

/-- One round of the loop takes a node's leaves from the queue to the result, or its children's. -/
theorem visit_spec (nodes : List (PartitionTreeNode C)) (n : PartitionTreeNode C) :
    ∃ nodes' new, visit nodes n = some (nodes', new) ∧
      nodes' ++ new.flatMap leaves = nodes ++ n.leaves ∧ (new.map size).sum < n.size := by
  cases n with
  | leaf ids b =>
    refine ⟨_, _, rfl, ?_, Nat.zero_lt_one⟩
    rw [List.flatMap_nil, List.append_nil]
    rfl
  | node ids b axis pos l r m =>
    refine ⟨_, _, rfl, ?_, ?_⟩
    · simp only [List.flatMap_cons, List.flatMap_nil, List.append_nil, leaves, List.append_assoc]
    · simp only [List.map_cons, List.map_nil, List.sum_cons, List.sum_nil, size]
      omega

/-- **`getLeafNodes` finds every leaf once**, and stops only if they do not add up. -/
theorem getLeafNodes_perm {root : PartitionTreeNode C}
    (hcount : (root.leaves.flatMap connectionIds).length = root.connectionIds.length) :
    ∃ nodes, root.getLeafNodes = some nodes ∧ nodes.Perm root.leaves := by
  -- The leaves found and those below the queue are the leaves of the tree.
  have hrun : ∃ nodes, Worklist.run visit root.size [] [root] = some nodes ∧
      (nodes ++ [].flatMap leaves).Perm root.leaves := by
    apply Worklist.run_total (fun nodes q => (nodes ++ q.flatMap leaves).Perm root.leaves) size
    · intro nodes n q h
      obtain ⟨nodes', new, hvisit, heq, hlt⟩ := visit_spec nodes n
      refine ⟨nodes', new, hvisit, ?_, hlt⟩
      rw [List.flatMap_cons] at h
      rw [List.flatMap_append]
      refine (List.perm_append_comm.append_left nodes').trans ?_
      rw [← List.append_assoc, heq, List.append_assoc]
      exact h
    · rw [List.nil_append, List.flatMap_singleton]
    · simp
  obtain ⟨nodes, hrun, hperm⟩ := hrun
  rw [List.flatMap_nil, List.append_nil] at hperm
  refine ⟨nodes, ?_, hperm⟩
  unfold getLeafNodes
  rw [hrun, Option.bind_some, if_pos]
  rw [(hperm.map fun n => n.connectionIds.length).sum_eq, ← hcount, List.length_flatMap]

theorem hasConflict_symm {treeNodes : List (PartitionTreeNode C)} {i j : Fin treeNodes.length}
    (h : HasConflict treeNodes i j) : HasConflict treeNodes j i :=
  h.symm

/-- Every leaf is in one level. -/
theorem schedule_perm (sorter : Sorter) (treeNodes : List (PartitionTreeNode C)) :
    (schedule sorter treeNodes).flatten.Perm treeNodes := by
  unfold schedule
  rw [← List.map_flatten]
  have hids : (greedy (HasConflict treeNodes) (sorter.sort (fun l r =>
      (treeNodes.get l).connectionIds.length > (treeNodes.get r).connectionIds.length)
      (List.finRange treeNodes.length))).flatten.Perm (List.finRange treeNodes.length) :=
    (greedy_perm _).trans (sorter.perm _ _)
  have hget := hids.map treeNodes.get
  rw [List.map_get_finRange] at hget
  exact hget

/-- The boxes of two leaves of one level do not intersect strictly. -/
theorem schedule_pairwise (sorter : Sorter) (treeNodes : List (PartitionTreeNode C)) :
    ∀ level ∈ schedule sorter treeNodes,
      level.Pairwise fun n m => ¬n.bbox.HasStrictIntersectWith m.bbox := by
  intro level hlevel
  obtain ⟨ids, hids, rfl⟩ := List.mem_map.1 hlevel
  have hnodup : ids.Nodup := by
    refine (List.nodup_flatten.1 ?_).1 ids hids
    exact ((greedy_perm _).trans (sorter.perm _ _)).nodup_iff.2 (List.nodup_finRange _)
  have hfree := greedy_pairwise hasConflict_symm _ ids hids
  rw [List.pairwise_map]
  refine (hnodup.and hfree).imp ?_
  rintro i j ⟨hne, hno⟩ hmeet
  rcases lt_or_gt_of_ne hne with hlt | hgt
  · exact hno (.inl ⟨hlt, hmeet⟩)
  · exact hno (.inr ⟨hgt, hmeet.symm⟩)

end PartitionTreeNode

/-! ## Levels without conflicts -/

namespace Database

variable {K : Type}

/-- The levels of a list of connections are complete and free of conflicts. -/
structure ConflictFree (D : Database K) (ids : List D.ConnId)
    (leaves : List (PartitionTreeNode D.ConnId)) (levels : List (List (PartitionTreeNode D.ConnId))) :
    Prop where
  leafIds : (leaves.flatMap PartitionTreeNode.connectionIds).Perm ids
  once : ∀ c ∈ ids, leaves.countP (fun n => c ∈ n.connectionIds) = 1
  scheduled : levels.flatten.Perm leaves
  contained : ∀ n ∈ leaves, ∀ c ∈ n.connectionIds, n.bbox.Contains (D.bbox c)
  apart : ∀ level ∈ levels, level.Pairwise fun n m =>
    ∀ c ∈ n.connectionIds, ∀ d ∈ m.connectionIds,
      D.netOf c ≠ D.netOf d ∧ ∀ px py, ¬((D.bbox c).Inside px py ∧ (D.bbox d).Inside px py)

/-- The boxes that `updateIndirectConnectionBBox` computes are in range. -/
theorem wellBoxed_update (D : Database K) {xMargin yMargin : Int}
    (hx : D.layout.hx ≤ intMax - 2) (hy : D.layout.hy ≤ intMax - 2)
    {c : (D.updateIndirectConnectionBBox xMargin yMargin).ConnId} {r : D.NodeId}
    (h : (D.updateIndirectConnectionBBox xMargin yMargin).InBox c r) :
    (D.updateIndirectConnectionBBox xMargin yMargin).WellBoxed c := by
  obtain ⟨⟨hlx, hhx⟩, hly, hhy⟩ := h
  have hbox : (D.updateIndirectConnectionBBox xMargin yMargin).bbox c =
    (D.indirectConnections c).grownBBox D.layout xMargin yMargin := rfl
  refine ⟨fun axis => ?_, fun axis => ?_⟩
  · cases axis with
    | x => dsimp only [BoxT.along]; omega
    | y => dsimp only [BoxT.along]; omega
  · rw [hbox]
    unfold IntervalT.InRange Connection.grownBBox BoxT.set
    cases axis with
    | x => constructor <;> dsimp only [BoxT.along] <;> split <;> omega
    | y => constructor <;> dsimp only [BoxT.along] <;> split <;> omega

/-- The tree is built and its leaves are found. -/
theorem Fits.getLeafNodes_isSome [Arith K] {D : Database K} {ids : List D.ConnId} {bbox : BoxT}
    (hfits : D.Fits ids bbox) (hbox : ∀ c ∈ ids, D.WellBoxed c) :
    ∃ tree leaves, D.partitionTree ids bbox = some tree ∧ D.Built ids tree ∧
      tree.getLeafNodes = some leaves ∧ leaves.Perm tree.leaves := by
  obtain ⟨tree, htree, hbuilt⟩ := buildTree_built hfits hbox (Nat.lt_succ_self _)
  have hcount : (tree.leaves.flatMap PartitionTreeNode.connectionIds).length =
      tree.connectionIds.length := by
    rw [hbuilt.leafIds.length_eq, hbuilt.connectionIds_eq]
  obtain ⟨leaves, hleaves, hperm⟩ := PartitionTreeNode.getLeafNodes_perm hcount
  exact ⟨tree, leaves, htree, hbuilt, hleaves, hperm⟩

/-- A tree of connections with boxes is always built and scheduled. -/
theorem scheduledTree_isSome [Arith K] {D : Database K} (ids : List D.ConnId)
    (hbox : ∀ c ∈ ids, D.WellBoxed c) (sorter : Sorter) :
    ∃ levels, D.scheduledTree sorter ids (D.unionBBox ids) = some levels := by
  obtain ⟨tree, leaves, htree, hbuilt, hleaves, -⟩ := (fits_unionBBox hbox).getLeafNodes_isSome hbox
  refine ⟨PartitionTreeNode.schedule sorter leaves, ?_⟩
  unfold scheduledTree
  rw [htree, Option.bind_some, hbuilt.count, Option.bind_some, hleaves]
  rfl

/-- The levels of a scheduled tree hold the connections it was made for. -/
theorem scheduledTree_perm [Arith K] {D : Database K} {ids : List D.ConnId} {sorter : Sorter}
    {levels : List (List (PartitionTreeNode D.ConnId))} (hbox : ∀ c ∈ ids, D.WellBoxed c)
    (h : D.scheduledTree sorter ids (D.unionBBox ids) = some levels) :
    (levels.flatten.flatMap PartitionTreeNode.connectionIds).Perm ids := by
  obtain ⟨tree, leaves, htree, hbuilt, hleaves, hperm⟩ :=
    (fits_unionBBox hbox).getLeafNodes_isSome hbox
  unfold scheduledTree at h
  rw [htree, Option.bind_some, hbuilt.count, Option.bind_some, hleaves] at h
  cases h
  exact ((PartitionTreeNode.schedule_perm sorter leaves).flatMap_right _).trans
    ((hperm.flatMap_right _).trans hbuilt.leafIds)

/-- **Levels are complete and free of conflicts.** Two connections of one net share the point where
their source ends, which is inside both boxes, hence inside both leaves' boxes, if they are in
different leaves. -/
theorem Fits.conflictFree [Arith K] {D : Database K} {ids : List D.ConnId} {bbox : BoxT}
    (hfits : D.Fits ids bbox) (hbox : ∀ c ∈ ids, D.WellBoxed c)
    (hsource : ∀ c ∈ ids, D.InBox c (D.source c)) (hnodup : ids.Nodup) (sorter : Sorter) :
    ∃ tree leaves, D.partitionTree ids bbox = some tree ∧ tree.dfsPrint = some ids.length ∧
      tree.getLeafNodes = some leaves ∧
      D.ConflictFree ids leaves (PartitionTreeNode.schedule sorter leaves) := by
  obtain ⟨tree, leaves, htree, hbuilt, hleaves, hperm⟩ := hfits.getLeafNodes_isSome hbox
  have hids : (leaves.flatMap PartitionTreeNode.connectionIds).Perm ids :=
    (hperm.flatMap_right _).trans hbuilt.leafIds
  have hcont : ∀ n ∈ leaves, ∀ c ∈ n.connectionIds, n.bbox.Contains (D.bbox c) :=
    fun n hn => hbuilt.contained n (hperm.mem_iff.1 hn)
  refine ⟨tree, leaves, htree, hbuilt.count, hleaves, hids, ?_,
    PartitionTreeNode.schedule_perm sorter leaves, hcont, ?_⟩
  · intro c hc
    exact countP_mem_eq_one _ _ _
      (List.count_eq_one_of_mem (hids.nodup_iff.2 hnodup) (hids.mem_iff.2 hc))
  · intro level hlevel
    have hmem : ∀ n ∈ level, n ∈ leaves := fun n hn =>
      (PartitionTreeNode.schedule_perm sorter leaves).mem_iff.1
        (List.mem_flatten.2 ⟨level, hlevel, hn⟩)
    refine (PartitionTreeNode.schedule_pairwise sorter leaves level hlevel).imp_of_mem ?_
    intro n m hn hm hmeet c hc d hd
    have hpoint : ∀ px py, ¬((D.bbox c).Inside px py ∧ (D.bbox d).Inside px py) := by
      rintro px py ⟨hpc, hpd⟩
      apply hmeet
      exact BoxT.hasStrictIntersectWith_of_inside ((hcont n (hmem n hn) c hc).inside hpc)
        ((hcont m (hmem m hm) d hd).inside hpd)
    have hin : ∀ {n : PartitionTreeNode D.ConnId} {c : D.ConnId}, n ∈ level →
        c ∈ n.connectionIds → D.InBox c (D.source c) := fun hn hc =>
      hsource _ (hids.mem_iff.1 (List.mem_flatMap.2 ⟨_, hmem _ hn, hc⟩))
    refine ⟨fun hnet => ?_, hpoint⟩
    have hd := hin hm hd
    rw [show D.source d = D.source c from (D.source_eq hnet).symm] at hd
    exact hpoint _ _ ⟨hin hn hc, hd⟩

/-- **The levels of a partition tree over computed boxes.** -/
theorem partitionTree_conflictFree [Arith K] (D : Database K) (sorter : Sorter) (xMargin yMargin : Int)
    (hx : D.layout.hx ≤ intMax - 2) (hy : D.layout.hy ≤ intMax - 2)
    {ids : List (D.updateIndirectConnectionBBox xMargin yMargin).ConnId} (hnodup : ids.Nodup)
    (hsource : ∀ c ∈ ids, (D.updateIndirectConnectionBBox xMargin yMargin).InBox c
      ((D.updateIndirectConnectionBBox xMargin yMargin).source c)) :
    ∃ tree leaves,
      (D.updateIndirectConnectionBBox xMargin yMargin).partitionTree ids
        ((D.updateIndirectConnectionBBox xMargin yMargin).unionBBox ids) = some tree ∧
      tree.dfsPrint = some ids.length ∧ tree.getLeafNodes = some leaves ∧
      (D.updateIndirectConnectionBBox xMargin yMargin).ConflictFree ids leaves
        (PartitionTreeNode.schedule sorter leaves) := by
  have hbox := fun c hc => wellBoxed_update D hx hy (hsource c hc)
  exact (fits_unionBBox hbox).conflictFree hbox hsource hnodup sorter

/-- Two columns, boxed with a margin of one, on both sides of a cut. -/
theorem partitionTree_conflictFree_columns :
    (columnsDatabase 2 true).updateIndirectConnectionBBox 1 1 |>.ConflictFree
      [(0 : Fin 2), (1 : Fin 2)]
      [.leaf [(0 : Fin 2)] (.set (-1) (-1) 1 1), .leaf [(1 : Fin 2)] (.set 1 (-1) 4 1),
        .leaf [] .empty]
      (PartitionTreeNode.schedule insertionSorter
        [.leaf [(0 : Fin 2)] (.set (-1) (-1) 1 1), .leaf [(1 : Fin 2)] (.set 1 (-1) 4 1),
          .leaf [] .empty]) := by
  have hsource : ∀ c, ((columnsDatabase 2 true).updateIndirectConnectionBBox 1 1).InBox c
      (((columnsDatabase 2 true).updateIndirectConnectionBBox 1 1).source c) := by
    decide
  have hrun : (((columnsDatabase 2 true).updateIndirectConnectionBBox 1 1).partitionTree
      [(0 : Fin 2), (1 : Fin 2)] (((columnsDatabase 2 true).updateIndirectConnectionBBox 1 1).unionBBox
        [(0 : Fin 2), (1 : Fin 2)])).bind PartitionTreeNode.getLeafNodes =
      some [.leaf [(0 : Fin 2)] (.set (-1) (-1) 1 1), .leaf [(1 : Fin 2)] (.set 1 (-1) 4 1),
        .leaf [] .empty] := by
    decide +kernel
  have hnodup : [(0 : Fin 2), (1 : Fin 2)].Nodup := by decide
  obtain ⟨tree, leaves, htree, -, hleaves, hfree⟩ := partitionTree_conflictFree
    (columnsDatabase 2 true) insertionSorter 1 1 (by decide) (by decide) hnodup
    fun c _ => hsource c
  have hfound := (congrArg (·.bind PartitionTreeNode.getLeafNodes) htree).symm.trans hrun
  rw [Option.bind_some, hleaves] at hfound
  rw [Option.some.inj hfound] at hfree
  exact hfree

/-- The columns have boxes that can be cut. -/
theorem wellBoxed_columns {k : Nat} {linked : Bool} (hk : k ≤ 1000)
    (c : (columnsDatabase k linked).ConnId) : (columnsDatabase k linked).WellBoxed c := by
  have hc : (c : Nat) < k := c.isLt
  refine ⟨fun axis => ?_, fun axis => ?_⟩
  · cases axis with
    | x => show 3 * ((c : Nat) : Int) - 1 + 2 ≤ 3 * (c : Nat) + 1; omega
    | y => show (-1 : Int) + 2 ≤ 1; omega
  · unfold IntervalT.InRange intMax
    cases axis with
    | x => show -1 ≤ 3 * ((c : Nat) : Int) - 1 ∧ 3 * ((c : Nat) : Int) + 1 ≤ _; omega
    | y => show (-1 : Int) ≤ -1 ∧ (1 : Int) ≤ 2147483647 - 2; decide

end Database

end Potter
