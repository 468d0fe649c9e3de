import Mathlib.Algebra.Order.BigOperators.Group.List
import Mathlib.Logic.Relation
import Potter.Route.PartitionTree

/-!
# Building the partition tree ends

No bound guards the recursion of `buildTree`. It ends because a cut line leaves a connection on either
side (`Splits`), so that every child has fewer connections than its parent. That needs little: the boxes
of the connections are not upside down, and nothing is asked of where they lie.

The hull that a middle child gets may be one column or one row wide. The program then reads outside a
table, and if it goes on, the loop over that table, which is empty, changes nothing (`findCutAnyway`). The
recursion ends in this case, too: `Calls` are all calls that can follow.
-/

namespace Potter

namespace Database

variable {K : Type} [Arith K] (D : Database K)

/-! ## The calls -/

section Calls

/-- The cut line, whether or not the tables can be read. -/
def findCutAnyway (ids : List D.ConnId) (bbox : BoxT) : BestCut K :=
  let best := (D.scanAxis ids bbox .x .init).getD .init
  (D.scanAxis ids bbox .y best).getD best

/-- A recursive call of `buildTree`. -/
inductive Calls : List D.ConnId × BoxT → List D.ConnId × BoxT → Prop
  | left {ids : List D.ConnId} {bbox : BoxT} {best : BestCut K} (h : D.findCutAnyway ids bbox = best)
      (hne : best.bestPos ≠ intMax) :
    Calls (ids, bbox) (D.leftIds best.bestAxis best.bestPos ids,
      bbox.setAlong ⟨(bbox.along best.bestAxis).low, best.bestPos⟩ best.bestAxis)
  | right {ids : List D.ConnId} {bbox : BoxT} {best : BestCut K} (h : D.findCutAnyway ids bbox = best)
      (hne : best.bestPos ≠ intMax) :
    Calls (ids, bbox) (D.rightIds best.bestAxis best.bestPos ids,
      bbox.setAlong ⟨best.bestPos, (bbox.along best.bestAxis).high⟩ best.bestAxis)
  | middle {ids : List D.ConnId} {bbox : BoxT} {best : BestCut K} (h : D.findCutAnyway ids bbox = best)
      (hne : best.bestPos ≠ intMax) :
    Calls (ids, bbox) (D.middleIds best.bestAxis best.bestPos ids,
      D.hull (D.middleIds best.bestAxis best.bestPos ids))

/-- What is known of a node: the boxes of its connections are not upside down, and its own box is not
unless it has no connections. -/
structure Upright (ids : List D.ConnId) (bbox : BoxT) : Prop where
  valid : ∀ c ∈ ids, (D.bbox c).IsValid
  box : ids ≠ [] → ∀ axis, (bbox.along axis).low ≤ (bbox.along axis).high

variable {D} {ids : List D.ConnId} {bbox : BoxT} {axis : Axis} {pos : Int}

omit [Arith K] in
theorem Upright.splits_of_isCut (h : D.Upright ids bbox)
    (hcut : IsCut (bbox.along axis).low (toInt32 ((bbox.along axis).high - (bbox.along axis).low + 1))
      (ids.map (D.cutItem (bbox.along axis) axis)) pos) : D.Splits ids bbox axis pos := by
  obtain ⟨i, hi, -⟩ := hcut.before
  obtain ⟨c, hc, -⟩ := List.mem_map.1 hi
  exact Database.splits_of_isCut (h.box (List.ne_nil_of_mem hc) axis) hcut

theorem findCutAnyway_of_some {best : BestCut K} (h : D.findCut ids bbox = some best) :
    D.findCutAnyway ids bbox = best := by
  obtain ⟨first, hfirst, hsecond⟩ := Option.bind_eq_some_iff.1 h
  unfold findCutAnyway
  rw [hfirst]
  dsimp only [Option.getD_some]
  rw [hsecond]
  rfl

/-- **A cut line that is taken splits the connections.** -/
theorem Upright.splits (h : D.Upright ids bbox) (hne : (D.findCutAnyway ids bbox).bestPos ≠ intMax) :
    D.Splits ids bbox (D.findCutAnyway ids bbox).bestAxis (D.findCutAnyway ids bbox).bestPos := by
  -- A scan keeps what was found before or finds a cut along its axis.
  have hscan : ∀ (axis : Axis) (best : BestCut K),
      (D.scanAxis ids bbox axis best).getD best = best ∨
        D.Splits ids bbox ((D.scanAxis ids bbox axis best).getD best).bestAxis
          ((D.scanAxis ids bbox axis best).getD best).bestPos := by
    intro axis best
    cases hfound : D.scanAxis ids bbox axis best with
    | none => exact .inl rfl
    | some best' =>
      rcases scanCuts_spec hfound with rfl | ⟨haxis, hcut⟩
      · exact .inl rfl
      · right
        rw [Option.getD_some, haxis]
        exact h.splits_of_isCut hcut
  unfold findCutAnyway at *
  dsimp only at *
  rcases hscan .y ((D.scanAxis ids bbox .x .init).getD .init) with hy | hy
  · rw [hy] at hne ⊢
    rcases hscan .x .init with hx | hx
    · rw [hx] at hne
      exact absurd rfl hne
    · exact hx
  · exact hy

omit [Arith K] in
theorem upright_hull (hvalid : ∀ c ∈ ids, (D.bbox c).IsValid) : D.Upright ids (D.hull ids) where
  valid := hvalid
  box hne axis := by
    obtain ⟨c, hc⟩ := List.exists_mem_of_ne_nil _ hne
    have hcont := BoxT.contains_iff.1 (hull_contains _ c hc) axis
    exact hcont.1.trans ((BoxT.low_le_high (hvalid c hc) axis).trans hcont.2)

/-- **A call goes to fewer connections**, and what is known of the caller is known of the callee. -/
theorem Calls.spec {node child : List D.ConnId × BoxT} (hcall : D.Calls node child)
    (h : D.Upright node.1 node.2) :
    child.1.length < node.1.length ∧ D.Upright child.1 child.2 := by
  -- The two sides of the line have a column or row more than one.
  have hside : ∀ {ids side : List D.ConnId} {bbox : BoxT} {axis : Axis} {pos : Int} {i : IntervalT},
      D.Upright ids bbox → D.Splits ids bbox axis pos → (∀ c ∈ side, c ∈ ids) → i.low ≤ i.high →
      D.Upright side (bbox.setAlong i axis) := by
    intro ids side bbox axis pos i h hsplits hside hi
    obtain ⟨c, hc, -⟩ := hsplits.left
    refine ⟨fun d hd => h.valid d (hside d hd), fun _ other => ?_⟩
    rw [BoxT.along_setAlong]
    split
    · exact hi
    · exact h.box (List.ne_nil_of_mem hc) other
  cases hcall with
  | left hbest hne =>
    subst hbest
    have hsplits := h.splits hne
    refine ⟨(hsplits.length_lt h.valid).1, hside h hsplits (fun c hc => mem_of_mem_leftIds hc) ?_⟩
    exact le_of_lt hsplits.low_lt
  | right hbest hne =>
    subst hbest
    have hsplits := h.splits hne
    refine ⟨(hsplits.length_lt h.valid).2.1, hside h hsplits
      (fun c hc => mem_of_mem_rightIds hc) ?_⟩
    exact le_of_lt hsplits.lt_high
  | middle hbest hne =>
    subst hbest
    have hsplits := h.splits hne
    exact ⟨(hsplits.length_lt h.valid).2.2, upright_hull fun c hc => h.valid c (mem_of_mem_middleIds hc)⟩

/-- **The recursion is finite.** -/
theorem Upright.acc (h : D.Upright ids bbox) :
    Acc (fun child node => D.Calls node child) (ids, bbox) := by
  have hgen : ∀ (n : Nat) (node : List D.ConnId × BoxT), node.1.length < n →
      D.Upright node.1 node.2 → Acc (fun child node => D.Calls node child) node := by
    intro n
    induction n with
    | zero => exact fun node hlt => absurd hlt (Nat.not_lt_zero _)
    | succ n ih =>
      intro node hlt hnode
      refine Acc.intro node fun child hcall => ?_
      obtain ⟨hless, hchild⟩ := hcall.spec hnode
      exact ih child (by omega) hchild
  exact hgen (ids.length + 1) (ids, bbox) (Nat.lt_succ_self _) h

/-- One call more than there are connections is deep enough: more fuel changes nothing. -/
theorem Upright.buildTree_fuel (h : D.Upright ids bbox) {fuel fuel' : Nat} (hfuel : ids.length < fuel)
    (hfuel' : ids.length < fuel') : D.buildTree fuel ids bbox = D.buildTree fuel' ids bbox := by
  induction fuel generalizing ids bbox fuel' with
  | zero => exact absurd hfuel (Nat.not_lt_zero _)
  | succ fuel ih =>
    cases fuel' with
    | zero => exact absurd hfuel' (Nat.not_lt_zero _)
    | succ fuel' =>
      unfold buildTree
      cases hfind : D.findCut ids bbox with
      | none => rfl
      | some best =>
        rw [Option.bind_some, Option.bind_some]
        split
        · rename_i hne
          have hbest := findCutAnyway_of_some hfind
          obtain ⟨hl, hleft⟩ := (Calls.left hbest hne).spec h
          obtain ⟨hr, hright⟩ := (Calls.right hbest hne).spec h
          obtain ⟨hm, hmiddle⟩ := (Calls.middle hbest hne).spec h
          dsimp only at hl hr hm hleft hright hmiddle ⊢
          rw [ih hleft (by omega) (show _ < fuel' by omega),
            ih hright (by omega) (show _ < fuel' by omega),
            ih hmiddle (by omega) (show _ < fuel' by omega)]
        · rfl

/-- The tree is built if the tables of all nodes can be read. -/
theorem Upright.buildTree_isSome (h : D.Upright ids bbox) {fuel : Nat} (hfuel : ids.length < fuel)
    (hread : ∀ node, Relation.ReflTransGen D.Calls (ids, bbox) node →
      ∃ best, D.findCut node.1 node.2 = some best) : ∃ t, D.buildTree fuel ids bbox = some t := by
  induction fuel generalizing ids bbox with
  | zero => exact absurd hfuel (Nat.not_lt_zero _)
  | succ fuel ih =>
    obtain ⟨best, hfind⟩ := hread _ .refl
    unfold buildTree
    rw [hfind, Option.bind_some]
    split
    case isFalse => exact ⟨_, rfl⟩
    rename_i hne
    have hbest := findCutAnyway_of_some hfind
    -- Every child is built from fewer connections.
    have hchild : ∀ child, D.Calls (ids, bbox) child →
        ∃ t, D.buildTree fuel child.1 child.2 = some t := by
      intro child hcall
      obtain ⟨hless, hup⟩ := hcall.spec h
      exact ih hup (by dsimp only at hless; omega) fun node hnode => hread node (.head hcall hnode)
    obtain ⟨l, hl⟩ := hchild _ (.left hbest hne)
    obtain ⟨r, hr⟩ := hchild _ (.right hbest hne)
    obtain ⟨m, hm⟩ := hchild _ (.middle hbest hne)
    refine ⟨.node ids bbox best.bestAxis best.bestPos l r m, ?_⟩
    dsimp only at hl hr hm ⊢
    rw [hl, Option.bind_some, hr, Option.bind_some, hm]
    rfl

end Calls

/-! ## The score -/

section Score

variable {D} {ids : List D.ConnId} {bbox : BoxT} {axis : Axis}

omit [Arith K] in
/-- **The denominator of the score of a position is not 0**: a position is passed over unless some
connection starts after it, and that connection counts as after it. -/
theorem Upright.one_le_after (h : D.Upright ids bbox) {pos : Nat} {before after maxBefore : Int}
    (hbefore : (totalBefore (toInt32 ((bbox.along axis).high - (bbox.along axis).low + 1) - 1).toNat
      (ids.map (D.cutItem (bbox.along axis) axis)))[pos]? = some before)
    (hafter : (totalAfter (toInt32 ((bbox.along axis).high - (bbox.along axis).low + 1) - 1).toNat
      (ids.map (D.cutItem (bbox.along axis) axis)))[pos]? = some after)
    (hmax : (totalBefore (toInt32 ((bbox.along axis).high - (bbox.along axis).low + 1) - 1).toNat
      (ids.map (D.cutItem (bbox.along axis) axis)))[(toInt32 ((bbox.along axis).high -
        (bbox.along axis).low + 1) - 2).toNat]? = some maxBefore)
    (hne : before ≠ maxBefore) : 1 ≤ after := by
  unfold totalBefore totalAfter at *
  rw [total_getElem?] at hbefore hafter hmax
  split at hbefore
  case isFalse => cases hbefore
  rename_i hpos
  split at hmax
  case isFalse => cases hmax
  rw [if_pos hpos] at hafter
  cases hbefore
  cases hafter
  cases hmax
  obtain ⟨i, hi, hstart⟩ := exists_of_weightAt_ne hne
  obtain ⟨c, hc, rfl⟩ := List.mem_map.1 hi
  rw [ne_eq, decide_eq_decide] at hstart
  have hle := h.box (List.ne_nil_of_mem hc) axis
  have hvalid := BoxT.low_le_high (h.valid c hc) axis
  have hsize := toInt32_le (z := (bbox.along axis).high - (bbox.along axis).low + 1) (by omega)
  have hcounts : (pos : Int) < (D.cutItem (bbox.along axis) axis c).stop := by
    unfold cutItem at hstart ⊢
    dsimp only at hstart ⊢
    omega
  have hone : (1 : Int) = (D.cutItem (bbox.along axis) axis c).weight := rfl
  rw [hone]
  unfold weightAt
  apply List.single_le_sum
  · intro w hw
    obtain ⟨j, hj, rfl⟩ := List.mem_map.1 hw
    obtain ⟨d, -, rfl⟩ := List.mem_map.1 (List.mem_filter.1 hj).1
    exact Int.one_nonneg
  · exact List.mem_map_of_mem (List.mem_filter.2 ⟨hi, decide_eq_true hcounts⟩)

end Score

/-! ## The tree -/

/-- **Building the tree ends and divides by nothing that is 0.** A cut line that is taken gives the left
and the right child a connection each, so that all three children have fewer connections than the node;
the left and the right one again have two columns and rows or more. The score is taken only where the
larger of the two counts is positive. There is no infinite chain of calls; as many calls as there are
connections, and one, are deep enough, and the tree is built if the tables of all its nodes can be
read. -/
theorem buildTree_terminates {ids : List D.ConnId} {bbox : BoxT}
    (hvalid : ∀ c ∈ ids, (D.bbox c).IsValid)
    (hwide : ∀ axis, (bbox.along axis).low < (bbox.along axis).high) :
    (∀ best, D.findCut ids bbox = some best → best.bestPos ≠ intMax →
      let axis := best.bestAxis
      let pos := best.bestPos
      (D.leftIds axis pos ids ≠ [] ∧ D.rightIds axis pos ids ≠ []) ∧
        ((D.leftIds axis pos ids).length < ids.length ∧ (D.rightIds axis pos ids).length < ids.length ∧
          (D.middleIds axis pos ids).length < ids.length) ∧
        ∀ other, (((bbox.setAlong ⟨(bbox.along axis).low, pos⟩ axis).along other).low <
            ((bbox.setAlong ⟨(bbox.along axis).low, pos⟩ axis).along other).high) ∧
          ((bbox.setAlong ⟨pos, (bbox.along axis).high⟩ axis).along other).low <
            ((bbox.setAlong ⟨pos, (bbox.along axis).high⟩ axis).along other).high) ∧
      (∀ axis,
        let size := toInt32 ((bbox.along axis).high - (bbox.along axis).low + 1)
        let items := ids.map (D.cutItem (bbox.along axis) axis)
        ∀ (pos : Nat) (before after maxBefore maxAfter : Int),
          (totalBefore (size - 1).toNat items)[pos]? = some before →
          (totalAfter (size - 1).toNat items)[pos]? = some after →
          (totalBefore (size - 1).toNat items)[(size - 2).toNat]? = some maxBefore →
          (totalAfter (size - 1).toNat items)[0]? = some maxAfter →
          before ≠ maxBefore → after ≠ maxAfter → 1 ≤ max before after) ∧
      Acc (fun child node => D.Calls node child) (ids, bbox) ∧
      (∀ fuel, ids.length < fuel → D.buildTree fuel ids bbox = D.partitionTree ids bbox) ∧
      ((∀ node, Relation.ReflTransGen D.Calls (ids, bbox) node →
          ∃ best, D.findCut node.1 node.2 = some best) →
        ∃ t, D.partitionTree ids bbox = some t) := by
  have hup : D.Upright ids bbox := ⟨hvalid, fun _ axis => le_of_lt (hwide axis)⟩
  refine ⟨?_, ?_, hup.acc, ?_, ?_⟩
  · intro best hfind hne
    have hsplits : D.Splits ids bbox best.bestAxis best.bestPos := by
      rw [← findCutAnyway_of_some hfind] at hne ⊢
      exact hup.splits hne
    refine ⟨⟨hsplits.left_ne_nil, hsplits.right_ne_nil hvalid⟩, hsplits.length_lt hvalid, ?_⟩
    intro other
    rw [BoxT.along_setAlong, BoxT.along_setAlong]
    split
    · exact ⟨hsplits.low_lt, hsplits.lt_high⟩
    · exact ⟨hwide other, hwide other⟩
  · intro axis size items pos before after maxBefore maxAfter hbefore hafter hmax _ hne _
    exact (hup.one_le_after hbefore hafter hmax hne).trans (le_max_right _ _)
  · exact fun fuel hfuel => hup.buildTree_fuel hfuel (Nat.lt_succ_self _)
  · exact hup.buildTree_isSome (Nat.lt_succ_self _)

/-- Three columns, cut at column 3: the first and the last one go to the sides. -/
theorem buildTree_terminates_columns :
    ∃ best, (columnsDatabase 3 true).findCut [0, 1, 2] (.set (-1) (-1) 7 1) = some best ∧
      best.bestPos ≠ intMax ∧
      (columnsDatabase 3 true).leftIds best.bestAxis best.bestPos [0, 1, 2] ≠ [] ∧
      (columnsDatabase 3 true).rightIds best.bestAxis best.bestPos [0, 1, 2] ≠ [] := by
  have hvalid : ∀ c ∈ [0, 1, 2], ((columnsDatabase 3 true).bbox c).IsValid := by decide
  have hwide : ∀ axis, ((BoxT.set (-1) (-1) 7 1).along axis).low <
      ((BoxT.set (-1) (-1) 7 1).along axis).high := by
    intro axis
    cases axis <;> decide
  obtain ⟨hcut, -⟩ := buildTree_terminates (columnsDatabase 3 true) hvalid hwide
  have hfound : ((columnsDatabase 3 true).findCut [0, 1, 2] (.set (-1) (-1) 7 1)).map
      (fun best => decide (best.bestPos ≠ intMax)) = some true := by decide +kernel
  obtain ⟨best, hbest, hne⟩ := Option.map_eq_some_iff.1 hfound
  have hne := of_decide_eq_true hne
  exact ⟨best, hbest, hne, (hcut best hbest hne).1⟩

end Database

end Potter
