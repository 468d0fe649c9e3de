import Potter.Route.RegionTree
import Potter.Route.TreeTermination

/-!
# The extents of boxes

Both partitions subtract the ends of a box: `buildTree` for the sizes of its tables, and
`inLevelRePartition` to choose the side to split. A box that got nothing is the default one, from
`INT_MAX` down to `INT_MIN`, and the difference of its ends is not an `int`.

* A call of `buildTree` has a default box exactly if it has no connections (`Fits.extentsOk_iff`). That is
  the call for an empty list, or for a middle child when no connection crosses the cut line. In all other
  calls both extents are two or more.
* A level without regions has a default box, and splits it if there are two threads or more. The boxes that
  are split for other levels are small (`smallBox_splitTaken`).
-/

namespace Potter

open Lib

namespace BoxT

/-- `W` and `H` are computed without overflow and are two or more. -/
def ExtentsOk (b : BoxT) : Prop :=
  ∀ axis, IsInt32 ((b.along axis).high - (b.along axis).low) ∧
    IsInt32 ((b.along axis).high - (b.along axis).low + 1) ∧
    2 ≤ (b.along axis).high - (b.along axis).low + 1

/-- The sides are computed without overflow. -/
def SidesOk (b : BoxT) : Prop := IsInt32 (b.hx - b.lx) ∧ IsInt32 (b.hy - b.ly)

instance decidableSidesOk (b : BoxT) : Decidable b.SidesOk := inferInstanceAs (Decidable (_ ∧ _))

theorem not_extentsOk_empty : ¬ empty.ExtentsOk := fun h => absurd (h .x).1 (by decide)

theorem not_sidesOk_empty : ¬ empty.SidesOk := by decide

end BoxT

/-! ## The calls of `buildTree` -/

namespace Database

variable {K : Type} [Arith K] (D : Database K)

/-- A connection crosses the cut line, if one is taken. -/
def LineCrossed (node : List D.ConnId × BoxT) : Prop :=
  let best := D.findCutAnyway node.1 node.2
  best.bestPos ≠ intMax → ∃ c ∈ node.1, ((D.bbox c).along best.bestAxis).Inside best.bestPos

/-- The calls of `buildTree` that the constructor makes. -/
def Called (ids : List D.ConnId) (node : List D.ConnId × BoxT) : Prop :=
  Relation.ReflTransGen D.Calls (ids, D.unionBBox ids) node

variable {D} {ids : List D.ConnId} {bbox : BoxT} {node child : List D.ConnId × BoxT}

omit [Arith K] in
/-- A box that was computed has a node inside. -/
theorem Boxed.wellBoxed (h : D.Boxed) (hlayout : D.layout = .set 0 0 108 300) (c : D.ConnId) :
    D.WellBoxed c := by
  obtain ⟨E, xMargin, yMargin, rfl, hfits, ⟨hx, hy⟩, hmargins⟩ := h
  obtain ⟨⟨⟨hlx, hhx⟩, hly, hhy⟩, -, -, hxs, hys⟩ := searchBox_sides hfits hx hy hmargins c
  have hright : (E.searchBox xMargin yMargin c).hx ≤ 108 := hxs.2.trans (le_of_eq (hlayout ▸ rfl))
  have htop : (E.searchBox xMargin yMargin c).hy ≤ 300 := hys.2.trans (le_of_eq (hlayout ▸ rfl))
  have hsides : ∀ axis, let span := (E.searchBox xMargin yMargin c).along axis
      span.low + 2 ≤ span.high ∧ -1 ≤ span.low ∧ span.high ≤ 300 := by
    intro axis
    cases axis with
    | x => exact ⟨by dsimp only [BoxT.along]; omega, hxs.1, hright.trans (by decide)⟩
    | y => exact ⟨by dsimp only [BoxT.along]; omega, hys.1, htop⟩
  exact ⟨fun axis => (hsides axis).1, fun axis => ⟨(hsides axis).2.1,
    (hsides axis).2.2.trans (by decide)⟩⟩

omit [Arith K] in
theorem Fits.extentsOk_iff (h : D.Fits ids bbox) (hbox : ∀ c ∈ ids, D.WellBoxed c) :
    bbox.ExtentsOk ↔ ids ≠ [] := by
  constructor
  · rintro hok rfl
    rw [h.empty rfl] at hok
    exact BoxT.not_extentsOk_empty hok
  · intro hne axis
    obtain ⟨c, hc⟩ := List.exists_mem_of_ne_nil _ hne
    have hcont := BoxT.contains_iff.1 (h.contains c hc) axis
    have hwide := (hbox c hc).wide axis
    have hrange := h.range axis
    unfold IntervalT.Contains at hcont
    unfold IntervalT.InRange intMax at hrange
    unfold IsInt32 intMin intMax
    omega

omit [Arith K] in
theorem middleIds_ne_nil_iff {axis : Axis} {pos : Int} :
    D.middleIds axis pos ids ≠ [] ↔ ∃ c ∈ ids, ((D.bbox c).along axis).Inside pos := by
  have hmem : ∀ c, c ∈ D.middleIds axis pos ids ↔ c ∈ ids ∧ ((D.bbox c).along axis).Inside pos := by
    intro c
    unfold middleIds
    rw [List.mem_filter, List.mem_filter, decide_eq_true_iff, decide_eq_true_iff, and_assoc]
    unfold EndsBefore StartsAfter IntervalT.Inside
    rw [not_le, not_le, and_comm (a := pos < _)]
  constructor
  · intro hne
    obtain ⟨c, hc⟩ := List.exists_mem_of_ne_nil _ hne
    exact ⟨c, (hmem c).1 hc⟩
  · rintro ⟨c, hc⟩
    exact List.ne_nil_of_mem ((hmem c).2 hc)

/-- What a call passes on: the box fits, the connections have boxes, and there is one unless no connection
crosses the line. -/
theorem Calls.fits (hcall : D.Calls node child) (h : D.Fits node.1 node.2)
    (hbox : ∀ c ∈ node.1, D.WellBoxed c) :
    D.Fits child.1 child.2 ∧ (∀ c ∈ child.1, D.WellBoxed c) ∧ (D.LineCrossed node → child.1 ≠ []) := by
  have hsplits : ∀ {best : BestCut K}, D.findCutAnyway node.1 node.2 = best → best.bestPos ≠ intMax →
      D.Splits node.1 node.2 best.bestAxis best.bestPos := by
    intro best hbest hne
    obtain ⟨found, hfound⟩ := h.findCut_isSome hbox
    rw [findCutAnyway_of_some hfound] at hbest
    subst hbest
    exact h.findCut_spec hbox hfound hne
  have hvalid : ∀ c ∈ node.1, (D.bbox c).IsValid := fun c hc => (hbox c hc).isValid
  cases hcall with
  | left hbest hne =>
    have hsplit := hsplits hbest hne
    exact ⟨(hsplit.fits h hbox).1, fun c hc => hbox c (mem_of_mem_leftIds hc),
      fun _ => hsplit.left_ne_nil⟩
  | right hbest hne =>
    have hsplit := hsplits hbest hne
    exact ⟨(hsplit.fits h hbox).2.1, fun c hc => hbox c (mem_of_mem_rightIds hc),
      fun _ => hsplit.right_ne_nil hvalid⟩
  | middle hbest hne =>
    have hsplit := hsplits hbest hne
    refine ⟨(hsplit.fits h hbox).2.2, fun c hc => hbox c (mem_of_mem_middleIds hc), fun hcrossed => ?_⟩
    subst hbest
    exact middleIds_ne_nil_iff.2 (hcrossed hne)

theorem Called.fits (hcalled : D.Called ids node) (hbox : ∀ c ∈ ids, D.WellBoxed c) :
    D.Fits node.1 node.2 ∧ ∀ c ∈ node.1, D.WellBoxed c := by
  induction hcalled with
  | refl => exact ⟨fits_unionBBox hbox, hbox⟩
  | tail _ hcall ih =>
    obtain ⟨hfits, hboxes, -⟩ := hcall.fits ih.1 ih.2
    exact ⟨hfits, hboxes⟩

/-- **The extents are right in all calls exactly if there are connections and every line is crossed.** -/
theorem forall_extentsOk_iff (hbox : ∀ c ∈ ids, D.WellBoxed c) :
    (∀ node, D.Called ids node → node.2.ExtentsOk) ↔
      ids ≠ [] ∧ ∀ node, D.Called ids node → D.LineCrossed node := by
  have hiff : ∀ {node}, D.Called ids node → (node.2.ExtentsOk ↔ node.1 ≠ []) := fun hcalled =>
    (hcalled.fits hbox).1.extentsOk_iff (hcalled.fits hbox).2
  constructor
  · intro hok
    refine ⟨(hiff .refl).1 (hok _ .refl), fun node hcalled hne => ?_⟩
    have hmiddle : D.Called ids _ := hcalled.tail (Calls.middle rfl hne)
    exact middleIds_ne_nil_iff.1 ((hiff hmiddle).1 (hok _ hmiddle))
  · rintro ⟨hne, hcrossed⟩ node hcalled
    refine (hiff hcalled).2 ?_
    -- a call without connections needs a line that no connection crosses
    induction hcalled with
    | refl => exact hne
    | tail hcalled hcall _ =>
      obtain ⟨hfits, hboxes⟩ := Called.fits hcalled hbox
      exact (hcall.fits hfits hboxes).2.2 (hcrossed _ hcalled)

/-- A line between the connections leaves nothing to the middle child. -/
theorem exists_not_extentsOk (hne : (D.findCutAnyway ids (D.unionBBox ids)).bestPos ≠ intMax)
    (hmiddle : D.middleIds (D.findCutAnyway ids (D.unionBBox ids)).bestAxis
      (D.findCutAnyway ids (D.unionBBox ids)).bestPos ids = []) :
    ∃ node, D.Called ids node ∧ ¬ node.2.ExtentsOk := by
  refine ⟨_, .single (Calls.middle rfl hne), ?_⟩
  rw [hmiddle]
  exact BoxT.not_extentsOk_empty

end Database

/-! ## The boxes that a level is split into -/

namespace AStarRoute

variable {K : Type} [Arith K] (R : AStarRoute K)

/-- The boxes whose sides are compared in the loop of `inLevelRePartition`. -/
def splitTaken : Nat → List BoxT → List BoxT
  | 0, _ => []
  | fuel + 1, queue =>
    if queue.length < R.numThread then
      match queue with
      | [] => []
      | b :: queue => b :: splitTaken fuel (queue ++ halves b)
    else []

variable {R} {b : BoxT} {level : List (PartitionBBox R.database.NetId)}

theorem SmallBox.sidesOk (h : SmallBox b) : b.SidesOk := by
  have hlx : -1 ≤ b.lx ∧ b.lx ≤ 300 := h.low .x
  have hly : -1 ≤ b.ly ∧ b.ly ≤ 300 := h.low .y
  have hhx : -1 ≤ b.hx ∧ b.hx ≤ 300 := h.high .x
  have hhy : -1 ≤ b.hy ∧ b.hy ≤ 300 := h.high .y
  unfold BoxT.SidesOk IsInt32 intMin intMax
  omega

theorem smallBox_splitTaken {fuel : Nat} {queue : List BoxT} (h : ∀ q ∈ queue, SmallBox q) :
    ∀ q ∈ R.splitTaken fuel queue, SmallBox q := by
  induction fuel generalizing queue with
  | zero => exact fun q hq => absurd hq List.not_mem_nil
  | succ fuel ih =>
    unfold splitTaken
    split
    · cases queue with
      | nil => exact fun q hq => absurd hq List.not_mem_nil
      | cons piece queue =>
        refine List.forall_mem_cons.2 ⟨h piece List.mem_cons_self, ih fun q hq => ?_⟩
        rcases List.mem_append.1 hq with hq | hq
        · exact h q (List.mem_cons_of_mem piece hq)
        · exact (h piece List.mem_cons_self).of_mem_halves hq
    · exact fun q hq => absurd hq List.not_mem_nil

/-- The box of a level is the first to be split. -/
theorem mem_splitTaken (hthread : 1 < R.numThread) : b ∈ R.splitTaken R.numThread [b] := by
  obtain ⟨fuel, hfuel⟩ := Nat.exists_eq_succ_of_ne_zero (Nat.ne_of_gt (Nat.zero_lt_of_lt hthread))
  rw [hfuel]
  unfold splitTaken
  rw [List.length_singleton, if_pos hthread]
  exact List.mem_cons_self

theorem splitTaken_eq_nil (hthread : R.numThread ≤ 1) (fuel : Nat) : R.splitTaken fuel [b] = [] := by
  cases fuel with
  | zero => rfl
  | succ fuel =>
    unfold splitTaken
    rw [List.length_singleton, if_neg (not_lt.2 hthread)]

theorem forall_sidesOk_iff (hlayout : R.database.layout = .set 0 0 108 300)
    (hlevel : level ∈ R.regionLevels) :
    (∀ b ∈ R.splitTaken R.numThread [R.levelBox level], b.SidesOk) ↔
      level ≠ [] ∨ R.numThread ≤ 1 := by
  constructor
  · intro hok
    by_contra hnot
    obtain ⟨hempty, hthread⟩ := not_or.1 hnot
    rw [not_not.1 hempty] at hok
    exact BoxT.not_sidesOk_empty (hok _ (mem_splitTaken (not_le.1 hthread)))
  · rintro (hne | hthread) b hb
    · refine (smallBox_splitTaken (fun q hq => ?_) b hb).sidesOk
      rw [List.mem_singleton.1 hq]
      exact smallBox_levelBox hlayout hlevel hne
    · rw [splitTaken_eq_nil hthread] at hb
      cases hb

/-- **When the extents of the boxes are computed without overflow.** In a call of `buildTree`, for any list
of connections that the constructor is given, exactly if the call has connections, and then they are two or
more; the tables can be read in any case. In all calls for a list exactly if the list is not empty and
every cut line is crossed by a connection. In a call of `inLevelRePartition` exactly if the level has a
region, or if there is nothing to split. -/
theorem extents_iff (hlayout : R.database.layout = .set 0 0 108 300) (hboxed : R.database.Boxed) :
    (∀ ids : List R.database.ConnId,
      (∀ node, R.database.Called ids node → (node.2.ExtentsOk ↔ node.1 ≠ []) ∧
        ∃ best, R.database.findCut node.1 node.2 = some best) ∧
      ((∀ node, R.database.Called ids node → node.2.ExtentsOk) ↔
        ids ≠ [] ∧ ∀ node, R.database.Called ids node → R.database.LineCrossed node)) ∧
    ∀ level ∈ R.regionLevels, level.length < R.numThread →
      ((∀ b ∈ R.splitTaken R.numThread [R.levelBox level], b.SidesOk) ↔
        level ≠ [] ∨ R.numThread ≤ 1) := by
  have hbox := hboxed.wellBoxed hlayout
  refine ⟨fun ids => ⟨fun node hcalled => ?_, ?_⟩, fun level hlevel _ => ?_⟩
  · obtain ⟨hfits, hboxes⟩ := hcalled.fits fun c _ => hbox c
    exact ⟨hfits.extentsOk_iff hboxes, hfits.findCut_isSome hboxes⟩
  · exact Database.forall_extentsOk_iff fun c _ => hbox c
  · exact forall_sidesOk_iff hlayout hlevel

/-- The root of the tree for the four nets, and the level of the root region. -/
theorem extents_iff_islands :
    (islands.database.unionBBox (List.finRange islands.database.numConns)).ExtentsOk ∧
      ∃ level ∈ islands.regionLevels, level.length < islands.numThread ∧
        ∀ b ∈ islands.splitTaken islands.numThread [islands.levelBox level], b.SidesOk := by
  obtain ⟨htree, hlevels⟩ := extents_iff (R := islands) rfl boxed_islands
  obtain ⟨hcalls, -⟩ := htree (List.finRange islands.database.numConns)
  refine ⟨(hcalls _ .refl).1.2 (by decide), ?_⟩
  obtain ⟨level, hlevel, hlt, hne⟩ :
      ∃ level ∈ islands.regionLevels, level.length < islands.numThread ∧ level ≠ [] := by
    decide +kernel
  exact ⟨level, hlevel, hlt, (hlevels level hlevel hlt).2 (.inl hne)⟩

/-! Two nets in the columns 0 and 3, far from each other, and four threads. -/

/-- The first net lies in row 5, the second in row 150. -/
abbrev apartDatabase : Database ℚ :=
  { columnsDatabase 2 true with
    routeNodes := fun r =>
      { (columnsDatabase 2 true).routeNodes r with
        beginTileYCoordinate := if r.val < 2 then 5 else 150
        endTileYCoordinate := if r.val < 2 then 5 else 150 } }

abbrev apart : AStarRoute ℚ :=
  { columns 2 4 true true with
    database := apartDatabase.boxed 3 15
    queue := scanQueue _ ℚ }

theorem boxed_apart : apart.database.Boxed :=
  ⟨apartDatabase, 3, 15, rfl, by decide, by decide, by decide⟩

/-- No net is labeled, so that the tree of the labeled nets has nothing at its root. The line between the
nets is crossed by none, and the region of each is cut no further. -/
theorem extents_overflow_apart :
    apart.database.Boxed ∧ apart.labels.connectionIdsLabeled = [] ∧
      ¬ (apart.database.unionBBox apart.labels.connectionIdsLabeled).ExtentsOk ∧
      (∃ node, apart.database.Called (List.finRange apart.database.numConns) node ∧
        ¬ node.2.ExtentsOk) ∧
      ∃ level ∈ apart.regionLevels, level.length < apart.numThread ∧
        ∃ b ∈ apart.splitTaken apart.numThread [apart.levelBox level], ¬ b.SidesOk := by
  have hlabels : apart.labels.connectionIdsLabeled = [] := by decide +kernel
  refine ⟨boxed_apart, hlabels, ?_, ?_, ?_⟩
  · rw [hlabels]
    exact BoxT.not_extentsOk_empty
  · refine Database.exists_not_extentsOk ?_ ?_
    · decide +kernel
    · decide +kernel
  · decide +kernel

end AStarRoute

end Potter
