import Potter.Db.BBox
import Potter.Lib.Counting
import Potter.Route.RegionPartition

/-!
# The tree of regions

What `regionBasedPartition` knows of its regions, from the states its loop goes through (`TreeState`):
the regions of one level meet in their borders only, a region below the root holds its nets, and every
region has two columns and two rows or more, so that its tables can be read (`regions_spec`).

A cut sends a net to one of the two parts if the part holds the net on all four sides. The root does not
hold every net: its last column is one short of the layout's, and its rows start at 0 while the boxes of
the nets start at `-1`. `moved_iff` says which nets a cut misses.

Last, the pieces that a level is split into (`levelBoxPieces`): they cover the box they start with, which
has its rows from the wrong side (`levelBoxPieces_cover_iff`).
-/

namespace Potter

open Lib

namespace AStarRoute

variable {K : Type} [Arith K] (R : AStarRoute K)

/-! ## The nets of the parts -/

section Parts

variable {R} {p : PartitionBBox R.database.NetId} {axis : Axis} {pos : Int}

theorem SplitAt.lowerBox_contains_iff (h : R.SplitAt p axis pos) {b : BoxT} :
    (R.lowerBox p axis pos).Contains b ↔ p.bbox.Contains b ∧ (b.along axis).high ≤ pos := by
  rw [lowerBox, BoxT.setAlong_contains_iff h.lower]
  exact and_congr_right fun hb => and_iff_right (BoxT.contains_iff.1 hb axis).1

theorem SplitAt.upperBox_contains_iff (h : R.SplitAt p axis pos) {b : BoxT} :
    (R.upperBox p axis pos).Contains b ↔ p.bbox.Contains b ∧ pos ≤ (b.along axis).low := by
  rw [upperBox, BoxT.setAlong_contains_iff h.upper]
  exact and_congr_right fun hb => and_iff_left (BoxT.contains_iff.1 hb axis).2

theorem mem_netsInside {b : BoxT} {netIds : List R.database.NetId} {n : R.database.NetId} :
    n ∈ R.netsInside b netIds ↔ n ∈ netIds ∧ b.Contains (R.netBox n) := by
  rw [netsInside, List.mem_filter, decide_eq_true_iff]

theorem mem_netsOutside {b : BoxT} {netIds : List R.database.NetId} {n : R.database.NetId} :
    n ∈ R.netsOutside b netIds ↔ n ∈ netIds ∧ ¬b.Contains (R.netBox n) := by
  rw [netsOutside, List.mem_filter, decide_eq_true_iff]

theorem mem_lowerPart {n : R.database.NetId} :
    n ∈ (R.lowerPart p axis pos).netIds ↔
      n ∈ p.netIds ∧ (R.lowerBox p axis pos).Contains (R.netBox n) :=
  mem_netsInside

theorem mem_upperPart {n : R.database.NetId} :
    n ∈ (R.upperPart p axis pos).netIds ↔
      (n ∈ p.netIds ∧ ¬(R.lowerBox p axis pos).Contains (R.netBox n)) ∧
        (R.upperBox p axis pos).Contains (R.netBox n) := by
  rw [upperPart, mem_netsInside, mem_netsOutside]

theorem mem_parent {n : R.database.NetId} :
    n ∈ (R.parent p axis pos).netIds ↔
      (n ∈ p.netIds ∧ ¬(R.lowerBox p axis pos).Contains (R.netBox n)) ∧
        ¬(R.upperBox p axis pos).Contains (R.netBox n) := by
  rw [parent, (R.sorter.perm _ _).mem_iff, mem_netsOutside, mem_netsOutside]

end Parts

/-! ## The states of the loop -/

section States

/-- What holds whenever the loop takes a region from its queue. Of two regions, the later one is a part
of the earlier one, or they meet in their borders. -/
structure TreeState (done queue : List (PartitionBBox R.database.NetId)) : Prop where
  ok : ∀ p ∈ done ++ queue, R.RegionOk p
  root : ∀ p ∈ done ++ queue, p.level = 0 → p.bbox = R.device.bbox
  inRoot : ∀ p ∈ done ++ queue, R.device.bbox.Contains p.bbox
  listed : ∀ p ∈ done ++ queue, ∀ n ∈ p.netIds, n ∈ R.netsWithConnections
  holds : ∀ p ∈ done ++ queue, 1 ≤ p.level → ∀ n ∈ p.netIds, p.bbox.Contains (R.netBox n)
  levels : (done ++ queue).Pairwise fun p q =>
    p.level < q.level ∨ ¬p.bbox.HasStrictIntersectWith q.bbox
  apart : queue.Pairwise fun p q => ¬p.bbox.HasStrictIntersectWith q.bbox

variable {R} {p filed : PartitionBBox R.database.NetId}
  {done queue new : List (PartitionBBox R.database.NetId)}

theorem treeState_start (hlayout : R.database.layout = .set 0 0 108 300) :
    R.TreeState [] [R.device] where
  ok := by
    intro p hp
    rw [List.mem_singleton.1 hp]
    exact regionOk_device hlayout
  root := by
    intro p hp _
    rw [List.mem_singleton.1 hp]
  inRoot := by
    intro p hp
    rw [List.mem_singleton.1 hp]
    exact .refl _
  listed := by
    intro p hp n hn
    rw [List.mem_singleton.1 hp] at hn
    exact hn
  holds := by
    intro p hp hlevel
    rw [List.mem_singleton.1 hp] at hlevel
    exact absurd hlevel (Nat.not_succ_le_zero 0)
  levels := List.pairwise_singleton _ _
  apart := List.pairwise_singleton _ _

/-- A region is filed with its box and some of its nets, and parts of it are queued. -/
structure Filing (p filed : PartitionBBox R.database.NetId)
    (new : List (PartitionBBox R.database.NetId)) : Prop where
  bbox : filed.bbox = p.bbox
  level : filed.level = p.level
  nets : ∀ n ∈ filed.netIds, n ∈ p.netIds
  ok : ∀ q ∈ new, R.RegionOk q
  within : ∀ q ∈ new, q.level = p.level + 1 ∧ p.bbox.Contains q.bbox
  holds : ∀ q ∈ new, ∀ n ∈ q.netIds, n ∈ p.netIds ∧ q.bbox.Contains (R.netBox n)
  apart : new.Pairwise fun q q' => ¬q.bbox.HasStrictIntersectWith q'.bbox

theorem filing_self (p : PartitionBBox R.database.NetId) : Filing p p [] where
  bbox := rfl
  level := rfl
  nets _ hn := hn
  ok _ hq := absurd hq List.not_mem_nil
  within _ hq := absurd hq List.not_mem_nil
  holds _ hq := absurd hq List.not_mem_nil
  apart := .nil

theorem SplitAt.filing {axis : Axis} {pos : Int} (hok : R.RegionOk p) (h : R.SplitAt p axis pos) :
    Filing p (R.parent p axis pos) [R.lowerPart p axis pos, R.upperPart p axis pos] where
  bbox := rfl
  level := rfl
  nets n hn := (mem_parent.1 hn).1.1
  ok := h.parts_ok hok
  within := by
    intro q hq
    rcases List.mem_cons.1 hq with rfl | hq
    · exact ⟨rfl, BoxT.contains_setAlong h.lower⟩
    · rw [List.mem_singleton.1 hq]
      exact ⟨rfl, BoxT.contains_setAlong h.upper⟩
  holds := by
    intro q hq n hn
    rcases List.mem_cons.1 hq with rfl | hq
    · exact mem_lowerPart.1 hn
    · rw [List.mem_singleton.1 hq] at hn ⊢
      exact ⟨(mem_upperPart.1 hn).1.1, (mem_upperPart.1 hn).2⟩
  apart := List.pairwise_pair.2 (BoxT.not_hasStrictIntersectWith_setAlong _ _ _ _ _)

theorem forall_mem_file {P : PartitionBBox R.database.NetId → Prop}
    (h : ∀ q ∈ done ++ p :: queue, P q) (hfiled : P filed) (hnew : ∀ q ∈ new, P q) :
    ∀ q ∈ (done ++ [filed]) ++ (queue ++ new), P q := by
  intro q hq
  rcases List.mem_append.1 hq with hq | hq
  · rcases List.mem_append.1 hq with hq | hq
    · exact h q (List.mem_append_left _ hq)
    · rw [List.mem_singleton.1 hq]
      exact hfiled
  · rcases List.mem_append.1 hq with hq | hq
    · exact h q (List.mem_append_right _ (List.mem_cons_of_mem _ hq))
    · exact hnew q hq

/-- **Filing a region keeps what holds of the states.** -/
theorem TreeState.file (h : R.TreeState done (p :: queue)) (hfile : Filing p filed new) :
    R.TreeState (done ++ [filed]) (queue ++ new) := by
  have hp : p ∈ done ++ p :: queue := List.mem_append_right _ List.mem_cons_self
  obtain ⟨hdone, hrest, hcross⟩ := List.pairwise_append.1 h.levels
  obtain ⟨hpqueue, hqueue⟩ := List.pairwise_cons.1 h.apart
  -- What lies apart from the region lies apart from its parts.
  have hparts : ∀ q : PartitionBBox R.database.NetId, ¬p.bbox.HasStrictIntersectWith q.bbox →
      ∀ r ∈ new, ¬r.bbox.HasStrictIntersectWith q.bbox := by
    intro q hq r hr hmeet
    exact hq (hmeet.mono (hfile.within r hr).2 (.refl _))
  refine ⟨?_, ?_, ?_, ?_, ?_, ?_, ?_⟩
  · refine forall_mem_file h.ok ⟨?_, ?_, ?_⟩ hfile.ok
    · rw [hfile.level]
      exact (h.ok p hp).level_lt
    · rw [hfile.bbox]
      exact (h.ok p hp).range
    · rw [hfile.bbox]
      exact (h.ok p hp).wide
  · refine forall_mem_file h.root ?_ ?_
    · rw [hfile.bbox, hfile.level]
      exact h.root p hp
    · intro q hq hlevel
      rw [(hfile.within q hq).1] at hlevel
      exact absurd hlevel (Nat.succ_ne_zero _)
  · refine forall_mem_file h.inRoot ?_ ?_
    · rw [hfile.bbox]
      exact h.inRoot p hp
    · exact fun q hq => (h.inRoot p hp).trans (hfile.within q hq).2
  · refine forall_mem_file h.listed ?_ ?_
    · exact fun n hn => h.listed p hp n (hfile.nets n hn)
    · exact fun q hq n hn => h.listed p hp n (hfile.holds q hq n hn).1
  · refine forall_mem_file h.holds ?_ fun q hq _ n hn => (hfile.holds q hq n hn).2
    rw [hfile.bbox, hfile.level]
    exact fun hlevel n hn => h.holds p hp hlevel n (hfile.nets n hn)
  · refine List.pairwise_append.2 ⟨?_, ?_, ?_⟩
    · refine List.pairwise_append.2 ⟨hdone, List.pairwise_singleton _ _, ?_⟩
      intro d hd q hq
      rw [List.mem_singleton.1 hq, hfile.level, hfile.bbox]
      exact hcross d hd p List.mem_cons_self
    · refine List.pairwise_append.2 ⟨hrest.of_cons, hfile.apart.imp .inr, ?_⟩
      intro q hq r hr
      exact .inr fun hmeet => hparts q (hpqueue q hq) r hr hmeet.symm
    · intro d hd r hr
      rcases List.mem_append.1 hd with hd | hd <;> rcases List.mem_append.1 hr with hr | hr
      · exact hcross d hd r (List.mem_cons_of_mem _ hr)
      · rcases hcross d hd p List.mem_cons_self with hlt | hapart
        · left
          rw [(hfile.within r hr).1]
          exact Nat.lt_succ_of_lt hlt
        · exact .inr fun hmeet => hparts d (fun h => hapart h.symm) r hr hmeet.symm
      · rw [List.mem_singleton.1 hd, hfile.bbox]
        exact .inr (hpqueue r hr)
      · rw [List.mem_singleton.1 hd, hfile.level, (hfile.within r hr).1]
        exact .inl (Nat.lt_succ_self _)
  · refine List.pairwise_append.2 ⟨hqueue, hfile.apart, ?_⟩
    intro q hq r hr hmeet
    exact hparts q (hpqueue q hq) r hr hmeet.symm

/-- **One round of the loop.** -/
theorem TreeState.round (h : R.TreeState done (p :: queue)) :
    ∃ done' new, R.visitRegion done p = some (done', new) ∧ R.TreeState done' (queue ++ new) := by
  have hok := h.ok p (List.mem_append_right _ List.mem_cons_self)
  rcases hok.visit_cases done with hvisit | ⟨axis, pos, hsplit⟩
  · exact ⟨_, _, hvisit, h.file (filing_self p)⟩
  · exact ⟨_, _, hsplit.visit done, h.file (hsplit.filing hok)⟩

/-- The states in which the loop takes up a region. -/
def Visits (R : AStarRoute K) (done : List (PartitionBBox R.database.NetId))
    (p : PartitionBBox R.database.NetId) : Prop :=
  ∃ queue, Worklist.Reach R.visitRegion ([], [R.device]) (done, p :: queue)

theorem Visits.treeState (h : R.Visits done p) (hlayout : R.database.layout = .set 0 0 108 300) :
    ∃ queue, R.TreeState done (p :: queue) := by
  obtain ⟨queue, hreach⟩ := h
  exact ⟨queue, hreach.invariant R.TreeState TreeState.round (treeState_start hlayout)⟩

theorem treeState_regions (hlayout : R.database.layout = .set 0 0 108 300)
    {regions : List (PartitionBBox R.database.NetId)} (h : R.regions = some regions) :
    R.TreeState regions [] :=
  (Worklist.reach_of_run h).invariant R.TreeState TreeState.round (treeState_start hlayout)

end States

/-! ## The regions share out the device -/

section Regions

variable {R} {p q : PartitionBBox R.database.NetId}
  {done queue regions : List (PartitionBBox R.database.NetId)}

/-- The center of a net, moved into a region. -/
theorem RegionOk.centerItem_mem (h : R.RegionOk p) (axis : Axis) (n : R.database.NetId) :
    0 ≤ (R.centerItem (p.bbox.along axis) axis n).start ∧
      (R.centerItem (p.bbox.along axis) axis n).start ≤
        (p.bbox.along axis).high - (p.bbox.along axis).low := by
  have hwide := h.wide axis
  unfold centerItem
  dsimp only
  omega

/-- Only one region is not below the root. -/
theorem TreeState.level_pos (h : R.TreeState regions []) (hp : p ∈ regions) (hq : q ∈ regions)
    (hlevel : p.level = q.level) (hapart : ¬p.bbox.HasStrictIntersectWith q.bbox) : 1 ≤ p.level := by
  by_contra hzero
  have hp0 : p.level = 0 := Nat.lt_one_iff.1 (not_le.1 hzero)
  have hbox : p.bbox = q.bbox :=
    (h.root p (List.mem_append_left _ hp) hp0).trans
      (h.root q (List.mem_append_left _ hq) (hlevel ▸ hp0)).symm
  have hwide := (h.ok p (List.mem_append_left _ hp)).wide
  apply hapart
  rw [← hbox]
  have hx : p.bbox.x.low < p.bbox.x.high := hwide .x
  have hy : p.bbox.y.low < p.bbox.y.high := hwide .y
  unfold BoxT.HasStrictIntersectWith BoxT.IsStrictValid IntervalT.IsStrictValid BoxT.intersectWith
    IntervalT.intersectWith
  dsimp only
  omega

/-- **The regions share out the nets and the device.** Every net is in one region. Below the root, a
region holds its nets. Two regions of a level meet in their borders, so their nets have no point inside
in common. A region whose cut is looked for has two columns and rows or more, and its tables can be
read: the centers lie in them. -/
theorem regions_spec (hlayout : R.database.layout = .set 0 0 108 300) :
    ∃ regions, R.regions = some regions ∧
      (∀ n ∈ R.device.netIds, regions.countP (fun p => n ∈ p.netIds) = 1) ∧
      (∀ p ∈ regions, 1 ≤ p.level → ∀ n ∈ p.netIds, p.bbox.Contains (R.netBox n)) ∧
      (regions.Pairwise fun p q => p.level = q.level → ¬p.bbox.HasStrictIntersectWith q.bbox ∧
        ∀ n ∈ p.netIds, ∀ m ∈ q.netIds, ¬(R.netBox n).HasStrictIntersectWith (R.netBox m) ∧
          ∀ px py, ¬((R.netBox n).Inside px py ∧ (R.netBox m).Inside px py)) ∧
      ∀ done p, R.Visits done p →
        (∀ axis, (p.bbox.along axis).low < (p.bbox.along axis).high ∧
          2 ≤ toInt32 ((p.bbox.along axis).high - (p.bbox.along axis).low + 1) ∧
          ∀ n, 0 ≤ (R.centerItem (p.bbox.along axis) axis n).start ∧
            (R.centerItem (p.bbox.along axis) axis n).start ≤
              toInt32 ((p.bbox.along axis).high - (p.bbox.along axis).low + 1) - 1) ∧
        ∃ best, R.regionCut p = some best := by
  obtain ⟨regions, hregions, -, hperm⟩ := regions_perm hlayout
  have hstate := treeState_regions hlayout hregions
  have hmem : ∀ {p}, p ∈ regions → p ∈ regions ++ [] := List.mem_append_left _
  refine ⟨regions, hregions, ?_, fun p hp => hstate.holds p (hmem hp), ?_, ?_⟩
  · intro n hn
    apply countP_mem_eq_one
    rw [hperm.count_eq]
    exact List.count_eq_one_of_mem nodup_netsWithConnections hn
  · have hlevels := hstate.levels
    rw [List.append_nil] at hlevels
    refine hlevels.imp_of_mem ?_
    intro p q hp hq hor hlevel
    have hapart := hor.resolve_left (not_lt_of_ge (ge_of_eq hlevel))
    have hpos := hstate.level_pos hp hq hlevel hapart
    refine ⟨hapart, fun n hn m hm => ?_⟩
    have hn' := hstate.holds p (hmem hp) hpos n hn
    have hm' := hstate.holds q (hmem hq) (hlevel ▸ hpos) m hm
    refine ⟨fun hmeet => hapart (hmeet.mono hn' hm'), fun px py hin => hapart ?_⟩
    exact BoxT.hasStrictIntersectWith_of_inside (hn'.inside hin.1) (hm'.inside hin.2)
  · intro done p hvisit
    obtain ⟨queue, hvisit⟩ := hvisit.treeState hlayout
    have hok := hvisit.ok p (List.mem_append_right _ List.mem_cons_self)
    refine ⟨fun axis => ?_, hok.regionCut_isSome⟩
    rw [hok.size axis]
    have hwide := hok.wide axis
    refine ⟨hwide, by omega, fun n => ?_⟩
    have hcenter := hok.centerItem_mem axis n
    omega

end Regions

/-! Four nets in the columns 0, 3, 6 and 9, the first one near the lower border. -/

/-- The first net lies in row 5, the others in row 150. -/
abbrev islandsDatabase : Database ℚ :=
  { columnsDatabase 4 true with
    routeNodes := fun r =>
      { (columnsDatabase 4 true).routeNodes r with
        beginTileYCoordinate := if r.val < 2 then 5 else 150
        endTileYCoordinate := if r.val < 2 then 5 else 150 } }

/-- Two threads on the design with its boxes. -/
abbrev islands : AStarRoute ℚ :=
  { columns 4 2 true true with
    database := islandsDatabase.boxed 3 15
    queue := scanQueue _ ℚ }

/-- A net of the design. -/
abbrev island (i : Fin 4) : islands.database.NetId := i

/-- The regions of the four nets. -/
theorem regions_spec_islands :
    ∃ regions, islands.regions = some regions ∧ regions.length = 3 ∧
      ∀ n ∈ islands.device.netIds, regions.countP (fun p => n ∈ p.netIds) = 1 := by
  obtain ⟨regions, hregions, honce, -⟩ := regions_spec (R := islands) rfl
  refine ⟨regions, hregions, ?_, honce⟩
  have hlength : islands.regions.map List.length = some 3 := by decide +kernel
  rw [hregions] at hlength
  exact Option.some.inj hlength

/-! ## The nets that a cut misses -/

section Missed

/-- The root reaches as far as the net on the two sides where it is short of the layout. -/
def InRoot (n : R.database.NetId) : Prop :=
  (R.database.nets n).xmax ≤ R.database.layout.hx - 1 ∧
    R.database.layout.ly ≤ (R.database.nets n).ymin

instance (n : R.database.NetId) : Decidable (R.InRoot n) := inferInstanceAs (Decidable (_ ∧ _))

variable {R} {p : PartitionBBox R.database.NetId} {done : List (PartitionBBox R.database.NetId)}
  {axis : Axis} {pos : Int} {n : R.database.NetId}

theorem conns_ne_nil (hn : n ∈ R.netsWithConnections) : (R.database.nets n).indirectConns ≠ [] :=
  List.length_pos_iff.1 (Int.natCast_pos.1 (mem_netsWithConnections.1 hn))

theorem netBox_wide (hlayout : R.database.layout = .set 0 0 108 300) (hboxed : R.database.Boxed)
    (hn : n ∈ R.netsWithConnections) (axis : Axis) :
    ((R.netBox n).along axis).low < ((R.netBox n).along axis).high := by
  have hextent := hboxed.extent hlayout (conns_ne_nil hn)
  cases axis with
  | x => exact hextent.1.2.1
  | y => exact hextent.2.2.1

/-- On the other two sides the root holds every net. -/
theorem device_contains_iff (hlayout : R.database.layout = .set 0 0 108 300)
    (hboxed : R.database.Boxed) (hn : n ∈ R.netsWithConnections) :
    R.device.bbox.Contains (R.netBox n) ↔ R.InRoot n := by
  have hextent := hboxed.extent hlayout (conns_ne_nil hn)
  have hlx : R.database.layout.lx = 0 := by
    rw [hlayout]
    rfl
  unfold BoxT.Contains IntervalT.Contains InRoot device netBox
  dsimp only [BoxT.set]
  rw [hlx]
  omega

/-- **Which nets a cut misses.** A net on one side of the cut line goes to the part of that side exactly
if the root holds it; a net stays if the line goes through it, or if the root does not hold it. -/
theorem moved_iff (hlayout : R.database.layout = .set 0 0 108 300) (hboxed : R.database.Boxed)
    (hvisit : R.Visits done p) (hsplit : R.SplitAt p axis pos) :
    R.visitRegion done p = some (done ++ [R.parent p axis pos],
        [R.lowerPart p axis pos, R.upperPart p axis pos]) ∧
      ∀ n ∈ p.netIds,
        (((R.netBox n).along axis).high ≤ pos →
          (n ∈ (R.lowerPart p axis pos).netIds ↔ R.InRoot n)) ∧
        (pos ≤ ((R.netBox n).along axis).low →
          (n ∈ (R.upperPart p axis pos).netIds ↔ R.InRoot n)) ∧
        (n ∈ (R.parent p axis pos).netIds ↔
          ((R.netBox n).along axis).Inside pos ∨ ¬R.InRoot n) := by
  refine ⟨hsplit.visit done, fun n hn => ?_⟩
  obtain ⟨queue, hstate⟩ := hvisit.treeState hlayout
  have hp : p ∈ done ++ p :: queue := List.mem_append_right _ List.mem_cons_self
  have hlisted := hstate.listed p hp n hn
  have hwide := netBox_wide hlayout hboxed hlisted axis
  rw [← device_contains_iff hlayout hboxed hlisted]
  -- The region holds the nets that the root holds.
  have hregion : p.bbox.Contains (R.netBox n) ↔ R.device.bbox.Contains (R.netBox n) := by
    refine ⟨(hstate.inRoot p hp).trans, fun h => ?_⟩
    rcases Nat.eq_zero_or_pos p.level with hzero | hpos
    · rw [hstate.root p hp hzero]
      exact h
    · exact hstate.holds p hp hpos n hn
  rw [← hregion]
  rw [mem_lowerPart, mem_upperPart, mem_parent, hsplit.lowerBox_contains_iff,
    hsplit.upperBox_contains_iff]
  simp only [hn, true_and]
  unfold IntervalT.Inside
  refine ⟨?_, ?_, ?_⟩
  · intro hle
    exact and_iff_left hle
  · intro hle
    have hnot : ¬((R.netBox n).along axis).high ≤ pos := by omega
    simp [hnot, hle]
  · by_cases hc : p.bbox.Contains (R.netBox n)
    · simp only [hc, true_and, not_true_eq_false, or_false]
      omega
    · simp [hc]

end Missed

theorem boxed_islands : islands.database.Boxed :=
  ⟨islandsDatabase, 3, 15, rfl, by decide, by decide, by decide⟩

theorem visits_islands : islands.Visits [] islands.device := ⟨[], .refl⟩

theorem splitAt_islands : islands.SplitAt islands.device .x 3 where
  level_lt := by decide
  found := by
    have hcut : (islands.regionCut islands.device).map (fun best => (best.bestAxis, best.bestPos)) =
        some (.x, 3) := by decide +kernel
    obtain ⟨best, hbest, hpos⟩ := Option.map_eq_some_iff.1 hcut
    exact ⟨best, hbest, congrArg Prod.fst hpos, congrArg Prod.snd hpos⟩
  inside := by decide

/-- The third net lies to the right of the cut and goes there. -/
theorem moved_iff_islands :
    island 2 ∈ islands.device.netIds ∧
      island 2 ∈ (islands.upperPart islands.device .x 3).netIds := by
  have hmem : island 2 ∈ islands.device.netIds := by decide +kernel
  have hmoved := (moved_iff (R := islands) rfl boxed_islands visits_islands splitAt_islands).2
    (island 2) hmem
  exact ⟨hmem, (hmoved.2.1 (by decide +kernel)).2 (by decide +kernel)⟩

/-- The first net lies to the left of the cut and stays: its box starts in row `-1`, the root in row 0.
-/
theorem cut_misses_islands :
    islands.database.Boxed ∧ islands.Visits [] islands.device ∧
      islands.SplitAt islands.device .x 3 ∧ island 0 ∈ islands.device.netIds ∧
      ((islands.netBox (island 0)).along .x).high ≤ 3 ∧
      island 0 ∉ (islands.lowerPart islands.device .x 3).netIds ∧
      island 0 ∈ (islands.parent islands.device .x 3).netIds :=
  ⟨boxed_islands, visits_islands, splitAt_islands, by decide +kernel, by decide +kernel,
    by decide +kernel, by decide +kernel⟩

/-! ## The pieces of a level -/

section Pieces

/-- The box around the regions of a level. -/
def levelHull (level : List (PartitionBBox R.database.NetId)) : BoxT :=
  .hullOf (level.map PartitionBBox.bbox)

/-- A box near the layout with a column or more; its rows may be upside down. -/
structure SmallBox (b : BoxT) : Prop where
  valid : b.x.low ≤ b.x.high
  low : ∀ axis, -1 ≤ (b.along axis).low ∧ (b.along axis).low ≤ 300
  high : ∀ axis, -1 ≤ (b.along axis).high ∧ (b.along axis).high ≤ 300

variable {R} {b : BoxT} {level : List (PartitionBBox R.database.NetId)}

theorem midpoint_mem {low high : Int} (h : low ≤ high) :
    low ≤ (low + high).tdiv 2 ∧ (low + high).tdiv 2 ≤ high :=
  tdiv_mem (by decide) (by omega) (by omega)

/-- The halves of a box share a line within the box: a box is cut across its rows only if it has more
rows than columns. -/
theorem SmallBox.halves (h : SmallBox b) :
    ∃ axis mid, (b.along axis).low ≤ mid ∧ mid ≤ (b.along axis).high ∧
      AStarRoute.halves b = [b.setAlong ⟨(b.along axis).low, mid⟩ axis,
        b.setAlong ⟨mid, (b.along axis).high⟩ axis] := by
  have hsmall : ∀ v : Int, -1000 ≤ v → v ≤ 1000 → toInt32 v = v := by
    intro v hlow hhigh
    apply toInt32_of_range
    · unfold intMin
      omega
    · unfold intMax
      omega
  have hlx : -1 ≤ b.lx ∧ b.lx ≤ 300 := h.low .x
  have hly : -1 ≤ b.ly ∧ b.ly ≤ 300 := h.low .y
  have hhx : -1 ≤ b.hx ∧ b.hx ≤ 300 := h.high .x
  have hhy : -1 ≤ b.hy ∧ b.hy ≤ 300 := h.high .y
  have hvalid : b.lx ≤ b.hx := h.valid
  unfold AStarRoute.halves
  rw [hsmall (b.hx - b.lx) (by omega) (by omega), hsmall (b.hy - b.ly) (by omega) (by omega)]
  -- Along either axis the midpoint, rounded to zero, is between the ends.
  have hmid : ∀ axis, (b.along axis).low ≤ (b.along axis).high →
      (b.along axis).low ≤ (toInt32 ((b.along axis).low + (b.along axis).high)).tdiv 2 ∧
        (toInt32 ((b.along axis).low + (b.along axis).high)).tdiv 2 ≤ (b.along axis).high := by
    intro axis hle
    have hlow := h.low axis
    have hhigh := h.high axis
    rw [hsmall _ (by omega) (by omega)]
    exact midpoint_mem hle
  by_cases haxis : b.hx - b.lx ≥ b.hy - b.ly
  · rw [if_pos haxis]
    obtain ⟨h1, h2⟩ := hmid .x hvalid
    exact ⟨.x, _, h1, h2, rfl⟩
  · rw [if_neg haxis]
    have hrows : b.ly ≤ b.hy := by omega
    obtain ⟨h1, h2⟩ := hmid .y hrows
    exact ⟨.y, _, h1, h2, rfl⟩

theorem SmallBox.setAlong (h : SmallBox b) {axis : Axis} {i : IntervalT}
    (hi : (b.along axis).Contains i) (hvalid : i.low ≤ i.high) : SmallBox (b.setAlong i axis) where
  valid := by
    cases axis with
    | x => exact hvalid
    | y => exact h.valid
  low other := by
    rw [BoxT.along_setAlong]
    split
    · exact ⟨(h.low axis).1.trans hi.1, hvalid.trans (hi.2.trans (h.high axis).2)⟩
    · exact h.low other
  high other := by
    rw [BoxT.along_setAlong]
    split
    · exact ⟨(h.low axis).1.trans (hi.1.trans hvalid), hi.2.trans (h.high axis).2⟩
    · exact h.high other

theorem SmallBox.of_mem_halves (h : SmallBox b) {piece : BoxT} (hpiece : piece ∈ AStarRoute.halves b) :
    SmallBox piece := by
  obtain ⟨axis, mid, hlow, hhigh, heq⟩ := h.halves
  rw [heq] at hpiece
  rcases List.mem_cons.1 hpiece with rfl | hpiece
  · exact h.setAlong (i := ⟨_, mid⟩) ⟨le_refl _, hhigh⟩ hlow
  · rw [List.mem_singleton.1 hpiece]
    exact h.setAlong (i := ⟨mid, _⟩) ⟨hlow, le_refl _⟩ hhigh

/-- **The loop keeps the pieces of a box.** -/
theorem tiledBy_splitBoxes {fuel : Nat} {queue : List BoxT} (h : b.TiledBy queue)
    (hsmall : ∀ q ∈ queue, SmallBox q) : b.TiledBy (R.splitBoxes fuel queue) := by
  induction fuel generalizing queue with
  | zero => exact h
  | succ fuel ih =>
    unfold splitBoxes
    split
    · cases queue with
      | nil => exact h
      | cons piece queue =>
        have hpiece := hsmall piece List.mem_cons_self
        obtain ⟨axis, mid, hlow, hhigh, heq⟩ := hpiece.halves
        refine ih (heq ▸ h.cut hlow hhigh) fun q hq => ?_
        rcases List.mem_append.1 hq with hq | hq
        · exact hsmall q (List.mem_cons_of_mem _ hq)
        · exact hpiece.of_mem_halves hq
    · exact h

theorem levelBox_concat (level : List (PartitionBBox R.database.NetId))
    (p : PartitionBBox R.database.NetId) :
    R.levelBox (level ++ [p]) =
      ⟨⟨min (R.levelBox level).x.low p.bbox.lx, max (R.levelBox level).x.high p.bbox.hx⟩,
        ⟨min (R.levelBox level).y.low p.bbox.ly,
          max (max (R.levelBox level).x.high p.bbox.hx) p.bbox.hx⟩⟩ := by
  rw [levelBox, List.foldl_append]
  rfl

theorem levelHull_concat (level : List (PartitionBBox R.database.NetId))
    (p : PartitionBBox R.database.NetId) :
    R.levelHull (level ++ [p]) =
      ⟨⟨min (R.levelHull level).x.low p.bbox.lx, max (R.levelHull level).x.high p.bbox.hx⟩,
        ⟨min (R.levelHull level).y.low p.bbox.ly, max (R.levelHull level).y.high p.bbox.hy⟩⟩ := by
  rw [levelHull, List.map_append, BoxT.hullOf, List.foldl_append]
  rfl

/-- The box around a level has its columns, and rows that end where the columns end. -/
theorem levelBox_eq (hne : level ≠ []) :
    R.levelBox level = ⟨(R.levelHull level).x, ⟨(R.levelHull level).ly, (R.levelHull level).hx⟩⟩ := by
  -- The end of the rows is set in the last round; the other sides agree in every round.
  have hsame : ∀ level : List (PartitionBBox R.database.NetId),
      (R.levelBox level).x = (R.levelHull level).x ∧
        (R.levelBox level).y.low = (R.levelHull level).y.low := by
    intro level
    induction level using List.reverseRecOn with
    | nil => exact ⟨rfl, rfl⟩
    | append_singleton level p ih =>
      rw [levelBox_concat, levelHull_concat, ih.1, ih.2]
      exact ⟨rfl, rfl⟩
  obtain ⟨level, p, rfl⟩ := (List.eq_nil_or_concat level).resolve_left hne
  obtain ⟨hx, hy⟩ := hsame level
  unfold BoxT.ly BoxT.hx
  rw [List.concat_eq_append, levelBox_concat, levelHull_concat, hx, hy, max_assoc, max_self]

/-- The regions of a level lie in the root. -/
theorem regionLevels_mem (hlayout : R.database.layout = .set 0 0 108 300)
    (hlevel : level ∈ R.regionLevels) {p : PartitionBBox R.database.NetId} (hp : p ∈ level)
    (axis : Axis) :
    -1 ≤ (p.bbox.along axis).low ∧ (p.bbox.along axis).low < (p.bbox.along axis).high ∧
      (p.bbox.along axis).high ≤ 300 := by
  obtain ⟨regions, hregions, -⟩ := regions_perm hlayout
  have hstate := treeState_regions hlayout hregions
  unfold regionLevels levelsOf at hlevel
  rw [hregions] at hlevel
  obtain ⟨lid, -, rfl⟩ := List.mem_map.1 hlevel
  have hmem : p ∈ regions ++ [] := List.mem_append_left _ (List.mem_filter.1 hp).1
  have hwide := (hstate.ok p hmem).wide axis
  have hroot := BoxT.contains_iff.1 (hstate.inRoot p hmem) axis
  have hdevice : R.device.bbox = .set (-1) 0 107 300 := by
    unfold device
    rw [hlayout]
    rfl
  rw [hdevice] at hroot
  unfold IntervalT.Contains BoxT.set at hroot
  cases axis with
  | x =>
    dsimp only [BoxT.along] at *
    omega
  | y =>
    dsimp only [BoxT.along] at *
    omega

/-- The box around a level of the tree. -/
theorem levelHull_spec (hlayout : R.database.layout = .set 0 0 108 300)
    (hlevel : level ∈ R.regionLevels) (hne : level ≠ []) (axis : Axis) :
    (-1 ≤ ((R.levelHull level).along axis).low ∧
        ((R.levelHull level).along axis).low < ((R.levelHull level).along axis).high ∧
        ((R.levelHull level).along axis).high ≤ 300) ∧
      (∀ p ∈ level, ((R.levelHull level).along axis).Contains (p.bbox.along axis)) ∧
      ∃ p ∈ level, (p.bbox.along axis).high = ((R.levelHull level).along axis).high := by
  have hmem := fun p hp => regionLevels_mem (p := p) hlayout hlevel hp
  have hne' : level.map PartitionBBox.bbox ≠ [] := fun h => hne (List.map_eq_nil_iff.1 h)
  have hrange : ∀ c ∈ level.map PartitionBBox.bbox, ∀ axis,
      (c.along axis).low ≤ intMax ∧ intMin ≤ (c.along axis).high := by
    intro c hc axis
    obtain ⟨p, hp, rfl⟩ := List.mem_map.1 hc
    have h := hmem p hp axis
    unfold intMin intMax
    omega
  obtain ⟨⟨⟨c, hc, hlow⟩, hleast⟩, ⟨d, hd, hhigh⟩, hgreatest⟩ := BoxT.hullOf_sides hne' hrange axis
  obtain ⟨p, hp, rfl⟩ := List.mem_map.1 hc
  obtain ⟨q, hq, rfl⟩ := List.mem_map.1 hd
  have hp' := hmem p hp axis
  have hq' := hmem q hq axis
  have hwide := hleast ⟨q.bbox, hd, rfl⟩
  unfold levelHull
  refine ⟨⟨by omega, by omega, by omega⟩, fun r hr => ?_, q, hq, hhigh⟩
  have hr' := List.mem_map_of_mem (f := PartitionBBox.bbox) hr
  exact ⟨hleast ⟨r.bbox, hr', rfl⟩, hgreatest ⟨r.bbox, hr', rfl⟩⟩

theorem smallBox_levelBox (hlayout : R.database.layout = .set 0 0 108 300)
    (hlevel : level ∈ R.regionLevels) (hne : level ≠ []) : SmallBox (R.levelBox level) := by
  obtain ⟨hx, -⟩ := levelHull_spec hlayout hlevel hne .x
  obtain ⟨hy, -⟩ := levelHull_spec hlayout hlevel hne .y
  rw [levelBox_eq (R := R) hne]
  unfold BoxT.hx BoxT.ly
  dsimp only [BoxT.along] at hx hy
  refine ⟨le_of_lt hx.2.1, fun axis => ?_, fun axis => ?_⟩
  all_goals
    cases axis <;> dsimp only [BoxT.along] <;> omega

/-- **When the pieces of a level cover it.** There is a piece for every thread and the pieces meet in
their borders. They make up the box around the level exactly if that box ends in the same column and
row, and they hold every point of every region exactly if it does not end in a higher row. -/
theorem levelBoxPieces_cover_iff (hlayout : R.database.layout = .set 0 0 108 300)
    (hthread : 0 < R.numThread) (hlevel : level ∈ R.regionLevels) (hne : level ≠ []) :
    (R.levelBoxPieces level).length = R.numThread ∧
      ((R.levelBoxPieces level).Pairwise fun b c => ¬b.HasStrictIntersectWith c) ∧
      ((∀ px py, (∃ b ∈ R.levelBoxPieces level, b.Has px py) ↔ (R.levelHull level).Has px py) ↔
        (R.levelHull level).hy = (R.levelHull level).hx) ∧
      ((∀ p ∈ level, ∀ px py, p.bbox.Has px py → ∃ b ∈ R.levelBoxPieces level, b.Has px py) ↔
        (R.levelHull level).hy ≤ (R.levelHull level).hx) := by
  obtain ⟨hx, hxin, -⟩ := levelHull_spec hlayout hlevel hne .x
  obtain ⟨hy, hyin, p, hp, hphigh⟩ := levelHull_spec hlayout hlevel hne .y
  have hpx := regionLevels_mem hlayout hlevel hp .x
  have hpy := regionLevels_mem hlayout hlevel hp .y
  have hpcols := hxin p hp
  have hbox := levelBox_eq (R := R) hne
  unfold BoxT.hx BoxT.hy
  unfold BoxT.hx BoxT.ly at hbox
  dsimp only [BoxT.along] at hx hy hxin hyin hphigh hpx hpy hpcols
  unfold IntervalT.Contains at hxin hyin hpcols
  have htiles : (R.levelBox level).TiledBy (R.levelBoxPieces level) := by
    refine tiledBy_splitBoxes (BoxT.tiledBy_singleton _) fun q hq => ?_
    rw [List.mem_singleton.1 hq]
    exact smallBox_levelBox hlayout hlevel hne
  refine ⟨length_levelBoxPieces hthread level, htiles.apart, ?_, ?_⟩
  · simp only [htiles.cover, hbox]
    unfold BoxT.Has
    dsimp only
    constructor
    · intro h
      -- The upper left corner of the box around the level, then the end of the rows of the pieces.
      have hcorner := (h (R.levelHull level).x.low (R.levelHull level).y.high).2
        ⟨⟨le_refl _, le_of_lt hx.2.1⟩, le_of_lt hy.2.1, le_refl _⟩
      have hend := (h (R.levelHull level).x.low (R.levelHull level).x.high).1
        ⟨⟨le_refl _, le_of_lt hx.2.1⟩, (le_of_lt hy.2.1).trans hcorner.2.2, le_refl _⟩
      exact le_antisymm hcorner.2.2 hend.2.2
    · intro h px py
      rw [h]
  · simp only [htiles.cover, hbox]
    unfold BoxT.Has
    dsimp only
    constructor
    · intro h
      have hcorner := h p hp p.bbox.x.low p.bbox.y.high
        ⟨⟨le_refl _, le_of_lt hpx.2.1⟩, le_of_lt hpy.2.1, le_refl _⟩
      rw [← hphigh]
      exact hcorner.2.2
    · intro h q hq px py hhas
      have hqx := hxin q hq
      have hqy := hyin q hq
      omega

end Pieces

/-! Six nets one above the other. The cut between the rows has two nets below and three above that it
cannot tell apart, so that only the lower part is cut again. -/

def terraceRow (r : Nat) : Int :=
  if r < 2 then 17 else if r < 4 then 20 else if r < 6 then 40 else 60

abbrev terracesDatabase : Database ℚ :=
  { columnsDatabase 6 true with
    routeNodes := fun r =>
      { (columnsDatabase 6 true).routeNodes r with
        beginTileXCoordinate := 10
        endTileXCoordinate := 10
        beginTileYCoordinate := terraceRow r
        endTileYCoordinate := terraceRow r } }

/-- Three threads on the design with its boxes. -/
abbrev terraces : AStarRoute ℚ :=
  { columns 6 3 true true with
    database := terracesDatabase.boxed 3 15
    queue := scanQueue _ ℚ }

/-- The last level ends in row 40 and column 107. Its pieces hold all its regions, and more than the box
around them. -/
theorem levelBoxPieces_cover_iff_terraces :
    ∃ level ∈ terraces.regionLevels, level ≠ [] ∧ (terraces.levelBoxPieces level).length = 3 ∧
      ((terraces.levelBoxPieces level).Pairwise fun b c => ¬b.HasStrictIntersectWith c) ∧
      (¬∀ px py, (∃ b ∈ terraces.levelBoxPieces level, b.Has px py) ↔
        (terraces.levelHull level).Has px py) ∧
      ∀ p ∈ level, ∀ px py, p.bbox.Has px py → ∃ b ∈ terraces.levelBoxPieces level, b.Has px py := by
  obtain ⟨level, hlevel, hne, hrows, hcols⟩ : ∃ level ∈ terraces.regionLevels, level ≠ [] ∧
      (terraces.levelHull level).hy = 40 ∧ (terraces.levelHull level).hx = 107 := by decide +kernel
  obtain ⟨hlength, hapart, hsame, hhold⟩ :=
    levelBoxPieces_cover_iff (R := terraces) rfl (by decide) hlevel hne
  rw [hrows, hcols] at hsame hhold
  exact ⟨level, hlevel, hne, hlength, hapart, fun h => absurd (hsame.1 h) (by decide),
    hhold.2 (by decide)⟩

/-- The root alone is a level. It has more rows than columns, and row 200 is in no piece. -/
theorem levelBoxPieces_miss_islands :
    ∃ level ∈ islands.regionLevels, level ≠ [] ∧ (∃ p ∈ level, p.bbox.Has 0 200) ∧
      ¬∃ b ∈ islands.levelBoxPieces level, b.Has 0 200 := by
  decide +kernel

end AStarRoute

end Potter
