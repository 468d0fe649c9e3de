import Potter.Route.RegionTree

/-!
# The centroids of the clusters

Nets are clustered by their boxes. In every round `kmeans` gives each cluster a new box, the mean of the
boxes of its nets, where a net counts as often as it has connections. A cluster without connections is
started again: its box should be put at the mean of the centers of the others, but it is put at their
sum. Its center, which nothing reads, is divided by their number, its box is not.

Coordinates are exact here: no sum leaves the range of `int`, and the centers, which are whole numbers,
are stored without rounding. `updateCentroids_iff` says when the boxes stay with the nets.
-/

namespace Potter

/-- The box with a margin around it. -/
def BoxT.grow (b : BoxT) (xMargin yMargin : Int) : BoxT :=
  .set (b.lx - xMargin) (b.ly - yMargin) (b.hx + xMargin) (b.hy + yMargin)

namespace AStarRoute

variable {K : Type} [Arith K] (R : AStarRoute K) {k : Nat}

/-! ## The update of the centroids -/

section Update

/-- What is summed up for a cluster: the sides of the boxes, and the number of connections. -/
structure ClusterSum where
  box : BoxT
  count : Int

/-- Add a net to its cluster. -/
def ClusterSum.add (s : ClusterSum) (box : BoxT) (size : Int) : ClusterSum where
  box := .set (s.box.lx + box.lx * size) (s.box.ly + box.ly * size) (s.box.hx + box.hx * size)
    (s.box.hy + box.hy * size)
  count := s.count + size

/-- The sums of the clusters, for nets with their labels. -/
def clusterSums (items : List (R.database.NetId × Fin k)) : Fin k → ClusterSum :=
  items.foldl (fun sums item => Function.update sums item.2
      ((sums item.2).add (R.netBox item.1) (R.database.nets item.1).getConnectionSize))
    fun _ => ⟨.set 0 0 0 0, 0⟩

/-- The sums divided by the count. -/
def ClusterSum.mean (s : ClusterSum) : BoxT :=
  .set (s.box.lx.tdiv s.count) (s.box.ly.tdiv s.count) (s.box.hx.tdiv s.count)
    (s.box.hy.tdiv s.count)

/-- The center of a new centroid along an axis. -/
def ClusterSum.center (s : ClusterSum) (axis : Axis) : Int :=
  ((s.mean.along axis).low + (s.mean.along axis).high).tdiv 2

/-- The clusters with connections. -/
def notEmptyClusters (items : List (R.database.NetId × Fin k)) : List (Fin k) :=
  (List.finRange k).filter fun j => 0 < (R.clusterSums items j).count

/-- The sum of the centers of the clusters with connections. -/
def centerSum (items : List (R.database.NetId × Fin k)) (axis : Axis) : Int :=
  ((R.notEmptyClusters items).map fun j => (R.clusterSums items j).center axis).sum

/-- The box of a cluster that is started again. -/
def reInitialized (items : List (R.database.NetId × Fin k)) : BoxT :=
  .set (R.centerSum items .x - 3) (R.centerSum items .y - 15) (R.centerSum items .x + 3)
    (R.centerSum items .y + 15)

/-- The boxes of the new centroids. -/
def updateCentroids (items : List (R.database.NetId × Fin k)) (j : Fin k) : BoxT :=
  let s := R.clusterSums items j
  let centroid := if s.count > 0 then s.mean else s.box
  if (R.notEmptyClusters items).length < k then
    if s.count = 0 then R.reInitialized items else centroid
  else centroid

end Update

/-! ## One cluster -/

section Cluster

/-- The nets of a cluster. -/
def clusterNets (items : List (R.database.NetId × Fin k)) (j : Fin k) : List R.database.NetId :=
  (items.filter fun item => item.2 = j).map Prod.fst

/-- The sum of a value over some nets, as often as they have connections. -/
def weighted (value : R.database.NetId → Int) (netIds : List R.database.NetId) : Int :=
  (netIds.map fun n => value n * (R.database.nets n).getConnectionSize).sum

variable {R} {items : List (R.database.NetId × Fin k)} {j : Fin k}

theorem clusterSums_concat (items : List (R.database.NetId × Fin k))
    (item : R.database.NetId × Fin k) (j : Fin k) :
    R.clusterSums (items ++ [item]) j =
      if j = item.2 then (R.clusterSums items j).add (R.netBox item.1)
        (R.database.nets item.1).getConnectionSize
      else R.clusterSums items j := by
  rw [clusterSums, List.foldl_append, List.foldl_cons, List.foldl_nil]
  by_cases h : j = item.2
  · rw [if_pos h, h, Function.update_self]
    rfl
  · rw [if_neg h, Function.update_of_ne h]
    rfl

theorem clusterNets_concat (items : List (R.database.NetId × Fin k))
    (item : R.database.NetId × Fin k) (j : Fin k) :
    R.clusterNets (items ++ [item]) j =
      if j = item.2 then R.clusterNets items j ++ [item.1] else R.clusterNets items j := by
  unfold clusterNets
  rw [List.filter_append, List.map_append]
  by_cases h : j = item.2
  · simp [h]
  · simp [h, Ne.symm h]

/-- **The sums of a cluster** are those of its nets. -/
theorem clusterSums_eq (items : List (R.database.NetId × Fin k)) (j : Fin k) :
    (R.clusterSums items j).count = R.connectionSum (R.clusterNets items j) ∧
      ∀ axis, ((R.clusterSums items j).box.along axis).low =
          R.weighted (fun n => ((R.netBox n).along axis).low) (R.clusterNets items j) ∧
        ((R.clusterSums items j).box.along axis).high =
          R.weighted (fun n => ((R.netBox n).along axis).high) (R.clusterNets items j) := by
  induction items using List.reverseRecOn with
  | nil =>
    refine ⟨rfl, fun axis => ?_⟩
    cases axis <;> exact ⟨rfl, rfl⟩
  | append_singleton items item ih =>
    rw [clusterSums_concat, clusterNets_concat]
    split
    · unfold connectionSum weighted at *
      simp only [List.map_append, List.map_cons, List.map_nil, List.sum_append, List.sum_singleton]
      refine ⟨by rw [← ih.1]; rfl, fun axis => ?_⟩
      rw [← (ih.2 axis).1, ← (ih.2 axis).2]
      cases axis <;> exact ⟨rfl, rfl⟩
    · exact ih

theorem mem_clusterNets {n : R.database.NetId} : n ∈ R.clusterNets items j ↔ (n, j) ∈ items := by
  unfold clusterNets
  constructor
  · intro h
    obtain ⟨item, hitem, rfl⟩ := List.mem_map.1 h
    obtain ⟨hmem, hj⟩ := List.mem_filter.1 hitem
    rw [← of_decide_eq_true hj]
    exact hmem
  · intro h
    exact List.mem_map.2 ⟨(n, j), List.mem_filter.2 ⟨h, decide_eq_true rfl⟩, rfl⟩

/-- A weighted sum lies between the bounds of its values. -/
theorem weighted_mem {value : R.database.NetId → Int} {low high : Int}
    {netIds : List R.database.NetId} (h : ∀ n ∈ netIds,
      0 < (R.database.nets n).getConnectionSize → low ≤ value n ∧ value n ≤ high) :
    low * R.connectionSum netIds ≤ R.weighted value netIds ∧
      R.weighted value netIds ≤ high * R.connectionSum netIds := by
  unfold weighted connectionSum
  induction netIds with
  | nil => simp
  | cons n netIds ih =>
    obtain ⟨hlow, hhigh⟩ := ih fun m hm => h m (List.mem_cons_of_mem _ hm)
    simp only [List.map_cons, List.sum_cons, mul_add]
    have hsize : 0 ≤ (R.database.nets n).getConnectionSize := Int.natCast_nonneg _
    -- A net without connections adds nothing, whatever its box is.
    have hn : low * (R.database.nets n).getConnectionSize ≤
          value n * (R.database.nets n).getConnectionSize ∧
        value n * (R.database.nets n).getConnectionSize ≤
          high * (R.database.nets n).getConnectionSize := by
      rcases eq_or_lt_of_le hsize with hzero | hpos
      · rw [← hzero]
        simp
      · obtain ⟨h1, h2⟩ := h n List.mem_cons_self hpos
        exact ⟨Int.mul_le_mul_of_nonneg_right h1 hsize, Int.mul_le_mul_of_nonneg_right h2 hsize⟩
    omega

theorem count_nonneg (items : List (R.database.NetId × Fin k)) (j : Fin k) :
    0 ≤ (R.clusterSums items j).count := by
  rw [(clusterSums_eq items j).1]
  apply List.sum_nonneg
  intro v hv
  obtain ⟨n, -, rfl⟩ := List.mem_map.1 hv
  exact Int.natCast_nonneg _

/-- A net with connections makes its cluster count. -/
theorem count_pos {item : R.database.NetId × Fin k} (hitem : item ∈ items)
    (hsize : 0 < (R.database.nets item.1).getConnectionSize) :
    0 < (R.clusterSums items item.2).count := by
  rw [(clusterSums_eq items item.2).1]
  refine lt_of_lt_of_le hsize (List.single_le_sum ?_ _ ?_)
  · intro v hv
    obtain ⟨n, -, rfl⟩ := List.mem_map.1 hv
    exact Int.natCast_nonneg _
  · exact List.mem_map_of_mem (f := fun n => (R.database.nets n).getConnectionSize)
      (mem_clusterNets.2 hitem)

theorem mean_along (s : ClusterSum) (axis : Axis) :
    s.mean.along axis =
      ⟨(s.box.along axis).low.tdiv s.count, (s.box.along axis).high.tdiv s.count⟩ := by
  cases axis <;> rfl

theorem tdiv_weighted_mem (hpos : 0 < (R.clusterSums items j).count)
    {value : R.database.NetId → Int} {low high : Int} (h : ∀ item ∈ items,
      0 < (R.database.nets item.1).getConnectionSize → low ≤ value item.1 ∧ value item.1 ≤ high) :
    low ≤ (R.weighted value (R.clusterNets items j)).tdiv (R.clusterSums items j).count ∧
      (R.weighted value (R.clusterNets items j)).tdiv (R.clusterSums items j).count ≤ high := by
  obtain ⟨h1, h2⟩ := weighted_mem fun n hn => h (n, j) (mem_clusterNets.1 hn)
  rw [← (clusterSums_eq items j).1] at h1 h2
  exact tdiv_mem hpos h1 h2

/-- The sides of the mean box lie between bounds of the sides of the nets. -/
theorem mean_low_mem (hpos : 0 < (R.clusterSums items j).count) (axis : Axis) {low high : Int}
    (h : ∀ item ∈ items, 0 < (R.database.nets item.1).getConnectionSize →
      low ≤ ((R.netBox item.1).along axis).low ∧ ((R.netBox item.1).along axis).low ≤ high) :
    low ≤ ((R.clusterSums items j).mean.along axis).low ∧
      ((R.clusterSums items j).mean.along axis).low ≤ high := by
  rw [mean_along, ((clusterSums_eq items j).2 axis).1]
  exact tdiv_weighted_mem hpos h

theorem mean_high_mem (hpos : 0 < (R.clusterSums items j).count) (axis : Axis) {low high : Int}
    (h : ∀ item ∈ items, 0 < (R.database.nets item.1).getConnectionSize →
      low ≤ ((R.netBox item.1).along axis).high ∧ ((R.netBox item.1).along axis).high ≤ high) :
    low ≤ ((R.clusterSums items j).mean.along axis).high ∧
      ((R.clusterSums items j).mean.along axis).high ≤ high := by
  rw [mean_along, ((clusterSums_eq items j).2 axis).2]
  exact tdiv_weighted_mem hpos h

end Cluster

/-! ## Where the centroids are -/

section Place

/-- The box of a net lies in the layout, with the column and row `-1`, where the router cuts boxes. -/
def InLayout (n : R.database.NetId) : Prop :=
  ∀ axis, (-1 ≤ ((R.netBox n).along axis).low ∧ 0 ≤ ((R.netBox n).along axis).high) ∧
    ((R.netBox n).along axis).low ≤ ((R.netBox n).along axis).high ∧
    ((R.netBox n).along axis).high ≤ (R.database.layout.along axis).high

/-- The hull of the boxes of the clustered nets that have connections. -/
def clusteredHull (items : List (R.database.NetId × Fin k)) : BoxT :=
  .hullOf ((items.filter fun item => 0 < (R.database.nets item.1).getConnectionSize).map
    fun item => R.netBox item.1)

/-- The box of every centroid lies in the hull with a margin, and that of a cluster without connections
is centered on the mean of the centers of the others. -/
def CentroidsStay (items : List (R.database.NetId × Fin k)) : Prop :=
  (∀ j, ((R.clusteredHull items).grow 3 15).Contains (R.updateCentroids items j)) ∧
    ∀ j, (R.clusterSums items j).count = 0 → ∀ axis,
      (R.notEmptyClusters items).length * (((R.updateCentroids items j).along axis).low +
        ((R.updateCentroids items j).along axis).high) = 2 * R.centerSum items axis

variable {R} {items : List (R.database.NetId × Fin k)} {j : Fin k}

theorem mem_notEmptyClusters : j ∈ R.notEmptyClusters items ↔ 0 < (R.clusterSums items j).count := by
  unfold notEmptyClusters
  rw [List.mem_filter, decide_eq_true_iff]
  exact and_iff_right (List.mem_finRange j)

theorem updateCentroids_of_pos (h : 0 < (R.clusterSums items j).count) :
    R.updateCentroids items j = (R.clusterSums items j).mean := by
  unfold updateCentroids
  dsimp only
  rw [if_neg (ne_of_gt h), ite_self, if_pos h]

theorem length_notEmptyClusters_lt (h : (R.clusterSums items j).count = 0) :
    (R.notEmptyClusters items).length < k := by
  have hlt : (R.notEmptyClusters items).length < (List.finRange k).length := by
    apply List.length_filter_lt_length_iff_exists.2
    exact ⟨j, List.mem_finRange j, by simp [h]⟩
  rwa [List.length_finRange] at hlt

theorem updateCentroids_of_zero (h : (R.clusterSums items j).count = 0) :
    R.updateCentroids items j = R.reInitialized items := by
  unfold updateCentroids
  dsimp only
  rw [if_pos (length_notEmptyClusters_lt h), if_pos h]

theorem grow_reInitialized_iff (b : BoxT) :
    (b.grow 3 15).Contains (R.reInitialized items) ↔
      ∀ axis, (b.along axis).low ≤ R.centerSum items axis ∧
        R.centerSum items axis ≤ (b.along axis).high := by
  have hforall : ∀ P : Axis → Prop, (∀ axis, P axis) ↔ P .x ∧ P .y := by
    intro P
    refine ⟨fun h => ⟨h .x, h .y⟩, fun h axis => ?_⟩
    cases axis with
    | x => exact h.1
    | y => exact h.2
  rw [hforall]
  unfold BoxT.Contains IntervalT.Contains BoxT.grow reInitialized BoxT.set BoxT.lx BoxT.ly BoxT.hx
    BoxT.hy BoxT.along
  dsimp only
  omega

theorem reInitialized_along (items : List (R.database.NetId × Fin k)) (axis : Axis) :
    ((R.reInitialized items).along axis).low + ((R.reInitialized items).along axis).high =
      2 * R.centerSum items axis := by
  cases axis <;> dsimp only [reInitialized, BoxT.set, BoxT.along] <;> omega

/-- Without connections the hull is the default box, which holds nothing. -/
theorem clusteredHull_of_nil (h : R.notEmptyClusters items = []) : R.clusteredHull items = .empty := by
  have hfilter : (items.filter fun item => 0 < (R.database.nets item.1).getConnectionSize) = [] := by
    rw [List.filter_eq_nil_iff]
    intro item hitem hsize
    have hmem := mem_notEmptyClusters.2 (count_pos hitem (of_decide_eq_true hsize))
    rw [h] at hmem
    exact List.not_mem_nil hmem
  unfold clusteredHull
  rw [hfilter]
  rfl

/-- The boxes of the router lie in the layout. -/
theorem inLayout_of_boxed (hlayout : R.database.layout = .set 0 0 108 300) (hboxed : R.database.Boxed)
    {n : R.database.NetId} (hsize : 0 < (R.database.nets n).getConnectionSize) : R.InLayout n := by
  have hextent := hboxed.extent hlayout (List.length_pos_iff.1 (Int.natCast_pos.1 hsize))
  intro axis
  cases axis with
  | x =>
    dsimp only [netBox, BoxT.set, BoxT.along]
    unfold BoxT.hx at hextent
    omega
  | y =>
    dsimp only [netBox, BoxT.set, BoxT.along]
    unfold BoxT.hy at hextent
    omega

section Layout

variable (hlayout : R.database.layout = .set 0 0 108 300)
  (hin : ∀ item ∈ items, 0 < (R.database.nets item.1).getConnectionSize → R.InLayout item.1)

include hlayout hin

theorem clusteredHull_contains (item : R.database.NetId × Fin k) (hitem : item ∈ items)
    (hsize : 0 < (R.database.nets item.1).getConnectionSize) (axis : Axis) :
    ((R.clusteredHull items).along axis).Contains ((R.netBox item.1).along axis) := by
  have hmem : R.netBox item.1 ∈ (items.filter fun item =>
      0 < (R.database.nets item.1).getConnectionSize).map fun item => R.netBox item.1 :=
    List.mem_map.2 ⟨item, List.mem_filter.2 ⟨hitem, decide_eq_true hsize⟩, rfl⟩
  have hrange : ∀ c ∈ (items.filter fun item =>
      0 < (R.database.nets item.1).getConnectionSize).map fun item => R.netBox item.1,
      ∀ axis, (c.along axis).low ≤ intMax ∧ intMin ≤ (c.along axis).high := by
    intro c hc axis
    obtain ⟨other, hother, rfl⟩ := List.mem_map.1 hc
    obtain ⟨hmem, hpos⟩ := List.mem_filter.1 hother
    have hbox := hin other hmem (of_decide_eq_true hpos) axis
    have hend : (R.database.layout.along axis).high ≤ 300 := by
      rw [hlayout]
      cases axis <;> decide
    unfold intMax intMin
    omega
  obtain ⟨⟨-, hleast⟩, -, hgreatest⟩ := BoxT.hullOf_sides (List.ne_nil_of_mem hmem) hrange axis
  exact ⟨hleast ⟨_, hmem, rfl⟩, hgreatest ⟨_, hmem, rfl⟩⟩

/-- A cluster with connections has its box, and its center, in the hull. The center is not negative, and
it is 0 only if the box is next to the border. -/
theorem mean_mem (hpos : 0 < (R.clusterSums items j).count) (axis : Axis) :
    ((R.clusteredHull items).along axis).Contains ((R.clusterSums items j).mean.along axis) ∧
      (((R.clusteredHull items).along axis).low ≤ (R.clusterSums items j).center axis ∧
        (R.clusterSums items j).center axis ≤ ((R.clusteredHull items).along axis).high) ∧
      0 ≤ (R.clusterSums items j).center axis ∧
      ((R.clusterSums items j).center axis = 0 ↔ ((R.clusterSums items j).mean.along axis).low +
        ((R.clusterSums items j).mean.along axis).high ≤ 1) := by
  have hhull := fun item hitem hsize => clusteredHull_contains hlayout hin item hitem hsize axis
  obtain ⟨hlow, hlow'⟩ := mean_low_mem hpos axis fun item hitem hsize =>
    ⟨(hhull item hitem hsize).1,
      (hin item hitem hsize axis).2.1.trans (hhull item hitem hsize).2⟩
  obtain ⟨hhigh', hhigh⟩ := mean_high_mem hpos axis fun item hitem hsize =>
    ⟨(hhull item hitem hsize).1.trans (hin item hitem hsize axis).2.1,
      (hhull item hitem hsize).2⟩
  obtain ⟨hborder, -⟩ := mean_low_mem hpos axis fun item hitem hsize =>
    ⟨(hin item hitem hsize axis).1.1,
      (hin item hitem hsize axis).2.1.trans (hhull item hitem hsize).2⟩
  obtain ⟨hnonneg, -⟩ := mean_high_mem hpos axis fun item hitem hsize =>
    ⟨(hin item hitem hsize axis).1.2, (hhull item hitem hsize).2⟩
  refine ⟨⟨hlow, hhigh⟩, tdiv_mem (by decide) (by omega) (by omega), ?_⟩
  -- The sum of the sides is at least `-1`, which the division takes to 0.
  unfold ClusterSum.center
  rw [Int.tdiv_eq_ediv]
  split
  · omega
  · rw [Int.sign_eq_one_of_pos (by decide)]
    omega

/-- Only clusters without connections can leave. -/
theorem centroidsStay_iff :
    R.CentroidsStay items ↔ ∀ j, (R.clusterSums items j).count = 0 → ∀ axis,
      (((R.clusteredHull items).along axis).low ≤ R.centerSum items axis ∧
        R.centerSum items axis ≤ ((R.clusteredHull items).along axis).high) ∧
      (R.notEmptyClusters items).length * R.centerSum items axis = R.centerSum items axis := by
  have hcenter : ∀ axis, ((R.notEmptyClusters items).length : Int) *
        (((R.reInitialized items).along axis).low + ((R.reInitialized items).along axis).high) =
        2 * R.centerSum items axis ↔
      (R.notEmptyClusters items).length * R.centerSum items axis = R.centerSum items axis := by
    intro axis
    rw [reInitialized_along, mul_left_comm]
    omega
  constructor
  · rintro ⟨hhull, hcentered⟩ j hj axis
    have hbox := hhull j
    have hmid := hcentered j hj axis
    rw [updateCentroids_of_zero hj] at hbox hmid
    exact ⟨(grow_reInitialized_iff _).1 hbox axis, (hcenter axis).1 hmid⟩
  · intro h
    refine ⟨fun j => ?_, fun j hj axis => ?_⟩
    · rcases eq_or_lt_of_le (count_nonneg items j) with hzero | hpos
      · rw [updateCentroids_of_zero hzero.symm, grow_reInitialized_iff]
        exact fun axis => (h j hzero.symm axis).1
      · rw [updateCentroids_of_pos hpos]
        refine BoxT.Contains.trans ?_ (BoxT.contains_iff.2 fun axis => (mean_mem hlayout hin hpos axis).1)
        unfold BoxT.Contains IntervalT.Contains BoxT.grow BoxT.set BoxT.lx BoxT.ly BoxT.hx BoxT.hy
        dsimp only
        omega
    · rw [updateCentroids_of_zero hj]
      exact (hcenter axis).2 (h j hj axis).2

/-- No center is negative, so their sum is zero only if all are. -/
theorem centerSum_eq_zero_iff (axis : Axis) :
    R.centerSum items axis = 0 ↔ ∀ j ∈ R.notEmptyClusters items,
      ((R.clusterSums items j).mean.along axis).low +
        ((R.clusterSums items j).mean.along axis).high ≤ 1 := by
  have hmean := fun j hj => (mean_mem (j := j) hlayout hin (mem_notEmptyClusters.1 hj) axis).2.2
  constructor
  · intro hsum j hj
    have hle : (R.clusterSums items j).center axis ≤ R.centerSum items axis := by
      apply List.single_le_sum
      · intro v hv
        obtain ⟨i, hi, rfl⟩ := List.mem_map.1 hv
        exact (hmean i hi).1
      · exact List.mem_map_of_mem hj
    rw [hsum] at hle
    exact (hmean j hj).2.1 (le_antisymm hle (hmean j hj).1)
  · intro hborder
    apply List.sum_eq_zero
    intro v hv
    obtain ⟨j, hj, rfl⟩ := List.mem_map.1 hv
    exact (hmean j hj).2.2 (hborder j hj)

/-- **When the centroids stay with the nets**: every cluster has connections, or one cluster has all of
them, or the mean boxes of all clusters with connections are next to the lower left corner. -/
theorem updateCentroids_iff :
    R.CentroidsStay items ↔
      (R.notEmptyClusters items).length = k ∨ (R.notEmptyClusters items).length = 1 ∨
        0 < (R.notEmptyClusters items).length ∧ ∀ j ∈ R.notEmptyClusters items, ∀ axis,
          ((R.clusterSums items j).mean.along axis).low +
            ((R.clusterSums items j).mean.along axis).high ≤ 1 := by
  have hmean := fun j hj => mean_mem (j := j) hlayout hin (mem_notEmptyClusters.1 hj)
  rw [centroidsStay_iff hlayout hin]
  constructor
  · intro h
    by_cases hall : ∀ j, 0 < (R.clusterSums items j).count
    · left
      have hlen := List.length_filter_eq_length_iff.2 fun j (_ : j ∈ List.finRange k) =>
        decide_eq_true (hall j)
      rwa [List.length_finRange] at hlen
    · right
      obtain ⟨j, hj⟩ := not_forall.1 hall
      have hzero := h j (le_antisymm (not_lt.1 hj) (count_nonneg items j))
      have hpos : 0 < (R.notEmptyClusters items).length := by
        rw [List.length_pos_iff]
        intro hnone
        have hlow := (hzero .x).1.1
        rw [clusteredHull_of_nil hnone, centerSum, hnone, List.map_nil, List.sum_nil] at hlow
        exact absurd hlow (by decide)
      by_cases hone : (R.notEmptyClusters items).length = 1
      · exact .inl hone
      · refine .inr ⟨hpos, fun i hi axis => (centerSum_eq_zero_iff hlayout hin axis).1 ?_ i hi⟩
        have hprod : ((R.notEmptyClusters items).length - 1 : Int) * R.centerSum items axis = 0 := by
          rw [sub_mul, one_mul, (hzero axis).2, sub_self]
        refine (Int.mul_eq_zero.1 hprod).resolve_left fun h => hone ?_
        omega
  · intro h j hj axis
    rcases h with hk | hone | ⟨hpos, hcorner⟩
    · exact absurd hk (ne_of_lt (length_notEmptyClusters_lt hj))
    · -- The sum is the center of the only cluster.
      obtain ⟨i, hi⟩ := List.length_eq_one_iff.1 hone
      have hcenter : R.centerSum items axis = (R.clusterSums items i).center axis := by
        rw [centerSum, hi, List.map_singleton, List.sum_singleton]
      refine ⟨?_, by rw [hone, Nat.cast_one, one_mul]⟩
      rw [hcenter]
      exact (hmean i (by rw [hi]; exact List.mem_singleton_self i) axis).2.1
    · -- All centers are zero, and the hull holds them.
      have hzero := (centerSum_eq_zero_iff hlayout hin axis).2 fun i hi => hcorner i hi axis
      obtain ⟨i, hi⟩ := List.exists_mem_of_length_pos hpos
      have hcenter := (hmean i hi axis).2
      rw [hcenter.2.2.2 (hcorner i hi axis)] at hcenter
      refine ⟨?_, by rw [hzero, mul_zero]⟩
      rw [hzero]
      exact hcenter.1

end Layout

end Place

/-- The four islands in two clusters, the first two and the last two. -/
theorem updateCentroids_iff_islands :
    islands.CentroidsStay (k := 2) [(island 0, 0), (island 1, 0), (island 2, 1), (island 3, 1)] :=
  (updateCentroids_iff rfl fun _ _ hsize => inLayout_of_boxed rfl boxed_islands hsize).2
    (.inl (by decide +kernel))

/-- A third cluster is put at the sum of the centers, far above all nets. -/
theorem updateCentroids_leave_islands :
    (∀ n, 0 < (islands.database.nets n).getConnectionSize → islands.InLayout n) ∧
      let items : List (islands.database.NetId × Fin 3) :=
        [(island 0, 0), (island 1, 0), (island 2, 1), (island 3, 1)]
      islands.clusteredHull items = .set (-1) (-1) 12 165 ∧
        islands.updateCentroids items 0 = .set 0 67 4 92 ∧
        islands.updateCentroids items 1 = .set 4 135 10 165 ∧
        islands.updateCentroids items 2 = .set 6 214 12 244 ∧
        ¬((islands.clusteredHull items).grow 3 15).Contains (islands.updateCentroids items 2) := by
  refine ⟨fun n hsize => inLayout_of_boxed rfl boxed_islands hsize, ?_⟩
  decide +kernel

end AStarRoute

end Potter
