import Potter.Route.PartitionTree

/-!
# Scheduling in stable-first mode

`labelNets` takes the nets with the largest areas, area by area, until half of the connections would
be reached. The connections of these nets are routed level by level over a partition tree. All other
nets are clustered, one cluster for a thread, and the nets of a cluster are dealt out, sorted by the
angle under which they lie, to the batches (`kmeansBasedPartition`). How the clusters are found plays
no part here: a cluster is any assignment of nets to threads.

`isLabeled_iff` says which nets are labeled. `stableSchedule_iff` says when the schedule is made and
loses no net: not when there are nets to batch but too few of them for one batch.
-/

namespace Potter

open Lib

namespace AStarRoute

variable {K : Type} [Arith K] (R : AStarRoute K)

/-! ## Labeled nets -/

/-- The number of columns times the number of rows that a net extends over. -/
def labelArea (n : R.database.NetId) : Int :=
  ((R.database.nets n).xmax - (R.database.nets n).xmin + 1) *
    ((R.database.nets n).ymax - (R.database.nets n).ymin + 1)

/-- The nets with connections, in the order of their ids. -/
def netsWithConnections : List R.database.NetId :=
  (List.finRange R.database.numNets).filter fun n => 0 < (R.database.nets n).getConnectionSize

/-- The entry of the map for an area. An area without nets has none. -/
def areaMap (area : Int) : List R.database.NetId :=
  R.netsWithConnections.filter fun n => R.labelArea n = area

def maxArea : Int :=
  R.netsWithConnections.foldl (fun m n => if R.labelArea n > m then R.labelArea n else m) 0

/-- The number of connections of some nets. -/
def connectionSum (netIds : List R.database.NetId) : Int :=
  (netIds.map fun n => (R.database.nets n).getConnectionSize).sum

/-- What `labelNets` collects. The flag of a net is set when its id is added. -/
structure Labels (D : Database K) where
  connCnt : Int
  labeledNetIds : List D.NetId
  connectionIdsLabeled : List D.ConnId

/-- The loop over the areas, from the area below the argument down. It is left at the first area
that would make half of the connections labeled. -/
def labelAreas : Nat → Labels R.database → Labels R.database
  | 0, l => l
  | area + 1, l =>
    let netIds := R.areaMap area
    if netIds = [] then labelAreas area l
    else if 2 * (l.connCnt + R.connectionSum netIds) ≥ R.database.numConns then l
    else labelAreas area
      { connCnt := l.connCnt + R.connectionSum netIds
        labeledNetIds := l.labeledNetIds ++ netIds
        connectionIdsLabeled := l.connectionIdsLabeled ++
          netIds.flatMap fun n => (R.database.nets n).indirectConns }

def labels : Labels R.database := R.labelAreas (R.maxArea.toNat + 1) ⟨0, [], []⟩

def isLabeled (n : R.database.NetId) : Bool := n ∈ R.labels.labeledNetIds

/-- The levels of the partition tree of the labeled nets' connections. -/
def labelNets : Option (List (List (PartitionTreeNode R.database.ConnId))) :=
  R.database.scheduledTree R.sorter R.labels.connectionIdsLabeled
    (R.database.unionBBox R.labels.connectionIdsLabeled)

/-! ## Batches -/

def netIdsToPartition : List R.database.NetId :=
  (List.finRange R.database.numNets).filter fun n => ¬R.isLabeled n

/-- The nets of a thread, if `clusters` are the labels that the clustering gives to the nets to be
partitioned. -/
def netIdsForThread (clusters : List (Fin R.numThread)) (tid : Fin R.numThread) :
    List R.database.NetId :=
  ((R.netIdsToPartition.zip clusters).filter fun p => p.2 = tid).map Prod.fst

def numBatches : Nat :=
  (R.database.numNets - R.labels.labeledNetIds.length) / (256 * R.numThread)

/-- The extent of the nets of a thread. -/
def threadExtent (netIds : List R.database.NetId) : BoxT :=
  netIds.foldl (fun b n =>
    let net := R.database.nets n
    ⟨⟨min b.x.low net.xmin, max b.x.high net.xmax⟩, ⟨min b.y.low net.ymin, max b.y.high net.ymax⟩⟩)
    ⟨⟨2 * R.database.deviceXMax + 1, -2⟩, ⟨2 * R.database.deviceYMax + 1, -2⟩⟩

def middle (low high : Int) : K := ((low + high : Int) : K) * (1 : Int) / (2 : Int)

/-- The angle under which a net lies in the extent of its thread. -/
def angle (extent : BoxT) (n : R.database.NetId) : K :=
  let net := R.database.nets n
  Arith.atan2 (middle net.ymin net.ymax - middle extent.ly extent.hy)
    (middle net.xmin net.xmax - middle extent.lx extent.hx : K)

/-- The nets of a thread by angle. -/
def sortedByAngle (netIds : List R.database.NetId) : List R.database.NetId :=
  let extent := R.threadExtent netIds
  let order := R.sorter.sort
    (fun a b => R.angle extent (netIds.get a) < R.angle extent (netIds.get b))
    (List.finRange netIds.length)
  order.map netIds.get

/-- The batch of the `i`-th net of a thread with `size` nets. -/
def batchId (numBatches size i : Nat) : Nat := i * numBatches / size

/-- The index of the batch is checked before it is used. The product is an `int`, and not defined
out of its range. -/
def BatchIdOk (numBatches size i : Nat) : Prop :=
  ((i * numBatches : Nat) : Int) ≤ intMax ∧ batchId numBatches size i < numBatches

instance (numBatches size i : Nat) : Decidable (BatchIdOk numBatches size i) :=
  inferInstanceAs (Decidable (_ ∧ _))

/-- The nets of one thread in one batch. -/
def netIdBatch (netIds : List R.database.NetId) (batch : Nat) : List R.database.NetId :=
  ((R.sortedByAngle netIds).zipIdx.filter fun p =>
    batchId R.numBatches netIds.length p.2 = batch).map Prod.fst

/-- `netIdBatchesForThreads`, by batch and thread. -/
def kmeansBasedPartition (clusters : List (Fin R.numThread)) :
    Option (List (List (List R.database.NetId))) :=
  if clusters.length = R.netIdsToPartition.length ∧
      ∀ tid, ∀ i < (R.netIdsForThread clusters tid).length,
        BatchIdOk R.numBatches (R.netIdsForThread clusters tid).length i then
    some ((List.range R.numBatches).map fun batch =>
      (List.finRange R.numThread).map fun tid => R.netIdBatch (R.netIdsForThread clusters tid) batch)
  else none

/-! ## Which nets are labeled -/

section Labeled

/-- The number of connections of the nets with at least some area. -/
def weightFrom (area : Int) : Int :=
  R.connectionSum (R.netsWithConnections.filter fun n => area ≤ R.labelArea n)

/-- Among the nets with connections, those whose area and all larger ones together have less than
half of the connections. -/
def HasLargeArea (n : R.database.NetId) : Prop :=
  0 < (R.database.nets n).getConnectionSize ∧ 0 ≤ R.labelArea n ∧
    2 * R.weightFrom (R.labelArea n) < R.database.numConns

instance : DecidablePred R.HasLargeArea := fun _ => inferInstanceAs (Decidable (_ ∧ _))

variable {R}

theorem mem_netsWithConnections {n : R.database.NetId} :
    n ∈ R.netsWithConnections ↔ 0 < (R.database.nets n).getConnectionSize := by
  unfold netsWithConnections
  rw [List.mem_filter, decide_eq_true_iff]
  exact and_iff_right (List.mem_finRange n)

theorem nodup_netsWithConnections : R.netsWithConnections.Nodup := (List.nodup_finRange _).filter _

/-- The largest areas first: the nets from one area on are those of the area and those beyond. -/
theorem weightFrom_eq (area : Int) :
    R.weightFrom area = R.weightFrom (area + 1) + R.connectionSum (R.areaMap area) := by
  unfold weightFrom areaMap connectionSum
  induction R.netsWithConnections with
  | nil => rfl
  | cons n l ih =>
    simp only [List.filter_cons, decide_eq_true_eq]
    rcases lt_trichotomy area (R.labelArea n) with h | h | h
    · rw [if_pos (le_of_lt h), if_pos (Int.add_one_le_of_lt h), if_neg (ne_of_gt h)]
      simp only [List.map_cons, List.sum_cons]
      rw [ih, add_assoc]
    · rw [if_pos (le_of_eq h), if_neg (by omega), if_pos h.symm]
      simp only [List.map_cons, List.sum_cons]
      rw [ih]
      ring
    · rw [if_neg (by omega), if_neg (by omega), if_neg (by omega)]
      exact ih

theorem weightFrom_anti {a b : Int} (h : a ≤ b) : R.weightFrom b ≤ R.weightFrom a := by
  unfold weightFrom connectionSum
  induction R.netsWithConnections with
  | nil => exact le_refl _
  | cons n l ih =>
    have hpos : 0 ≤ (R.database.nets n).getConnectionSize := Int.natCast_nonneg _
    simp only [List.filter_cons, decide_eq_true_eq]
    split
    · rw [if_pos (by omega)]
      simp only [List.map_cons, List.sum_cons]
      omega
    · split
      · simp only [List.map_cons, List.sum_cons]
        omega
      · exact ih

/-- Between two states of the loop the nets `picked` were labeled: those below an area that have a
large area, with all their connections. -/
structure Picks (R : AStarRoute K) (area : Nat) (l l' : Labels R.database)
    (picked : List R.database.NetId) : Prop where
  nets : l'.labeledNetIds = l.labeledNetIds ++ picked
  conns : l'.connectionIdsLabeled =
    l.connectionIdsLabeled ++ picked.flatMap fun n => (R.database.nets n).indirectConns
  nodup : picked.Nodup
  mem_iff : ∀ n, n ∈ picked ↔ R.HasLargeArea n ∧ R.labelArea n < area

theorem picks_nil {area : Nat} (l : Labels R.database)
    (h : ∀ n, R.HasLargeArea n → ¬R.labelArea n < area) : R.Picks area l l [] where
  nets := (List.append_nil _).symm
  conns := (List.append_nil _).symm
  nodup := List.nodup_nil
  mem_iff n := ⟨fun hn => absurd hn List.not_mem_nil, fun hn => absurd hn.2 (h n hn.1)⟩

theorem mem_areaMap {area : Int} {n : R.database.NetId} :
    n ∈ R.areaMap area ↔ 0 < (R.database.nets n).getConnectionSize ∧ R.labelArea n = area := by
  unfold areaMap
  rw [List.mem_filter, decide_eq_true_iff, mem_netsWithConnections]

/-- **What the loop labels** from an area down. -/
theorem labelAreas_picks (area : Nat) (l : Labels R.database) (h : l.connCnt = R.weightFrom area) :
    ∃ picked, R.Picks area l (R.labelAreas area l) picked := by
  induction area generalizing l with
  | zero =>
    refine ⟨[], picks_nil l fun n hn => ?_⟩
    have := hn.2.1
    omega
  | succ area ih =>
    have hweight := weightFrom_eq (R := R) area
    rw [Nat.cast_succ] at h
    unfold labelAreas
    dsimp only
    split
    · -- No net has this area.
      rename_i hempty
      have hsame : l.connCnt = R.weightFrom area := by
        rw [hweight, hempty, h]
        exact (add_zero _).symm
      obtain ⟨picked, hpicks⟩ := ih l hsame
      refine ⟨picked, hpicks.nets, hpicks.conns, hpicks.nodup, fun n => ?_⟩
      rw [hpicks.mem_iff]
      refine and_congr_right fun hlarge => ⟨fun hlt => by omega, fun hlt => ?_⟩
      have hne : R.labelArea n ≠ area := fun heq =>
        List.ne_nil_of_mem (mem_areaMap.2 ⟨hlarge.1, heq⟩) hempty
      omega
    split
    · -- The loop is left, since smaller areas weigh no less.
      rename_i hhalf
      refine ⟨[], picks_nil l ?_⟩
      rintro n ⟨-, -, hlight⟩ hlt
      have hanti : R.weightFrom area ≤ R.weightFrom (R.labelArea n) := weightFrom_anti (by omega)
      omega
    · rename_i hhalf
      have hsum : l.connCnt + R.connectionSum (R.areaMap area) = R.weightFrom area := by
        rw [hweight, h]
      obtain ⟨picked, hpicks⟩ := ih ⟨_, l.labeledNetIds ++ R.areaMap area, l.connectionIdsLabeled ++
        (R.areaMap area).flatMap fun n => (R.database.nets n).indirectConns⟩ hsum
      refine ⟨R.areaMap area ++ picked, ?_, ?_, ?_, fun n => ?_⟩
      · rw [hpicks.nets, List.append_assoc]
      · rw [hpicks.conns, List.flatMap_append, List.append_assoc]
      · refine List.nodup_append.2 ⟨nodup_netsWithConnections.filter _, hpicks.nodup, ?_⟩
        rintro n hn m hm rfl
        have := (mem_areaMap.1 hn).2
        have := ((hpicks.mem_iff n).1 hm).2
        omega
      · rw [List.mem_append, mem_areaMap, hpicks.mem_iff]
        constructor
        · rintro (⟨hconn, harea⟩ | ⟨hlarge, hlt⟩)
          · refine ⟨⟨hconn, by omega, ?_⟩, by omega⟩
            rw [harea]
            omega
          · exact ⟨hlarge, by omega⟩
        · rintro ⟨hlarge, hlt⟩
          by_cases harea : R.labelArea n = area
          · exact .inl ⟨hlarge.1, harea⟩
          · exact .inr ⟨hlarge, by omega⟩

theorem le_maxArea {n : R.database.NetId} (hn : n ∈ R.netsWithConnections) : R.labelArea n ≤ R.maxArea := by
  have hgen : ∀ (l : List R.database.NetId) (m : Int),
      let top := l.foldl (fun m n => if R.labelArea n > m then R.labelArea n else m) m
      m ≤ top ∧ ∀ n ∈ l, R.labelArea n ≤ top := by
    intro l
    induction l with
    | nil => exact fun m => ⟨le_refl m, fun _ h => absurd h List.not_mem_nil⟩
    | cons n l ih =>
      intro m
      obtain ⟨hstart, hrest⟩ := ih (if R.labelArea n > m then R.labelArea n else m)
      have hmax : m ≤ (if R.labelArea n > m then R.labelArea n else m) ∧
          R.labelArea n ≤ (if R.labelArea n > m then R.labelArea n else m) := by
        split <;> omega
      refine ⟨hmax.1.trans hstart, fun k hk => ?_⟩
      rcases List.mem_cons.1 hk with rfl | hk
      · exact hmax.2.trans hstart
      · exact hrest k hk
  exact (hgen R.netsWithConnections 0).2 n hn

/-- Starting above the largest area, all nets are looked at. -/
theorem labels_picks : ∃ picked, R.Picks (R.maxArea.toNat + 1) ⟨0, [], []⟩ R.labels picked := by
  apply labelAreas_picks
  have hnone : (R.netsWithConnections.filter fun n =>
      ((R.maxArea.toNat + 1 : Nat) : Int) ≤ R.labelArea n) = [] := by
    rw [List.filter_eq_nil_iff]
    intro n hn
    have := le_maxArea hn
    rw [decide_eq_true_iff]
    omega
  unfold weightFrom
  rw [hnone]
  rfl

/-- **A net is labeled if it has a large area.** -/
theorem isLabeled_iff {n : R.database.NetId} : R.isLabeled n ↔ R.HasLargeArea n := by
  obtain ⟨picked, hpicks⟩ := labels_picks (R := R)
  unfold isLabeled
  rw [decide_eq_true_iff, hpicks.nets, List.nil_append, hpicks.mem_iff]
  refine ⟨fun h => h.1, fun h => ⟨h, ?_⟩⟩
  have := le_maxArea (mem_netsWithConnections.2 h.1)
  omega

theorem nodup_labeledNetIds : R.labels.labeledNetIds.Nodup := by
  obtain ⟨picked, hpicks⟩ := labels_picks (R := R)
  rw [hpicks.nets]
  exact hpicks.nodup

theorem connectionIdsLabeled_eq : R.labels.connectionIdsLabeled =
    R.labels.labeledNetIds.flatMap fun n => (R.database.nets n).indirectConns := by
  obtain ⟨picked, hpicks⟩ := labels_picks (R := R)
  rw [hpicks.conns, hpicks.nets]
  rfl

theorem mem_connectionIdsLabeled {c : R.database.ConnId} :
    c ∈ R.labels.connectionIdsLabeled ↔ R.isLabeled (R.database.netOf c) := by
  unfold isLabeled
  rw [connectionIdsLabeled_eq, List.mem_flatMap, decide_eq_true_iff]
  constructor
  · rintro ⟨n, hn, hc⟩
    rwa [R.database.netOf_eq hc]
  · exact fun hn => ⟨_, hn, R.database.mem_conns_netOf c⟩

theorem nodup_connectionIdsLabeled : R.labels.connectionIdsLabeled.Nodup := by
  rw [connectionIdsLabeled_eq, List.nodup_flatMap]
  refine ⟨fun n _ => R.database.nodup_indirectConns n, nodup_labeledNetIds.imp ?_⟩
  intro n m hne c hn hm
  exact hne ((R.database.netOf_eq hn).symm.trans (R.database.netOf_eq hm))

/-- The nets to be batched are the others. -/
theorem netIdsToPartition_eq : R.netIdsToPartition =
    (List.finRange R.database.numNets).filter fun n => ¬R.HasLargeArea n := by
  unfold netIdsToPartition
  apply List.filter_congr
  intro n _
  rw [decide_eq_decide, isLabeled_iff]

theorem length_netIdsToPartition :
    R.database.numNets - R.labels.labeledNetIds.length = R.netIdsToPartition.length := by
  have hperm : R.labels.labeledNetIds.Perm
      ((List.finRange R.database.numNets).filter fun n => R.isLabeled n) := by
    refine (List.perm_ext_iff_of_nodup nodup_labeledNetIds ((List.nodup_finRange _).filter _)).2 ?_
    intro n
    rw [List.mem_filter]
    unfold isLabeled
    simp
  have hsplit := (List.filter_append_perm (fun n => R.isLabeled n)
    (List.finRange R.database.numNets)).length_eq
  rw [List.length_append, List.length_finRange, ← hperm.length_eq] at hsplit
  have hrest : R.netIdsToPartition =
      (List.finRange R.database.numNets).filter fun n => !R.isLabeled n := by
    unfold netIdsToPartition
    apply List.filter_congr
    intro n _
    simp
  rw [hrest]
  omega

end Labeled

/-! ## What the batches hold -/

section Batches

/-- Every net with connections is routed: with the labeled nets, each of its connections once, or in
one batch by one thread, and not in both ways. -/
structure LosesNoNet (batches : List (List (List R.database.NetId))) : Prop where
  length_eq : batches.length = R.numBatches
  labeled : ∀ n, R.isLabeled n → n ∉ batches.flatten.flatten ∧
    ∀ c ∈ (R.database.nets n).indirectConns, R.labels.connectionIdsLabeled.count c = 1
  batched : ∀ n, 0 < (R.database.nets n).getConnectionSize → ¬R.isLabeled n →
    batches.flatten.flatten.count n = 1 ∧
      ∀ c ∈ (R.database.nets n).indirectConns, c ∉ R.labels.connectionIdsLabeled

variable {R} {clusters : List (Fin R.numThread)}

theorem sortedByAngle_perm (netIds : List R.database.NetId) :
    (R.sortedByAngle netIds).Perm netIds := by
  have h := (R.sorter.perm (fun a b => R.angle (R.threadExtent netIds) (netIds.get a) <
    R.angle (R.threadExtent netIds) (netIds.get b)) (List.finRange netIds.length)).map netIds.get
  rw [List.map_get_finRange] at h
  exact h

/-- The batches of a thread hold its nets. -/
theorem netIdBatch_perm {netIds : List R.database.NetId}
    (hok : ∀ i < netIds.length, BatchIdOk R.numBatches netIds.length i) :
    ((List.range R.numBatches).flatMap (R.netIdBatch netIds)).Perm netIds := by
  have hkeys : ∀ p ∈ (R.sortedByAngle netIds).zipIdx,
      batchId R.numBatches netIds.length p.2 ∈ List.range R.numBatches := by
    intro p hp
    have hlt := (List.mem_zipIdx hp).2.1
    rw [(sortedByAngle_perm netIds).length_eq, Nat.zero_add] at hlt
    exact List.mem_range.2 (hok p.2 hlt).2
  have hdeal := (deal_perm _ List.nodup_range hkeys).map Prod.fst
  rw [List.zipIdx_map_fst, List.map_flatMap] at hdeal
  exact hdeal.trans (sortedByAngle_perm netIds)

/-- The threads share out the nets to be batched. -/
theorem netIdsForThread_perm (hlen : clusters.length = R.netIdsToPartition.length) :
    ((List.finRange R.numThread).flatMap (R.netIdsForThread clusters)).Perm R.netIdsToPartition := by
  have hdeal := (deal_perm (fun p : R.database.NetId × Fin R.numThread => p.2)
    (List.nodup_finRange R.numThread) (l := R.netIdsToPartition.zip clusters)
    fun p _ => List.mem_finRange p.2).map Prod.fst
  rw [List.map_fst_zip (le_of_eq hlen.symm), List.map_flatMap] at hdeal
  exact hdeal

theorem length_netIdsForThread_le (clusters : List (Fin R.numThread)) (tid : Fin R.numThread) :
    (R.netIdsForThread clusters tid).length ≤ clusters.length := by
  unfold netIdsForThread
  rw [List.length_map]
  refine (List.length_filter_le _ _).trans ?_
  rw [List.length_zip]
  exact min_le_right _ _

theorem kmeansBasedPartition_perm {batches : List (List (List R.database.NetId))}
    (h : R.kmeansBasedPartition clusters = some batches) :
    batches.length = R.numBatches ∧ batches.flatten.flatten.Perm R.netIdsToPartition := by
  unfold kmeansBasedPartition at h
  split at h
  case isFalse => cases h
  rename_i hok
  obtain ⟨hlen, hok⟩ := hok
  cases h
  refine ⟨by rw [List.length_map, List.length_range], ?_⟩
  rw [List.flatten_flatten, List.map_map, ← List.flatMap_def]
  simp only [Function.comp_def, ← List.flatMap_def]
  refine (flatMap_comm_perm _ _ _).trans (List.Perm.trans ?_ (netIdsForThread_perm hlen))
  exact List.Perm.flatMap_left _ fun tid _ => netIdBatch_perm (hok tid)

/-- What is scheduled is complete, if it is scheduled at all. -/
theorem losesNoNet_of_some {batches : List (List (List R.database.NetId))}
    (h : R.kmeansBasedPartition clusters = some batches) : R.LosesNoNet batches := by
  obtain ⟨hlen, hperm⟩ := kmeansBasedPartition_perm h
  have hmem : ∀ n, n ∈ batches.flatten.flatten ↔ ¬R.isLabeled n := by
    intro n
    rw [hperm.mem_iff, netIdsToPartition, List.mem_filter, decide_eq_true_iff]
    exact and_iff_right (List.mem_finRange n)
  refine ⟨hlen, fun n hn => ⟨fun hb => (hmem n).1 hb hn, fun c hc => ?_⟩, fun n _ hn => ⟨?_, ?_⟩⟩
  · apply List.count_eq_one_of_mem nodup_connectionIdsLabeled
    rwa [mem_connectionIdsLabeled, R.database.netOf_eq hc]
  · refine List.count_eq_one_of_mem (hperm.nodup_iff.2 ?_) ((hmem n).2 hn)
    exact (List.nodup_finRange _).filter _
  · intro c hc hlab
    rw [mem_connectionIdsLabeled, R.database.netOf_eq hc] at hlab
    exact hn hlab

/-- The tree of the labeled nets is always built. -/
theorem labelNets_isSome (hbox : ∀ c, R.database.WellBoxed c) :
    ∃ levels, R.labelNets = some levels := by
  have hids : ∀ c ∈ R.labels.connectionIdsLabeled, R.database.WellBoxed c := fun c _ => hbox c
  obtain ⟨tree, leaves, htree, hbuilt, hleaves, -⟩ :=
    (Database.fits_unionBBox hids).getLeafNodes_isSome hids
  refine ⟨PartitionTreeNode.schedule R.sorter leaves, ?_⟩
  unfold labelNets Database.scheduledTree
  rw [htree, Option.bind_some, hbuilt.count, Option.bind_some, hleaves]
  rfl

/-- The number of nets that are not labeled. -/
def unlabeledNets (R : AStarRoute K) : Nat :=
  (List.finRange R.database.numNets).countP fun n => ¬R.HasLargeArea n

theorem length_netIdsToPartition_eq : R.netIdsToPartition.length = R.unlabeledNets := by
  rw [netIdsToPartition_eq, unlabeledNets, List.countP_eq_length_filter]

theorem numBatches_eq : R.numBatches = R.unlabeledNets / (256 * R.numThread) := by
  unfold numBatches
  rw [length_netIdsToPartition, length_netIdsToPartition_eq]

/-- The indices of all batches are in range exactly if there is a batch, or nothing to be batched,
and no product overflows. -/
theorem batchIdOk_iff (hlen : clusters.length = R.netIdsToPartition.length) :
    (∀ tid, ∀ i < (R.netIdsForThread clusters tid).length,
      BatchIdOk R.numBatches (R.netIdsForThread clusters tid).length i) ↔
    R.unlabeledNets = 0 ∨ 0 < R.numBatches ∧ ∀ tid,
      (((R.netIdsForThread clusters tid).length - 1) * R.numBatches : Nat) ≤ intMax := by
  have hperm := netIdsForThread_perm hlen
  have hcount := length_netIdsToPartition_eq (R := R)
  constructor
  · intro hok
    rcases Nat.eq_zero_or_pos R.unlabeledNets with hzero | hpos
    · exact .inl hzero
    -- The first net to be batched is the first of its thread.
    have hfirst : ∃ tid, 0 < (R.netIdsForThread clusters tid).length := by
      rw [← hcount, ← hperm.length_eq, gt_iff_lt, List.length_pos_iff_exists_mem] at hpos
      obtain ⟨n, hn⟩ := hpos
      obtain ⟨tid, -, hn⟩ := List.mem_flatMap.1 hn
      exact ⟨tid, List.length_pos_of_mem hn⟩
    obtain ⟨tid, htid⟩ := hfirst
    refine .inr ⟨Nat.zero_lt_of_lt (hok tid 0 htid).2, fun tid => ?_⟩
    rcases Nat.eq_zero_or_pos (R.netIdsForThread clusters tid).length with hzero | hpos
    · rw [hzero, Nat.zero_sub, Nat.zero_mul]
      decide
    · exact (hok tid _ (Nat.sub_lt hpos Nat.one_pos)).1
  · rintro (hzero | ⟨hbatch, hrange⟩) tid i hi
    · rw [← hcount, ← hperm.length_eq, List.length_eq_zero_iff, List.flatMap_eq_nil_iff] at hzero
      rw [hzero tid (List.mem_finRange tid)] at hi
      exact absurd hi (Nat.not_lt_zero i)
    · refine ⟨le_trans (Int.ofNat_le.2 (Nat.mul_le_mul_right _ (by omega))) (hrange tid), ?_⟩
      unfold batchId
      rw [Nat.div_lt_iff_lt_mul (by omega), Nat.mul_comm]
      exact Nat.mul_lt_mul_of_pos_left hi hbatch

/-- **When scheduling loses no net.** It is made, and loses no net, exactly if there is no net to be
batched, or there are enough of them for a batch, and few enough for the arithmetic. -/
theorem stableSchedule_iff (hthread : 0 < R.numThread) (hbox : ∀ c, R.database.WellBoxed c)
    (hlen : clusters.length = R.netIdsToPartition.length) :
    (∃ levels batches, R.labelNets = some levels ∧
      R.kmeansBasedPartition clusters = some batches ∧ R.LosesNoNet batches) ↔
    R.unlabeledNets = 0 ∨ 256 * R.numThread ≤ R.unlabeledNets ∧ ∀ tid,
      (((R.netIdsForThread clusters tid).length - 1) *
        (R.unlabeledNets / (256 * R.numThread)) : Nat) ≤ intMax := by
  have hpos : 0 < R.numBatches ↔ 256 * R.numThread ≤ R.unlabeledNets := by
    rw [numBatches_eq, Nat.div_pos_iff]
    exact ⟨fun h => h.2, fun h => ⟨by omega, h⟩⟩
  rw [← numBatches_eq, ← hpos, ← batchIdOk_iff hlen]
  obtain ⟨levels, hlevels⟩ := labelNets_isSome hbox
  constructor
  · rintro ⟨-, batches, -, hbatches, -⟩
    unfold kmeansBasedPartition at hbatches
    split at hbatches
    · rename_i hok
      exact hok.2
    · cases hbatches
  · intro hok
    have hbatches : R.kmeansBasedPartition clusters = some _ := if_pos ⟨hlen, hok⟩
    exact ⟨levels, _, hlevels, hbatches, losesNoNet_of_some hbatches⟩

end Batches

/-- The nets of a design of columns all have the same area, so that none is labeled. -/
theorem unlabeledNets_columns (k numThread : Nat) :
    (columns k numThread true false).unlabeledNets = k := by
  have harea : ∀ n, (columns k numThread true false).labelArea n = 9 := by
    intro n
    show (3 * ((n : Nat) : Int) + 1 - (3 * (n : Nat) - 1) + 1) * (1 - -1 + 1) = 9
    ring
  have hweight : (columns k numThread true false).weightFrom 9 = k := by
    have hall : (columns k numThread true false).netsWithConnections.filter
        (fun n => 9 ≤ (columns k numThread true false).labelArea n) = List.finRange k := by
      rw [List.filter_eq_self.2 fun n _ => decide_eq_true (le_of_eq (harea n).symm)]
      exact List.filter_eq_self.2 fun n _ => rfl
    unfold weightFrom connectionSum
    rw [hall]
    show ((List.finRange k).map fun _ => (1 : Int)).sum = k
    rw [List.map_const', List.sum_replicate, List.length_finRange, nsmul_eq_mul, mul_one]
  have hnone : ∀ n, ¬(columns k numThread true false).HasLargeArea n := by
    rintro n ⟨-, -, hlight⟩
    rw [harea, hweight] at hlight
    have hconns : ((columns k numThread true false).database.numConns : Int) = k := rfl
    omega
  unfold unlabeledNets
  rw [List.countP_eq_length.2 fun n _ => decide_eq_true (hnone n), List.length_finRange]

/-- The first half of the nets for one thread, the second for another. -/
abbrev columnsClusters : List (Fin 2) := List.replicate 256 (idx 0) ++ List.replicate 256 (idx 1)

theorem length_columnsClusters :
    columnsClusters.length = (columns 512 2 true false).netIdsToPartition.length := by
  rw [length_netIdsToPartition_eq, unlabeledNets_columns, List.length_append, List.length_replicate,
    List.length_replicate]

/-- One batch of nets for two threads. -/
theorem stableSchedule_iff_columns :
    ∃ levels batches, (columns 512 2 true false).labelNets = some levels ∧
      (columns 512 2 true false).kmeansBasedPartition columnsClusters = some batches ∧
      (columns 512 2 true false).LosesNoNet batches := by
  refine (stableSchedule_iff Nat.two_pos (Database.wellBoxed_columns (by decide))
    length_columnsClusters).2 (.inr ⟨le_of_eq (unlabeledNets_columns 512 2).symm, fun tid => ?_⟩)
  have hle := length_netIdsForThread_le (R := columns 512 2 true false) columnsClusters tid
  rw [length_columnsClusters, length_netIdsToPartition_eq, unlabeledNets_columns] at hle
  rw [unlabeledNets_columns, show 512 / (256 * (columns 512 2 true false).numThread) = 1 from rfl]
  unfold intMax
  omega

/-- A design with one net of one connection is not scheduled: there is no batch to put it in. -/
theorem stableSchedule_stops_columns :
    (columns 1 1 true false).netIdsToPartition = [0] ∧
    ¬∃ levels batches, (columns 1 1 true false).labelNets = some levels ∧
      (columns 1 1 true false).kmeansBasedPartition [0] = some batches ∧
      (columns 1 1 true false).LosesNoNet batches := by
  have hnone : (columns 1 1 true false).kmeansBasedPartition [0] = none := by decide +kernel
  refine ⟨by decide +kernel, ?_⟩
  rintro ⟨-, batches, -, hsome, -⟩
  rw [hnone] at hsome
  cases hsome

end AStarRoute

end Potter
