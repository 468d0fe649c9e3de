import Mathlib.Algebra.Order.Field.Basic
import Mathlib.Algebra.Order.Ring.Int
import Mathlib.Data.Int.Cast.Lemmas
import Mathlib.Tactic.Linarith
import Potter.Lib.Interleaving
import Potter.Lib.Scheduling
import Potter.Route.Kmeans

/-!
# The clusters of the nets

`kmeans` finds a cluster for every net that is to be batched, one cluster for each thread.

* `initializeCentroids` starts with a box around the middle of all nets and goes on with the boxes of
  nets, each time of one that is far from the centroids so far. It needs a new net for every cluster
  but the first.
* A round gives every net the nearest centroid and every cluster a new one (`updateCentroids`). The
  nets of a round are shared out to as many threads as there are clusters (`Assigns`).
* The rounds end when no label changes, or after 300 of them.

Coordinates are exact, as for the new centroids. `infinity` is the start of the scans for the least
distance. The area of a box is an `int` product. For a net without connections, whose box is `empty`,
it overflows, which the language leaves undefined: here it wraps, to 1. The distance of such a net is
zero whatever its area, because its weight is; the value counts where its box has become a centroid.
-/

namespace Potter

open Lib

namespace AStarRoute

variable {K : Type} [Arith K] (R : AStarRoute K) {k : Nat}

/-! ## Distances -/

section Distance

/-- `std::max(0.0, d)`. -/
def clampZero (d : K) : K := if ((0 : Int) : K) < d then d else ((0 : Int) : K)

/-- The area of a box, computed in `int`. -/
def boxArea (b : BoxT) : Int := toInt32 ((b.hx - b.lx) * (b.hy - b.ly))

/-- What the code calls `giou` is one minus the generalized intersection over union. -/
def giou (centroid net : BoxT) : K :=
  let interArea : K :=
    clampZero (((min centroid.hx net.hx : Int) : K) - ((max centroid.lx net.lx : Int) : K)) *
      clampZero (((min centroid.hy net.hy : Int) : K) - ((max centroid.ly net.ly : Int) : K))
  let unionArea : K := ((boxArea centroid : Int) : K) + ((boxArea net : Int) : K) - interArea
  let outerArea : K :=
    (((max centroid.hx net.hx : Int) : K) - ((min centroid.lx net.lx : Int) : K)) *
      (((max centroid.hy net.hy : Int) : K) - ((min centroid.ly net.ly : Int) : K))
  ((1 : Int) : K) - interArea / unionArea + (outerArea - unionArea) / outerArea

def distance (centroid : BoxT) (n : R.database.NetId) (weight : K) : K :=
  giou centroid (R.netBox n) * weight

/-- The number of connections of a net as a weight. -/
def netWeight (n : R.database.NetId) : K := ((R.database.nets n).getConnectionSize : K)

end Distance

/-! ## The first centroids -/

section Initialize

/-- The tiles strictly inside the box of a net. -/
def tilesInside (n : R.database.NetId) : List (Int × Int) :=
  let span (i : IntervalT) := (List.range (i.high - i.low - 1).toNat).map fun d : Nat =>
    i.low + 1 + (d : Int)
  (span (R.netBox n).x).flatMap fun x => (span (R.netBox n).y).map fun y => (x, y)

/-- The box around the mean of the tiles. The program stops if a tile is outside the device, and the
mean is not defined if there is none. -/
def firstCentroid (netIds : List R.database.NetId) : Option BoxT :=
  let tiles := netIds.flatMap R.tilesInside
  let div : Int := tiles.length
  let xSum := (tiles.map Prod.fst).sum
  let ySum := (tiles.map Prod.snd).sum
  if (∀ t ∈ tiles, (0 ≤ t.1 ∧ t.1 ≤ R.database.deviceXMax) ∧ 0 ≤ t.2 ∧ t.2 ≤ R.database.deviceYMax) ∧
      div ≠ 0 then
    some (.set ((xSum - 3 * div).tdiv div) ((ySum - 15 * div).tdiv div) ((xSum + 3 * div).tdiv div)
      ((ySum + 15 * div).tdiv div))
  else none

/-- The distance to the nearest centroid so far. -/
def leastDistance (infinity : K) (centroids : List BoxT) (n : R.database.NetId) : K :=
  centroids.foldl (fun least centroid =>
    let dist := R.distance centroid n (R.netWeight n)
    if dist < least then dist else least) infinity

/-- The net farthest from the centroids, of those not used. -/
def farthestNet (infinity : K) (netIds : List R.database.NetId) (centroids : List BoxT)
    (used : List R.database.NetId) : Option R.database.NetId :=
  pickBest (fun dist best => best < dist) (R.leastDistance infinity centroids) ((-2 : Int) : K)
    (netIds.filter fun n => !used.contains n)

/-- The loop for the remaining centroids. The program stops if there is no net left. -/
def addCentroids (infinity : K) (netIds : List R.database.NetId) :
    Nat → List BoxT → List R.database.NetId → Option (List BoxT)
  | 0, centroids, _ => some centroids
  | more + 1, centroids, used =>
    (R.farthestNet infinity netIds centroids used).bind fun n =>
      addCentroids infinity netIds more (centroids ++ [R.netBox n]) (n :: used)

def initializeCentroids (infinity : K) (netIds : List R.database.NetId) (k : Nat) :
    Option (List BoxT) :=
  (R.firstCentroid netIds).bind fun first => R.addCentroids infinity netIds (k - 1) [first] []

end Initialize

/-! ## A round -/

section Round

/-- The centroid of the least distance. The weight is that of the net times a size factor, which is
never changed from one. -/
def nearestCentroid (infinity : K) (centroids : Fin k → BoxT) (n : R.database.NetId) :
    Option (Fin k) :=
  pickBest (fun dist best => dist < best)
    (fun j => R.distance (centroids j) n (((1 : Int) : K) * R.netWeight n)) infinity (List.finRange k)

/-- The labels of the nets, nothing for `-1`, and the flags of the threads. -/
structure Assignment (m k : Nat) where
  labels : Fin m → Option (Fin k)
  changedFlags : Fin k → Bool

variable (infinity : K) (netIds : List R.database.NetId)

/-- What a thread does for one net. -/
def calculate (centroids : Fin k → BoxT) (s : Assignment netIds.length k)
    (a : Fin k × Fin netIds.length) : Assignment netIds.length k :=
  let nearest := R.nearestCentroid infinity centroids (netIds.get a.2)
  if s.labels a.2 = nearest then s
  else ⟨Function.update s.labels a.2 nearest, Function.update s.changedFlags a.1 true⟩

/-- The nets of the threads. -/
def calculateThreads (m k : Nat) : List (List (Fin k × Fin m)) :=
  (List.finRange k).map fun tid : Fin k => (strided m k m tid).map fun i => (tid, i)

/-- The threads give every net a label. -/
def Assigns (centroids : Fin k → BoxT) (labels : Fin netIds.length → Option (Fin k))
    (s : Assignment netIds.length k) : Prop :=
  ∃ sched, Interleaving (calculateThreads netIds.length k) sched ∧
    sched.foldl (R.calculate infinity netIds centroids) ⟨labels, fun _ => false⟩ = s

/-- The labels as indices of clusters. The program stops at a net without one. -/
def clustersOf {m : Nat} (labels : Fin m → Option (Fin k)) : Option (List (Fin k)) :=
  (List.finRange m).mapM labels

/-- The rounds that are left of 300, with threads: the clusters and the number of rounds left. -/
inductive Rounds : Nat → (Fin k → BoxT) → (Fin netIds.length → Option (Fin k)) →
    List (Fin k) × Nat → Prop
  | limit {centroids : Fin k → BoxT} {labels : Fin netIds.length → Option (Fin k)}
      {clusters : List (Fin k)} (h : clustersOf labels = some clusters) :
      Rounds 0 centroids labels (clusters, 0)
  | stop {left : Nat} {centroids : Fin k → BoxT} {labels : Fin netIds.length → Option (Fin k)}
      {s : Assignment netIds.length k} {clusters : List (Fin k)}
      (hassign : R.Assigns infinity netIds centroids labels s)
      (hclusters : clustersOf s.labels = some clusters) (hsame : ∀ tid, s.changedFlags tid = false) :
      Rounds (left + 1) centroids labels (clusters, left)
  | again {left : Nat} {centroids : Fin k → BoxT} {labels : Fin netIds.length → Option (Fin k)}
      {s : Assignment netIds.length k} {clusters : List (Fin k)} {result : List (Fin k) × Nat}
      (hassign : R.Assigns infinity netIds centroids labels s)
      (hclusters : clustersOf s.labels = some clusters) (hchanged : ∃ tid, s.changedFlags tid = true)
      (h : Rounds left (R.updateCentroids (netIds.zip clusters)) s.labels result) :
      Rounds (left + 1) centroids labels result

/-- `kmeans` with its threads. -/
def Kmeans (result : List (Fin k) × Nat) : Prop :=
  ∃ centroids, R.initializeCentroids infinity netIds k = some centroids ∧
    R.Rounds infinity netIds 300 (fun j => centroids.getD j .empty) (fun _ => none) result

/-- The labels a round gives. -/
def assign (centroids : Fin k → BoxT) (i : Fin netIds.length) : Option (Fin k) :=
  R.nearestCentroid infinity centroids (netIds.get i)

/-- The rounds in order. -/
def roundsInOrder : Nat → (Fin k → BoxT) → (Fin netIds.length → Option (Fin k)) →
    Option (List (Fin k) × Nat)
  | 0, _, labels => (clustersOf labels).map fun clusters => (clusters, 0)
  | left + 1, centroids, labels =>
    (clustersOf (R.assign infinity netIds centroids)).bind fun clusters =>
      if R.assign infinity netIds centroids = labels then some (clusters, left)
      else roundsInOrder left (R.updateCentroids (netIds.zip clusters))
        (R.assign infinity netIds centroids)

def kmeansInOrder : Option (List (Fin k) × Nat) :=
  (R.initializeCentroids infinity netIds k).bind fun centroids =>
    R.roundsInOrder infinity netIds 300 (fun j => centroids.getD j .empty) fun _ => none

end Round

/-! ## Threads do not matter -/

section Threads

variable {R} {infinity : K} {netIds : List R.database.NetId} {centroids : Fin k → BoxT}
  {labels : Fin netIds.length → Option (Fin k)} {s : Assignment netIds.length k}

variable (R infinity netIds centroids labels) in
/-- What some steps of the threads have done: the nets they met have their labels, and a flag is set
exactly if one of them had another label before. -/
theorem foldl_calculate (sched : List (Fin k × Fin netIds.length)) :
    let s := sched.foldl (R.calculate infinity netIds centroids) ⟨labels, fun _ => false⟩
    (∀ i, s.labels i =
      if i ∈ sched.map Prod.snd then R.assign infinity netIds centroids i else labels i) ∧
    ((∃ tid, s.changedFlags tid = true) ↔
      ∃ i ∈ sched.map Prod.snd, labels i ≠ R.assign infinity netIds centroids i) := by
  induction sched using List.reverseRecOn with
  | nil => simp
  | append_singleton sched a ih =>
    obtain ⟨tid, i⟩ := a
    dsimp only at ih ⊢
    rw [List.foldl_append, List.foldl_cons, List.foldl_nil]
    generalize sched.foldl (R.calculate infinity netIds centroids) ⟨labels, fun _ => false⟩ = s at ih
    obtain ⟨hlabels, hflags⟩ := ih
    have hmem : ∀ j, j ∈ (sched ++ [(tid, i)]).map Prod.snd ↔ j ∈ sched.map Prod.snd ∨ j = i := by
      simp
    simp only [hmem, or_and_right, exists_or, exists_eq_left]
    unfold calculate
    dsimp only
    split
    · next hsame =>
      refine ⟨fun j => ?_, ?_⟩
      · rw [hlabels j]
        by_cases hj : j = i
        · subst hj
          rw [← hlabels j, hsame]
          simp [assign]
        · simp [hj]
      · rw [hflags, iff_self_or]
        intro hne
        by_contra hnone
        have hfresh : i ∉ sched.map Prod.snd := fun hi => hnone ⟨i, hi, hne⟩
        rw [hlabels i, if_neg hfresh] at hsame
        exact hne hsame
    · next hother =>
      -- the net was not met before, as it would have its label
      have hfresh : i ∉ sched.map Prod.snd := by
        intro hi
        rw [hlabels i, if_pos hi] at hother
        exact hother rfl
      rw [hlabels i, if_neg hfresh] at hother
      refine ⟨fun j => ?_, iff_of_true ⟨tid, Function.update_self _ _ _⟩ (.inr hother)⟩
      dsimp only
      rw [Function.update_apply]
      by_cases hj : j = i
      · simp [hj, assign]
      · simp [hj, hlabels j]

/-- Some thread meets every net. -/
theorem mem_calculateThreads {m : Nat} (hk : 0 < k) (i : Fin m) :
    ∃ t ∈ calculateThreads m k, i ∈ t.map Prod.snd := by
  refine ⟨_, List.mem_map.2 ⟨⟨i % k, Nat.mod_lt _ hk⟩, List.mem_finRange _, rfl⟩, ?_⟩
  rw [List.map_map, Function.comp_def, List.map_id'']
  · refine mem_strided hk (Nat.mod_le _ _) ?_ (Nat.lt_add_right _ i.isLt)
    exact (Nat.mod_mod _ _).symm
  · exact fun _ => rfl

/-- Whatever the schedule, the threads assign what one of them would, and see whether it is new. -/
theorem Assigns.spec (hk : 0 < k) (h : R.Assigns infinity netIds centroids labels s) :
    s.labels = R.assign infinity netIds centroids ∧
      ((∃ tid, s.changedFlags tid = true) ↔ R.assign infinity netIds centroids ≠ labels) := by
  obtain ⟨sched, hsched, rfl⟩ := h
  have hall : ∀ i, i ∈ sched.map Prod.snd := by
    intro i
    obtain ⟨t, ht, hi⟩ := mem_calculateThreads hk i
    obtain ⟨a, ha, rfl⟩ := List.mem_map.1 hi
    exact List.mem_map.2 ⟨a, hsched.mem_iff.2 ⟨t, ht, ha⟩, rfl⟩
  obtain ⟨hlabels, hflags⟩ :=
    foldl_calculate R infinity netIds centroids labels sched
  refine ⟨funext fun i => ?_, ?_⟩
  · rw [hlabels i, if_pos (hall i)]
  · rw [hflags, Function.ne_iff]
    exact ⟨fun ⟨i, _, hi⟩ => ⟨i, hi.symm⟩, fun ⟨i, hi⟩ => ⟨i, hall i, hi.symm⟩⟩

variable (R infinity netIds centroids labels) in
theorem exists_assigns : ∃ s, R.Assigns infinity netIds centroids labels s :=
  ⟨_, _, Interleaving.flatten _, rfl⟩

theorem rounds_iff (hk : 0 < k) {left : Nat} {result : List (Fin k) × Nat} :
    R.Rounds infinity netIds left centroids labels result ↔
      R.roundsInOrder infinity netIds left centroids labels = some result := by
  induction left generalizing centroids labels with
  | zero =>
    rw [roundsInOrder, Option.map_eq_some_iff]
    constructor
    · rintro ⟨h⟩
      exact ⟨_, h, rfl⟩
    · rintro ⟨clusters, h, rfl⟩
      exact .limit h
  | succ left ih =>
    rw [roundsInOrder, Option.bind_eq_some_iff]
    constructor
    · intro h
      cases h with
      | stop hassign hclusters hsame =>
        obtain ⟨hlabels, hflags⟩ := hassign.spec hk
        rw [hlabels] at hclusters
        refine ⟨_, hclusters, if_pos ?_⟩
        by_contra hne
        obtain ⟨tid, htid⟩ := hflags.2 hne
        rw [hsame tid] at htid
        cases htid
      | again hassign hclusters hchanged h =>
        obtain ⟨hlabels, hflags⟩ := hassign.spec hk
        rw [hlabels] at hclusters h
        refine ⟨_, hclusters, ?_⟩
        rw [if_neg (hflags.1 hchanged)]
        exact ih.1 h
    · rintro ⟨clusters, hclusters, h⟩
      obtain ⟨s, hassign⟩ := exists_assigns R infinity netIds centroids labels
      obtain ⟨hlabels, hflags⟩ := hassign.spec hk
      rw [← hlabels] at hclusters
      split at h
      · next hsame =>
        cases h
        refine .stop hassign hclusters fun tid => ?_
        by_contra htid
        exact hflags.1 ⟨tid, Bool.eq_true_of_not_eq_false htid⟩ hsame
      · next hne =>
        rw [← hlabels] at h hne
        refine .again hassign hclusters (hflags.2 ?_) (ih.2 h)
        rwa [← hlabels]

end Threads

/-! ## What the clusters are -/

section Result

variable {R} {infinity : K} {netIds : List R.database.NetId} {centroids : Fin k → BoxT}
  {labels : Fin netIds.length → Option (Fin k)} {clusters : List (Fin k)} {left rest : Nat}

theorem clustersOf_eq_some_iff {m : Nat} {labels : Fin m → Option (Fin k)} :
    clustersOf labels = some clusters ↔
      clusters.map some = (List.finRange m).map labels := by
  unfold clustersOf
  generalize List.finRange m = l
  induction l generalizing clusters with
  | nil =>
    constructor
    · intro h
      cases h
      rfl
    · intro h
      rw [List.map_eq_nil_iff.1 h]
      rfl
  | cons i l ih =>
    rw [List.mapM_cons, List.map_cons]
    constructor
    · intro h
      obtain ⟨j, hj, h⟩ := Option.bind_eq_some_iff.1 h
      obtain ⟨js, hjs, h⟩ := Option.bind_eq_some_iff.1 h
      cases h
      rw [List.map_cons, ih.1 hjs, hj]
    · intro h
      cases clusters with
      | nil => cases h
      | cons j js =>
        obtain ⟨hj, hjs⟩ := List.cons.inj h
        exact Option.bind_eq_some_iff.2 ⟨j, hj.symm, Option.bind_eq_some_iff.2 ⟨js, ih.2 hjs, rfl⟩⟩

theorem length_of_clustersOf {m : Nat} {labels : Fin m → Option (Fin k)}
    (h : clustersOf labels = some clusters) : clusters.length = m := by
  have hlength := congrArg List.length (clustersOf_eq_some_iff.1 h)
  rwa [List.length_map, List.length_map, List.length_finRange] at hlength

/-- The clusters are those of their own centroids. -/
def Settles (R : AStarRoute K) (infinity : K) (netIds : List R.database.NetId)
    (clusters : List (Fin k)) : Prop :=
  clustersOf (R.assign infinity netIds (R.updateCentroids (netIds.zip clusters))) = some clusters

/-- If rounds are left, the last one has changed nothing. -/
theorem settles_of_rounds
    (h : R.roundsInOrder infinity netIds left centroids labels = some (clusters, rest))
    (hprev : ∀ old, clustersOf labels = some old → R.assign infinity netIds centroids =
      R.assign infinity netIds (R.updateCentroids (netIds.zip old))) :
    clusters.length = netIds.length ∧ rest ≤ left - 1 ∧
      (0 < rest → R.Settles infinity netIds clusters) := by
  induction left generalizing centroids labels with
  | zero =>
    rw [roundsInOrder, Option.map_eq_some_iff] at h
    obtain ⟨old, hold, h⟩ := h
    cases h
    exact ⟨length_of_clustersOf hold, le_refl _, fun hpos => absurd hpos (Nat.lt_irrefl 0)⟩
  | succ left ih =>
    rw [roundsInOrder, Option.bind_eq_some_iff] at h
    obtain ⟨new, hnew, h⟩ := h
    split at h
    · next hsame =>
      cases h
      refine ⟨length_of_clustersOf hnew, le_refl _, fun _ => ?_⟩
      unfold Settles
      rw [← hprev clusters (hsame ▸ hnew)]
      exact hnew
    · obtain ⟨hlength, hle, hsettles⟩ := ih h fun old hold => by
        rw [Option.some.inj (hold.symm.trans hnew)]
      exact ⟨hlength, hle.trans (Nat.pred_le left), hsettles⟩

end Result

/-- **The threads cluster the nets as one of them would.** Every net gets a cluster, and unless all 300
rounds were used, the clusters are those of their own centroids. -/
theorem kmeans_iff_inOrder {R : AStarRoute K} {infinity : K} {netIds : List R.database.NetId}
    (hk : 0 < k) :
    (∀ result : List (Fin k) × Nat,
      R.Kmeans infinity netIds result ↔ R.kmeansInOrder infinity netIds = some result) ∧
    ∀ (clusters : List (Fin k)) (rest : Nat), R.Kmeans infinity netIds (clusters, rest) →
      clusters.length = netIds.length ∧ rest < 300 ∧
        (0 < rest → R.Settles infinity netIds clusters) := by
  constructor
  · intro result
    unfold Kmeans kmeansInOrder
    rw [Option.bind_eq_some_iff]
    exact exists_congr fun centroids => and_congr_right fun _ => rounds_iff hk
  · rintro clusters rest ⟨centroids, -, hrounds⟩
    rw [rounds_iff hk] at hrounds
    have hfirst : ∀ old, clustersOf (fun _ : Fin netIds.length => (none : Option (Fin k))) = some old →
        R.assign infinity netIds (fun j => centroids.getD j .empty) =
          R.assign infinity netIds (R.updateCentroids (netIds.zip old)) := by
      -- the labels before the first round are clusters only of no nets
      intro old hold
      funext i
      have hmem := List.mem_map_of_mem (f := fun _ : Fin netIds.length => (none : Option (Fin k)))
        (List.mem_finRange i)
      rw [← clustersOf_eq_some_iff.1 hold] at hmem
      obtain ⟨j, -, hj⟩ := List.mem_map.1 hmem
      cases hj
    obtain ⟨hlength, hle, hsettles⟩ := settles_of_rounds hrounds hfirst
    exact ⟨hlength, Nat.lt_of_le_pred (by decide) hle, hsettles⟩

/-! The four islands on a device as large as the layout. -/

abbrev clusteredIslands : AStarRoute ℚ :=
  { columns 4 2 true false with
    database := { islandsDatabase with deviceXMax := 107, deviceYMax := 299 }.boxed 3 15
    queue := scanQueue _ ℚ }

/-- Two clusters settle before the last round. -/
theorem kmeans_iff_inOrder_islands :
    ∃ (clusters : List (Fin 2)) (rest : Nat),
      clusteredIslands.Kmeans 100 clusteredIslands.netIdsToPartition (clusters, rest) ∧
      clusters.length = 4 ∧
      clusteredIslands.Settles 100 clusteredIslands.netIdsToPartition clusters := by
  have hrun : ∃ result ∈ (clusteredIslands.kmeansInOrder (k := 2) 100
      clusteredIslands.netIdsToPartition), 0 < result.2 := by
    decide +kernel
  obtain ⟨⟨clusters, rest⟩, hresult, hpos⟩ := hrun
  obtain ⟨hiff, hspec⟩ := kmeans_iff_inOrder (R := clusteredIslands) (k := 2) (by decide)
  have hkmeans := (hiff (clusters, rest)).2 hresult
  obtain ⟨hlength, -, hsettles⟩ := hspec clusters rest hkmeans
  exact ⟨clusters, rest, hkmeans, hlength.trans (by decide +kernel), hsettles hpos⟩

/-! ## Distances are bounded -/

section Bounds

/-- A box whose area is known: that of a net without connections, where the area wraps, or one of the
size of the device. -/
def Measured (b : BoxT) : Prop :=
  b = .empty ∨ (0 ≤ b.hx - b.lx ∧ b.hx - b.lx ≤ 400) ∧ 0 ≤ b.hy - b.ly ∧ b.hy - b.ly ≤ 400

/-- The box of a net with connections. -/
def Extended (b : BoxT) : Prop :=
  (-1 ≤ b.lx ∧ b.lx < b.hx ∧ b.hx ≤ 300) ∧ -1 ≤ b.ly ∧ b.ly < b.hy ∧ b.hy ≤ 300

theorem Extended.measured {b : BoxT} (h : Extended b) : Measured b := by
  unfold Extended at h
  exact .inr ⟨⟨by omega, by omega⟩, by omega, by omega⟩

theorem boxArea_eq {b : BoxT} (hx : 0 ≤ b.hx - b.lx ∧ b.hx - b.lx ≤ 400)
    (hy : 0 ≤ b.hy - b.ly ∧ b.hy - b.ly ≤ 400) : boxArea b = (b.hx - b.lx) * (b.hy - b.ly) := by
  have hle : (b.hx - b.lx) * (b.hy - b.ly) ≤ 400 * 400 := mul_le_mul hx.2 hy.2 hy.1 (by decide)
  have hnonneg := mul_nonneg hx.1 hy.1
  refine toInt32_of_range ?_ ?_
  · unfold intMin
    omega
  · unfold intMax
    omega

theorem clampZero_sub (a b : Int) : clampZero ((a : ℚ) - (b : ℚ)) = ((max 0 (a - b) : Int) : ℚ) := by
  unfold clampZero
  rw [← Int.cast_sub]
  split
  · next h => rw [max_eq_right (le_of_lt (Int.cast_lt.1 h))]
  · next h => rw [max_eq_left (not_lt.1 fun hlt => h (Int.cast_lt.2 hlt))]

/-- Two intervals along an axis: the lengths of their overlap, of the two, and of their hull. -/
structure Overlap (o a b s : Int) : Prop where
  nonneg : 0 ≤ o
  left : o ≤ a
  right : o ≤ b
  hull : a + b - o ≤ s

theorem overlap_of_le (low high low' high' : Int) (h : low ≤ high) (h' : low' ≤ high') :
    Overlap (max 0 (min high high' - max low low')) (high - low) (high' - low')
      (max high high' - min low low') := by
  constructor <;> omega

/-- Two boxes cover no more than the box around them. -/
theorem Overlap.union_le_hull {ox ax bx sx oy ay byy sy : Int} (hx : Overlap ox ax bx sx)
    (hy : Overlap oy ay byy sy) : ax * ay + bx * byy - ox * oy ≤ sx * sy := by
  obtain ⟨hox, hax, hbx, hsx⟩ := hx
  obtain ⟨hoy, hay, hby, hsy⟩ := hy
  have hhull : (ax + bx - ox) * (ay + byy - oy) ≤ sx * sy :=
    mul_le_mul hsx hsy (by omega) (by omega)
  have hcross := mul_nonneg (sub_nonneg.2 hax) (sub_nonneg.2 hby)
  have hcross' := mul_nonneg (sub_nonneg.2 hbx) (sub_nonneg.2 hay)
  nlinarith only [hhull, hcross, hcross']

/-- One minus a part of the union, plus what the hull has beyond it, as a part of the hull. -/
theorem ratio_mem {i u o : ℚ} (hi : 0 ≤ i) (hiu : i ≤ u) (hu : 0 < u) (huo : u ≤ o) :
    0 ≤ 1 - i / u + (o - u) / o ∧ 1 - i / u + (o - u) / o ≤ 2 := by
  have ho : 0 < o := lt_of_lt_of_le hu huo
  have h1 : 0 ≤ i / u := div_nonneg hi (le_of_lt hu)
  have h2 : i / u ≤ 1 := (div_le_one hu).2 hiu
  have h3 : 0 ≤ (o - u) / o := div_nonneg (sub_nonneg.2 huo) (le_of_lt ho)
  have h4 : (o - u) / o ≤ 1 := (div_le_one ho).2 (by linarith)
  constructor <;> linarith

/-- **The distance without its weight** lies between zero and two. -/
theorem giou_mem {centroid net : BoxT} (hc : Measured centroid) (hn : Extended net) :
    0 ≤ (giou centroid net : ℚ) ∧ (giou centroid net : ℚ) ≤ 2 := by
  obtain ⟨hnx, hny⟩ := hn
  have hnet := boxArea_eq (b := net) ⟨by omega, by omega⟩ ⟨by omega, by omega⟩
  have hpos : 0 < (net.hx - net.lx) * (net.hy - net.ly) := mul_pos (by omega) (by omega)
  unfold giou
  dsimp only
  rw [clampZero_sub, clampZero_sub, Int.cast_one]
  rcases hc with rfl | ⟨hcx, hcy⟩
  · -- no overlap, and the hull is the box of the net
    have harea : boxArea .empty = 1 := by decide
    have hx : max 0 (min BoxT.empty.hx net.hx - max BoxT.empty.lx net.lx) = 0 ∧
        max BoxT.empty.hx net.hx = net.hx ∧ min BoxT.empty.lx net.lx = net.lx := by
      unfold BoxT.hx BoxT.lx at *
      dsimp only [BoxT.empty, IntervalT.empty]
      unfold intMax intMin
      omega
    have hy : max BoxT.empty.hy net.hy = net.hy ∧ min BoxT.empty.ly net.ly = net.ly := by
      unfold BoxT.hy BoxT.ly at *
      dsimp only [BoxT.empty, IntervalT.empty]
      unfold intMax intMin
      omega
    rw [harea, hnet, hx.1, hx.2.1, hx.2.2, hy.1, hy.2, Int.cast_zero, zero_mul, zero_div, sub_zero,
      sub_zero, ← Int.cast_sub, ← Int.cast_sub, ← Int.cast_mul]
    generalize (net.hx - net.lx) * (net.hy - net.ly) = area at hpos
    have hone : (1 : ℚ) ≤ (area : ℚ) := by exact_mod_cast hpos
    have hdiv : ((area : ℚ) - (((1 : Int) : ℚ) + (area : ℚ))) / (area : ℚ) = -(1 / (area : ℚ)) := by
      rw [Int.cast_one, sub_add_cancel_right, neg_div]
    have hle : 1 / (area : ℚ) ≤ 1 := (div_le_one (by linarith)).2 hone
    have hnonneg : 0 ≤ 1 / (area : ℚ) := one_div_nonneg.2 (by linarith)
    rw [hdiv]
    constructor <;> linarith
  · rw [hnet, boxArea_eq hcx hcy]
    have hx := overlap_of_le centroid.lx centroid.hx net.lx net.hx (by omega) (by omega)
    have hy := overlap_of_le centroid.ly centroid.hy net.ly net.hy (by omega) (by omega)
    have hunion := hx.union_le_hull hy
    have hleft := mul_le_mul hx.left hy.left hy.nonneg (hx.nonneg.trans hx.left)
    have hright := mul_le_mul hx.right hy.right hy.nonneg (hx.nonneg.trans hx.right)
    have hinter := mul_nonneg hx.nonneg hy.nonneg
    rw [← Int.cast_mul, ← Int.cast_add, ← Int.cast_sub, ← Int.cast_sub, ← Int.cast_sub, ← Int.cast_mul]
    refine ratio_mem ?_ ?_ ?_ ?_
    · exact Int.cast_nonneg hinter
    · exact Int.cast_le.2 (by linarith)
    · exact Int.cast_pos.2 (by linarith)
    · exact Int.cast_le.2 hunion

end Bounds

/-! ## When there are clusters -/

section Exists

variable {R : AStarRoute ℚ} {netIds : List R.database.NetId} {infinity : ℚ} {k : Nat}
  {centroids : List BoxT} {n : R.database.NetId}

variable (R netIds) in
/-- The boxes of the nets: a net without connections has the default box, any other holds a tile, and
no tile outside the device. -/
structure NetBoxes : Prop where
  nodup : netIds.Nodup
  empty : ∀ n ∈ netIds, (R.database.nets n).getConnectionSize = 0 → R.netBox n = .empty
  extended : ∀ n ∈ netIds, 0 < (R.database.nets n).getConnectionSize → Extended (R.netBox n)
  inner : ∀ n ∈ netIds, 0 < (R.database.nets n).getConnectionSize →
    ((R.netBox n).lx + 1 < (R.netBox n).hx ∧ (R.netBox n).hx ≤ R.database.deviceXMax + 1) ∧
      (R.netBox n).ly + 1 < (R.netBox n).hy ∧ (R.netBox n).hy ≤ R.database.deviceYMax + 1

/-- No distance reaches `infinity`. -/
def AboveDistances (R : AStarRoute ℚ) (netIds : List R.database.NetId) (infinity : ℚ) : Prop :=
  ∀ n ∈ netIds, 2 * R.netWeight n < infinity

theorem netWeight_nonneg (n : R.database.NetId) : 0 ≤ R.netWeight n :=
  Int.cast_nonneg (Int.natCast_nonneg _)

theorem NetBoxes.size_cases (n : R.database.NetId) :
    (R.database.nets n).getConnectionSize = 0 ∨ 0 < (R.database.nets n).getConnectionSize :=
  (eq_or_lt_of_le (Int.natCast_nonneg _)).imp Eq.symm id

theorem NetBoxes.measured (h : R.NetBoxes netIds) (hn : n ∈ netIds) : Measured (R.netBox n) := by
  rcases size_cases n with hzero | hpos
  · exact .inl (h.empty n hn hzero)
  · exact (h.extended n hn hpos).measured

/-- A net without connections is at distance zero. -/
theorem NetBoxes.distance_mem (h : R.NetBoxes netIds) (hn : n ∈ netIds) {centroid : BoxT}
    (hc : Measured centroid) : 0 ≤ R.distance centroid n (R.netWeight n) ∧
      R.distance centroid n (R.netWeight n) ≤ 2 * R.netWeight n := by
  unfold distance
  rcases size_cases n with hzero | hpos
  · have hweight : R.netWeight n = 0 := by
      unfold netWeight
      rw [hzero, Int.cast_zero]
    rw [hweight]
    simp
  · obtain ⟨hlow, hhigh⟩ := giou_mem hc (h.extended n hn hpos)
    exact ⟨mul_nonneg hlow (netWeight_nonneg n),
      mul_le_mul_of_nonneg_right hhigh (netWeight_nonneg n)⟩

theorem NetBoxes.leastDistance_nonneg (h : R.NetBoxes netIds) (hinf : R.AboveDistances netIds infinity)
    (hn : n ∈ netIds) (hcs : ∀ b ∈ centroids, Measured b) :
    0 ≤ R.leastDistance infinity centroids n := by
  have hstart : 0 ≤ infinity :=
    (mul_nonneg zero_le_two (netWeight_nonneg n)).trans (le_of_lt (hinf n hn))
  unfold leastDistance
  generalize infinity = least at hstart
  induction centroids generalizing least with
  | nil => exact hstart
  | cons b centroids ih =>
    rw [List.foldl_cons]
    refine ih (fun c hc => hcs c (List.mem_cons_of_mem b hc)) _ ?_
    dsimp only
    split
    · exact (h.distance_mem hn (hcs b List.mem_cons_self)).1
    · exact hstart

theorem NetBoxes.farthestNet_isSome_iff (h : R.NetBoxes netIds)
    (hinf : R.AboveDistances netIds infinity) (hcs : ∀ b ∈ centroids, Measured b)
    (used : List R.database.NetId) :
    (R.farthestNet infinity netIds centroids used).isSome ↔ netIds.filter (fun n => !used.contains n) ≠ [] := by
  refine pickBest_isSome_iff fun n hn => decide_eq_true ?_
  have hleast := h.leastDistance_nonneg hinf (List.mem_of_mem_filter hn) hcs
  exact lt_of_lt_of_le (by decide +kernel) hleast

/-- The remaining centroids are found exactly if there are nets for all of them. -/
theorem NetBoxes.addCentroids_isSome_iff (h : R.NetBoxes netIds)
    (hinf : R.AboveDistances netIds infinity) {more : Nat} {used : List R.database.NetId}
    (hcs : ∀ b ∈ centroids, Measured b) :
    (R.addCentroids infinity netIds more centroids used).isSome ↔
      more ≤ (netIds.filter fun n => !used.contains n).length := by
  induction more generalizing centroids used with
  | zero => exact iff_of_true rfl (Nat.zero_le _)
  | succ more ih =>
    have hfar := h.farthestNet_isSome_iff hinf hcs used
    rw [addCentroids]
    cases hpick : R.farthestNet infinity netIds centroids used with
    | none =>
      rw [hpick] at hfar
      have hnil : netIds.filter (fun n => !used.contains n) = [] := by
        by_contra hne
        exact absurd (hfar.2 hne) Bool.false_ne_true
      rw [hnil]
      exact iff_of_false Bool.false_ne_true (Nat.not_succ_le_zero more)
    | some n =>
      have hn : n ∈ netIds.filter fun n => !used.contains n := pickBest_mem hpick
      have hbox := h.measured (List.mem_of_mem_filter hn)
      have herase : netIds.filter (fun m => !(n :: used).contains m) =
          (netIds.filter fun m => !used.contains m).erase n := by
        rw [(h.nodup.filter _).erase_eq_filter, List.filter_filter]
        refine List.filter_congr fun m _ => ?_
        by_cases hm : m = n
        · simp [hm]
        · simp [hm]
      have hlength := List.length_erase_of_mem hn
      have hpos := List.length_pos_of_mem hn
      rw [Option.bind_some, ih, herase]
      · omega
      · intro b hb
        rcases List.mem_append.1 hb with hb | hb
        · exact hcs b hb
        · rw [List.mem_singleton.1 hb]
          exact hbox

/-- There is a centroid for every cluster, and all are measured. -/
theorem NetBoxes.addCentroids_measured (h : R.NetBoxes netIds) {more : Nat}
    {used : List R.database.NetId} {found : List BoxT} (hcs : ∀ b ∈ centroids, Measured b)
    (hfound : R.addCentroids infinity netIds more centroids used = some found) :
    found.length = centroids.length + more ∧ ∀ b ∈ found, Measured b := by
  induction more generalizing centroids used with
  | zero =>
    cases hfound
    exact ⟨rfl, hcs⟩
  | succ more ih =>
    rw [addCentroids] at hfound
    obtain ⟨n, hpick, hfound⟩ := Option.bind_eq_some_iff.1 hfound
    have hadded : ∀ b ∈ centroids ++ [R.netBox n], Measured b := by
      intro b hb
      rcases List.mem_append.1 hb with hb | hb
      · exact hcs b hb
      · rw [List.mem_singleton.1 hb]
        exact h.measured (List.mem_of_mem_filter (pickBest_mem hpick))
    obtain ⟨hlength, hall⟩ := ih hadded hfound
    rw [List.length_append, List.length_singleton] at hlength
    exact ⟨by omega, hall⟩

theorem mem_tilesInside {x y : Int} : (x, y) ∈ R.tilesInside n ↔
    (R.netBox n).x.Inside x ∧ (R.netBox n).y.Inside y := by
  have hspan : ∀ (i : IntervalT) (v : Int),
      v ∈ (List.range (i.high - i.low - 1).toNat).map (fun d : Nat => i.low + 1 + (d : Int)) ↔
        i.Inside v := by
    intro i v
    unfold IntervalT.Inside
    rw [List.mem_map]
    constructor
    · rintro ⟨d, hd, rfl⟩
      rw [List.mem_range] at hd
      omega
    · rintro ⟨hlow, hhigh⟩
      exact ⟨(v - i.low - 1).toNat, List.mem_range.2 (by omega), by omega⟩
  unfold tilesInside
  dsimp only
  rw [List.mem_flatMap]
  constructor
  · rintro ⟨x', hx, hxy⟩
    obtain ⟨y', hy, heq⟩ := List.mem_map.1 hxy
    cases heq
    exact ⟨(hspan _ _).1 hx, (hspan _ _).1 hy⟩
  · rintro ⟨hx, hy⟩
    exact ⟨x, (hspan _ _).2 hx, List.mem_map.2 ⟨y, (hspan _ _).2 hy, rfl⟩⟩

/-- There is a first centroid exactly if some net has connections. -/
theorem NetBoxes.exists_firstCentroid_iff (h : R.NetBoxes netIds) :
    (∃ first, R.firstCentroid netIds = some first) ↔
      ∃ n ∈ netIds, 0 < (R.database.nets n).getConnectionSize := by
  have htile : ∀ t ∈ netIds.flatMap R.tilesInside,
      (0 ≤ t.1 ∧ t.1 ≤ R.database.deviceXMax) ∧ 0 ≤ t.2 ∧ t.2 ≤ R.database.deviceYMax := by
    rintro ⟨x, y⟩ ht
    obtain ⟨n, hn, hxy⟩ := List.mem_flatMap.1 ht
    obtain ⟨hx, hy⟩ := mem_tilesInside.1 hxy
    rcases size_cases n with hzero | hpos
    · rw [h.empty n hn hzero] at hx
      exact absurd (hx.1.trans hx.2) (by decide)
    · have hext := h.extended n hn hpos
      have hin := h.inner n hn hpos
      unfold Extended BoxT.lx BoxT.hx BoxT.ly BoxT.hy at hext
      unfold BoxT.lx BoxT.hx BoxT.ly BoxT.hy at hin
      unfold IntervalT.Inside at hx hy
      dsimp only
      omega
  have hsome : (∃ first, R.firstCentroid netIds = some first) ↔
      netIds.flatMap R.tilesInside ≠ [] := by
    unfold firstCentroid
    simp only [Option.ite_none_right_eq_some, Option.some.injEq, exists_and_left, exists_eq', and_true]
    rw [and_iff_right htile, Int.natCast_ne_zero, ne_eq, List.length_eq_zero_iff]
  rw [hsome, ne_eq, List.flatMap_eq_nil_iff]
  push Not
  refine exists_congr fun n => and_congr_right fun hn => ?_
  rcases size_cases n with hzero | hpos
  · refine iff_of_false (not_not.2 (List.eq_nil_iff_forall_not_mem.2 ?_)) (by omega)
    rintro ⟨x, y⟩ hxy
    have hx := (mem_tilesInside.1 hxy).1
    rw [h.empty n hn hzero] at hx
    exact absurd (hx.1.trans hx.2) (by decide)
  · have hin := h.inner n hn hpos
    have hmem := mem_tilesInside (n := n) (x := (R.netBox n).lx + 1) (y := (R.netBox n).ly + 1)
    refine iff_of_true (List.ne_nil_of_mem (hmem.2 ⟨⟨?_, ?_⟩, ?_, ?_⟩)) hpos
    · exact lt_add_one _
    · exact hin.1.1
    · exact lt_add_one _
    · exact hin.2.1

/-- The sides of a box around a quotient. -/
theorem tdiv_margin {x d m : Int} (hd : 0 < d) : 2 * m - 1 ≤ (x + m * d).tdiv d - (x - m * d).tdiv d ∧
    (x + m * d).tdiv d - (x - m * d).tdiv d ≤ 2 * m + 1 := by
  have hlow : x / d * d ≤ x := Int.ediv_mul_le x (ne_of_gt hd)
  have hhigh : x < (x / d + 1) * d := Int.lt_ediv_add_one_mul_self x hd
  have hplus : (x / d + m) * d ≤ x + m * d ∧ x + m * d ≤ (x / d + 1 + m) * d := by
    rw [add_mul, add_mul (x / d + 1)]
    omega
  have hminus : (x / d - m) * d ≤ x - m * d ∧ x - m * d ≤ (x / d + 1 - m) * d := by
    rw [sub_mul, sub_mul]
    omega
  have hhighSide := tdiv_mem hd hplus.1 hplus.2
  have hlowSide := tdiv_mem hd hminus.1 hminus.2
  omega

theorem firstCentroid_measured {first : BoxT} (h : R.firstCentroid netIds = some first) :
    Measured first := by
  unfold firstCentroid at h
  simp only [Option.ite_none_right_eq_some, Option.some.injEq] at h
  obtain ⟨⟨-, hdiv⟩, rfl⟩ := h
  have hpos : (0 : Int) < (netIds.flatMap R.tilesInside).length := by omega
  have hx := tdiv_margin (x := ((netIds.flatMap R.tilesInside).map Prod.fst).sum) (m := 3) hpos
  have hy := tdiv_margin (x := ((netIds.flatMap R.tilesInside).map Prod.snd).sum) (m := 15) hpos
  refine .inr ?_
  dsimp only [BoxT.set, BoxT.lx, BoxT.hx, BoxT.ly, BoxT.hy]
  omega

/-- The sides of a mean box are in order. -/
theorem NetBoxes.mean_le (h : R.NetBoxes netIds) {items : List (R.database.NetId × Fin k)}
    (hitems : ∀ item ∈ items, item.1 ∈ netIds) {j : Fin k} (hpos : 0 < (R.clusterSums items j).count)
    (axis : Axis) : ((R.clusterSums items j).mean.along axis).low ≤
      ((R.clusterSums items j).mean.along axis).high := by
  rw [mean_along, ((clusterSums_eq items j).2 axis).1, ((clusterSums_eq items j).2 axis).2]
  refine Int.tdiv_le_tdiv hpos (List.sum_le_sum fun n hn => ?_)
  have hmem := hitems (n, j) (mem_clusterNets.1 hn)
  rcases size_cases n with hzero | hsize
  · rw [hzero, mul_zero, mul_zero]
  · refine mul_le_mul_of_nonneg_right ?_ (le_of_lt hsize)
    have hext := h.extended n hmem hsize
    cases axis with
    | x => exact le_of_lt hext.1.2.1
    | y => exact le_of_lt hext.2.2.1

theorem NetBoxes.updateCentroids_measured (h : R.NetBoxes netIds)
    {items : List (R.database.NetId × Fin k)} (hitems : ∀ item ∈ items, item.1 ∈ netIds) (j : Fin k) :
    Measured (R.updateCentroids items j) := by
  rcases eq_or_lt_of_le (count_nonneg items j) with hzero | hpos
  · rw [updateCentroids_of_zero hzero.symm]
    refine .inr ?_
    unfold reInitialized
    dsimp only [BoxT.set, BoxT.lx, BoxT.hx, BoxT.ly, BoxT.hy]
    omega
  · rw [updateCentroids_of_pos hpos]
    have hbounds : ∀ axis, ((R.clusterSums items j).mean.along axis).low ≤
          ((R.clusterSums items j).mean.along axis).high ∧
        -1 ≤ ((R.clusterSums items j).mean.along axis).low ∧
        ((R.clusterSums items j).mean.along axis).high ≤ 300 := by
      intro axis
      have hsides : ∀ item ∈ items, 0 < (R.database.nets item.1).getConnectionSize →
          (-1 ≤ ((R.netBox item.1).along axis).low ∧ ((R.netBox item.1).along axis).low ≤ 300) ∧
            -1 ≤ ((R.netBox item.1).along axis).high ∧
              ((R.netBox item.1).along axis).high ≤ 300 := by
        intro item hitem hsize
        have hext := h.extended item.1 (hitems item hitem) hsize
        unfold Extended BoxT.lx BoxT.hx BoxT.ly BoxT.hy at hext
        cases axis <;> dsimp only [BoxT.along] <;> omega
      exact ⟨h.mean_le hitems hpos axis,
        (mean_low_mem hpos axis fun item hitem hsize => (hsides item hitem hsize).1).1,
        (mean_high_mem hpos axis fun item hitem hsize => (hsides item hitem hsize).2).2⟩
    have hx := hbounds .x
    have hy := hbounds .y
    refine .inr ?_
    unfold BoxT.lx BoxT.hx BoxT.ly BoxT.hy
    dsimp only [BoxT.along] at hx hy
    omega

/-- Every net gets a label. -/
theorem NetBoxes.exists_clustersOf (h : R.NetBoxes netIds) (hinf : R.AboveDistances netIds infinity)
    (hk : 0 < k) {centroids : Fin k → BoxT} (hcs : ∀ j, Measured (centroids j)) :
    ∃ clusters, clustersOf (R.assign infinity netIds centroids) = some clusters := by
  have hlabel : ∀ i, ∃ j, R.assign infinity netIds centroids i = some j := by
    intro i
    have hn := List.get_mem netIds i
    rw [← Option.isSome_iff_exists]
    unfold assign nearestCentroid
    refine (pickBest_isSome_iff fun j _ => ?_).2 ?_
    · refine decide_eq_true ?_
      rw [Int.cast_one, one_mul]
      exact lt_of_le_of_lt (h.distance_mem hn (hcs j)).2 (hinf _ hn)
    · exact List.ne_nil_of_mem (List.mem_finRange ⟨0, hk⟩)
  choose label hlabel using hlabel
  refine ⟨(List.finRange netIds.length).map label, clustersOf_eq_some_iff.2 ?_⟩
  rw [List.map_map]
  exact List.map_congr_left fun i _ => (hlabel i).symm

theorem NetBoxes.exists_rounds (h : R.NetBoxes netIds) (hinf : R.AboveDistances netIds infinity)
    (hk : 0 < k) {left : Nat} {centroids : Fin k → BoxT} (hcs : ∀ j, Measured (centroids j))
    (labels : Fin netIds.length → Option (Fin k)) :
    ∃ result, R.roundsInOrder infinity netIds (left + 1) centroids labels = some result := by
  induction left generalizing centroids labels with
  | zero =>
    obtain ⟨clusters, hclusters⟩ := h.exists_clustersOf hinf hk hcs
    rw [roundsInOrder, hclusters, Option.bind_some]
    split
    · exact ⟨_, rfl⟩
    · rw [roundsInOrder, hclusters]
      exact ⟨_, rfl⟩
  | succ left ih =>
    obtain ⟨clusters, hclusters⟩ := h.exists_clustersOf hinf hk hcs
    rw [roundsInOrder, hclusters, Option.bind_some]
    split
    · exact ⟨_, rfl⟩
    · exact ih (h.updateCentroids_measured fun item hitem => (List.of_mem_zip hitem).1) _

/-- With exact distances: some net has connections, and there are nets for all clusters but the
first. -/
theorem NetBoxes.exists_kmeans_iff (h : R.NetBoxes netIds) (hinf : R.AboveDistances netIds infinity)
    (hk : 0 < k) : (∃ result : List (Fin k) × Nat, R.Kmeans infinity netIds result) ↔
      (∃ n ∈ netIds, 0 < (R.database.nets n).getConnectionSize) ∧ k ≤ netIds.length + 1 := by
  have hadd : ∀ {first}, R.firstCentroid netIds = some first →
      ((R.addCentroids infinity netIds (k - 1) [first] []).isSome ↔ k ≤ netIds.length + 1) := by
    intro first hfirst
    rw [h.addCentroids_isSome_iff hinf fun b hb => by
      rw [List.mem_singleton.1 hb]
      exact firstCentroid_measured hfirst]
    have hall : netIds.filter (fun n => !([] : List R.database.NetId).contains n) = netIds :=
      List.filter_eq_self.2 fun _ _ => rfl
    rw [hall]
    omega
  rw [← h.exists_firstCentroid_iff]
  constructor
  · rintro ⟨result, centroids, hinit, -⟩
    obtain ⟨first, hfirst, hmore⟩ := Option.bind_eq_some_iff.1 hinit
    exact ⟨⟨first, hfirst⟩, (hadd hfirst).1 (Option.isSome_iff_exists.2 ⟨_, hmore⟩)⟩
  · rintro ⟨⟨first, hfirst⟩, hle⟩
    obtain ⟨centroids, hmore⟩ := Option.isSome_iff_exists.1 ((hadd hfirst).2 hle)
    obtain ⟨hlength, hmeasured⟩ := h.addCentroids_measured (fun b hb => by
      rw [List.mem_singleton.1 hb]
      exact firstCentroid_measured hfirst) hmore
    have hcs : ∀ j : Fin k, Measured (centroids.getD j .empty) := by
      intro j
      have hj : j.val < centroids.length := by
        rw [hlength, List.length_singleton]
        omega
      rw [List.getD_eq_getElem?_getD, List.getElem?_eq_getElem hj, Option.getD_some]
      exact hmeasured _ (List.getElem_mem hj)
    obtain ⟨result, hrounds⟩ := h.exists_rounds hinf hk hcs fun _ => none
    exact ⟨result, centroids, Option.bind_eq_some_iff.2 ⟨first, hfirst, hmore⟩,
      (rounds_iff hk).2 hrounds⟩

/-- The boxes of the router are as the clustering needs them, on a device as large as the layout. -/
theorem netBoxes_of_boxed (hlayout : R.database.layout = .set 0 0 108 300)
    (hboxed : R.database.Boxed)
    (hdevice : R.database.layout.hx ≤ R.database.deviceXMax + 1 ∧
      R.database.layout.hy ≤ R.database.deviceYMax + 1)
    (hdefault : ∀ n, (R.database.nets n).getConnectionSize = 0 → R.netBox n = .empty)
    (hnodup : netIds.Nodup) : R.NetBoxes netIds := by
  have hside : R.database.layout.hx = 108 ∧ R.database.layout.hy = 300 := by
    rw [hlayout]
    exact ⟨rfl, rfl⟩
  have hconns : ∀ n, 0 < (R.database.nets n).getConnectionSize →
      (R.database.nets n).indirectConns ≠ [] :=
    fun n hsize => List.length_pos_iff.1 (Int.natCast_pos.1 hsize)
  refine ⟨hnodup, fun n _ => hdefault n, fun n _ hsize => ?_, fun n _ hsize => ?_⟩
  · have hextent := hboxed.extent hlayout (hconns n hsize)
    dsimp only [Extended, netBox, BoxT.set, BoxT.lx, BoxT.hx, BoxT.ly, BoxT.hy] at hextent ⊢
    unfold BoxT.hx BoxT.hy at hside
    omega
  · have hextent := hboxed.extent hlayout (hconns n hsize)
    obtain ⟨hhull, -⟩ := hboxed.isHull hlayout (hconns n hsize)
    obtain ⟨c, hc⟩ := List.exists_mem_of_ne_nil _ (hconns n hsize)
    -- the source of a connection is strictly inside its box, and the box in that of the net
    obtain ⟨hx, hy⟩ := (hboxed.ends c).1
    have hmem := List.mem_map_of_mem (f := R.database.bbox) hc
    have hxmin := hhull.xmin.2 ⟨_, hmem, rfl⟩
    have hxmax := hhull.xmax.2 ⟨_, hmem, rfl⟩
    have hymin := hhull.ymin.2 ⟨_, hmem, rfl⟩
    have hymax := hhull.ymax.2 ⟨_, hmem, rfl⟩
    unfold IntervalT.Inside at hx hy
    dsimp only [netBox, BoxT.set, BoxT.lx, BoxT.hx, BoxT.ly, BoxT.hy] at *
    omega

end Exists

/-- **When the nets of a design are clustered**, with exact distances. It takes a net with connections
that is not labeled, and no more than one thread more than there are nets to be batched. -/
theorem exists_kmeans_iff_threads {R : AStarRoute ℚ} {infinity : ℚ}
    (hthread : 0 < R.numThread) (hlayout : R.database.layout = .set 0 0 108 300)
    (hboxed : R.database.Boxed)
    (hdevice : R.database.layout.hx ≤ R.database.deviceXMax + 1 ∧
      R.database.layout.hy ≤ R.database.deviceYMax + 1)
    (hdefault : ∀ n, (R.database.nets n).getConnectionSize = 0 → R.netBox n = .empty)
    (hinf : R.AboveDistances R.netIdsToPartition infinity) :
    (∃ result : List (Fin R.numThread) × Nat, R.Kmeans infinity R.netIdsToPartition result) ↔
      (∃ n ∈ R.netIdsToPartition, 0 < (R.database.nets n).getConnectionSize) ∧
        R.numThread ≤ R.netIdsToPartition.length + 1 := by
  have hnodup : R.netIdsToPartition.Nodup := (List.nodup_finRange _).filter _
  exact (netBoxes_of_boxed hlayout hboxed hdevice hdefault hnodup).exists_kmeans_iff hinf hthread

/-- Two threads find clusters for the islands. -/
theorem exists_kmeans_iff_threads_islands :
    ∃ result : List (Fin clusteredIslands.numThread) × Nat,
      clusteredIslands.Kmeans 100 clusteredIslands.netIdsToPartition result := by
  have hboxed : clusteredIslands.database.Boxed :=
    ⟨{ islandsDatabase with deviceXMax := 107, deviceYMax := 299 }, 3, 15, rfl, by decide, by decide,
      by decide⟩
  have hnet : ∃ n ∈ clusteredIslands.netIdsToPartition,
      0 < (clusteredIslands.database.nets n).getConnectionSize := by decide +kernel
  refine (exists_kmeans_iff_threads (by decide) rfl hboxed (by decide) (by decide +kernel) ?_).2
    ⟨hnet, by decide +kernel⟩
  unfold AboveDistances
  decide +kernel

end AStarRoute

end Potter
