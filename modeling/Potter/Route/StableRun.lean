import Potter.Route.Legality
import Potter.Route.PresentCost
import Potter.Route.TreeLevels

/-!
# Stable-first routing as a sequential program

The whole loop of `routeIndirectConnections` in stable-first mode, with the decision that ends
batching: after the third iteration it is made by how fast the number of overused nodes falls and how
much routing each of them takes (`Statistics`).

Three things run on several threads: the phases of a batch, the leaves of a level, and the refresh of
the costs. None of them can be told from a run on one thread: a loop ends in a state exactly if the
sequential program `loopInOrder` does. This is what the mode is for; the same input gives the same
routes.
-/

namespace Potter

open Lib

/-- The figures by which the main loop decides how to go on. -/
structure Statistics (K : Type) where
  decreaseRatio : K
  lastOverusedNodeNum : Int
  lastShareRatio : K
  shareRatio : K

namespace Statistics

variable {K : Type} [Arith K]

def init : Statistics K := ⟨(0 : Int), 0, (-10000 : Int), (0 : Int)⟩

/-- Overused nodes of the iteration before that are gone, as a share; and the connections routed for
each that is left. The second is a `float`. -/
def update (s : Statistics K) (numOverUsedRNodes routedConnectionNum : Int) : Statistics K where
  decreaseRatio := ((s.lastOverusedNodeNum - numOverUsedRNodes : Int) : K) * (1 : Int) /
    (s.lastOverusedNodeNum : K)
  lastOverusedNodeNum := numOverUsedRNodes
  lastShareRatio := s.shareRatio
  shareRatio := Arith.toFloat ((routedConnectionNum : K) * (1 : Int) / (numOverUsedRNodes : K))

def shareIncreaseRatio (s : Statistics K) : K :=
  Arith.toFloat (Arith.toFloat (s.shareRatio - s.lastShareRatio) * (1 : Int) / s.lastShareRatio)

/-- Whether batching still pays. -/
def goesOn (s : Statistics K) : Prop :=
  ((2 : Int) : K) / (10 : Int) < s.decreaseRatio ∧
    ((15 : Int) : K) / (100 : Int) < s.shareIncreaseRatio

instance (s : Statistics K) : Decidable s.goesOn := inferInstanceAs (Decidable (_ ∧ _))

end Statistics

namespace AStarRoute

variable {K : Type} [Arith K] (R : AStarRoute K)

/-! ## The loop on several threads -/

/-- Nets are routed in batches in the first three iterations, and later until it does not pay. -/
def Overlaps (s : Statistics K) (ctl : Control K) : Prop :=
  ctl.useOverlapRouting = true ∧ (ctl.iter ≤ 3 ∨ s.goesOn)

instance (s : Statistics K) (ctl : Control K) : Decidable (Overlaps s ctl) :=
  inferInstanceAs (Decidable (_ ∧ _))

/-- `dynamicCostFactorUpdating`, with the nodes in any order the threads visit them. -/
def RefreshCosts (st st' : RouterState R.database) : Prop :=
  ∃ costs, Interleaving R.nodeThreads costs ∧ st' = costs.foldl R.refreshCost
    { st with ctl := R.updateFactors st.ctl, numOverUsedRNodes := 0 }

/-- The ways to route an iteration in stable-first mode, as the statistics decide. -/
inductive StablePhase (S : Schedule R.database) (s : Statistics K) :
    RouterState R.database → RouterState R.database → Prop
  | batches {st st₁ st' : RouterState R.database} (hparallel : R.useParallel = true)
      (hoverlap : Overlaps s st.ctl) (hbatches : Runs R.Batch S.netIdBatchesForThreads.zipIdx st st₁)
      (hlabeled : Runs R.QuietTreeLevel S.treeForLabeledNets st₁ st') : StablePhase S s st st'
  | tree {st st' : RouterState R.database} (hparallel : R.useParallel = true)
      (hoverlap : ¬ Overlaps s st.ctl) (h : Runs R.QuietTreeLevel S.partitionTree st st') :
      StablePhase S s st { st' with ctl := { st'.ctl with useOverlapRouting := false } }
  | sequential {st st' : RouterState R.database} (hparallel : R.useParallel = false)
      (h : runAll R.sequentialConnection R.sortedConnectionIds st = some st') : StablePhase S s st st'

/-- The body of the loop. -/
def StableIteration (S : Schedule R.database)
    (p p' : RouterState R.database × Statistics K) : Prop :=
  ∃ st₁, R.StablePhase S p.2 (R.beginIteration p.1) st₁ ∧
    R.RefreshCosts (R.judgeCongestion st₁) p'.1 ∧
    p'.2 = p.2.update p'.1.numOverUsedRNodes p'.1.routedConnectionNum

/-- The loop, which is left by its limit or by `break`. -/
inductive StableLoop (S : Schedule R.database) :
    RouterState R.database × Statistics K → RouterState R.database × Statistics K → Prop
  | limit {p : RouterState R.database × Statistics K}
      (h : ¬ (R.beginIteration p.1).ctl.iter < R.maxIter) : StableLoop S p p
  | converged {p p' : RouterState R.database × Statistics K}
      (h : (R.beginIteration p.1).ctl.iter < R.maxIter) (hstep : R.StableIteration S p p')
      (hconv : R.Converged p'.1) : StableLoop S p p'
  | next {p p' q : RouterState R.database × Statistics K}
      (h : (R.beginIteration p.1).ctl.iter < R.maxIter) (hstep : R.StableIteration S p p')
      (hconv : ¬ R.Converged p'.1) (hrest : StableLoop S p' q) : StableLoop S p q

/-! ## The loop on one thread -/

def batchesInOrder (batches : List (List (List R.database.NetId))) (st : RouterState R.database) :
    Option (RouterState R.database) :=
  runAll (fun p st => R.batchInOrder p.1 (R.setBatchStamp p.2 st)) batches.zipIdx st

def phaseInOrder (S : Schedule R.database) (s : Statistics K) (st : RouterState R.database) :
    Option (RouterState R.database) :=
  if R.useParallel then
    if Overlaps s st.ctl then
      (R.batchesInOrder S.netIdBatchesForThreads st).bind (R.treeInOrder S.treeForLabeledNets)
    else
      (R.treeInOrder S.partitionTree st).map fun st =>
        { st with ctl := { st.ctl with useOverlapRouting := false } }
  else runAll R.sequentialConnection R.sortedConnectionIds st

def iterationInOrder (S : Schedule R.database) (p : RouterState R.database × Statistics K) :
    Option (RouterState R.database × Statistics K) :=
  (R.phaseInOrder S p.2 (R.beginIteration p.1)).map fun st =>
    let st := R.dynamicCostFactorUpdating (R.judgeCongestion st)
    (st, p.2.update st.numOverUsedRNodes st.routedConnectionNum)

instance (st : RouterState R.database) : Decidable (R.Converged st) :=
  inferInstanceAs (Decidable (_ ∧ _))

/-- At most so many iterations. -/
def loopInOrder (S : Schedule R.database) :
    Nat → RouterState R.database × Statistics K → Option (RouterState R.database × Statistics K)
  | 0, p => some p
  | n + 1, p => (R.iterationInOrder S p).bind fun p' =>
    if R.Converged p'.1 then some p' else loopInOrder S n p'

/-- The iterations that are left before the limit. -/
def iterationsLeft (st : RouterState R.database) : Nat := (R.maxIter - 1 - st.ctl.iter).toNat

variable {R} {S : Schedule R.database} {st st' : RouterState R.database}

/-! ## The refresh of the costs -/

section Refresh

theorem refreshCost_ctl (st : RouterState R.database) (r : R.database.NodeId) :
    (R.refreshCost st r).ctl = st.ctl := by
  unfold refreshCost
  dsimp only
  split
  · rfl
  · split <;> rfl

theorem refreshCost_node_of_ne (st : RouterState R.database) {a b : R.database.NodeId} (h : b ≠ a) :
    (R.refreshCost st a).node b = st.node b := by
  unfold refreshCost
  dsimp only
  split
  · exact Function.update_of_ne h _ _
  · split
    · exact Function.update_of_ne h _ _
    · rfl

theorem refreshCost_comm (st : RouterState R.database) {a b : R.database.NodeId} (h : a ≠ b) :
    R.refreshCost (R.refreshCost st a) b = R.refreshCost (R.refreshCost st b) a := by
  conv_lhs => rw [refreshCost]
  conv_rhs => rw [refreshCost]
  dsimp only
  rw [refreshCost_node_of_ne st h.symm, refreshCost_node_of_ne st h, refreshCost_ctl, refreshCost_ctl]
  unfold refreshCost
  dsimp only
  split_ifs <;> simp [RouterState.withNode, Function.update_comm h]

theorem refreshCosts_iff : R.RefreshCosts st st' ↔ st' = R.dynamicCostFactorUpdating st := by
  have hcomm : R.nodeThreads.Pairwise fun t u => ∀ a ∈ t, ∀ b ∈ u,
      Commutes (fun r st => some (R.refreshCost st r)) a b :=
    nodeThreads_pairwise.imp fun hne a ha b hb s =>
      congrArg some (refreshCost_comm s (hne a ha b hb))
  constructor
  · rintro ⟨costs, hcosts, rfl⟩
    have heq := hcosts.runAll_eq hcomm
      { st with ctl := R.updateFactors st.ctl, numOverUsedRNodes := 0 }
    rw [runAll_some, runAll_some] at heq
    exact Option.some.inj heq
  · rintro rfl
    exact ⟨_, .flatten _, rfl⟩

end Refresh

/-! ## Batches -/

theorem batch_iff {p : List (List R.database.NetId) × Nat} (hdisj : p.1.Pairwise List.Disjoint) :
    R.Batch p st st' ↔ R.batchInOrder p.1 (R.setBatchStamp p.2 st) = some st' := by
  have heq : ∀ {routing commits costs}, Interleaving (R.netThreads p.1) routing →
      Interleaving (R.netThreads p.1) commits → Interleaving R.nodeThreads costs →
      R.runBatch routing commits costs = R.batchInOrder p.1 := by
    intro routing commits costs hrouting hcommits hcosts
    funext s
    rw [runBatch, batchInOrder, routing_eq hdisj hrouting, funext (merging_eq hdisj hcommits),
      funext (costs_eq hcosts)]
  constructor
  · rintro ⟨routing, commits, costs, hrouting, hcommits, hcosts, h⟩
    rwa [heq hrouting hcommits hcosts] at h
  · intro h
    refine ⟨_, _, _, .flatten _, .flatten _, .flatten _, ?_⟩
    rwa [heq (.flatten _) (.flatten _) (.flatten _)]

/-- No net is in two lists of a batch. -/
theorem disjoint_of_kmeansBasedPartition {clusters : List (Fin R.numThread)}
    {batches : List (List (List R.database.NetId))} (h : R.kmeansBasedPartition clusters = some batches) :
    ∀ lists ∈ batches, lists.Pairwise List.Disjoint := by
  have hnodup : batches.flatten.flatten.Nodup :=
    (kmeansBasedPartition_perm h).2.nodup_iff.2 ((List.nodup_finRange _).filter _)
  rw [List.flatten_flatten] at hnodup
  intro lists hlists
  have hlist := (List.nodup_flatten.1 hnodup).1 _ (List.mem_map_of_mem hlists)
  exact (List.nodup_flatten.1 hlist).2

/-- **Batches end as on a single thread.** -/
theorem runs_batch_iff {batches : List (List (List R.database.NetId))}
    (hdisj : ∀ lists ∈ batches, lists.Pairwise List.Disjoint) :
    Runs R.Batch batches.zipIdx st st' ↔ R.batchesInOrder batches st = some st' := by
  refine Runs.iff_runAll (I := fun _ => True) (fun p hp s t _ => ?_) (fun _ _ _ _ _ _ => trivial)
    trivial
  exact batch_iff (hdisj p.1 (List.fst_mem_of_mem_zipIdx hp))

/-! ## The iteration is counted once -/

section Iter

theorem routeConnection_ctl {counted : Bool} {ρ : Reads R.database.NodeId K} {tid : Nat}
    {c : R.database.ConnId} (h : R.routeConnection counted ρ tid c st = some st') :
    st'.ctl = st.ctl := by
  unfold routeConnection at h
  split at h
  · obtain ⟨st₁, hrip, h⟩ := Option.bind_eq_some_iff.1 h
    obtain ⟨⟨success, st₂⟩, hroute, heq⟩ := Option.map_eq_some_iff.1 h
    have hctl : st₂.ctl = st.ctl := (routeOneConnection_ctl hroute).trans (ripup_frame hrip).1
    dsimp only at heq
    split at heq
    · cases heq
      exact hctl
    · split at heq
      · cases heq
        exact hctl
      · cases heq
        exact hctl
  · cases h
    rfl

theorem routePartitionTree_ctl {levels : List (List (PartitionTreeNode R.database.ConnId))}
    (h : R.RoutePartitionTree R.steps levels st st') : st'.ctl = st.ctl := by
  refine h.invariant (I := fun s => s.ctl = st.ctl) ?_ rfl
  rintro leaves - s t hs ⟨sched, -, hrun⟩
  refine hrun.invariant (I := fun s => s.ctl = st.ctl) ?_ hs
  rintro c - s t hs ⟨ρ, hc⟩
  exact (routeConnection_ctl hc).trans hs

/-- Of what controls the router, a batch changes its stamp only. -/
theorem batch_ctl {p : List (List R.database.NetId) × Nat} (h : R.Batch p st st') :
    st'.ctl = (R.setBatchStamp p.2 st).ctl := by
  obtain ⟨routing, commits, costs, -, -, -, hrun⟩ := h
  obtain ⟨st₂, hrun, hcosts⟩ := Option.bind_eq_some_iff.1 hrun
  obtain ⟨st₁, hrouting, hcommits⟩ := Option.bind_eq_some_iff.1 hrun
  have hroute : st₁.ctl = (R.setBatchStamp p.2 st).ctl := (routing_frame hrouting).2
  have hmerge : st₂.ctl = (R.setBatchStamp p.2 st).ctl :=
    runAll_invariant (I := fun s => s.ctl = (R.setBatchStamp p.2 st).ctl)
      (fun q _ s t hs ht => (mergeNet_ctl ht).trans hs) hroute hcommits
  refine runAll_invariant (I := fun s => s.ctl = (R.setBatchStamp p.2 st).ctl)
    (fun r _ s t hs ht => ?_) hmerge hcosts
  cases ht
  unfold updatePresentCongCost
  dsimp only
  split <;> exact hs

theorem routingPhase_iter (h : R.RoutingPhase R.steps S st st') : st'.ctl.iter = st.ctl.iter := by
  cases h with
  | stableFirst _ _ _ h =>
    obtain ⟨st₁, hbatches, htree⟩ := h
    rw [routePartitionTree_ctl htree]
    refine hbatches.invariant (I := fun s => s.ctl.iter = st.ctl.iter) (fun p _ s t hs hp => ?_) rfl
    rw [batch_ctl hp]
    exact hs
  | runtimeFirst _ _ _ h =>
    obtain ⟨sched, -, hrun⟩ := h
    refine hrun.invariant (I := fun s => s.ctl.iter = st.ctl.iter) ?_ rfl
    rintro p - s t hs ⟨ρ, hp⟩
    rw [routeConnection_ctl hp, hs]
  | tree _ _ h =>
    have hiter := congrArg Control.iter (routePartitionTree_ctl h)
    exact hiter
  | sequential _ h =>
    refine h.invariant (I := fun s => s.ctl.iter = st.ctl.iter) (fun c _ s t hs hc => ?_) rfl
    rw [routeConnection_ctl hc, hs]

theorem iteration_iter (h : R.Iteration R.steps S st st') : st'.ctl.iter = st.ctl.iter + 1 := by
  obtain ⟨-, st₁, hphase, rfl⟩ := h
  have hjudge : (R.judgeCongestion st₁).ctl.iter = st₁.ctl.iter := by
    unfold judgeCongestion
    dsimp only
    split <;> rfl
  have hfactors : (R.updateFactors (R.judgeCongestion st₁).ctl).iter =
      (R.judgeCongestion st₁).ctl.iter := by
    unfold updateFactors
    dsimp only
    split <;> rfl
  calc (R.dynamicCostFactorUpdating (R.judgeCongestion st₁)).ctl.iter
      = (R.updateFactors (R.judgeCongestion st₁).ctl).iter := by
        rw [dynamicCostFactorUpdating, foldl_frame (p := RouterState.ctl) refreshCost_ctl]
    _ = st₁.ctl.iter := hfactors.trans hjudge
    _ = st.ctl.iter + 1 := routingPhase_iter hphase

end Iter

/-! ## The loop is one of the loops the router allows -/

section Refinement

variable {s : Statistics K} {p p' q : RouterState R.database × Statistics K}

theorem StablePhase.routingPhase (hmode : R.isRuntimeFirst = false) (h : R.StablePhase S s st st') :
    R.RoutingPhase R.steps S st st' := by
  have hlevels : ∀ {levels : List (List (PartitionTreeNode R.database.ConnId))}
      {u v : RouterState R.database}, Runs R.QuietTreeLevel levels u v →
      R.RoutePartitionTree R.steps levels u v := fun h => h.mono fun _ _ _ hl => hl.treeLevel
  cases h with
  | batches hparallel hoverlap hbatches hlabeled =>
    exact .stableFirst hparallel hmode hoverlap.1 ⟨_, hbatches, hlevels hlabeled⟩
  | tree hparallel hoverlap h =>
    refine .tree hparallel (fun huse => ?_) (hlevels h)
    by_contra hiter
    exact hoverlap ⟨huse, .inl (not_lt.1 hiter)⟩
  | sequential hparallel h => exact .sequential hparallel (Runs.of_runAll h)

theorem StableIteration.iteration (hmode : R.isRuntimeFirst = false)
    (hlimit : (R.beginIteration p.1).ctl.iter < R.maxIter) (h : R.StableIteration S p p') :
    R.Iteration R.steps S p.1 p'.1 := by
  obtain ⟨st₁, hphase, hcosts, -⟩ := h
  exact ⟨hlimit, st₁, hphase.routingPhase hmode, refreshCosts_iff.1 hcosts⟩

/-- **A loop is left by `break`, or it has used up its iterations.** -/
theorem StableLoop.breaks_or_limit (hmode : R.isRuntimeFirst = false) (h : R.StableLoop S p q) :
    R.Breaks R.steps S p.1 q.1 ∨ Relation.ReflTransGen (R.Continues R.steps S) p.1 q.1 ∧
      ¬ (R.beginIteration q.1).ctl.iter < R.maxIter := by
  induction h with
  | limit h => exact .inr ⟨.refl, h⟩
  | converged h hstep hconv => exact .inl ⟨_, .refl, hstep.iteration hmode h, hconv⟩
  | next h hstep hconv _ ih =>
    have hcontinues := And.intro (hstep.iteration hmode h) hconv
    rcases ih with ⟨st₁, hrun, hlast, hbreak⟩ | ⟨hrun, hlimit⟩
    · exact .inl ⟨st₁, .head hcontinues hrun, hlast, hbreak⟩
    · exact .inr ⟨.head hcontinues hrun, hlimit⟩

end Refinement

/-! ## One thread is enough -/

theorem iterationsLeft_eq_zero_iff :
    R.iterationsLeft st = 0 ↔ ¬ (R.beginIteration st).ctl.iter < R.maxIter := by
  show (R.maxIter - 1 - st.ctl.iter).toNat = 0 ↔ ¬ st.ctl.iter + 1 < R.maxIter
  omega

section InOrder

variable {s : Statistics K} {p p' q : RouterState R.database × Statistics K}
  (hends : R.EndsInside) (hbox : ∀ c, R.database.WellBoxed c) (hsched : R.Scheduled S)
  (hmode : R.isRuntimeFirst = false)

include hends hbox hsched hmode

theorem stablePhase_iff (hst : RoutesInside st) :
    R.StablePhase S s st st' ↔ R.phaseInOrder S s st = some st' := by
  unfold phaseInOrder
  by_cases hparallel : R.useParallel = true
  · obtain ⟨hlabel, clusters, hclusters⟩ := hsched.stableFirst hparallel hmode
    have hdisj := disjoint_of_kmeansBasedPartition hclusters
    rw [if_pos hparallel]
    by_cases hoverlap : Overlaps s st.ctl
    · have hap := leavesApart_of_scheduledTree hends (fun c _ => hbox c)
        nodup_connectionIdsLabeled hlabel
      rw [if_pos hoverlap, Option.bind_eq_some_iff]
      have hinside : ∀ {st₁}, Runs R.Batch S.netIdBatchesForThreads.zipIdx st st₁ →
          RoutesInside st₁ := fun h => hst.acts hends (Runs.acts h fun _ _ _ _ hp => acts_batch hp)
      constructor
      · rintro (⟨-, -, hbatches, hlabeled⟩ | ⟨-, hno, -⟩ | ⟨hseq, -⟩)
        · exact ⟨_, (runs_batch_iff hdisj).1 hbatches,
            (runs_quietTreeLevel_iff hends hap (hinside hbatches)).1 hlabeled⟩
        · exact absurd hoverlap hno
        · rw [hparallel] at hseq
          cases hseq
      · rintro ⟨st₁, hbatches, hlabeled⟩
        have hbatches := (runs_batch_iff hdisj).2 hbatches
        exact .batches hparallel hoverlap hbatches
          ((runs_quietTreeLevel_iff hends hap (hinside hbatches)).2 hlabeled)
    · have hap := leavesApart_of_scheduledTree hends (fun c _ => hbox c)
        (List.nodup_finRange _) (hsched.tree hparallel)
      rw [if_neg hoverlap, Option.map_eq_some_iff]
      constructor
      · rintro (⟨-, hyes, -, -⟩ | ⟨-, -, htree⟩ | ⟨hseq, -⟩)
        · exact absurd hyes hoverlap
        · exact ⟨_, (runs_quietTreeLevel_iff hends hap hst).1 htree, rfl⟩
        · rw [hparallel] at hseq
          cases hseq
      · rintro ⟨st₁, htree, rfl⟩
        exact .tree hparallel hoverlap ((runs_quietTreeLevel_iff hends hap hst).2 htree)
  · rw [if_neg hparallel]
    constructor
    · rintro (⟨hpar, -⟩ | ⟨hpar, -⟩ | ⟨-, h⟩)
      · exact absurd hpar hparallel
      · exact absurd hpar hparallel
      · exact h
    · exact fun h => .sequential (Bool.eq_false_iff.2 hparallel) h

theorem stableIteration_iff (hst : RoutesInside p.1) :
    R.StableIteration S p p' ↔ R.iterationInOrder S p = some p' := by
  unfold StableIteration iterationInOrder
  rw [Option.map_eq_some_iff]
  refine exists_congr fun st₁ => and_congr (stablePhase_iff hends hbox hsched hmode hst) ?_
  rw [refreshCosts_iff]
  dsimp only
  constructor
  · rintro ⟨hst', hstat⟩
    rw [← hst', ← hstat]
  · rintro rfl
    exact ⟨rfl, rfl⟩

/-- **Stable-first routing is a sequential program.** -/
theorem stableLoop_iff_loopInOrder (hst : R.Reachable p.1) :
    R.StableLoop S p q ↔ R.loopInOrder S (R.iterationsLeft p.1) p = some q := by
  -- by induction on the iterations left; that routes stay inside is carried along
  suffices h : ∀ (n : Nat) (p : RouterState R.database × Statistics K), RoutesInside p.1 →
      R.iterationsLeft p.1 = n → (R.StableLoop S p q ↔ R.loopInOrder S n p = some q) from
    h _ p (hst.routesInside hends) rfl
  intro n
  induction n with
  | zero =>
    intro p _ hleft
    have hlimit := iterationsLeft_eq_zero_iff.1 hleft
    constructor
    · rintro (_ | ⟨h, -, -⟩ | ⟨h, -, -, -⟩)
      · rfl
      · exact absurd h hlimit
      · exact absurd h hlimit
    · intro h
      cases h
      exact .limit hlimit
  | succ n ih =>
    intro p hp hleft
    have hgoes : (R.beginIteration p.1).ctl.iter < R.maxIter := by
      by_contra h
      rw [iterationsLeft_eq_zero_iff.2 h] at hleft
      cases hleft
    have hnext : ∀ {p'}, R.StableIteration S p p' →
        (R.StableLoop S p' q ↔ R.loopInOrder S n p' = some q) := by
      intro p' hstep
      have hiter := hstep.iteration hmode hgoes
      refine ih p' (hp.acts hends (acts_iteration hiter)) ?_
      rw [iterationsLeft, iteration_iter hiter]
      unfold iterationsLeft at hleft
      omega
    rw [loopInOrder, Option.bind_eq_some_iff]
    constructor
    · rintro (h | ⟨-, hstep, hconv⟩ | ⟨-, hstep, hconv, hrest⟩)
      · exact absurd hgoes h
      · exact ⟨q, (stableIteration_iff hends hbox hsched hmode hp).1 hstep, if_pos hconv⟩
      · refine ⟨_, (stableIteration_iff hends hbox hsched hmode hp).1 hstep, ?_⟩
        rw [if_neg hconv]
        exact (hnext hstep).1 hrest
    · rintro ⟨p', hstep, hrest⟩
      rw [← stableIteration_iff hends hbox hsched hmode hp] at hstep
      split at hrest
      · rename_i hconv
        cases hrest
        exact .converged hgoes hstep hconv
      · rename_i hconv
        exact .next hgoes hstep hconv ((hnext hstep).2 hrest)

end InOrder

/-- The scheduling ends with a result if every net finds its batch. -/
theorem exists_scheduled (hmode : R.isRuntimeFirst = false) (hbox : ∀ c, R.database.WellBoxed c)
    {clusters : List (Fin R.numThread)} (hlen : clusters.length = R.netIdsToPartition.length)
    (hok : ∀ tid, ∀ i < (R.netIdsForThread clusters tid).length,
      BatchIdOk R.numBatches (R.netIdsForThread clusters tid).length i) : ∃ S, R.Scheduled S := by
  obtain ⟨labeled, hlabeled⟩ := labelNets_isSome hbox
  obtain ⟨levels, hlevels⟩ := Database.scheduledTree_isSome R.sortedConnectionIds
    (fun c _ => hbox c) R.sorter
  refine ⟨⟨_, labeled, [], levels⟩, fun _ _ => ⟨hlabeled, clusters, if_pos ⟨hlen, hok⟩⟩,
    fun _ h => ?_, fun _ => hlevels⟩
  rw [hmode] at h
  cases h

/-- Five hundred and twelve columns are one batch for two threads. -/
theorem scheduled_columns : ∃ S, (columns 512 2 true false).Scheduled S := by
  have hbatches : (columns 512 2 true false).numBatches = 1 := by
    rw [numBatches_eq, unlabeledNets_columns]
    rfl
  have hrange : ∀ tid, ((((columns 512 2 true false).netIdsForThread columnsClusters tid).length
      - 1) * (columns 512 2 true false).numBatches : Nat) ≤ intMax := by
    intro tid
    have hle := length_netIdsForThread_le (R := columns 512 2 true false) columnsClusters tid
    rw [length_columnsClusters, length_netIdsToPartition_eq, unlabeledNets_columns] at hle
    rw [hbatches]
    unfold intMax
    omega
  exact exists_scheduled rfl (Database.wellBoxed_columns (by decide)) length_columnsClusters
    ((batchIdOk_iff length_columnsClusters).2
      (.inr ⟨Nat.lt_of_lt_of_eq Nat.one_pos hbatches.symm, hrange⟩))

/-- From the first iteration on. -/
theorem stableLoop_iff_loopInOrder_columns :
    ∃ S, (columns 512 2 true false).Scheduled S ∧
      ∃ p : RouterState (columns 512 2 true false).database × Statistics ℚ,
        (columns 512 2 true false).Reachable p.1 ∧ (columns 512 2 true false).iterationsLeft p.1 = 499 ∧
        ∀ q, (columns 512 2 true false).StableLoop S p q ↔
          (columns 512 2 true false).loopInOrder S 499 p = some q := by
  obtain ⟨S, hsched⟩ := scheduled_columns
  have hreach : (columns 512 2 true false).Reachable (.init (fun _ => false) (fun _ => false) 0 0) :=
    ⟨_, _, _, _, .refl⟩
  refine ⟨S, hsched, (.init (fun _ => false) (fun _ => false) 0 0, .init), hreach, rfl, fun q => ?_⟩
  exact stableLoop_iff_loopInOrder (endsInside_columns 512 2 true false)
    (Database.wellBoxed_columns (by decide)) hsched rfl hreach

end AStarRoute

end Potter
