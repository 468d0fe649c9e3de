import Potter.Route.BatchAccounting
import Potter.Route.NetBatches
import Potter.Route.RegionPartition
import Potter.Route.Stamps

/-!
# The main loop

`routeIndirectConnections` reserves the sinks, schedules the nets, and then routes in iterations until
no node is overused and no failure was counted. An iteration routes in one of four ways: batches of
nets and the tree of the labeled nets (stable-first), a list of nets for every thread (runtime-first),
the tree of all connections, or all connections in turn.

Where threads run side by side, the next step of some thread is taken: the step of a connection in
the trees and in the lists of the threads, as it changes its own net and, of what threads share, only
counters; what it reads of the nodes meanwhile is left open (`Reads`). The decision to go on with
batches or lists after the third iteration depends on statistics, which are not modelled: both
outcomes are allowed.

The loop takes the steps of its threads as a parameter (`Steps`). With `steps` it is the router's; with
fewer steps it has only the runs of the router in which every step is one of these (`Breaks.mono`).
-/

namespace Potter

open Lib

namespace AStarRoute

variable {K : Type} [Arith K] (R : AStarRoute K)

/-! ## Cost factors -/

/-- The factors of the next iteration. -/
def updateFactors (ctl : Control K) : Control K :=
  let ctl : Control K :=
    if ctl.isCongestedDesign then
      let r : K := ((1 : Int) : K) /
        ((1 : Int) + Arith.exp (((1 - ctl.iter : Int) : K) * (((1 : Int) : K) / (2 : Int))))
      let r2 : K := ((3 : Int) : K) / ((1 : Int) + Arith.exp ((ctl.iter - 1 : Int) : K))
      { ctl with
        historicalCongestionFactor := Arith.toFloat ((2 : Int) * r)
        presentCongestionMultiplier :=
          Arith.toFloat ((((11 : Int) : K) / (10 : Int)) * ((1 : Int) + r2)) }
    else ctl
  let factor := Arith.toFloat (ctl.presentCongestionFactor * ctl.presentCongestionMultiplier)
  { ctl with
    presentCongestionFactor :=
      if R.maxPresentCongestionFactor < factor then R.maxPresentCongestionFactor else factor }

/-- One node in the loop of `dynamicCostFactorUpdating`. A node nobody uses is left alone. -/
def refreshCost (st : RouterState R.database) (r : R.database.NodeId) : RouterState R.database :=
  let node := st.node r
  let overuse := node.occupancy - nodeCapacity
  if overuse = 0 then
    st.withNode r (node.setPresentCongestionCost
      (Arith.toFloat ((1 : Int) + st.ctl.presentCongestionFactor)))
  else if overuse > 0 then
    { st.withNode r ((node.setPresentCongestionCost (Arith.toFloat ((1 : Int) +
          Arith.toFloat (((overuse + 1 : Int) : K) * st.ctl.presentCongestionFactor)))).setHistoricalCongestionCost
        (Arith.toFloat (node.historicalCongestionCost +
          Arith.toFloat ((overuse : K) * st.ctl.historicalCongestionFactor)))) with
      numOverUsedRNodes := st.numOverUsedRNodes + 1 }
  else st

/-- Every node is visited by one thread, and what a visit does to it depends on nothing that the
others write. -/
def dynamicCostFactorUpdating (st : RouterState R.database) : RouterState R.database :=
  R.nodeThreads.flatten.foldl R.refreshCost
    { st with ctl := R.updateFactors st.ctl, numOverUsedRNodes := 0 }

/-- After the first iteration a design with many overused nodes counts as congested. -/
def judgeCongestion (st : RouterState R.database) : RouterState R.database :=
  let overUseCnt : Int :=
    (List.finRange R.database.numNodes).countP fun r => 1 < (st.node r).occupancy
  let congestRatio : K := Arith.toFloat ((overUseCnt : K) * (1 : Int) / (R.database.numConns : Int))
  if st.ctl.iter = 1 ∧ ((45 : Int) : K) / (100 : Int) < congestRatio then
    { st with ctl := { st.ctl with isCongestedDesign := true } }
  else st

/-! ## One connection -/

def countFailure (st : RouterState R.database) : RouterState R.database :=
  { st with failRouteNum := st.failRouteNum + 1 }

/-- Route a connection that needs it, at once. A failure is logged, and counted or not. -/
def routeConnection (counted : Bool) (ρ : Reads R.database.NodeId K) (tid : Nat)
    (c : R.database.ConnId) (st : RouterState R.database) : Option (RouterState R.database) :=
  if R.shouldRoute ρ st c then
    (R.ripup ρ c false st).bind fun st =>
      (R.routeOneConnection ρ c tid false st).map fun (success, st) =>
        if success then st
        else if counted then (R.countFailure st).logFailure
        else st.logFailure
  else some st

/-- One connection in the loop of `routePartitionTreeLeafNode`. All threads use the same table. -/
def treeConnection (ρ : Reads R.database.NodeId K) (c : R.database.ConnId)
    (st : RouterState R.database) : Option (RouterState R.database) :=
  R.routeConnection true ρ 0 c st

/-- One connection in the loop of `routeNetGroup`. -/
def netGroupConnection (ρ : Reads R.database.NodeId K) (tid : Nat) (c : R.database.ConnId)
    (st : RouterState R.database) : Option (RouterState R.database) :=
  R.routeConnection false ρ tid c st

/-- One connection in the loop of the single-threaded mode. -/
def sequentialConnection (c : R.database.ConnId) (st : RouterState R.database) :
    Option (RouterState R.database) :=
  R.routeConnection true .own 0 c st

/-! ## The ways to route -/

def setBatchStamp (batchId : Nat) (st : RouterState R.database) : RouterState R.database :=
  { st with ctl := { st.ctl with currentBatchStamp := st.ctl.iter * R.numBatches + batchId } }

/-- The three phases of a batch, each with a barrier at its end. -/
def Batch (p : List (List R.database.NetId) × Nat) (st st' : RouterState R.database) : Prop :=
  ∃ routing commits costs, Interleaving (R.netThreads p.1) routing ∧
    Interleaving (R.netThreads p.1) commits ∧ Interleaving R.nodeThreads costs ∧
    R.runBatch routing commits costs (R.setBatchStamp p.2 st) = some st'

/-- In the routing phase of a batch, thread `tid` comes to connection `c` in state `s`. -/
def BatchCall (routing : List (Nat × R.database.NetId)) (st : RouterState R.database) (tid : Nat)
    (c : R.database.ConnId) (s : RouterState R.database) : Prop :=
  ∃ pre n post cs ds s₁, routing = pre ++ (tid, n) :: post ∧
    (R.database.nets n).indirectConns = cs ++ c :: ds ∧
    runAll (fun p => R.routeWorkerNet p.1 p.2) pre st = some s₁ ∧
    runAll (R.routeWorkerConnection tid) cs (R.clearPreUsers n s₁) = some s

/-- What is one step in each of the ways to route: a connection of a tree, a connection in the list of
a thread, a batch, and a connection in the single-threaded loop. -/
structure Steps (D : Database K) where
  tree : D.ConnId → RouterState D → RouterState D → Prop
  netGroup : Nat × D.ConnId → RouterState D → RouterState D → Prop
  batch : List (List D.NetId) × Nat → RouterState D → RouterState D → Prop
  sequential : D.ConnId → RouterState D → RouterState D → Prop

/-- The steps of the router. -/
def steps : Steps R.database where
  tree c s s' := ∃ ρ, R.treeConnection ρ c s = some s'
  netGroup p s s' := ∃ ρ, R.netGroupConnection ρ p.1 p.2 s = some s'
  batch := R.Batch
  sequential c s s' := R.sequentialConnection c s = some s'

/-- The connections of a thread's nets, the short ones of every net first. -/
def netGroup (netIds : List R.database.NetId) : List R.database.ConnId :=
  netIds.flatMap fun n => R.sorter.sort
    (fun i j => (R.database.indirectConnections i).hpwl < (R.database.indirectConnections j).hpwl)
    (R.database.nets n).indirectConns

def groupThreads (lists : List (List R.database.NetId)) : List (List (Nat × R.database.ConnId)) :=
  lists.zipIdx.map fun p => (R.netGroup p.1).map fun c => (p.2, c)

variable (T : Steps R.database)

/-- The leaves of a level are routed side by side. -/
def TreeLevel (leaves : List (PartitionTreeNode R.database.ConnId))
    (st st' : RouterState R.database) : Prop :=
  ∃ sched, Interleaving (leaves.map PartitionTreeNode.connectionIds) sched ∧
    Runs T.tree sched st st'

def RoutePartitionTree (levels : List (List (PartitionTreeNode R.database.ConnId))) :
    RouterState R.database → RouterState R.database → Prop :=
  Runs (R.TreeLevel T) levels

def RuntimeFirstParallelRouting (netIdsForThreads : List (List R.database.NetId))
    (st st' : RouterState R.database) : Prop :=
  ∃ sched, Interleaving (R.groupThreads netIdsForThreads) sched ∧ Runs T.netGroup sched st st'

def StableFirstParallelRouting (batches : List (List (List R.database.NetId)))
    (labeled : List (List (PartitionTreeNode R.database.ConnId)))
    (st st' : RouterState R.database) : Prop :=
  ∃ st₁, Runs T.batch batches.zipIdx st st₁ ∧ R.RoutePartitionTree T labeled st₁ st'

/-! ## The loop -/

/-- What the scheduling leaves: `netIdBatchesForThreads` and the levels of `treeForLabeledNets`, or
`netIdsForThreads`; and the levels of `partitionTree`. -/
structure Schedule (D : Database K) where
  netIdBatchesForThreads : List (List (List D.NetId))
  treeForLabeledNets : List (List (PartitionTreeNode D.ConnId))
  netIdsForThreads : List (List D.NetId)
  partitionTree : List (List (PartitionTreeNode D.ConnId))

/-- The scheduling ended with this result, for some clustering of the nets. -/
structure Scheduled (S : Schedule R.database) : Prop where
  stableFirst : R.useParallel = true → R.isRuntimeFirst = false →
    R.labelNets = some S.treeForLabeledNets ∧
      ∃ clusters, R.kmeansBasedPartition clusters = some S.netIdBatchesForThreads
  runtimeFirst : R.useParallel = true → R.isRuntimeFirst = true →
    R.regionBasedPartition = some S.netIdsForThreads
  tree : R.useParallel = true → R.database.scheduledTree R.sorter R.sortedConnectionIds
    (R.database.unionBBox R.sortedConnectionIds) = some S.partitionTree

/-- The ways to route an iteration. -/
inductive RoutingPhase (S : Schedule R.database) :
    RouterState R.database → RouterState R.database → Prop
  | stableFirst {st st' : RouterState R.database} (hparallel : R.useParallel = true)
      (hmode : R.isRuntimeFirst = false) (hoverlap : st.ctl.useOverlapRouting = true)
      (h : R.StableFirstParallelRouting T S.netIdBatchesForThreads S.treeForLabeledNets st st') :
      RoutingPhase S st st'
  | runtimeFirst {st st' : RouterState R.database} (hparallel : R.useParallel = true)
      (hmode : R.isRuntimeFirst = true) (hoverlap : st.ctl.useOverlapRouting = true)
      (h : R.RuntimeFirstParallelRouting T S.netIdsForThreads st st') : RoutingPhase S st st'
  | tree {st st' : RouterState R.database} (hparallel : R.useParallel = true)
      (hoverlap : st.ctl.useOverlapRouting = true → 3 < st.ctl.iter)
      (h : R.RoutePartitionTree T S.partitionTree st st') :
      RoutingPhase S st { st' with ctl := { st'.ctl with useOverlapRouting := false } }
  | sequential {st st' : RouterState R.database} (hparallel : R.useParallel = false)
      (h : Runs T.sequential R.sortedConnectionIds st st') : RoutingPhase S st st'

def Iteration (S : Schedule R.database) (st st' : RouterState R.database) : Prop :=
  (R.beginIteration st).ctl.iter < R.maxIter ∧
    ∃ st₁, R.RoutingPhase T S (R.beginIteration st) st₁ ∧
      st' = R.dynamicCostFactorUpdating (R.judgeCongestion st₁)

/-- The test for `break`. -/
def Converged (st : RouterState R.database) : Prop :=
  st.numOverUsedRNodes = 0 ∧ st.failRouteNum = 0

/-- The loop goes on as long as the test fails. -/
def Continues (S : Schedule R.database) (st st' : RouterState R.database) : Prop :=
  R.Iteration T S st st' ∧ ¬ R.Converged st'

/-- The loop is left through `break`. -/
def Breaks (S : Schedule R.database) (st st' : RouterState R.database) : Prop :=
  ∃ st₁, Relation.ReflTransGen (R.Continues T S) st st₁ ∧ R.Iteration T S st₁ st' ∧ R.Converged st'

/-! ## Fewer steps -/

section Mono

variable {R T} {T' : Steps R.database} {S : Schedule R.database} {st st' : RouterState R.database}

/-- Every step of `T` is one of `T'`. -/
structure Steps.Le {D : Database K} (T T' : Steps D) : Prop where
  tree : ∀ c s s', T.tree c s s' → T'.tree c s s'
  netGroup : ∀ p s s', T.netGroup p s s' → T'.netGroup p s s'
  batch : ∀ p s s', T.batch p s s' → T'.batch p s s'
  sequential : ∀ c s s', T.sequential c s s' → T'.sequential c s s'

theorem RoutePartitionTree.mono (hT : T.Le T')
    {levels : List (List (PartitionTreeNode R.database.ConnId))}
    (h : R.RoutePartitionTree T levels st st') : R.RoutePartitionTree T' levels st st' := by
  refine Runs.mono h ?_
  rintro leaves s t ⟨sched, hsched, hrun⟩
  exact ⟨sched, hsched, hrun.mono hT.tree⟩

theorem RoutingPhase.mono (hT : T.Le T') (h : R.RoutingPhase T S st st') :
    R.RoutingPhase T' S st st' := by
  cases h with
  | stableFirst hparallel hmode hoverlap h =>
    obtain ⟨st₁, hbatches, htree⟩ := h
    exact .stableFirst hparallel hmode hoverlap ⟨st₁, hbatches.mono hT.batch, htree.mono hT⟩
  | runtimeFirst hparallel hmode hoverlap h =>
    obtain ⟨sched, hsched, hrun⟩ := h
    exact .runtimeFirst hparallel hmode hoverlap ⟨sched, hsched, hrun.mono hT.netGroup⟩
  | tree hparallel hoverlap h => exact .tree hparallel hoverlap (h.mono hT)
  | sequential hparallel h => exact .sequential hparallel (h.mono hT.sequential)

theorem Iteration.mono (hT : T.Le T') (h : R.Iteration T S st st') : R.Iteration T' S st st' := by
  obtain ⟨hiter, st₁, hphase, rfl⟩ := h
  exact ⟨hiter, st₁, hphase.mono hT, rfl⟩

/-- A run with fewer steps is a run. -/
theorem Breaks.mono (hT : T.Le T') (h : R.Breaks T S st st') : R.Breaks T' S st st' := by
  obtain ⟨st₁, hcontinues, hlast, hconv⟩ := h
  refine ⟨st₁, Relation.ReflTransGen.mono ?_ _ _ hcontinues, hlast.mono hT, hconv⟩
  exact fun s t hst => ⟨hst.1.mono hT, hst.2⟩

end Mono

/-! ## What a thread does at a time -/

/-- The calls that change the state, by whatever thread and in whatever mode. -/
inductive Act : RouterState R.database → RouterState R.database → Prop
  | reserveSink {c : R.database.ConnId} {st st' : RouterState R.database} :
      R.reserveSink c st = some st' → Act st st'
  | ripup {ρ : Reads R.database.NodeId K} {c : R.database.ConnId} {sync : Bool}
      {st st' : RouterState R.database} : R.ripup ρ c sync st = some st' → Act st st'
  | route {ρ : Reads R.database.NodeId K} {c : R.database.ConnId} {tid : Nat} {sync success : Bool}
      {st st' : RouterState R.database} :
      R.routeOneConnection ρ c tid sync st = some (success, st') → Act st st'
  | setRoutedThisIter (c : R.database.ConnId) (routed : Bool) (st : RouterState R.database) :
      Act st (st.withConn c ((st.conn c).setRoutedThisIter routed))
  | clearPreUsers (n : R.database.NetId) (st : RouterState R.database) : Act st (R.clearPreUsers n st)
  | recordOccChanges (tid : Nat) (info : R.database.NodeId → NodeInfo R.database.NodeId K)
      (st : RouterState R.database) : Act st (st.withInfo tid info)
  | updateNet {n : R.database.NetId} {st st' : RouterState R.database} :
      R.updateNet n st = some st' → Act st st'
  | updatePresentCongCost (r : R.database.NodeId) (st : RouterState R.database) :
      Act st (R.updatePresentCongCost r st)
  | refreshCost (r : R.database.NodeId) (st : RouterState R.database) : Act st (R.refreshCost st r)
  | control (ctl : Control K) (routedConnectionNum failRouteNum numOverUsedRNodes loggedFailures : Int)
      (st : RouterState R.database) :
      Act st { st with
        ctl := ctl
        routedConnectionNum := routedConnectionNum
        failRouteNum := failRouteNum
        numOverUsedRNodes := numOverUsedRNodes
        loggedFailures := loggedFailures }

/-- The states that the router can be in while it routes the indirect connections. -/
def Reachable (st : RouterState R.database) : Prop :=
  ∃ isRouted isRoutedThisIter routedConnectionNum failRouteNum,
    Relation.ReflTransGen R.Act
      (.init isRouted isRoutedThisIter routedConnectionNum failRouteNum) st

section Reachable

open Relation

variable {R} {st st' : RouterState R.database}

theorem runAll_acts {α : Type} {step : α → RouterState R.database → Option (RouterState R.database)}
    {as : List α} (hstep : ∀ a ∈ as, ∀ s t, step a s = some t → ReflTransGen R.Act s t)
    (h : runAll step as st = some st') : ReflTransGen R.Act st st' :=
  runAll_invariant (I := ReflTransGen R.Act st) (fun a ha s t hs ht => hs.trans (hstep a ha s t ht))
    .refl h

theorem Runs.acts {α : Type} {step : α → RouterState R.database → RouterState R.database → Prop}
    {as : List α} (h : Runs step as st st')
    (hstep : ∀ a ∈ as, ∀ s t, step a s t → ReflTransGen R.Act s t) : ReflTransGen R.Act st st' :=
  h.invariant (I := ReflTransGen R.Act st) (fun a ha s t hs ht => hs.trans (hstep a ha s t ht)) .refl

theorem acts_logFailure (st : RouterState R.database) : R.Act st st.logFailure :=
  .control _ _ _ _ _ st

theorem acts_setCtl (ctl : Control K) (st : RouterState R.database) :
    R.Act st { st with ctl := ctl } :=
  .control _ _ _ _ _ st

theorem acts_routeConnection {counted : Bool} {ρ : Reads R.database.NodeId K} {tid : Nat}
    {c : R.database.ConnId} (h : R.routeConnection counted ρ tid c st = some st') :
    ReflTransGen R.Act st st' := by
  unfold routeConnection at h
  split at h
  · obtain ⟨st₁, hrip, h⟩ := Option.bind_eq_some_iff.1 h
    obtain ⟨⟨success, st₂⟩, hroute, heq⟩ := Option.map_eq_some_iff.1 h
    have hacts : ReflTransGen R.Act st st₂ := (ReflTransGen.single (.ripup hrip)).tail (.route hroute)
    dsimp only at heq
    split at heq
    · cases heq
      exact hacts
    · split at heq
      · cases heq
        exact hacts.tail (.control _ _ _ _ _ st₂)
      · cases heq
        exact hacts.tail (acts_logFailure st₂)
  · cases h
    exact .refl

theorem acts_routePartitionTree {levels : List (List (PartitionTreeNode R.database.ConnId))}
    (h : R.RoutePartitionTree R.steps levels st st') : ReflTransGen R.Act st st' := by
  refine Runs.acts h ?_
  rintro leaves - s t ⟨sched, -, hrun⟩
  refine Runs.acts hrun ?_
  rintro c - s t ⟨ρ, hc⟩
  exact acts_routeConnection hc

theorem acts_routeWorkerNet {tid : Nat} {n : R.database.NetId}
    (h : R.routeWorkerNet tid n st = some st') : ReflTransGen R.Act st st' := by
  obtain ⟨st₁, hrun, rfl⟩ := Option.map_eq_some_iff.1 h
  have hconns : ReflTransGen R.Act (R.clearPreUsers n st) st₁ := by
    refine runAll_acts (fun c _ s t hc => ?_) hrun
    unfold routeWorkerConnection at hc
    have hflag : R.Act s (s.withConn c ((s.conn c).setRoutedThisIter false)) :=
      .setRoutedThisIter c false s
    dsimp only at hc
    split at hc
    · obtain ⟨s₁, hrip, hc⟩ := Option.bind_eq_some_iff.1 hc
      obtain ⟨⟨success, s₂⟩, hroute, heq⟩ := Option.map_eq_some_iff.1 hc
      have hacts : ReflTransGen R.Act s s₂ :=
        ((ReflTransGen.single hflag).tail (.ripup hrip)).tail (.route hroute)
      dsimp only at heq
      split at heq
      · cases heq
        exact hacts
      · cases heq
        exact hacts.tail (acts_logFailure s₂)
    · cases hc
      exact .single hflag
  exact ((ReflTransGen.single (.clearPreUsers n st)).trans hconns).tail (.recordOccChanges tid _ st₁)

theorem acts_batch {p : List (List R.database.NetId) × Nat} (h : R.Batch p st st') :
    ReflTransGen R.Act st st' := by
  obtain ⟨routing, commits, costs, -, -, -, hrun⟩ := h
  obtain ⟨st₂, hrun, hcosts⟩ := Option.bind_eq_some_iff.1 hrun
  obtain ⟨st₁, hrouting, hcommits⟩ := Option.bind_eq_some_iff.1 hrun
  have hstamp : R.Act st (R.setBatchStamp p.2 st) := acts_setCtl _ st
  have hroute : ReflTransGen R.Act (R.setBatchStamp p.2 st) st₁ :=
    runAll_acts (fun q _ s t hq => acts_routeWorkerNet hq) hrouting
  have hmerge : ReflTransGen R.Act st₁ st₂ :=
    runAll_acts (fun q _ s t hq => .single (.updateNet hq)) hcommits
  have hcost : ReflTransGen R.Act st₂ st' := by
    refine runAll_acts (fun r _ s t hr => ?_) hcosts
    cases hr
    exact .single (.updatePresentCongCost r s)
  exact (((ReflTransGen.single hstamp).trans hroute).trans hmerge).trans hcost

theorem acts_routingPhase {S : Schedule R.database} (h : R.RoutingPhase R.steps S st st') :
    ReflTransGen R.Act st st' := by
  cases h with
  | stableFirst _ _ _ h =>
    obtain ⟨st₁, hbatches, htree⟩ := h
    exact (Runs.acts hbatches fun p _ s t hp => acts_batch hp).trans (acts_routePartitionTree htree)
  | runtimeFirst _ _ _ h =>
    obtain ⟨sched, -, hrun⟩ := h
    refine Runs.acts hrun ?_
    rintro p - s t ⟨ρ, hp⟩
    exact acts_routeConnection hp
  | tree _ _ h => exact (acts_routePartitionTree h).tail (acts_setCtl _ _)
  | sequential _ h => exact Runs.acts h fun c _ s t hc => acts_routeConnection hc

theorem acts_dynamicCostFactorUpdating (st : RouterState R.database) :
    ReflTransGen R.Act st (R.dynamicCostFactorUpdating st) := by
  have hfold : ∀ (l : List R.database.NodeId) (s : RouterState R.database),
      ReflTransGen R.Act s (l.foldl R.refreshCost s) := by
    intro l
    induction l with
    | nil => exact fun s => .refl
    | cons r l ih => exact fun s => (ReflTransGen.single (.refreshCost r s)).trans (ih _)
  exact (ReflTransGen.single (.control _ _ _ _ _ st)).trans (hfold _ _)

theorem acts_iteration {S : Schedule R.database} (h : R.Iteration R.steps S st st') :
    ReflTransGen R.Act st st' := by
  obtain ⟨-, st₁, hphase, rfl⟩ := h
  have hbegin : R.Act st (R.beginIteration st) := .control _ _ _ _ _ st
  have hjudge : ReflTransGen R.Act st₁ (R.judgeCongestion st₁) := by
    unfold judgeCongestion
    dsimp only
    split
    · exact .single (acts_setCtl _ st₁)
    · exact .refl
  exact (((ReflTransGen.single hbegin).trans (acts_routingPhase hphase)).trans hjudge).trans
    (acts_dynamicCostFactorUpdating _)

/-- **The loop only ever makes these calls.** -/
theorem acts_of_breaks {S : Schedule R.database} (h : R.Breaks R.steps S st st') :
    ReflTransGen R.Act st st' := by
  obtain ⟨st₁, hcontinues, hlast, -⟩ := h
  refine ReflTransGen.trans ?_ (acts_iteration hlast)
  clear hlast
  induction hcontinues with
  | refl => exact .refl
  | tail _ hstep ih => exact ih.trans (acts_iteration hstep.1)

end Reachable

end AStarRoute

end Potter
