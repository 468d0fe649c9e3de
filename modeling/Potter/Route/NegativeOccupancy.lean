import Potter.Db.BBox
import Potter.Route.CountsWithFailures

/-!
# Runs with failed attempts

In a stable-first run whose searches are not mistaken, the occupancies count the nets after every
step, so they are never negative, and the present cost of a node is that of its occupancy
(`presentCongestionCost_of_run`).

A mistaken search leaves an occupancy one too low. When its connection is ripped up the occupancy
becomes negative, and a negative occupancy has the cost of an unused node
(`presentCongestionCost_relay`).
-/

namespace Potter

open Lib

namespace AStarRoute

variable {K : Type} [Arith K] {R : AStarRoute K} {st st' : RouterState R.database}

/-- The three phases of a batch. -/
theorem Tracked.runBatch (h : Tracked st) {routing commits : List (Nat × R.database.NetId)}
    {costs : List R.database.NodeId} (hsame : (commits.map Prod.snd).Perm (routing.map Prod.snd))
    (hnd : (routing.map Prod.snd).Nodup)
    (hcall : ∀ tid c s, R.BatchCall routing st tid c s → R.shouldRoute .own s c = true →
      ¬R.Mistaken s tid c)
    (hrun : R.runBatch routing commits costs st = some st') : Tracked st' := by
  obtain ⟨st₂, hrun, hcosts⟩ := Option.bind_eq_some_iff.1 hrun
  obtain ⟨st₁, hroute, hmerge⟩ := Option.bind_eq_some_iff.1 hrun
  have hmerged := (h.routing hcall hroute).merging (hsame.nodup_iff.2 hnd)
    (fun p hp => hsame.mem_iff.1 (List.mem_map_of_mem hp)) hmerge
  refine runAll_invariant (I := Tracked) (fun r _ s t hs ht => ?_) hmerged hcosts
  cases ht
  unfold updatePresentCongCost
  dsimp only
  split
  · refine hs.congr (fun _ => rfl) (fun a => ?_) fun _ => rfl
    by_cases e : a = r
    · subst e
      simp
    · simp [e]
  · exact hs

/-- The refresh moves costs and factors only. -/
theorem Tracked.dynamicCostFactorUpdating (h : Tracked st) :
    Tracked (R.dynamicCostFactorUpdating st) := by
  have hfold : ∀ (l : List R.database.NodeId) (s : RouterState R.database), Tracked s →
      Tracked (l.foldl R.refreshCost s) := by
    intro l s hs
    refine List.foldlRecOn _ _ hs fun t ht r _ => ?_
    have hocc := (refreshCost_spec t r).2.1
    refine ht.congr (fun m => ?_) hocc fun c => ?_ <;>
      (unfold refreshCost
       dsimp only
       split_ifs <;> rfl)
  exact hfold _ _ (h.congr (fun _ => rfl) (fun _ => rfl) fun _ => rfl)

/-- **The occupancies are right after every step** in which no search is mistaken. -/
theorem StableStep.tracked {batch : RouterState R.database → Nat → Prop}
    (hstep : R.StableStep (fun tid c s => ¬R.Mistaken s tid c) batch st st') (h : Tracked st) :
    Tracked st' := by
  cases hstep with
  | beginIteration => exact h.congr (fun _ => rfl) (fun _ => rfl) fun _ => rfl
  | @batch p routing commits costs _ _ hnodup _ hrouting hcommits _ hcall hrun =>
    have hstamped : Tracked (R.setBatchStamp p.2 st) :=
      h.congr (fun _ => rfl) (fun _ => rfl) fun _ => rfl
    exact hstamped.runBatch ((hcommits.perm.trans hrouting.perm.symm).map _)
      ((map_snd_perm hrouting).nodup_iff.2 hnodup) hcall hrun
  | tree hcall hrun =>
    rcases routeConnection_cases hrun with rfl | ⟨hroute, hatt⟩
    · exact h
    · exact ⟨h.occupied.attempt h.holdsSinks (hcall hroute) hatt, h.holdsSinks.attempt hatt⟩
  | refresh =>
    obtain ⟨hnode, hconn, hnet, -⟩ := judgeCongestion_frame st
    have hjudged : Tracked (R.judgeCongestion st) :=
      h.congr (fun m => by rw [hnet]) (fun r => by rw [hnode]) fun c => by rw [hconn]
    exact hjudged.dynamicCostFactorUpdating
  | leaveOverlapRouting => exact h.congr (fun _ => rfl) (fun _ => rfl) fun _ => rfl

theorem tracked_of_run {batch : RouterState R.database → Nat → Prop}
    (hrun : Relation.ReflTransGen
      (R.StableStep (fun tid c s => ¬R.Mistaken s tid c) batch) st st') (h : Tracked st) :
    Tracked st' := by
  induction hrun with
  | refl => exact h
  | tail _ hstep ih => exact hstep.tracked ih

/-- The reservations of the sinks count right, whatever the flags of the connections are. -/
theorem tracked_updateSinkNodeUsage {isRouted isRoutedThisIter : R.database.ConnId → Bool}
    {routedConnectionNum failRouteNum : Int}
    (hstart : R.updateSinkNodeUsage
      (.init isRouted isRoutedThisIter routedConnectionNum failRouteNum) = some st) :
    Tracked st := by
  have hempty : Counts (R := R)
      (.init isRouted isRoutedThisIter routedConnectionNum failRouteNum) fun _ _ => 0 :=
    ⟨fun _ => Tally.tallies_empty, fun _ => by simp [usersOf, RouterState.init, NodeState.init]⟩
  obtain ⟨hconn, hcounts⟩ := hempty.reserve hstart
  have hpos : positive st = fun n r => 0 + R.sortedConnectionIds.countP fun c =>
      decide (R.database.netOf c = n ∧ R.database.sink c = r) := by
    funext n r
    rw [positive, NetUsers.countConnectionsOfUser, (hcounts.tallies n).count_eq]
    exact Int.toNat_natCast _
  refine ⟨fun r => ?_, fun c => ?_⟩
  · rw [hpos]
    exact hcounts.occupancy r
  · rw [heldNodes, if_pos (by rw [hconn]; rfl)]
    exact List.mem_singleton_self _

/-- **The present cost of every node is that of its occupancy**, in every state of every stable-first
run in which no search is mistaken. -/
theorem presentCongestionCost_of_run [ExactArith K] (hthread : 0 < R.numThread)
    {isRouted isRoutedThisIter : R.database.ConnId → Bool} {routedConnectionNum failRouteNum : Int}
    {st₁ : RouterState R.database} (hstart : R.updateSinkNodeUsage
      (.init isRouted isRoutedThisIter routedConnectionNum failRouteNum) = some st₁)
    {batch : RouterState R.database → Nat → Prop} (hrun : Relation.ReflTransGen
      (R.StableStep (fun tid c s => ¬R.Mistaken s tid c) batch) st₁ st) (r : R.database.NodeId) :
    (st.node r).presentCongestionCost =
      if (st.node r).occupancy = 0 then ((1 : Int) : K)
      else (1 : Int) + ((st.node r).occupancy : K) * st.ctl.presentCongestionFactor := by
  have htracked := tracked_of_run hrun (tracked_updateSinkNodeUsage hstart)
  have hmatch := costsMatch_of_run hthread hrun (costsMatch_init.updateSinkNodeUsage hstart) r
  unfold CostMatches at hmatch
  rw [hmatch]
  split_ifs with hzero
  · exact presentCost_of_lt (by rw [hzero]; decide)
  · have hnonneg := htracked.occupied.nonneg r
    refine presentCost_of_le ?_
    unfold nodeCapacity
    omega

section Crossing

open crossing

/-- The calls of a batch with one connection for each of two threads. -/
theorem batchCall_crossing {u s₁ s : RouterState (crossing 2 false).database} {tid : Nat}
    {c : (crossing 2 false).database.ConnId}
    (hfirst : (crossing 2 false).routeWorkerNet 0 (net 0) u = some s₁)
    (h : (crossing 2 false).BatchCall [(0, net 0), (1, net 1)] u tid c s) :
    (tid = 0 ∧ c = conn 0 ∧ s = (crossing 2 false).clearPreUsers (net 0) u) ∨
      (tid = 1 ∧ c = conn 1 ∧ s = (crossing 2 false).clearPreUsers (net 1) s₁) := by
  obtain ⟨pre, n, post, cs, ds, t, hsched, hconns, hpre, hcs⟩ := h
  -- a net has one connection, so the call is the first of its net
  have hone : ∀ m < 2, ((crossing 2 false).database.nets (net m)).indirectConns = [conn m] := by
    decide +kernel
  have hcall : ∀ m < 2, ((crossing 2 false).database.nets (net m)).indirectConns = cs ++ c :: ds →
      cs = [] ∧ c = conn m := by
    intro m hm hconns
    rw [hone m hm] at hconns
    rcases cs with _ | ⟨b, cs⟩
    · cases hconns
      exact ⟨rfl, rfl⟩
    · have hlen := congrArg List.length hconns
      simp at hlen
  rcases pre with _ | ⟨p, _ | ⟨q, pre⟩⟩
  · cases hsched
    cases hpre
    obtain ⟨rfl, rfl⟩ := hcall 0 (by decide) hconns
    cases hcs
    exact .inl ⟨rfl, rfl, rfl⟩
  · cases hsched
    rw [runAll_cons, hfirst] at hpre
    cases hpre
    obtain ⟨rfl, rfl⟩ := hcall 1 (by decide) hconns
    cases hcs
    exact .inr ⟨rfl, rfl, rfl⟩
  · have hlen := congrArg List.length hsched
    simp at hlen

/-- The sinks are reserved, and the first batch begins. -/
def crossingStamped : Option (RouterState (crossing 2 false).database) :=
  ((crossing 2 false).updateSinkNodeUsage (.init (fun _ => false) (fun _ => false) 0 0)).map fun st =>
    (crossing 2 false).setBatchStamp 0 ((crossing 2 false).beginIteration st)

/-- The batch has both nets, each with a thread of its own; the refresh follows. -/
def crossingRefreshed : Option (RouterState (crossing 2 false).database) :=
  (crossingStamped.bind ((crossing 2 false).runBatch [(0, net 0), (1, net 1)] [(0, net 0), (1, net 1)]
    (crossing 2 false).nodeThreads.flatten)).map fun st =>
      (crossing 2 false).dynamicCostFactorUpdating ((crossing 2 false).judgeCongestion st)

theorem exists_crossingStamped :
    ∃ st ∈ crossingStamped, ∃ s₁ ∈ (crossing 2 false).routeWorkerNet 0 (net 0) st,
      ¬(crossing 2 false).Mistaken ((crossing 2 false).clearPreUsers (net 0) st) 0 (conn 0) ∧
        ¬(crossing 2 false).Mistaken ((crossing 2 false).clearPreUsers (net 1) s₁) 1 (conn 1) := by
  decide +kernel

theorem exists_crossingRefreshed :
    ∃ st ∈ crossingRefreshed, (st.node (node 4)).occupancy = 2 ∧
      ¬(crossing 2 false).Mistaken ((crossing 2 false).beginIteration st) 0 (conn 1) ∧
      ∃ st' ∈ (crossing 2 false).treeConnection .own (conn 1) ((crossing 2 false).beginIteration st),
        (st'.node (node 4)).occupancy = 1 := by
  decide +kernel

/-- Both nets take wire 4 in the batch, and a tree step after the refresh moves net 1 away. -/
theorem presentCongestionCost_of_run_crossing :
    ∃ st₁ st₂ st : RouterState (crossing 2 false).database,
      (crossing 2 false).updateSinkNodeUsage (.init (fun _ => false) (fun _ => false) 0 0) =
        some st₁ ∧
      Relation.ReflTransGen ((crossing 2 false).StableStep
        (fun tid c s => ¬(crossing 2 false).Mistaken s tid c) fun _ _ => True) st₁ st₂ ∧
      ((st₂.node (node 4)).occupancy = 2 ∧ (st₂.node (node 4)).presentCongestionCost =
        (1 : Int) + ((2 : Int) : ℚ) * st₂.ctl.presentCongestionFactor) ∧
      Relation.ReflTransGen ((crossing 2 false).StableStep
        (fun tid c s => ¬(crossing 2 false).Mistaken s tid c) fun _ _ => True) st₂ st ∧
      (st.node (node 4)).occupancy = 1 ∧ (st.node (node 4)).presentCongestionCost =
        (1 : Int) + ((1 : Int) : ℚ) * st.ctl.presentCongestionFactor := by
  obtain ⟨u, hu, s₁, hfirst, hnot₀, hnot₁⟩ := exists_crossingStamped
  obtain ⟨st₂, hst₂, hocc₂, hnot, st, htree, hocc⟩ := exists_crossingRefreshed
  obtain ⟨v, hv, rfl⟩ := Option.map_eq_some_iff.1 hst₂
  obtain ⟨u', hu', hbatch⟩ := Option.bind_eq_some_iff.1 hv
  cases hu.symm.trans hu'
  obtain ⟨st₁, hstart, rfl⟩ := Option.map_eq_some_iff.1 hu
  have hrun₂ : Relation.ReflTransGen ((crossing 2 false).StableStep
      (fun tid c s => ¬(crossing 2 false).Mistaken s tid c) fun _ _ => True) st₁
      ((crossing 2 false).dynamicCostFactorUpdating ((crossing 2 false).judgeCongestion v)) := by
    refine .tail (.tail (.single (.beginIteration st₁)) ?_) (.refresh v)
    refine .batch (p := ([[net 0], [net 1]], 0)) (by decide) trivial (.flatten _) (.flatten _)
      (.flatten _) (fun tid c s hcall _ => ?_) hbatch
    rcases batchCall_crossing hfirst hcall with ⟨rfl, rfl, rfl⟩ | ⟨rfl, rfl, rfl⟩
    · exact hnot₀
    · exact hnot₁
  have hrun : Relation.ReflTransGen ((crossing 2 false).StableStep
      (fun tid c s => ¬(crossing 2 false).Mistaken s tid c) fun _ _ => True)
      ((crossing 2 false).dynamicCostFactorUpdating ((crossing 2 false).judgeCongestion v)) st :=
    .tail (.single (.beginIteration _)) (.tree (fun _ => hnot) htree)
  have hcost₂ := presentCongestionCost_of_run Nat.two_pos hstart hrun₂ (node 4)
  have hcost := presentCongestionCost_of_run Nat.two_pos hstart (hrun₂.trans hrun) (node 4)
  rw [hocc₂, if_neg (by decide)] at hcost₂
  rw [hocc, if_neg (by decide)] at hcost
  exact ⟨st₁, _, st, hstart, hrun₂, ⟨hocc₂, hcost₂⟩, hrun, hocc, hcost⟩

end Crossing

/-- Tree steps one after the other, with nothing asked of the searches. -/
theorem stableRun_of_tree {batch : RouterState R.database → Nat → Prop} {l : List R.database.ConnId}
    (h : runAll (R.treeConnection .own) l st = some st') :
    Relation.ReflTransGen (R.StableStep (fun _ _ _ => True) batch) st st' :=
  runAll_invariant (I := Relation.ReflTransGen (R.StableStep (fun _ _ _ => True) batch) st)
    (fun _ _ _ _ hs ht => hs.tail (.tree (fun _ => trivial) ht)) .refl h

end AStarRoute

/-! ## A mistaken search

Nets 0 to 3 start at nodes 0, 8, 10 and 14. The nets 0, 1 and 3 share wire 1, the nets 0 and 2 wire 2.
Node 3 is the sink of connection 4, and the only way to node 4, the sink of connection 0, is through
it.

Connection 0 fails as long as node 3 is closed to it. In iteration 3 connection 4 fails too: wire 1, the
only one in its box, carries its stamp since the search for connection 9 in iteration 2. It is routed
again in iteration 4, so the net now has an entry of zero for node 3, and node 3 the mark 24. In
iteration 5 the stamp of connection 0 is 24: it goes through node 3 and makes the count 1, with the
occupancy left at zero. In iteration 6 it is ripped up, the entry is erased, and the occupancy becomes
-1. -/

section Relay

def relayChildren : Fin 17 → List (Fin 17)
  | 0 => [1, 2, 5, 6, 7]
  | 1 => [3, 9, 15]
  | 2 => [3, 11]
  | 3 => [4]
  | 8 => [1]
  | 10 => [2, 12, 13]
  | 14 => [1, 16]
  | 16 => [15]
  | _ => []

def relayConns : Fin 4 → List (Fin 10)
  | 0 => [0, 1, 2, 3, 4]
  | 1 => [5]
  | 2 => [6, 7, 8]
  | 3 => [9]

def relayNet (c : Fin 10) : Fin 4 :=
  idx (if c.val ≤ 4 then 0 else if c.val = 5 then 1 else if c.val ≤ 8 then 2 else 3)

def relaySource : Fin 4 → Fin 17
  | 0 => 0
  | 1 => 8
  | 2 => 10
  | 3 => 14

def relaySink : Fin 10 → Fin 17
  | 0 => 4
  | 1 => 5
  | 2 => 6
  | 3 => 7
  | 4 => 3
  | 5 => 9
  | 6 => 11
  | 7 => 12
  | 8 => 13
  | 9 => 15

abbrev relayDatabase : Database ℚ where
  numNodes := 17
  numNets := 4
  numConns := 10
  routeNodes r :=
    let x := if r = 2 ∨ r = 4 ∨ (10 ≤ r ∧ r ≤ 13) then 10 else 0
    let y := if r = 3 then 6 else if r = 1 ∨ r = 8 ∨ r = 9 ∨ 14 ≤ r then 18 else 0
    { beginTileXCoordinate := x
      beginTileYCoordinate := y
      endTileXCoordinate := x
      endTileYCoordinate := y
      baseCost := if r = 16 then 4 else 1
      length := 1
      type := if r = 0 ∨ r = 8 ∨ r = 10 ∨ r = 14 then .pinfeedO
        else if r = 1 ∨ r = 2 ∨ r = 16 then .wire else .pinfeedI
      isAccessibleWire := false
      isNodePinBounce := false
      children := .setChildren (relayChildren r) }
  indirectConnections c :=
    { netId := relayNet c
      source := relaySource (relayNet c)
      sink := relaySink c
      xmin := 0
      xmax := 0
      ymin := 0
      ymax := 0
      bbox := .set 0 0 0 0
      hpwl := 0 }
  nets n :=
    { indirectConns := relayConns n
      xCenter := 0
      yCenter := 0
      doubleHpwl := 0
      xmin := intMax
      xmax := 0
      ymin := intMax
      ymax := 0 }
  layout := .set 0 0 108 300
  deviceXMax := 108
  deviceYMax := 300
  mem_indirectConns := by decide
  nodup_indirectConns := by decide
  source_eq := by decide

/-- One thread on the design with its boxes. -/
abbrev relay : AStarRoute ℚ :=
  { columns 1 1 true false with
    database := relayDatabase.boxed 3 15
    queue := scanQueue _ ℚ }

/-- Node 3, the sink of connection 4. -/
abbrev relayPin : relay.database.NodeId := (3 : Fin 17)

/-- The connections in order, and the refresh. -/
def relayIteration (st : RouterState relay.database) : Option (RouterState relay.database) :=
  (runAll (relay.treeConnection .own) relay.sortedConnectionIds (relay.beginIteration st)).map
    fun st => relay.dynamicCostFactorUpdating (relay.judgeCongestion st)

def relayRun : Nat → Option (RouterState relay.database)
  | 0 => relay.updateSinkNodeUsage (.init (fun _ => false) (fun _ => false) 0 0)
  | k + 1 => (relayRun k).bind relayIteration

theorem relayRun_stable : ∀ {k : Nat} {st : RouterState relay.database}, relayRun k = some st →
    ∃ st₁ ∈ relay.updateSinkNodeUsage (.init (fun _ => false) (fun _ => false) 0 0),
      Relation.ReflTransGen (relay.StableStep (fun _ _ _ => True) fun _ _ => True) st₁ st
  | 0, st, h => ⟨st, h, .refl⟩
  | k + 1, st, h => by
    obtain ⟨t, ht, h⟩ := Option.bind_eq_some_iff.1 h
    obtain ⟨st₁, hstart, hrun⟩ := relayRun_stable ht
    obtain ⟨u, hu, rfl⟩ := Option.map_eq_some_iff.1 h
    exact ⟨st₁, hstart, ((hrun.tail (.beginIteration t)).trans
      (AStarRoute.stableRun_of_tree hu)).tail (.refresh u)⟩

/-- In iteration 6 the occupancy of node 3 is -1, and its cost is not that of the occupancy. -/
theorem presentCongestionCost_relay :
    ∃ st₁ ∈ relay.updateSinkNodeUsage (.init (fun _ => false) (fun _ => false) 0 0), ∃ st,
      Relation.ReflTransGen (relay.StableStep (fun _ _ _ => True) fun _ _ => True) st₁ st ∧
      (st.node relayPin).occupancy = -1 ∧
      (st.node relayPin).presentCongestionCost ≠
        (if (st.node relayPin).occupancy = 0 then ((1 : Int) : ℚ)
        else (1 : Int) + ((st.node relayPin).occupancy : ℚ) * st.ctl.presentCongestionFactor) := by
  have hrun : ∃ st₅ ∈ relayRun 5,
      ∃ st ∈ relay.treeConnection .own (0 : Fin 10) (relay.beginIteration st₅),
      (st.node relayPin).occupancy = -1 ∧ (st.node relayPin).presentCongestionCost = 1 ∧
      st.ctl.presentCongestionFactor = 16 := by
    decide +kernel
  obtain ⟨st₅, hst₅, st, hst, hocc, hcost, hfactor⟩ := hrun
  obtain ⟨st₁, hstart, hsteps⟩ := relayRun_stable hst₅
  refine ⟨st₁, hstart, st,
    (hsteps.tail (.beginIteration st₅)).tail (.tree (fun _ => trivial) hst), hocc, ?_⟩
  rw [hocc, hcost, hfactor]
  decide +kernel

end Relay

end Potter
