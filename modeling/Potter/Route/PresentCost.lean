import Potter.Route.Legality
import Potter.Route.OccChange

/-!
# Present costs follow occupancies

The present cost of a node is a function of its occupancy and of the present factor (`presentCost`).
Four places keep it up to date: the immediate steps set it with every change of a count; a batch
stamps the nodes whose occupancy it changes, and its last phase recomputes the stamped ones; the
refresh at the end of an iteration, when the factor grows, recomputes the used ones and passes over
the others, whose cost does not depend on the factor.

`StableStep` is a step of a stable-first run, with failed attempts. Along every such run the costs
match the occupancies (`StableStep.costsMatch`).
-/

namespace Potter

open Lib

/-- The present cost of a node with occupancy `occ`. -/
def presentCost {K : Type} [Arith K] (presFac : K) (occ : Int) : K :=
  if occ < nodeCapacity then (1 : Int)
  else Arith.toFloat ((1 : Int) + Arith.toFloat (((occ - nodeCapacity + 1 : Int) : K) * presFac))

@[simp] theorem NodeState.updatePresentCongestionCost_cost {K : Type} [Arith K] (s : NodeState K)
    (occ : Int) (presFac : K) :
    (s.updatePresentCongestionCost occ presFac).presentCongestionCost = presentCost presFac occ := by
  unfold updatePresentCongestionCost presentCost
  split <;> rfl

namespace AStarRoute

variable {K : Type} [Arith K] (R : AStarRoute K)

/-! ## Attempts -/

/-- From `st` to `st'` at most the counters of failures moved. -/
structure SameButLog (st st' : RouterState R.database) : Prop where
  ctl : st'.ctl = st.ctl
  node : st'.node = st.node
  conn : st'.conn = st.conn
  net : st'.net = st.net
  info : st'.info = st.info

/-- A rip-up and a search, which may fail. -/
def Attempt (ρ : Reads R.database.NodeId K) (c : R.database.ConnId) (tid : Nat) (sync : Bool)
    (st st' : RouterState R.database) : Prop :=
  ∃ st₁ success st₂, R.ripup ρ c sync st = some st₁ ∧
    R.routeOneConnection ρ c tid sync st₁ = some (success, st₂) ∧ R.SameButLog st₂ st'

variable {R} {st st' : RouterState R.database} {ρ : Reads R.database.NodeId K}
  {c : R.database.ConnId} {tid : Nat}

theorem routeConnection_cases {counted : Bool}
    (h : R.routeConnection counted ρ tid c st = some st') :
    st' = st ∨ (R.shouldRoute ρ st c = true ∧ R.Attempt ρ c tid false st st') := by
  unfold routeConnection at h
  split at h
  · rename_i hroute
    obtain ⟨st₁, hrip, h⟩ := Option.bind_eq_some_iff.1 h
    obtain ⟨⟨success, st₂⟩, hsearch, e⟩ := Option.map_eq_some_iff.1 h
    refine .inr ⟨hroute, st₁, success, st₂, hrip, hsearch, ?_⟩
    dsimp only at e
    subst e
    split_ifs <;> exact ⟨rfl, rfl, rfl, rfl, rfl⟩
  · cases h
    exact .inl rfl

theorem routeWorkerConnection_attempt (h : R.routeWorkerConnection tid c st = some st') :
    st' = st.withConn c ((st.conn c).setRoutedThisIter false) ∨
      (R.shouldRoute .own st c = true ∧
        R.Attempt .own c tid true (st.withConn c ((st.conn c).setRoutedThisIter false)) st') := by
  unfold routeWorkerConnection at h
  dsimp only at h
  split at h
  · rename_i hroute
    obtain ⟨st₁, hrip, h⟩ := Option.bind_eq_some_iff.1 h
    obtain ⟨⟨success, st₂⟩, hsearch, e⟩ := Option.map_eq_some_iff.1 h
    refine .inr ⟨?_, st₁, success, st₂, hrip, hsearch, ?_⟩
    · unfold shouldRoute isCongested at hroute ⊢
      rw [(setRoutedThisIter_conn st c c false).1, (setRoutedThisIter_conn st c c false).2] at hroute
      exact hroute
    · dsimp only at e
      subst e
      split_ifs <;> exact ⟨rfl, rfl, rfl, rfl, rfl⟩
  · cases h
    exact .inl rfl

/-- A deferred search leaves the nodes. -/
theorem routeOneConnection_node {success : Bool}
    (h : R.routeOneConnection ρ c tid true st = some (success, st')) : st'.node = st.node := by
  rcases routeOneConnection_cases h with ⟨-, f, -, rfl⟩ | ⟨-, m, k, path, -, -, rfl⟩
  · rfl
  · simp only [commitRoute, foldl_preIncrement, ↓reduceIte]
    rfl

/-- A deferred attempt leaves the nodes and the control variables. -/
theorem Attempt.frame (h : R.Attempt ρ c tid true st st') : st'.node = st.node ∧ st'.ctl = st.ctl := by
  obtain ⟨st₁, success, st₂, hrip, hsearch, hsame⟩ := h
  constructor
  · rw [hsame.node, routeOneConnection_node hsearch, (ripup_net hrip).1]
  · rw [hsame.ctl, routeOneConnection_ctl hsearch, (ripup_frame hrip).1]

/-! ## Costs that match -/

/-- The node has the present cost of its occupancy. -/
def CostMatches (st : RouterState R.database) (r : R.database.NodeId) : Prop :=
  (st.node r).presentCongestionCost =
    presentCost st.ctl.presentCongestionFactor (st.node r).occupancy

def CostsMatch (st : RouterState R.database) : Prop := ∀ r, CostMatches st r

section Immediate

theorem CostsMatch.congr (h : CostsMatch st) (hnode : st'.node = st.node)
    (hfac : st'.ctl.presentCongestionFactor = st.ctl.presentCongestionFactor) : CostsMatch st' := by
  intro r
  unfold CostMatches
  rw [hnode, hfac]
  exact h r

/-- A node gets the cost of its new occupancy, the others stay. -/
theorem CostsMatch.setNode (h : CostsMatch st) (r : R.database.NodeId) (s : NodeState K) :
    CostsMatch (st.withNode r
      (s.updatePresentCongestionCost s.occupancy st.ctl.presentCongestionFactor)) := by
  intro a
  by_cases e : a = r
  · subst e
    simp [CostMatches]
  · simpa [CostMatches, e] using h a

theorem CostsMatch.useNode (h : CostsMatch st) (n : R.database.NetId) (r : R.database.NodeId) :
    CostsMatch (R.useNode .own n st r) := by
  have hnet : CostsMatch (st.withNet n ((st.net n).incrementUser r).1) := h
  exact hnet.setNode r _

theorem CostsMatch.leaveNode (h : CostsMatch st) (n : R.database.NetId) (r : R.database.NodeId) :
    CostsMatch (R.leaveNode .own n st r) := by
  have hnet : CostsMatch (st.withNet n ((st.net n).decrementUser r).1) := h
  exact hnet.setNode r _

theorem CostsMatch.ripup (h : CostsMatch st) (hrip : R.ripup .own c false st = some st') :
    CostsMatch st' := by
  simp only [AStarRoute.ripup] at hrip
  split at hrip
  · cases hrip
  · simp only [Bool.false_eq_true, ↓reduceIte, Option.map_some, Option.some.injEq] at hrip
    subst hrip
    have hfold : CostsMatch ((R.heldNodes st c).foldl
        (R.leaveNode .own (R.database.netOf c)) st) :=
      List.foldlRecOn _ _ h fun s hs r _ => hs.leaveNode _ r
    exact hfold

theorem CostsMatch.routeOneConnection (h : CostsMatch st) {success : Bool}
    (hroute : R.routeOneConnection .own c tid false st = some (success, st')) : CostsMatch st' := by
  rcases routeOneConnection_cases hroute with ⟨-, f, -, rfl⟩ | ⟨-, m, k, path, -, -, rfl⟩
  · exact h
  · simp only [commitRoute, Bool.false_eq_true, ↓reduceIte, updateUsersAndPresentCongestionCost]
    exact List.foldlRecOn _ _ h fun s hs r _ => hs.useNode _ r

theorem CostsMatch.attempt (h : CostsMatch st) (hatt : R.Attempt .own c tid false st st') :
    CostsMatch st' := by
  obtain ⟨st₁, success, st₂, hrip, hsearch, hsame⟩ := hatt
  exact ((h.ripup hrip).routeOneConnection hsearch).congr hsame.node (by rw [hsame.ctl])

theorem CostsMatch.updateSinkNodeUsage (h : CostsMatch st)
    (hstart : R.updateSinkNodeUsage st = some st') : CostsMatch st' := by
  refine runAll_invariant (fun c _ s t hs ht => ?_) h hstart
  simp only [reserveSink] at ht
  split at ht
  · cases ht
  · cases ht
    exact hs.useNode _ _

end Immediate

/-! ## Batches -/

section Batch

/-- The costs of all nodes match but those that carry the stamp of the running batch. -/
def CostsMatchOrStamped (st : RouterState R.database) : Prop :=
  ∀ r, (st.node r).needUpdateBatchStamp = st.ctl.currentBatchStamp ∨ CostMatches st r

theorem routeWorkerConnection_frame (h : R.routeWorkerConnection tid c st = some st') :
    st'.node = st.node ∧ st'.ctl = st.ctl := by
  rcases routeWorkerConnection_attempt h with rfl | ⟨-, hatt⟩
  · exact ⟨rfl, rfl⟩
  · exact hatt.frame

theorem connections_frame {n : R.database.NetId} {l : List R.database.ConnId}
    (h : runAll (R.routeWorkerConnection tid) l (R.clearPreUsers n st) = some st') :
    st'.node = st.node ∧ st'.ctl = st.ctl :=
  runAll_invariant (I := fun s => s.node = st.node ∧ s.ctl = st.ctl)
    (fun d _ s t hs ht => by
      obtain ⟨hnode, hctl⟩ := routeWorkerConnection_frame ht
      exact ⟨hnode.trans hs.1, hctl.trans hs.2⟩)
    ⟨rfl, rfl⟩ h

theorem routeWorkerNet_frame {n : R.database.NetId} (h : R.routeWorkerNet tid n st = some st') :
    st'.node = st.node ∧ st'.ctl = st.ctl := by
  obtain ⟨t, ht, rfl⟩ := Option.map_eq_some_iff.1 h
  have hconns := connections_frame ht
  exact hconns

theorem routing_frame {routing : List (Nat × R.database.NetId)}
    (h : runAll (fun p => R.routeWorkerNet p.1 p.2) routing st = some st') :
    st'.node = st.node ∧ st'.ctl = st.ctl :=
  runAll_invariant (I := fun s => s.node = st.node ∧ s.ctl = st.ctl)
    (fun p _ s t hs ht => by
      obtain ⟨hnode, hctl⟩ := routeWorkerNet_frame ht
      exact ⟨hnode.trans hs.1, hctl.trans hs.2⟩)
    ⟨rfl, rfl⟩ h

/-- A node that is given the stamp of the batch may have any cost. -/
theorem CostsMatchOrStamped.stamp (h : CostsMatchOrStamped st) (n : R.database.NetId)
    (u : NetUsers R.database.NodeId) (r : R.database.NodeId) (s : NodeState K) :
    CostsMatchOrStamped ((st.withNet n u).withNode r
      (s.setNeedUpdateBatchStamp st.ctl.currentBatchStamp)) := by
  intro a
  by_cases e : a = r
  · subst e
    exact .inl (by simp [NodeState.setNeedUpdateBatchStamp])
  · simpa [CostMatches, e] using h a

/-- Every change of an occupancy is stamped. -/
theorem CostsMatchOrStamped.updateNet (h : CostsMatchOrStamped st) {n : R.database.NetId}
    (hmerge : R.updateNet n st = some st') : CostsMatchOrStamped st' := by
  have hstamp : ∀ (m : R.database.NetId) (e : Sigma fun _ : R.database.NodeId => Int)
      (s : RouterState R.database),
      (CostsMatchOrStamped s ∧ s.ctl.currentBatchStamp = st.ctl.currentBatchStamp) →
      CostsMatchOrStamped (R.commitIncrement st.ctl.currentBatchStamp m e s) ∧
        (R.commitIncrement st.ctl.currentBatchStamp m e s).ctl.currentBatchStamp =
          st.ctl.currentBatchStamp := by
    rintro m e s ⟨hs, hctl⟩
    unfold commitIncrement
    dsimp only
    rw [← hctl]
    split
    · exact ⟨hs.stamp m _ _ _, rfl⟩
    · exact ⟨hs, rfl⟩
  have hinc : CostsMatchOrStamped (R.updatePreIncrement st.ctl.currentBatchStamp n st) ∧
      (R.updatePreIncrement st.ctl.currentBatchStamp n st).ctl.currentBatchStamp =
        st.ctl.currentBatchStamp :=
    List.foldlRecOn (motive := fun s : RouterState R.database => CostsMatchOrStamped s ∧
        s.ctl.currentBatchStamp = st.ctl.currentBatchStamp) _ _ ⟨h, rfl⟩
      fun s hs e _ => hstamp n e s hs
  have hdec := runAll_invariant (I := fun s : RouterState R.database =>
      CostsMatchOrStamped s ∧ s.ctl.currentBatchStamp = st.ctl.currentBatchStamp)
    (fun e _ s t hs ht => ?_) hinc hmerge
  · exact hdec.1
  · obtain ⟨hs, hctl⟩ := hs
    unfold commitDecrement at ht
    rw [← hctl] at ht ⊢
    split at ht
    · cases ht
    · split at ht
      · dsimp only at ht
        split at ht
        · cases ht
          exact ⟨hs.stamp n _ _ _, rfl⟩
        · cases ht
          exact ⟨hs, rfl⟩
      · cases ht

/-- A recomputed node matches, whether it was stamped or not, and so does every node that did. -/
theorem CostsMatchOrStamped.updatePresentCongCost (h : CostsMatchOrStamped st)
    (a : R.database.NodeId) : CostsMatchOrStamped (R.updatePresentCongCost a st) ∧
      ∀ r, r = a ∨ CostMatches st r → CostMatches (R.updatePresentCongCost a st) r := by
  unfold AStarRoute.updatePresentCongCost CostMatches
  dsimp only
  split
  · refine ⟨fun r => ?_, fun r hr => ?_⟩
    · by_cases e : r = a
      · subst e
        exact .inr (by simp [CostMatches])
      · simpa [CostMatches, e] using h r
    · by_cases e : r = a
      · subst e
        simp
      · simpa [e] using hr.resolve_left e
  · rename_i hstamp
    refine ⟨h, fun r hr => ?_⟩
    rcases hr with rfl | hr
    · exact (h r).resolve_left hstamp
    · exact hr

theorem CostsMatchOrStamped.updatePresentCongCosts : ∀ {costs : List R.database.NodeId}
    {st st' : RouterState R.database}, CostsMatchOrStamped st →
    runAll (fun r st => some (R.updatePresentCongCost r st)) costs st = some st' →
    ∀ r, r ∈ costs ∨ CostMatches st r → CostMatches st' r
  | [], st, st', h, hrun => by
    cases hrun
    exact fun r hr => hr.resolve_left List.not_mem_nil
  | a :: costs, st, st', h, hrun => by
    rw [runAll_cons, Option.bind_some] at hrun
    obtain ⟨hs, hmatch⟩ := h.updatePresentCongCost a
    intro r hr
    refine hs.updatePresentCongCosts hrun r ?_
    rw [List.mem_cons] at hr
    rcases hr with (rfl | hr) | hr
    · exact .inr (hmatch r (.inl rfl))
    · exact .inl hr
    · exact .inr (hmatch r (.inr hr))

/-- **A batch keeps the costs up to date.** -/
theorem CostsMatch.runBatch (h : CostsMatch st) (hthread : 0 < R.numThread)
    {routing commits : List (Nat × R.database.NetId)} {costs : List R.database.NodeId}
    (hcosts : Interleaving R.nodeThreads costs)
    (hrun : R.runBatch routing commits costs st = some st') : CostsMatch st' := by
  obtain ⟨st₂, hrun, hlast⟩ := Option.bind_eq_some_iff.1 hrun
  obtain ⟨st₁, hroute, hmerge⟩ := Option.bind_eq_some_iff.1 hrun
  obtain ⟨hnode, hctl⟩ := routing_frame hroute
  have hrouted : CostsMatch st₁ := h.congr hnode (by rw [hctl])
  have hmerged : CostsMatchOrStamped st₂ :=
    runAll_invariant (I := CostsMatchOrStamped) (fun p _ s t hs ht => hs.updateNet ht)
      (fun r => .inr (hrouted r)) hmerge
  intro r
  exact hmerged.updatePresentCongCosts hlast r
    (.inl (hcosts.perm.mem_iff.2 (mem_nodeThreads hthread r)))

end Batch

/-! ## The refresh at the end of an iteration -/

section Refresh

/-- The cost of a node that nobody uses does not depend on the factor. -/
theorem presentCost_of_lt {presFac : K} {occ : Int} (h : occ < nodeCapacity) :
    presentCost presFac occ = (1 : Int) := if_pos h

/-- A new router has the costs of unused nodes. -/
theorem costsMatch_init {isRouted isRoutedThisIter : R.database.ConnId → Bool}
    {routedConnectionNum failRouteNum : Int} :
    CostsMatch (R := R) (.init isRouted isRoutedThisIter routedConnectionNum failRouteNum) :=
  fun _ => (presentCost_of_lt (Int.zero_lt_one)).symm

variable [ExactArith K]

theorem presentCost_of_le {presFac : K} {occ : Int} (h : nodeCapacity ≤ occ) :
    presentCost presFac occ = (1 : Int) + (occ : K) * presFac := by
  unfold presentCost
  rw [if_neg (not_lt.2 h), ExactArith.toFloat_eq, ExactArith.toFloat_eq,
    show occ - nodeCapacity + 1 = occ from sub_add_cancel occ 1]

/-- The refresh of a node that is used makes it match, and moves no other cost. -/
theorem costMatches_refreshCost (a r : R.database.NodeId)
    (h : (r = a ∧ nodeCapacity ≤ (st.node r).occupancy) ∨ CostMatches st r) :
    CostMatches (R.refreshCost st a) r := by
  unfold refreshCost CostMatches
  dsimp only
  by_cases e : r = a
  · subst e
    split_ifs with hone hmore
    · have hocc : (st.node r).occupancy = 1 := by
        unfold nodeCapacity at hone
        omega
      simp only [RouterState.withNode_node, RouterState.withNode_ctl, Function.update_self,
        NodeState.setPresentCongestionCost, hocc]
      rw [presentCost_of_le (by decide), ExactArith.toFloat_eq, ExactArith.one_mul]
    · simp only [RouterState.withNode_node, RouterState.withNode_ctl, Function.update_self,
        NodeState.setPresentCongestionCost, NodeState.setHistoricalCongestionCost]
      exact (if_neg (by omega)).symm
    · exact h.resolve_left fun hused => by omega
  · have hsame := h.resolve_left fun hused => e hused.1
    unfold CostMatches at hsame
    split_ifs
    · simpa [e] using hsame
    · simpa [e] using hsame
    · exact hsame

theorem costMatches_refreshCosts : ∀ (l : List R.database.NodeId) {st : RouterState R.database},
    (∀ r, (r ∈ l ∧ nodeCapacity ≤ (st.node r).occupancy) ∨ CostMatches st r) →
    CostsMatch (l.foldl R.refreshCost st)
  | [], st, h => fun r => (h r).resolve_left fun hr => List.not_mem_nil hr.1
  | a :: l, st, h => by
    refine costMatches_refreshCosts l fun r => ?_
    have hocc := (refreshCost_spec st a).2.1 r
    rcases h r with ⟨hr, hused⟩ | hmatch
    · rcases List.mem_cons.1 hr with rfl | hr
      · exact .inr (costMatches_refreshCost r r (.inl ⟨rfl, hused⟩))
      · exact .inl ⟨hr, by rw [hocc]; exact hused⟩
    · exact .inr (costMatches_refreshCost a r (.inr hmatch))

/-- **The refresh keeps the costs up to date.** -/
theorem CostsMatch.dynamicCostFactorUpdating (h : CostsMatch st) (hthread : 0 < R.numThread) :
    CostsMatch (R.dynamicCostFactorUpdating st) := by
  refine costMatches_refreshCosts _ fun r => ?_
  by_cases hused : nodeCapacity ≤ (st.node r).occupancy
  · exact .inl ⟨mem_nodeThreads hthread r, hused⟩
  · right
    have hcost := h r
    unfold CostMatches at hcost ⊢
    rw [presentCost_of_lt (not_le.1 hused)] at hcost ⊢
    exact hcost

end Refresh

/-! ## Stable-first runs -/

variable (R) in
/-- The steps of a stable-first run, failed attempts included. No thread reads what another one
writes: the nets of a batch are different, and the leaves of a level of the tree lie apart. At every
connection that is ripped up `call` holds, and before every batch `batch`. -/
inductive StableStep (call : Nat → R.database.ConnId → RouterState R.database → Prop)
    (batch : RouterState R.database → Nat → Prop) :
    RouterState R.database → RouterState R.database → Prop
  | beginIteration (st : RouterState R.database) : StableStep call batch st (R.beginIteration st)
  | batch {p : List (List R.database.NetId) × Nat} {routing commits : List (Nat × R.database.NetId)}
      {costs : List R.database.NodeId} {st st' : RouterState R.database}
      (hnodup : p.1.flatten.Nodup) (hbatch : batch st p.2)
      (hrouting : Interleaving (R.netThreads p.1) routing)
      (hcommits : Interleaving (R.netThreads p.1) commits)
      (hcosts : Interleaving R.nodeThreads costs)
      (hcall : ∀ tid c s, R.BatchCall routing (R.setBatchStamp p.2 st) tid c s →
        R.shouldRoute .own s c = true → call tid c s)
      (hrun : R.runBatch routing commits costs (R.setBatchStamp p.2 st) = some st') :
      StableStep call batch st st'
  | tree {c : R.database.ConnId} {st st' : RouterState R.database}
      (hcall : R.shouldRoute .own st c = true → call 0 c st)
      (hrun : R.treeConnection .own c st = some st') : StableStep call batch st st'
  | refresh (st : RouterState R.database) :
      StableStep call batch st (R.dynamicCostFactorUpdating (R.judgeCongestion st))
  | leaveOverlapRouting (st : RouterState R.database) :
      StableStep call batch st { st with ctl := { st.ctl with useOverlapRouting := false } }

/-- **The costs match after every step.** -/
theorem StableStep.costsMatch [ExactArith K] (hthread : 0 < R.numThread)
    {call : Nat → R.database.ConnId → RouterState R.database → Prop}
    {batch : RouterState R.database → Nat → Prop} (hstep : R.StableStep call batch st st')
    (h : CostsMatch st) : CostsMatch st' := by
  cases hstep with
  | beginIteration => exact h
  | @batch p routing commits costs _ _ _ _ _ _ hcosts _ hrun =>
    have hstamped : CostsMatch (R.setBatchStamp p.2 st) := h
    exact hstamped.runBatch hthread hcosts hrun
  | tree _ hrun =>
    rcases routeConnection_cases hrun with rfl | ⟨-, hatt⟩
    · exact h
    · exact h.attempt hatt
  | refresh =>
    obtain ⟨hnode, -, -, -, hfac, -⟩ := judgeCongestion_frame st
    exact (h.congr hnode hfac).dynamicCostFactorUpdating hthread
  | leaveOverlapRouting => exact h

theorem costsMatch_of_run [ExactArith K] (hthread : 0 < R.numThread)
    {call : Nat → R.database.ConnId → RouterState R.database → Prop}
    {batch : RouterState R.database → Nat → Prop}
    (hrun : Relation.ReflTransGen (R.StableStep call batch) st st') (h : CostsMatch st) :
    CostsMatch st' := by
  induction hrun with
  | refl => exact h
  | tail _ hstep ih => exact hstep.costsMatch hthread ih

end AStarRoute

end Potter
