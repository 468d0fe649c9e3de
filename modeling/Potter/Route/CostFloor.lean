import Potter.Route.CountsWithFailures

/-!
# How low costs can be

The present factor is never negative (`FactorsOk`), so no present cost falls below one (`Floored`). That
holds whatever a thread reads of the occupancies that other threads are changing, since a cost is
computed from the one value that was read.
-/

namespace Potter

open Lib

namespace AStarRoute

variable {K : Type} [Arith K] {R : AStarRoute K} {st st' : RouterState R.database}

/-! ## What is left alone -/

section Frames

variable {ρ : Reads R.database.NodeId K} {c : R.database.ConnId} {tid : Nat} {sync : Bool}

/-- A batch writes no control variable, and its last two phases no record. -/
theorem runBatch_frame {routing commits : List (Nat × R.database.NetId)}
    {costs : List R.database.NodeId} (hrun : R.runBatch routing commits costs st = some st') :
    ∃ st₁, runAll (fun p => R.routeWorkerNet p.1 p.2) routing st = some st₁ ∧
      st'.ctl = st₁.ctl ∧ st'.info = st₁.info := by
  obtain ⟨st₂, hrun, hcosts⟩ := Option.bind_eq_some_iff.1 hrun
  obtain ⟨st₁, hroute, hmerge⟩ := Option.bind_eq_some_iff.1 hrun
  have hmerged : st₂.ctl = st₁.ctl ∧ st₂.info = st₁.info :=
    runAll_invariant (I := fun s : RouterState R.database => s.ctl = st₁.ctl ∧ s.info = st₁.info)
      (fun p _ s t hs ht =>
        ⟨(updateNet_frame RouterState.ctl (fun _ _ _ => rfl) (fun _ _ _ => rfl) ht).trans hs.1,
          (updateNet_frame RouterState.info (fun _ _ _ => rfl) (fun _ _ _ => rfl) ht).trans hs.2⟩)
      ⟨rfl, rfl⟩ hmerge
  have hend : st'.ctl = st₂.ctl ∧ st'.info = st₂.info := by
    refine runAll_invariant (I := fun s : RouterState R.database =>
      s.ctl = st₂.ctl ∧ s.info = st₂.info) (fun r _ s t hs ht => ?_) ⟨rfl, rfl⟩ hcosts
    cases ht
    unfold updatePresentCongCost
    dsimp only
    split <;> exact hs
  exact ⟨st₁, hroute, hend.1.trans hmerged.1, hend.2.trans hmerged.2⟩

theorem Attempt.ctl (h : R.Attempt ρ c tid sync st st') : st'.ctl = st.ctl := by
  obtain ⟨st₁, success, st₂, hrip, hroute, hsame⟩ := h
  rw [hsame.ctl, routeOneConnection_ctl hroute, (ripup_frame hrip).1]

theorem updateSinkNodeUsage_frame (h : R.updateSinkNodeUsage st = some st') :
    st'.ctl = st.ctl ∧ st'.info = st.info := by
  refine runAll_invariant (I := fun s : RouterState R.database => s.ctl = st.ctl ∧ s.info = st.info)
    (fun c _ s t hs ht => ?_) ⟨rfl, rfl⟩ h
  simp only [reserveSink] at ht
  split at ht
  · cases ht
  · cases ht
    exact hs

/-- The refresh writes the factors and costs. -/
theorem dynamicCostFactorUpdating_frame (st : RouterState R.database) :
    (R.dynamicCostFactorUpdating st).ctl = R.updateFactors st.ctl ∧
      (R.dynamicCostFactorUpdating st).info = st.info := by
  have hcost : ∀ (s : RouterState R.database) (r : R.database.NodeId),
      (R.refreshCost s r).ctl = s.ctl ∧ (R.refreshCost s r).info = s.info := by
    intro s r
    unfold refreshCost
    dsimp only
    split_ifs <;> exact ⟨rfl, rfl⟩
  unfold dynamicCostFactorUpdating
  exact ⟨foldl_frame (p := RouterState.ctl) (fun s r => (hcost s r).1) _ _,
    foldl_frame (p := RouterState.info) (fun s r => (hcost s r).2) _ _⟩

end Frames

/-! ## Factors -/

/-- The factors of a run are not negative. A design is found congested after an iteration. -/
structure FactorsOk (ctl : Control K) : Prop where
  factor : ((0 : Int) : K) ≤ ctl.presentCongestionFactor
  multiplier : ((0 : Int) : K) ≤ ctl.presentCongestionMultiplier
  iter : ctl.isCongestedDesign = true → 1 ≤ ctl.iter

theorem FactorsOk.judgeCongestion (h : FactorsOk st.ctl) : FactorsOk (R.judgeCongestion st).ctl := by
  unfold AStarRoute.judgeCongestion
  dsimp only
  split_ifs with hfirst
  · exact ⟨h.factor, h.multiplier, fun _ => le_of_eq hfirst.1.symm⟩
  · exact h

section Factors

variable [ExactArith K]

theorem factorsOk_init : FactorsOk (Control.init : Control K) :=
  ⟨ExactArith.div_nonneg _ _ ExactArith.one_nonneg (ExactArith.intCast_nonneg 2 (by decide)),
    ExactArith.intCast_nonneg 2 (by decide), fun h => by cases h⟩

theorem FactorsOk.updateFactors {ctl : Control K} (h : FactorsOk ctl)
    (hmax : ((0 : Int) : K) ≤ R.maxPresentCongestionFactor) : FactorsOk (R.updateFactors ctl) := by
  have hcap : ∀ x : K, ((0 : Int) : K) ≤ x → ((0 : Int) : K) ≤
      if R.maxPresentCongestionFactor < x then R.maxPresentCongestionFactor else x := by
    intro x hx
    split_ifs
    · exact hmax
    · exact hx
  unfold AStarRoute.updateFactors
  dsimp only
  by_cases hcongested : ctl.isCongestedDesign = true
  · have hexp : ((0 : Int) : K) ≤ Arith.exp ((ctl.iter - 1 : Int) : K) :=
      ExactArith.exp_nonneg _ (ExactArith.intCast_nonneg _ (by have := h.iter hcongested; omega))
    have hmult : ((0 : Int) : K) ≤ Arith.toFloat ((((11 : Int) : K) / (10 : Int)) * ((1 : Int) +
        ((3 : Int) : K) / ((1 : Int) + Arith.exp ((ctl.iter - 1 : Int) : K)))) := by
      rw [ExactArith.toFloat_eq]
      have hten := ExactArith.intCast_nonneg (K := K) 10 (by decide)
      have heleven := ExactArith.intCast_nonneg (K := K) 11 (by decide)
      have hthree := ExactArith.intCast_nonneg (K := K) 3 (by decide)
      exact ExactArith.mul_nonneg _ _ (ExactArith.div_nonneg _ _ heleven hten)
        (ExactArith.add_nonneg ExactArith.one_nonneg
          (ExactArith.div_nonneg _ _ hthree (ExactArith.add_nonneg ExactArith.one_nonneg hexp)))
    simp only [hcongested, ↓reduceIte]
    refine ⟨hcap _ ?_, hmult, fun _ => h.iter hcongested⟩
    rw [ExactArith.toFloat_eq]
    exact ExactArith.mul_nonneg _ _ h.factor hmult
  · simp only [hcongested, Bool.false_eq_true, ↓reduceIte]
    refine ⟨hcap _ ?_, h.multiplier, fun hc => by cases hc⟩
    rw [ExactArith.toFloat_eq]
    exact ExactArith.mul_nonneg _ _ h.factor h.multiplier

theorem StableStep.factorsOk {call : Nat → R.database.ConnId → RouterState R.database → Prop}
    {batch : RouterState R.database → Nat → Prop} (hstep : R.StableStep call batch st st')
    (hmax : ((0 : Int) : K) ≤ R.maxPresentCongestionFactor) (h : FactorsOk st.ctl) :
    FactorsOk st'.ctl := by
  cases hstep with
  | beginIteration =>
    refine ⟨h.factor, h.multiplier, fun hc => ?_⟩
    have hiter := h.iter hc
    show 1 ≤ st.ctl.iter + 1
    omega
  | batch _ _ _ _ _ _ hrun =>
    obtain ⟨st₁, hroute, hctl, -⟩ := runBatch_frame hrun
    rw [hctl, (routing_frame hroute).2]
    exact ⟨h.factor, h.multiplier, h.iter⟩
  | tree _ hrun =>
    rcases routeConnection_cases hrun with rfl | ⟨-, hatt⟩
    · exact h
    · rw [hatt.ctl]
      exact h
  | refresh =>
    rw [(dynamicCostFactorUpdating_frame (R.judgeCongestion st)).1]
    exact h.judgeCongestion.updateFactors hmax
  | leaveOverlapRouting => exact ⟨h.factor, h.multiplier, h.iter⟩

end Factors

/-! ## Costs -/

/-- No present cost is below one, and neither will be the next. -/
structure Floored (st : RouterState R.database) : Prop where
  factor : ((0 : Int) : K) ≤ st.ctl.presentCongestionFactor
  cost : ∀ r, ((1 : Int) : K) ≤ (st.node r).presentCongestionCost

section Floored

variable {ρ : Reads R.database.NodeId K} {c : R.database.ConnId} {tid : Nat}

theorem Floored.congr (h : Floored st) (hnode : st'.node = st.node)
    (hfactor : st'.ctl.presentCongestionFactor = st.ctl.presentCongestionFactor) : Floored st' := by
  refine ⟨?_, fun r => ?_⟩
  · rw [hfactor]
    exact h.factor
  · rw [hnode]
    exact h.cost r

/-- A node gets a cost that is no less than one, the others stay. -/
theorem Floored.withNode (h : Floored st) (n : R.database.NetId) (u : NetUsers R.database.NodeId)
    (r : R.database.NodeId) {x : NodeState K} (hx : ((1 : Int) : K) ≤ x.presentCongestionCost) :
    Floored ((st.withNet n u).withNode r x) := by
  refine ⟨h.factor, fun a => ?_⟩
  by_cases e : a = r
  · subst e
    simpa using hx
  · simpa [e] using h.cost a

/-- The merging of a net leaves the costs. -/
theorem Floored.updateNet {n : R.database.NetId} (h : Floored st)
    (hmerge : R.updateNet n st = some st') : Floored st' := by
  have hinc : Floored (R.updatePreIncrement st.ctl.currentBatchStamp n st) := by
    refine List.foldlRecOn _ _ h fun s hs e _ => ?_
    unfold commitIncrement
    dsimp only
    split
    · exact hs.withNode _ _ _ (hs.cost e.1)
    · exact ⟨hs.factor, hs.cost⟩
  refine runAll_invariant (fun e _ s t hs ht => ?_) hinc hmerge
  unfold commitDecrement at ht
  split at ht
  · cases ht
  · split at ht
    · dsimp only at ht
      split at ht
      · cases ht
        exact hs.withNode _ _ _ (hs.cost e.1)
      · cases ht
        exact ⟨hs.factor, hs.cost⟩
    · cases ht

variable [ExactArith K]

/-- The refresh, with the new factor. -/
theorem Floored.dynamicCostFactorUpdating (h : Floored st)
    (hfactor : ((0 : Int) : K) ≤ (R.updateFactors st.ctl).presentCongestionFactor) :
    Floored (R.dynamicCostFactorUpdating st) := by
  have hstart : Floored (R := R)
      { st with ctl := R.updateFactors st.ctl, numOverUsedRNodes := 0 } := ⟨hfactor, h.cost⟩
  refine List.foldlRecOn _ _ hstart fun s hs r _ => ⟨?_, fun a => ?_⟩
  · unfold refreshCost
    dsimp only
    split_ifs <;> exact hs.factor
  · have hadd : ∀ x : K, ((0 : Int) : K) ≤ x →
        ((1 : Int) : K) ≤ Arith.toFloat ((1 : Int) + x) := by
      intro x hx
      rw [ExactArith.toFloat_eq]
      exact ExactArith.le_add _ _ hx
    unfold refreshCost
    dsimp only
    by_cases e : a = r
    · subst e
      split_ifs with hone hmore
      · simpa [NodeState.setPresentCongestionCost] using hadd _ hs.factor
      · have hover : ((0 : Int) : K) ≤ Arith.toFloat
            ((((s.node a).occupancy - nodeCapacity + 1 : Int) : K) *
              s.ctl.presentCongestionFactor) := by
          rw [ExactArith.toFloat_eq]
          exact ExactArith.mul_nonneg _ _ (ExactArith.intCast_nonneg _ (by omega)) hs.factor
        simpa [NodeState.setPresentCongestionCost, NodeState.setHistoricalCongestionCost]
          using hadd _ hover
      · exact hs.cost a
    · split_ifs
      · simpa [e] using hs.cost a
      · simpa [e] using hs.cost a
      · exact hs.cost a

variable (hrefl : ∀ x : K, x ≤ x)
include hrefl

/-- Whatever occupancy is read, the cost computed from it is no less than one. -/
theorem one_le_presentCost {presFac : K} (hfactor : ((0 : Int) : K) ≤ presFac) (occ : Int) :
    ((1 : Int) : K) ≤ presentCost presFac occ := by
  by_cases hused : nodeCapacity ≤ occ
  · rw [presentCost_of_le hused]
    have hocc : 0 ≤ occ := le_trans (by decide) hused
    exact ExactArith.le_add _ _ (ExactArith.mul_nonneg _ _ (ExactArith.intCast_nonneg _ hocc) hfactor)
  · rw [presentCost_of_lt (not_le.1 hused)]
    exact hrefl _

theorem Floored.useNode (h : Floored st) (n : R.database.NetId) (r : R.database.NodeId) :
    Floored (R.useNode ρ n st r) := by
  refine h.withNode n _ r ?_
  rw [NodeState.updatePresentCongestionCost_cost]
  exact one_le_presentCost hrefl h.factor _

theorem Floored.leaveNode (h : Floored st) (n : R.database.NetId) (r : R.database.NodeId) :
    Floored (R.leaveNode ρ n st r) := by
  refine h.withNode n _ r ?_
  rw [NodeState.updatePresentCongestionCost_cost]
  exact one_le_presentCost hrefl h.factor _

theorem Floored.ripup (h : Floored st) (hrip : R.ripup ρ c false st = some st') : Floored st' := by
  simp only [AStarRoute.ripup] at hrip
  split at hrip
  · cases hrip
  · simp only [Bool.false_eq_true, ↓reduceIte, Option.map_some, Option.some.injEq] at hrip
    subst hrip
    have hfold : Floored ((R.heldNodes st c).foldl (R.leaveNode ρ (R.database.netOf c)) st) :=
      List.foldlRecOn _ _ h fun s hs r _ => hs.leaveNode hrefl _ r
    exact ⟨hfold.factor, hfold.cost⟩

/-- **An immediate attempt**, whatever it reads of the nodes. -/
theorem Floored.attempt (h : Floored st) (hatt : R.Attempt ρ c tid false st st') : Floored st' := by
  obtain ⟨st₁, success, st₂, hrip, hroute, hsame⟩ := hatt
  have hripped := h.ripup hrefl hrip
  refine Floored.congr ?_ hsame.node (by rw [hsame.ctl])
  rcases routeOneConnection_cases hroute with ⟨-, f, -, rfl⟩ | ⟨-, m, k, path, -, -, rfl⟩
  · exact ⟨hripped.factor, hripped.cost⟩
  · simp only [commitRoute, Bool.false_eq_true, ↓reduceIte, updateUsersAndPresentCongestionCost]
    exact List.foldlRecOn _ _ ⟨hripped.factor, hripped.cost⟩ fun s hs r _ => hs.useNode hrefl _ r

theorem Floored.updateSinkNodeUsage (h : Floored st)
    (hstart : R.updateSinkNodeUsage st = some st') : Floored st' := by
  refine runAll_invariant (fun c _ s t hs ht => ?_) h hstart
  simp only [reserveSink] at ht
  split at ht
  · cases ht
  · cases ht
    exact hs.useNode hrefl _ _

theorem Floored.runBatch (h : Floored st) {routing commits : List (Nat × R.database.NetId)}
    {costs : List R.database.NodeId} (hrun : R.runBatch routing commits costs st = some st') :
    Floored st' := by
  obtain ⟨st₂, hrun, hcosts⟩ := Option.bind_eq_some_iff.1 hrun
  obtain ⟨st₁, hroute, hmerge⟩ := Option.bind_eq_some_iff.1 hrun
  obtain ⟨hnode, hctl⟩ := routing_frame hroute
  have hmerged : Floored st₂ :=
    runAll_invariant (fun p _ s t hs ht => hs.updateNet ht) (h.congr hnode (by rw [hctl])) hmerge
  refine runAll_invariant (fun r _ s t hs ht => ?_) hmerged hcosts
  cases ht
  unfold updatePresentCongCost
  dsimp only
  split
  · refine ⟨hs.factor, fun a => ?_⟩
    by_cases e : a = r
    · subst e
      simpa using one_le_presentCost hrefl hs.factor _
    · simpa [e] using hs.cost a
  · exact hs

theorem StableStep.floored {call : Nat → R.database.ConnId → RouterState R.database → Prop}
    {batch : RouterState R.database → Nat → Prop} (hstep : R.StableStep call batch st st')
    (hfactors : FactorsOk st'.ctl) (h : Floored st) : Floored st' := by
  cases hstep with
  | beginIteration => exact ⟨h.factor, h.cost⟩
  | @batch p routing commits costs _ _ _ _ _ _ _ _ hrun =>
    have hstamped : Floored (R.setBatchStamp p.2 st) := ⟨h.factor, h.cost⟩
    exact hstamped.runBatch hrefl hrun
  | tree _ hrun =>
    rcases routeConnection_cases hrun with rfl | ⟨-, hatt⟩
    · exact h
    · exact h.attempt hrefl hatt
  | refresh =>
    obtain ⟨hnode, -, -, -, hfac, -⟩ := judgeCongestion_frame st
    refine (h.congr hnode hfac).dynamicCostFactorUpdating ?_
    have hnew := hfactors.factor
    rwa [(dynamicCostFactorUpdating_frame (R.judgeCongestion st)).1] at hnew
  | leaveOverlapRouting => exact ⟨h.factor, h.cost⟩

end Floored

end AStarRoute

end Potter
