import Potter.Route.Completeness
import Potter.Route.MainLoop

/-!
# Convergence and legality

When the main loop is left through its `break`, the design should be routed: every connection has a
path, and no node is on the paths of two nets. The test for `break` reads two counters. Of these,
`numOverUsedRNodes` tells the second part if the occupancies are right, which they are as long as no
attempt has failed. But `failRouteNum` does not tell the first: route workers and the threads of
runtime-first routing log a failure without counting it, and a net that scheduling has dropped is
never tried.

`Achieves` says what a part of an iteration achieves unless a failure is logged. Parts that follow each
other compose (`Achieves.trans`, `achieves_runs`), and an iteration covers every connection. No failure
is logged in a run whose attempts can all succeed (`routableSteps`): where a search starts, its sink can
be reached, and no mark in the thread's table looks like one of its own.
-/

namespace Potter

open Lib

namespace AStarRoute

variable {K : Type} [Arith K] {R : AStarRoute K} {st st₁ st' : RouterState R.database}

/-! ## Parts of an iteration -/

/-- From `st` to `st'`, unless a failure is logged, `I` is kept, the connections in `C` get a route,
and no connection loses its route. -/
structure Achieves (I : RouterState R.database → Prop) (C : Set R.database.ConnId)
    (st st' : RouterState R.database) : Prop where
  log_le : st.loggedFailures ≤ st'.loggedFailures
  keeps : st'.loggedFailures = st.loggedFailures → I st → I st'
  routed : st'.loggedFailures = st.loggedFailures → ∀ c, c ∈ C ∨ (st.conn c).isRouted = true →
    (st'.conn c).isRouted = true

section Achieves

variable {I : RouterState R.database → Prop} {C C' : Set R.database.ConnId}

/-- A part that moves no route covers nothing. -/
theorem Achieves.of_conn (hlog : st'.loggedFailures = st.loggedFailures) (hconn : st'.conn = st.conn)
    (hI : I st → I st') : Achieves I ∅ st st' := by
  refine ⟨le_of_eq hlog.symm, fun _ => hI, fun _ c hc => ?_⟩
  rw [hconn]
  exact hc.resolve_left (Set.notMem_empty c)

/-- After a failure nothing is claimed. -/
theorem Achieves.of_failure (hlog : st'.loggedFailures = st.loggedFailures + 1) :
    Achieves I C st st' := by
  refine ⟨by omega, fun h => ?_, fun h => ?_⟩
  · omega
  · omega

theorem Achieves.trans (h : Achieves I C st st₁) (h' : Achieves I C' st₁ st') :
    Achieves I (C ∪ C') st st' := by
  have hle := h.log_le
  have hle' := h'.log_le
  refine ⟨le_trans hle hle', fun hlog hI => ?_, fun hlog c hc => ?_⟩
  · exact h'.keeps (by omega) (h.keeps (by omega) hI)
  · apply h'.routed (by omega)
    rcases hc with (hc | hc) | hc
    · exact .inr (h.routed (by omega) c (.inl hc))
    · exact .inl hc
    · exact .inr (h.routed (by omega) c (.inr hc))

theorem Achieves.mono (h : Achieves I C st st') (hsub : C' ⊆ C) : Achieves I C' st st' :=
  ⟨h.log_le, h.keeps, fun hlog c hc => h.routed hlog c (hc.imp_left fun hc => hsub hc)⟩

/-- A list of steps covers what any of them does. -/
theorem achieves_runs {α : Type} {step : α → RouterState R.database → RouterState R.database → Prop}
    {C : α → Set R.database.ConnId} {as : List α} (h : Runs step as st st')
    (hstep : ∀ a ∈ as, ∀ s t, step a s t → Achieves I (C a) s t) :
    Achieves I {c | ∃ a ∈ as, c ∈ C a} st st' := by
  induction h with
  | nil s =>
    apply (Achieves.of_conn rfl rfl fun hI => hI).mono
    rintro c ⟨a, ha, -⟩
    cases ha
  | @cons a as s t u ha _ ih =>
    have hrest := ih fun b hb => hstep b (List.mem_cons_of_mem a hb)
    apply ((hstep a List.mem_cons_self s t ha).trans hrest).mono
    rintro c ⟨b, hb, hc⟩
    rcases List.mem_cons.1 hb with rfl | hb
    · exact .inl hc
    · exact .inr ⟨b, hb, hc⟩

end Achieves

/-! ### Connections -/

section Connections

variable {I : RouterState R.database → Prop} {ρ : Reads R.database.NodeId K}
  {c : R.database.ConnId} {tid : Nat} {counted sync : Bool}

/-- Rip-up and a successful search. -/
theorem achieves_reroute {st₂ : RouterState R.database} (hrip : R.ripup ρ c sync st₁ = some st₂)
    (hroute : R.routeOneConnection ρ c tid sync st₂ = some (true, st'))
    (hlog : st₁.loggedFailures = st.loggedFailures)
    (hflag : ∀ d, (st.conn d).isRouted = true → (st₁.conn d).isRouted = true) (hI : I st → I st') :
    Achieves I {c} st st' := by
  obtain ⟨-, hrouted, hother⟩ := reroute_conn hrip hroute
  have hsame : st'.loggedFailures = st.loggedFailures := by
    rw [routeOneConnection_loggedFailures hroute, ripup_loggedFailures hrip, hlog]
  refine ⟨le_of_eq hsame.symm, fun _ => hI, fun _ d hd => ?_⟩
  by_cases e : d = c
  · rw [e]
    exact hrouted
  · rw [hother d e]
    exact hflag d (hd.resolve_left e)

/-- An immediate step routes its connection. -/
theorem achieves_routeConnection (h : R.routeConnection counted ρ tid c st = some st') :
    Achieves (Settled ∅) {c} st st' := by
  unfold routeConnection at h
  split at h
  · obtain ⟨st₁, hrip, h⟩ := Option.bind_eq_some_iff.1 h
    obtain ⟨⟨success, st₂⟩, hroute, heq⟩ := Option.map_eq_some_iff.1 h
    have hlog : st₂.loggedFailures = st.loggedFailures := by
      rw [routeOneConnection_loggedFailures hroute, ripup_loggedFailures hrip]
    cases success with
    | true =>
      cases heq
      exact achieves_reroute hrip hroute rfl (fun d hd => hd) fun hs => hs.reroute hrip hroute
    | false =>
      apply Achieves.of_failure
      rw [← hlog]
      dsimp only at heq
      rw [if_neg Bool.false_ne_true] at heq
      split at heq <;> cases heq <;> rfl
  · rename_i hnot
    cases h
    refine ⟨le_refl _, fun _ hs => hs, fun _ d hd => ?_⟩
    rcases hd with rfl | hd
    · exact isRouted_of_not_shouldRoute hnot
    · exact hd

/-- A step of a route worker routes its connection. What becomes of the accounting shows at the end
of the batch. -/
theorem achieves_routeWorkerConnection (h : R.routeWorkerConnection tid c st = some st') :
    Achieves (fun _ => True) {c} st st' := by
  rcases routeWorkerConnection_cases h with ⟨⟨rfl, hrouted⟩ | ⟨st₁, hrip, hroute⟩, -⟩ | hlog
  · refine ⟨le_refl _, fun _ _ => trivial, fun _ d hd => ?_⟩
    rw [(setRoutedThisIter_conn st c d false).2]
    rcases hd with rfl | hd
    · exact hrouted
    · exact hd
  · refine achieves_reroute hrip hroute rfl (fun d hd => ?_) fun _ => trivial
    rw [(setRoutedThisIter_conn st c d false).2]
    exact hd
  · exact Achieves.of_failure hlog

/-- A net in the list of a route worker. -/
theorem achieves_routeWorkerNet {n : R.database.NetId} (h : R.routeWorkerNet tid n st = some st') :
    Achieves (fun _ => True) {c | R.database.netOf c = n} st st' := by
  obtain ⟨t, ht, rfl⟩ := Option.map_eq_some_iff.1 h
  have hstart : Achieves (fun _ => True) ∅ st (R.clearPreUsers n st) :=
    .of_conn rfl rfl fun _ => trivial
  have hconns := achieves_runs (Runs.of_runAll ht) fun c _ s u hc => achieves_routeWorkerConnection hc
  have hrecord : Achieves (fun _ => True) ∅ t (t.withInfo tid (R.recordOccChanges
      t.ctl.currentBatchStamp (R.routedNodes (R.clearPreUsers n st) n) (R.routedNodes t n)
      (t.info tid))) := .of_conn rfl rfl fun _ => trivial
  apply ((hstart.trans hconns).trans hrecord).mono
  intro c hc
  refine .inl (.inr ⟨c, ?_, rfl⟩)
  exact R.database.mem_indirectConns.2 hc

end Connections

/-! ### Batches -/

section Batches

theorem achieves_updateNets {commits : List (Nat × R.database.NetId)}
    (h : runAll (fun p => R.updateNet p.2) commits st = some st') :
    Achieves (fun _ => True) ∅ st st' := by
  apply (achieves_runs (Runs.of_runAll h) (C := fun _ => ∅) fun p _ s t hp => ?_).mono
    (Set.empty_subset _)
  exact .of_conn (updateNet_frame RouterState.loggedFailures (fun _ _ _ => rfl) (fun _ _ _ => rfl) hp)
    (updateNet_frame RouterState.conn (fun _ _ _ => rfl) (fun _ _ _ => rfl) hp) fun _ => trivial

theorem achieves_updatePresentCongCosts {costs : List R.database.NodeId}
    (h : runAll (fun r st => some (R.updatePresentCongCost r st)) costs st = some st') :
    Achieves (Settled ∅) ∅ st st' := by
  apply (achieves_runs (Runs.of_runAll h) (C := fun _ => ∅) fun r _ s t hr => ?_).mono
    (Set.empty_subset _)
  cases hr
  unfold updatePresentCongCost
  dsimp only
  split
  · refine .of_conn rfl rfl fun hs => hs.congr rfl rfl fun r' => ?_
    by_cases e : r' = r
    · subst e
      simp
    · simp [e]
  · exact .of_conn rfl rfl fun hs => hs

theorem netThreads_map_snd (lists : List (List R.database.NetId)) :
    (R.netThreads lists).flatten.map Prod.snd = lists.flatten := by
  unfold netThreads
  rw [List.map_flatten, List.map_map]
  simp only [Function.comp_def, List.map_map, List.map_id']
  rw [List.zipIdx_map_fst]

/-- Every schedule of the workers goes through the nets of the lists. -/
theorem map_snd_perm {lists : List (List R.database.NetId)} {sched : List (Nat × R.database.NetId)}
    (h : Interleaving (R.netThreads lists) sched) : (sched.map Prod.snd).Perm lists.flatten := by
  rw [← netThreads_map_snd]
  exact h.perm.map _

/-- A batch routes the connections of its nets. -/
theorem achieves_batch {p : List (List R.database.NetId) × Nat} (hnodup : p.1.flatten.Nodup)
    (h : R.Batch p st st') :
    Achieves (Settled ∅) {c | R.database.netOf c ∈ p.1.flatten} st st' := by
  obtain ⟨routing, commits, costs, hrouting, hcommits, -, hrun⟩ := h
  obtain ⟨st₂, hrun, hcosts⟩ := Option.bind_eq_some_iff.1 hrun
  obtain ⟨st₁, hroute, hmerge⟩ := Option.bind_eq_some_iff.1 hrun
  have hnets := map_snd_perm hrouting
  have hsame : (commits.map Prod.snd).Perm (routing.map Prod.snd) :=
    (hcommits.perm.trans hrouting.perm.symm).map _
  have hstamp : Achieves (fun _ => True) ∅ st (R.setBatchStamp p.2 st) :=
    .of_conn rfl rfl fun _ => trivial
  have hworkers := achieves_runs (Runs.of_runAll hroute) fun q _ s t hq => achieves_routeWorkerNet hq
  have hnetWorkers := achieves_updateNets hmerge
  have hphases := (hstamp.trans hworkers).trans hnetWorkers
  -- the accounting is out of balance between the first phase and the end of the second
  have hsettled : st₂.loggedFailures = st.loggedFailures → Settled ∅ st → Settled ∅ st₂ := by
    intro hlog hs
    have hlog₁ : st₁.loggedFailures = (R.setBatchStamp p.2 st).loggedFailures := by
      have hle := hworkers.log_le
      have hle' := hnetWorkers.log_le
      have hstart : (R.setBatchStamp p.2 st).loggedFailures = st.loggedFailures := rfl
      omega
    have hstart : Settled ∅ (R.setBatchStamp p.2 st) := hs.congr rfl rfl fun _ => rfl
    obtain ⟨t, ht, -, hs₂⟩ := hstart.batch (hnets.nodup_iff.2 hnodup) hsame hroute hlog₁
    rw [runAll_map, hmerge] at ht
    cases ht
    exact hs₂
  have hmerged : Achieves (Settled ∅) _ st st₂ := ⟨hphases.log_le, hsettled, hphases.routed⟩
  apply (hmerged.trans (achieves_updatePresentCongCosts hcosts)).mono
  intro c hc
  obtain ⟨q, hq, hnet⟩ := List.mem_map.1 (hnets.mem_iff.2 hc)
  exact .inl (.inl (.inr ⟨q, hq, hnet.symm⟩))

end Batches

/-! ### Iterations -/

section Iterations

variable {S : Schedule R.database}

theorem achieves_routePartitionTree {levels : List (List (PartitionTreeNode R.database.ConnId))}
    (h : R.RoutePartitionTree R.steps levels st st') :
    Achieves (Settled ∅) {c | c ∈ levels.flatten.flatMap PartitionTreeNode.connectionIds} st st' := by
  have hlevel : ∀ leaves ∈ levels, ∀ s t, R.TreeLevel R.steps leaves s t →
      Achieves (Settled ∅) {c | ∃ n ∈ leaves, c ∈ n.connectionIds} s t := by
    rintro leaves - s t ⟨sched, hsched, hrun⟩
    have hconn : ∀ c ∈ sched, ∀ s t, (∃ ρ, R.treeConnection ρ c s = some t) →
        Achieves (Settled ∅) {c} s t := by
      rintro c - s t ⟨ρ, hc⟩
      exact achieves_routeConnection hc
    apply (achieves_runs hrun hconn).mono
    rintro c ⟨n, hn, hc⟩
    exact ⟨c, hsched.mem_iff.2 ⟨_, List.mem_map_of_mem hn, hc⟩, rfl⟩
  apply (achieves_runs h hlevel).mono
  intro c hc
  obtain ⟨n, hn, hc⟩ := List.mem_flatMap.1 hc
  obtain ⟨leaves, hleaves, hn⟩ := List.mem_flatten.1 hn
  exact ⟨leaves, hleaves, n, hn, hc⟩

/-- The labeled nets are in the tree, the others in a batch. -/
theorem achieves_stableFirst (hbox : ∀ c, R.database.WellBoxed c) (hsched : R.Scheduled S)
    (hparallel : R.useParallel = true) (hmode : R.isRuntimeFirst = false)
    (h : R.StableFirstParallelRouting R.steps S.netIdBatchesForThreads S.treeForLabeledNets st st') :
    Achieves (Settled ∅) Set.univ st st' := by
  obtain ⟨st₁, hbatches, htree⟩ := h
  obtain ⟨hlabel, clusters, hkmeans⟩ := hsched.stableFirst hparallel hmode
  obtain ⟨-, hperm⟩ := kmeansBasedPartition_perm hkmeans
  have hnodup : S.netIdBatchesForThreads.flatten.flatten.Nodup :=
    hperm.nodup_iff.2 ((List.nodup_finRange _).filter _)
  have hbatch : ∀ p ∈ S.netIdBatchesForThreads.zipIdx, ∀ s t, R.Batch p s t →
      Achieves (Settled ∅) {c | R.database.netOf c ∈ p.1.flatten} s t := by
    intro p hp s t hstep
    refine achieves_batch ?_ hstep
    rw [List.flatten_flatten] at hnodup
    exact (List.nodup_flatten.1 hnodup).1 _ (List.mem_map_of_mem (List.fst_mem_of_mem_zipIdx hp))
  apply ((achieves_runs hbatches hbatch).trans (achieves_routePartitionTree htree)).mono
  intro c _
  by_cases hc : R.isLabeled (R.database.netOf c)
  · right
    exact (Database.scheduledTree_perm (fun c _ => hbox c) hlabel).mem_iff.2
      (mem_connectionIdsLabeled.2 hc)
  · left
    have hnet : R.database.netOf c ∈ S.netIdBatchesForThreads.flatten.flatten := by
      rw [hperm.mem_iff, netIdsToPartition, List.mem_filter, decide_eq_true_iff]
      exact ⟨List.mem_finRange _, hc⟩
    rw [List.flatten_flatten] at hnet
    obtain ⟨nets, hnets, hnet⟩ := List.mem_flatten.1 hnet
    obtain ⟨batch, hbatch, rfl⟩ := List.mem_map.1 hnets
    obtain ⟨i, hi, rfl⟩ := List.mem_iff_getElem.1 hbatch
    exact ⟨(_, i), List.mk_mem_zipIdx_iff_getElem?.2 (List.getElem?_eq_getElem hi), hnet⟩

/-- The nets that found room are in the lists of the threads. -/
theorem achieves_runtimeFirst (hthread : 0 < R.numThread)
    (hlayout : R.database.layout = .set 0 0 108 300)
    (hfits : ∀ level ∈ R.regionLevels, level.length < R.numThread → R.LevelFits level)
    (hlists : R.regionBasedPartition = some S.netIdsForThreads)
    (h : R.RuntimeFirstParallelRouting R.steps S.netIdsForThreads st st') :
    Achieves (Settled ∅) Set.univ st st' := by
  obtain ⟨sched, hsched, hrun⟩ := h
  have hconn : ∀ p ∈ sched, ∀ s t, (∃ ρ, R.netGroupConnection ρ p.1 p.2 s = some t) →
      Achieves (Settled ∅) {p.2} s t := by
    rintro p - s t ⟨ρ, hp⟩
    exact achieves_routeConnection hp
  apply (achieves_runs hrun hconn).mono
  intro c _
  obtain ⟨lists, hlists', hperm⟩ := regionBasedPartition_perm_nets hthread hlayout hfits
  cases hlists.symm.trans hlists'
  have hnet : R.database.netOf c ∈ S.netIdsForThreads.flatten := by
    rw [hperm.mem_iff, mem_netsWithConnections]
    exact Int.natCast_pos.2 (List.length_pos_of_mem (R.database.mem_conns_netOf c))
  obtain ⟨nets, hnets, hnet⟩ := List.mem_flatten.1 hnet
  obtain ⟨tid, htid, rfl⟩ := List.mem_iff_getElem.1 hnets
  refine ⟨(tid, c), hsched.mem_iff.2 ⟨_, List.mem_map_of_mem
    (List.mk_mem_zipIdx_iff_getElem?.2 (List.getElem?_eq_getElem htid)), ?_⟩, rfl⟩
  refine List.mem_map_of_mem (List.mem_flatMap.2 ⟨_, hnet, ?_⟩)
  exact (R.sorter.perm _ _).mem_iff.2 (R.database.mem_conns_netOf c)

/-- Every way to route an iteration tries every connection. -/
theorem achieves_routingPhase (hthread : 0 < R.numThread)
    (hlayout : R.database.layout = .set 0 0 108 300) (hbox : ∀ c, R.database.WellBoxed c)
    (hsched : R.Scheduled S)
    (hfits : R.isRuntimeFirst = true →
      ∀ level ∈ R.regionLevels, level.length < R.numThread → R.LevelFits level)
    (h : R.RoutingPhase R.steps S st st') : Achieves (Settled ∅) Set.univ st st' := by
  cases h with
  | stableFirst hparallel hmode _ h => exact achieves_stableFirst hbox hsched hparallel hmode h
  | runtimeFirst hparallel hmode _ h =>
    exact achieves_runtimeFirst hthread hlayout (hfits hmode) (hsched.runtimeFirst hparallel hmode) h
  | @tree st₁ hparallel _ h =>
    have hswitch : Achieves (Settled ∅) ∅ st₁
        { st₁ with ctl := { st₁.ctl with useOverlapRouting := false } } :=
      .of_conn rfl rfl fun hs => hs.congr rfl rfl fun _ => rfl
    apply ((achieves_routePartitionTree h).trans hswitch).mono
    intro c _
    left
    exact (Database.scheduledTree_perm (fun c _ => hbox c) (hsched.tree hparallel)).mem_iff.2
      (List.mem_finRange c)
  | sequential _ h =>
    apply (achieves_runs h fun c _ s t hc => achieves_routeConnection hc).mono
    intro c _
    exact ⟨c, List.mem_finRange c, rfl⟩

end Iterations

/-! ## The test -/

section Test

theorem refreshCost_frame (st : RouterState R.database) (r : R.database.NodeId) :
    (R.refreshCost st r).loggedFailures = st.loggedFailures ∧ (R.refreshCost st r).conn = st.conn ∧
      (R.refreshCost st r).net = st.net := by
  unfold refreshCost
  dsimp only
  split_ifs <;> exact ⟨rfl, rfl, rfl⟩

theorem judgeCongestion_frame (st : RouterState R.database) :
    (R.judgeCongestion st).node = st.node ∧ (R.judgeCongestion st).conn = st.conn ∧
      (R.judgeCongestion st).net = st.net ∧ (R.judgeCongestion st).info = st.info ∧
      (R.judgeCongestion st).ctl.presentCongestionFactor = st.ctl.presentCongestionFactor ∧
      (R.judgeCongestion st).loggedFailures = st.loggedFailures := by
  unfold judgeCongestion
  dsimp only
  split <;> exact ⟨rfl, rfl, rfl, rfl, rfl, rfl⟩

/-- The refresh of a cost moves no route and no occupancy, and counts an overused node. -/
theorem refreshCost_spec (st : RouterState R.database) (r : R.database.NodeId) :
    Achieves (Settled ∅) ∅ st (R.refreshCost st r) ∧
      (∀ a, ((R.refreshCost st r).node a).occupancy = (st.node a).occupancy) ∧
      (R.refreshCost st r).numOverUsedRNodes =
        st.numOverUsedRNodes + if 1 < (st.node r).occupancy then 1 else 0 := by
  have hocc : ∀ a, ((R.refreshCost st r).node a).occupancy = (st.node a).occupancy := by
    intro a
    unfold refreshCost
    dsimp only
    by_cases e : a = r
    · subst e
      split_ifs <;> simp [NodeState.setPresentCongestionCost, NodeState.setHistoricalCongestionCost]
    · split_ifs <;> simp [e]
  refine ⟨?_, hocc, ?_⟩
  · obtain ⟨hlog, hconn, hnet⟩ := refreshCost_frame st r
    exact .of_conn hlog hconn fun hs => hs.congr hconn hnet hocc
  · unfold refreshCost nodeCapacity
    dsimp only [RouterState.withNode]
    rw [apply_ite RouterState.numOverUsedRNodes, apply_ite RouterState.numOverUsedRNodes]
    dsimp only
    split_ifs <;> omega

theorem refreshCosts_spec (l : List R.database.NodeId) (st : RouterState R.database) :
    Achieves (Settled ∅) ∅ st (l.foldl R.refreshCost st) ∧
      (∀ a, ((l.foldl R.refreshCost st).node a).occupancy = (st.node a).occupancy) ∧
      (l.foldl R.refreshCost st).numOverUsedRNodes =
        st.numOverUsedRNodes + (l.countP fun r => decide (1 < (st.node r).occupancy) : Nat) := by
  induction l generalizing st with
  | nil => exact ⟨.of_conn rfl rfl fun hs => hs, fun _ => rfl, by simp⟩
  | cons r l ih =>
    obtain ⟨hcov, hocc, hnum⟩ := refreshCost_spec st r
    obtain ⟨hcov', hocc', hnum'⟩ := ih (R.refreshCost st r)
    refine ⟨(hcov.trans hcov').mono (Set.empty_subset _), fun a => ?_, ?_⟩
    · rw [List.foldl_cons, hocc', hocc]
    · simp only [hocc] at hnum'
      rw [List.foldl_cons, hnum', hnum, List.countP_cons]
      split_ifs <;> simp_all <;> omega

/-- Every node is visited by a thread. -/
theorem mem_nodeThreads (hthread : 0 < R.numThread) (r : R.database.NodeId) :
    r ∈ R.nodeThreads.flatten := by
  have hlt : (r : Nat) % R.numThread < R.numThread := Nat.mod_lt _ hthread
  refine List.mem_flatten.2 ⟨_, List.mem_map_of_mem (List.mem_range.2 hlt), ?_⟩
  refine mem_strided hthread (Nat.mod_le _ _) (Nat.mod_mod _ _).symm ?_
  have := r.isLt
  omega

/-- The update after an iteration moves no route, and counts the overused nodes. -/
theorem achieves_update (st : RouterState R.database) :
    Achieves (Settled ∅) ∅ st (R.dynamicCostFactorUpdating (R.judgeCongestion st)) := by
  obtain ⟨hnode, hconn, hnet, -, -, hlog⟩ := judgeCongestion_frame st
  have hjudge : Achieves (Settled ∅) ∅ st (R.judgeCongestion st) :=
    .of_conn hlog hconn fun hs => hs.congr hconn hnet fun r => by rw [hnode]
  have hfactors : Achieves (Settled ∅) ∅ (R.judgeCongestion st)
      { R.judgeCongestion st with
        ctl := R.updateFactors (R.judgeCongestion st).ctl
        numOverUsedRNodes := 0 } :=
    .of_conn rfl rfl fun hs => hs.congr rfl rfl fun _ => rfl
  exact ((hjudge.trans hfactors).trans (refreshCosts_spec R.nodeThreads.flatten _).1).mono
    (Set.empty_subset _)

/-- The test for overused nodes sees all nodes. -/
theorem occupancy_le_one (hthread : 0 < R.numThread) {st : RouterState R.database}
    (h : (R.dynamicCostFactorUpdating st).numOverUsedRNodes = 0) (r : R.database.NodeId) :
    ((R.dynamicCostFactorUpdating st).node r).occupancy ≤ 1 := by
  obtain ⟨-, hocc, hnum⟩ := refreshCosts_spec R.nodeThreads.flatten
    { st with ctl := R.updateFactors st.ctl, numOverUsedRNodes := 0 }
  unfold dynamicCostFactorUpdating at h ⊢
  rw [hnum, zero_add, Int.natCast_eq_zero, List.countP_eq_zero] at h
  have hr := h r (mem_nodeThreads hthread r)
  rw [decide_eq_true_iff, not_lt] at hr
  rw [hocc]
  exact hr

/-- An iteration tries every connection, and counts the overused nodes it leaves. -/
theorem Iteration.spec {S : Schedule R.database} (hthread : 0 < R.numThread)
    (hlayout : R.database.layout = .set 0 0 108 300) (hbox : ∀ c, R.database.WellBoxed c)
    (hsched : R.Scheduled S)
    (hfits : R.isRuntimeFirst = true →
      ∀ level ∈ R.regionLevels, level.length < R.numThread → R.LevelFits level)
    (h : R.Iteration R.steps S st st') :
    Achieves (Settled ∅) Set.univ st st' ∧
      (st'.numOverUsedRNodes = 0 → ∀ r, (st'.node r).occupancy ≤ 1) := by
  obtain ⟨-, st₁, hphase, rfl⟩ := h
  have hbegin : Achieves (Settled ∅) ∅ st (R.beginIteration st) :=
    .of_conn rfl rfl fun hs => hs.congr rfl rfl fun _ => rfl
  have hroute := achieves_routingPhase hthread hlayout hbox hsched hfits hphase
  refine ⟨((hbegin.trans hroute).trans (achieves_update st₁)).mono fun c _ => ?_,
    occupancy_le_one hthread⟩
  exact .inl (.inr trivial)

/-- Without a failure, convergence means legality. -/
theorem legal_of_loggedFailures {S : Schedule R.database} {st₀ st₁ st : RouterState R.database}
    (hthread : 0 < R.numThread) (hlayout : R.database.layout = .set 0 0 108 300)
    (hbox : ∀ c, R.database.WellBoxed c) (hsched : R.Scheduled S)
    (hfits : R.isRuntimeFirst = true →
      ∀ level ∈ R.regionLevels, level.length < R.numThread → R.LevelFits level)
    (hfresh : Fresh st₀) (hstart : R.updateSinkNodeUsage st₀ = some st₁)
    (hbreak : R.Breaks R.steps S st₁ st) (hlog : st.loggedFailures = st₁.loggedFailures) :
    (∀ c, (st.conn c).isRouted = true ∧ R.database.IsPath c (st.conn c).rnodes) ∧
      ∀ c d r, r ∈ (st.conn c).rnodes → r ∈ (st.conn d).rnodes →
        R.database.netOf c = R.database.netOf d := by
  obtain ⟨st₂, hcontinues, hlast, hover, -⟩ := hbreak
  obtain ⟨hcov, hocc⟩ := hlast.spec hthread hlayout hbox hsched hfits
  have hearlier : Achieves (Settled ∅) ∅ st₁ st₂ := by
    clear hlast hcov hocc
    induction hcontinues with
    | refl => exact .of_conn rfl rfl fun hs => hs
    | tail _ hstep ih =>
      obtain ⟨hcov, -⟩ := hstep.1.spec hthread hlayout hbox hsched hfits
      exact (ih.trans hcov).mono (Set.empty_subset _)
  have hall := hearlier.trans hcov
  have hs := hall.keeps hlog (hfresh.settled hstart)
  have hrouted : ∀ c, (st.conn c).isRouted = true := fun c =>
    hall.routed hlog c (.inl (.inr trivial))
  refine ⟨fun c => ⟨hrouted c, hs.routes.isPath c (hrouted c)⟩, fun c d r hc hd => ?_⟩
  have hdemand : ∀ e, r ∈ (st.conn e).rnodes → 0 < R.demand ∅ st (R.database.netOf e) r := by
    intro e he
    refine lt_of_lt_of_le ?_ (heldCount_le ∅ st e r)
    rw [heldCount, if_neg (Finset.notMem_empty e),
      heldNodes_of_isPath (hs.routes.isPath e (hrouted e))]
    exact List.count_pos_iff.2 he
  have hone := hocc hover r
  rw [hs.counts.occupancy r] at hone
  exact usersOf_le_one (Int.ofNat_le.1 hone) (hdemand c hc) (hdemand d hd)

end Test

/-! ## Attempts that can succeed -/

section Routable

variable (R)

/-- The attempt on `c` can succeed: where its search starts, the sink can be reached, and no mark in the
thread's table looks like one of the search. -/
def Routable (ρ : Reads R.database.NodeId K) (c : R.database.ConnId) (tid : Nat) (sync : Bool)
    (st : RouterState R.database) : Prop :=
  ∀ st₁, R.ripup ρ c sync st = some st₁ → R.Unmarked st₁ tid c ∧ R.SinkReachable st₁ c

/-- A connection that is routed at once. If it is attempted, it can succeed. -/
def RoutableConnection (counted : Bool) (ρ : Reads R.database.NodeId K) (tid : Nat)
    (c : R.database.ConnId) (s s' : RouterState R.database) : Prop :=
  R.routeConnection counted ρ tid c s = some s' ∧
    (R.shouldRoute ρ s c = true → R.Routable ρ c tid false s)

/-- A connection that a route worker comes to. -/
def RoutableWorkerConnection (tid : Nat) (c : R.database.ConnId) (s : RouterState R.database) : Prop :=
  R.shouldRoute .own (s.withConn c ((s.conn c).setRoutedThisIter false)) c = true →
    R.Routable .own c tid true (s.withConn c ((s.conn c).setRoutedThisIter false))

/-- A batch. Every attempt of a route worker can succeed. -/
def RoutableBatch (p : List (List R.database.NetId) × Nat) (st st' : RouterState R.database) : Prop :=
  ∃ routing commits costs, Interleaving (R.netThreads p.1) routing ∧
    Interleaving (R.netThreads p.1) commits ∧ Interleaving R.nodeThreads costs ∧
    R.runBatch routing commits costs (R.setBatchStamp p.2 st) = some st' ∧
    ∀ tid c s, R.BatchCall routing (R.setBatchStamp p.2 st) tid c s →
      R.RoutableWorkerConnection tid c s

/-- The steps of the router whose attempts can succeed. -/
def routableSteps : Steps R.database where
  tree c s s' := ∃ ρ, R.RoutableConnection true ρ 0 c s s'
  netGroup p s s' := ∃ ρ, R.RoutableConnection false ρ p.1 p.2 s s'
  batch := R.RoutableBatch
  sequential := R.RoutableConnection true .own 0

variable {R} {S : Schedule R.database}

theorem routableSteps_le : R.routableSteps.Le R.steps where
  tree _ _ _ := fun ⟨ρ, h⟩ => ⟨ρ, h.1⟩
  netGroup _ _ _ := fun ⟨ρ, h⟩ => ⟨ρ, h.1⟩
  batch _ _ _ := fun ⟨routing, commits, costs, hrouting, hcommits, hcosts, hrun, _⟩ =>
    ⟨routing, commits, costs, hrouting, hcommits, hcosts, hrun⟩
  sequential _ _ _ h := h.1

/-- An attempt that can succeed does. -/
theorem Routable.succeeds {ρ : Reads R.database.NodeId K} {c : R.database.ConnId} {tid : Nat}
    {sync success : Bool} (h : R.Routable ρ c tid sync st) (hrip : R.ripup ρ c sync st = some st₁)
    (hroute : R.routeOneConnection ρ c tid sync st₁ = some (success, st')) : success = true := by
  obtain ⟨hmarks, hreach⟩ := h st₁ hrip
  cases success with
  | true => rfl
  | false => exact absurd hreach (not_sinkReachable_of_fails hmarks hroute)

theorem RoutableConnection.loggedFailures {counted : Bool} {ρ : Reads R.database.NodeId K} {tid : Nat}
    {c : R.database.ConnId} (h : R.RoutableConnection counted ρ tid c st st') :
    st'.loggedFailures = st.loggedFailures := by
  obtain ⟨hstep, hcan⟩ := h
  unfold routeConnection at hstep
  split at hstep
  · rename_i hshould
    obtain ⟨st₁, hrip, hstep⟩ := Option.bind_eq_some_iff.1 hstep
    obtain ⟨⟨success, st₂⟩, hroute, heq⟩ := Option.map_eq_some_iff.1 hstep
    obtain rfl := (hcan hshould).succeeds hrip hroute
    cases heq
    exact (routeOneConnection_loggedFailures hroute).trans (ripup_loggedFailures hrip)
  · cases hstep
    rfl

theorem RoutableWorkerConnection.loggedFailures {tid : Nat} {c : R.database.ConnId}
    (h : R.RoutableWorkerConnection tid c st) (hstep : R.routeWorkerConnection tid c st = some st') :
    st'.loggedFailures = st.loggedFailures := by
  simp only [routeWorkerConnection] at hstep
  split at hstep
  · rename_i hshould
    obtain ⟨st₁, hrip, hstep⟩ := Option.bind_eq_some_iff.1 hstep
    obtain ⟨⟨success, st₂⟩, hroute, heq⟩ := Option.map_eq_some_iff.1 hstep
    obtain rfl := (h hshould).succeeds hrip hroute
    cases heq
    have hlog := (routeOneConnection_loggedFailures hroute).trans (ripup_loggedFailures hrip)
    exact hlog
  · cases hstep
    rfl

/-- Steps that log no failure. -/
theorem Runs.loggedFailures {α : Type} {step : α → RouterState R.database → RouterState R.database → Prop}
    {as : List α} (h : Runs step as st st')
    (hstep : ∀ a s t, step a s t → t.loggedFailures = s.loggedFailures) :
    st'.loggedFailures = st.loggedFailures :=
  h.invariant (I := fun s => s.loggedFailures = st.loggedFailures)
    (fun a _ s t hs ht => (hstep a s t ht).trans hs) rfl

/-- The routing phase of a batch. -/
theorem loggedFailures_of_routing {routing : List (Nat × R.database.NetId)}
    (hcall : ∀ tid c s, R.BatchCall routing st tid c s → R.RoutableWorkerConnection tid c s)
    (hrun : runAll (fun p => R.routeWorkerNet p.1 p.2) routing st = some st') :
    st'.loggedFailures = st.loggedFailures := by
  refine runAll_reached (I := fun _ s => s.loggedFailures = st.loggedFailures)
    (fun pre p post s t hsched hs hlog ht => ?_) rfl hrun
  obtain ⟨u, hu, rfl⟩ := Option.map_eq_some_iff.1 ht
  have hnet : u.loggedFailures = (R.clearPreUsers p.2 s).loggedFailures := by
    refine runAll_reached (I := fun _ v => v.loggedFailures = (R.clearPreUsers p.2 s).loggedFailures)
      (fun cs c ds v w hconns hv hlog hw => ?_) rfl hu
    have hroutable := hcall p.1 c v ⟨pre, p.2, post, cs, ds, s, hsched, hconns, hs, hv⟩
    exact (hroutable.loggedFailures hw).trans hlog
  exact hnet.trans hlog

theorem RoutableBatch.loggedFailures {p : List (List R.database.NetId) × Nat}
    (h : R.RoutableBatch p st st') : st'.loggedFailures = st.loggedFailures := by
  obtain ⟨routing, commits, costs, -, -, -, hrun, hcall⟩ := h
  obtain ⟨st₂, hrun, hcosts⟩ := Option.bind_eq_some_iff.1 hrun
  obtain ⟨st₁, hroute, hmerge⟩ := Option.bind_eq_some_iff.1 hrun
  have hrouted := loggedFailures_of_routing hcall hroute
  have hmerged := Runs.loggedFailures (Runs.of_runAll hmerge) fun p s t hp =>
    updateNet_frame RouterState.loggedFailures (fun _ _ _ => rfl) (fun _ _ _ => rfl) hp
  have hrefreshed := Runs.loggedFailures (Runs.of_runAll hcosts) fun r s t hr => by
    cases hr
    unfold updatePresentCongCost
    dsimp only
    split <;> rfl
  exact hrefreshed.trans (hmerged.trans hrouted)

theorem loggedFailures_of_tree {levels : List (List (PartitionTreeNode R.database.ConnId))}
    (h : R.RoutePartitionTree R.routableSteps levels st st') :
    st'.loggedFailures = st.loggedFailures := by
  refine Runs.loggedFailures h ?_
  rintro leaves s t ⟨sched, -, hrun⟩
  exact Runs.loggedFailures hrun fun c s t ⟨ρ, hc⟩ => hc.loggedFailures

theorem loggedFailures_of_phase (h : R.RoutingPhase R.routableSteps S st st') :
    st'.loggedFailures = st.loggedFailures := by
  cases h with
  | stableFirst _ _ _ h =>
    obtain ⟨st₁, hbatches, htree⟩ := h
    exact (loggedFailures_of_tree htree).trans
      (Runs.loggedFailures hbatches fun _ _ _ => RoutableBatch.loggedFailures)
  | runtimeFirst _ _ _ h =>
    obtain ⟨sched, -, hrun⟩ := h
    exact Runs.loggedFailures hrun fun p s t ⟨ρ, hp⟩ => hp.loggedFailures
  | tree _ _ h =>
    have hlog := loggedFailures_of_tree h
    exact hlog
  | sequential _ h => exact Runs.loggedFailures h fun _ _ _ => RoutableConnection.loggedFailures

theorem loggedFailures_of_iteration (h : R.Iteration R.routableSteps S st st') :
    st'.loggedFailures = st.loggedFailures := by
  obtain ⟨-, st₁, hphase, rfl⟩ := h
  have hupdate : (R.dynamicCostFactorUpdating (R.judgeCongestion st₁)).loggedFailures =
      (R.judgeCongestion st₁).loggedFailures :=
    foldl_frame (fun s r => (refreshCost_frame s r).1) _ _
  have hroute := loggedFailures_of_phase hphase
  obtain ⟨-, -, -, -, -, hjudge⟩ := judgeCongestion_frame st₁
  exact hupdate.trans (hjudge.trans hroute)

/-- **In a run whose attempts can succeed, no failure is logged.** -/
theorem loggedFailures_of_breaks (h : R.Breaks R.routableSteps S st st') :
    st'.loggedFailures = st.loggedFailures := by
  obtain ⟨st₁, hcontinues, hlast, -⟩ := h
  have hearlier : st₁.loggedFailures = st.loggedFailures := by
    clear hlast
    induction hcontinues with
    | refl => rfl
    | tail _ hstep ih => exact (loggedFailures_of_iteration hstep.1).trans ih
  exact (loggedFailures_of_iteration hlast).trans hearlier

/-- **Convergence means legality** if the flags are clear at the start, every attempt of the run can
succeed, and the nets of the levels fit into the parts. -/
theorem breaks_legal {st₀ : RouterState R.database} (hthread : 0 < R.numThread)
    (hlayout : R.database.layout = .set 0 0 108 300) (hbox : ∀ c, R.database.WellBoxed c)
    (hsched : R.Scheduled S)
    (hfits : R.isRuntimeFirst = true →
      ∀ level ∈ R.regionLevels, level.length < R.numThread → R.LevelFits level)
    (hfresh : Fresh st₀) (hstart : R.updateSinkNodeUsage st₀ = some st₁)
    (hbreak : R.Breaks R.routableSteps S st₁ st) :
    (∀ c, (st.conn c).isRouted = true ∧ R.database.IsPath c (st.conn c).rnodes) ∧
      ∀ c d r, r ∈ (st.conn c).rnodes → r ∈ (st.conn d).rnodes →
        R.database.netOf c = R.database.netOf d :=
  legal_of_loggedFailures hthread hlayout hbox hsched hfits hfresh hstart
    (hbreak.mono routableSteps_le) (loggedFailures_of_breaks hbreak)

end Routable

/-! A crossing with a thread for each net. Thread 1 goes first and takes the wire that the other net
needs, so that a second iteration has to move it away. -/

section Crossing

open crossing

/-- Runtime-first scheduling that ends. -/
theorem exists_scheduled_lists (hbox : ∀ c, R.database.WellBoxed c) (hmode : R.isRuntimeFirst = true)
    {lists : List (List R.database.NetId)} (hlists : R.regionBasedPartition = some lists) :
    ∃ S, R.Scheduled S ∧ S.netIdsForThreads = lists := by
  obtain ⟨levels, hlevels⟩ := Database.scheduledTree_isSome R.sortedConnectionIds
    (fun c _ => hbox c) R.sorter
  refine ⟨⟨[], [], lists, levels⟩, ⟨fun _ h => ?_, fun _ _ => hlists, fun _ => hlevels⟩, rfl⟩
  rw [hmode] at h
  cases h

theorem sinkReachable_crossing (st : RouterState (crossing 2 true).database)
    (c : (crossing 2 true).database.ConnId) : (crossing 2 true).SinkReachable st c := by
  have hway : ∀ c, (node 4 ∈ (crossing 2 true).database.children ((crossing 2 true).database.source c) ∧
      (crossing 2 true).database.InBox c (node 4) ∧
      (crossing 2 true).graphIsAccessible (node 4) c = true) ∧
      (crossing 2 true).database.sink c ∈ (crossing 2 true).database.children (node 4) := by
    decide +kernel
  exact ⟨node 4, .single (hway c).1, (hway c).2⟩

/-- A connection whose search meets no mark of its own. -/
def crossingStep (p : Nat × (crossing 2 true).database.ConnId)
    (st : RouterState (crossing 2 true).database) : Option (RouterState (crossing 2 true).database) :=
  if ∀ s ∈ (crossing 2 true).ripup .own p.2 false st, (crossing 2 true).Unmarked s p.1 p.2 then
    (crossing 2 true).netGroupConnection .own p.1 p.2 st
  else none

def crossingIteration (st : RouterState (crossing 2 true).database) :
    Option (RouterState (crossing 2 true).database) :=
  (runAll crossingStep [(1, conn 1), (0, conn 0)] ((crossing 2 true).beginIteration st)).map fun st =>
    (crossing 2 true).dynamicCostFactorUpdating ((crossing 2 true).judgeCongestion st)

theorem iteration_crossing {S : Schedule (crossing 2 true).database}
    {st st' : RouterState (crossing 2 true).database} (hnets : S.netIdsForThreads = [[net 0], [net 1]])
    (hiter : st.ctl.iter < 2) (hoverlap : st.ctl.useOverlapRouting = true)
    (h : crossingIteration st = some st') :
    (crossing 2 true).Iteration (crossing 2 true).routableSteps S st st' := by
  obtain ⟨st₁, hrun, rfl⟩ := Option.map_eq_some_iff.1 h
  have hsteps : Runs (crossing 2 true).routableSteps.netGroup [(1, conn 1), (0, conn 0)]
      ((crossing 2 true).beginIteration st) st₁ := by
    refine (Runs.of_runAll hrun).mono fun p s t hp => ?_
    unfold crossingStep at hp
    split at hp
    · rename_i hmarks
      exact ⟨.own, hp, fun _ s₁ hs₁ => ⟨hmarks s₁ hs₁, sinkReachable_crossing s₁ p.2⟩⟩
    · cases hp
  refine ⟨?_, st₁, .runtimeFirst rfl rfl hoverlap ⟨_, ?_, hsteps⟩, rfl⟩
  · show st.ctl.iter + 1 < 500
    omega
  · rw [hnets]
    exact .step [[(0, conn 0)]] [] (.step [] [[]] (.done (by decide)))

/-- The second iteration ends with both nets on wires of their own. -/
theorem breaks_legal_crossing :
    ∃ S, (crossing 2 true).Scheduled S ∧ S.netIdsForThreads = [[net 0], [net 1]] ∧
    ∃ st₀ st₁ st : RouterState (crossing 2 true).database, Fresh st₀ ∧
      (crossing 2 true).updateSinkNodeUsage st₀ = some st₁ ∧
      (crossing 2 true).Breaks (crossing 2 true).routableSteps S st₁ st ∧ st.ctl.iter = 2 ∧
      (∀ c, (st.conn c).isRouted = true ∧ (crossing 2 true).database.IsPath c (st.conn c).rnodes) ∧
      ∀ c d r, r ∈ (st.conn c).rnodes → r ∈ (st.conn d).rnodes →
        (crossing 2 true).database.netOf c = (crossing 2 true).database.netOf d := by
  have hbox : ∀ c, (crossing 2 true).database.WellBoxed c := by
    refine fun c => ⟨fun axis => ?_, fun axis => ?_⟩
    · revert c
      cases axis <;> decide +kernel
    · unfold IntervalT.InRange
      revert c
      cases axis <;> decide +kernel
  have hlists : (crossing 2 true).regionBasedPartition = some [[net 0], [net 1]] := by decide +kernel
  obtain ⟨S, hsched, hnets⟩ := exists_scheduled_lists hbox rfl hlists
  have hfits : ∀ level ∈ (crossing 2 true).regionLevels,
      level.length < 2 → (crossing 2 true).LevelFits level := by
    intro level hlevel _
    apply levelFits_of_room Nat.two_pos (nodup_of_mem_regionLevels Nat.two_pos rfl hlevel)
    revert level
    decide +kernel
  have hfresh : Fresh (R := crossing 2 true) (.init (fun _ => false) (fun _ => false) 0 0) :=
    ⟨fun _ => rfl, fun _ => rfl, fun _ => rfl, fun _ => rfl⟩
  have hrun : ∃ st₁ ∈ (crossing 2 true).updateSinkNodeUsage
      (.init (fun _ => false) (fun _ => false) 0 0),
      (st₁.ctl.iter = 0 ∧ st₁.ctl.useOverlapRouting = true) ∧
      ∃ st₂ ∈ crossingIteration st₁,
      (st₂.numOverUsedRNodes = 1 ∧ st₂.ctl.iter = 1 ∧ st₂.ctl.useOverlapRouting = true) ∧
      ∃ st ∈ crossingIteration st₂,
        (st.numOverUsedRNodes = 0 ∧ st.failRouteNum = 0) ∧ st.ctl.iter = 2 := by
    decide +kernel
  obtain ⟨st₁, hstart, ⟨hiter₁, hoverlap₁⟩, st₂, hfirst, ⟨hover, hiter₂, hoverlap₂⟩, st, hsecond, hconv,
    hiter⟩ := hrun
  have hbreak : (crossing 2 true).Breaks (crossing 2 true).routableSteps S st₁ st := by
    refine ⟨st₂, .single ⟨iteration_crossing hnets (by omega) hoverlap₁ hfirst, fun h => ?_⟩,
      iteration_crossing hnets (by omega) hoverlap₂ hsecond, hconv⟩
    exact absurd (hover.symm.trans h.1) (by decide)
  obtain ⟨hrouted, hdisjoint⟩ :=
    breaks_legal Nat.two_pos rfl hbox hsched (fun _ => hfits) hfresh hstart hbreak
  exact ⟨S, hsched, hnets, _, st₁, st, hfresh, hstart, hbreak, hiter, hrouted, hdisjoint⟩

end Crossing

/-- **The loop is left with an unrouted connection.** Source and sink of the column are not linked;
the failure is logged and not counted, and no node is overused. -/
theorem breaks_unrouted_columns :
    ∃ S, (columns 1 1 false true).Scheduled S ∧
    ∃ st₀ st₁ st : RouterState (columns 1 1 false true).database, Fresh st₀ ∧
      (columns 1 1 false true).updateSinkNodeUsage st₀ = some st₁ ∧
      (columns 1 1 false true).Breaks (columns 1 1 false true).steps S st₁ st ∧
      ¬((st.conn 0).isRouted = true ∧ (st.conn 0).rnodes ≠ []) := by
  have hlists : (columns 1 1 false true).regionBasedPartition = some [[0]] := by decide +kernel
  obtain ⟨S, hsched, hnets⟩ :=
    exists_scheduled_lists (Database.wellBoxed_columns (by decide)) rfl hlists
  have hrun : ∃ st₁ ∈ (columns 1 1 false true).updateSinkNodeUsage
      (.init (fun _ => false) (fun _ => false) 0 0), st₁.ctl.iter = 0 ∧
      st₁.ctl.useOverlapRouting = true ∧
      ∃ st₂ ∈ (columns 1 1 false true).netGroupConnection .own 0 0
        ((columns 1 1 false true).beginIteration st₁),
      ∃ st, st = (columns 1 1 false true).dynamicCostFactorUpdating
        ((columns 1 1 false true).judgeCongestion st₂) ∧
      (st.numOverUsedRNodes = 0 ∧ st.failRouteNum = 0) ∧
        ¬((st.conn 0).isRouted = true ∧ (st.conn 0).rnodes ≠ []) := by
    simp only [exists_eq_left]
    decide +kernel
  obtain ⟨st₁, hstart, hiter, hoverlap, st₂, hroute, st, rfl, hconv, hopen⟩ := hrun
  refine ⟨S, hsched, _, st₁, _, ⟨fun _ => rfl, fun _ => rfl, fun _ => rfl, fun _ => rfl⟩, hstart,
    ⟨st₁, .refl, ⟨?_, st₂, .runtimeFirst rfl rfl hoverlap ?_, rfl⟩, hconv⟩, hopen⟩
  · show st₁.ctl.iter + 1 < 500
    omega
  · rw [hnets]
    exact ⟨[(0, 0)], .flatten [[(0, 0)]], .cons ⟨.own, hroute⟩ (.nil st₂)⟩

end AStarRoute

end Potter
