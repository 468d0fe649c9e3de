import Potter.Route.CostFloor

/-!
# The cost assertions of the search

`getNodeCost` asserts that the net counts no less than zero users of a child, and the search that the
cost of a child is not negative. When other connections of the net use the child, its congestion is
computed from what its occupancy will be without the connection that is searched for: the occupancy at
the last barrier, corrected by what the net itself has noted since then, and by what the thread has
recorded for the nets it routed before.

As long as no attempt fails, that estimate counts the net at least (`SearchCall.overOccupancy_nonneg`):
the record of a thread takes a net off a node only where the net was counted, and the net that is being
routed is not among them. So the congestion is no less than one, and the assertions hold in every search
of every run, be it of batches or of steps that any thread makes at once (`MixedStep`).
-/

namespace Potter

open Lib
open BestFirst (Verdict)

namespace AStarRoute

variable {K : Type} [Arith K] {R : AStarRoute K} {st st' : RouterState R.database}

/-! ## The cost of a child -/

/-- By how much a child will be overused, in the eyes of a net that uses it. -/
def overOccupancy (ρ : Reads R.database.NodeId K) (st : RouterState R.database)
    (c : R.database.ConnId) (tid : Nat) (sync : Bool) (r : R.database.NodeId) : Int :=
  let countSourceUsesOrigin := (st.net (R.database.netOf c)).countConnectionsOfUser r
  let countSourceUses := countSourceUses st (R.database.netOf c) sync r
  let preDecOcc : Int := if countSourceUsesOrigin > 0 ∧ countSourceUses = 0 then 1 else 0
  let preIncOcc : Int := if countSourceUsesOrigin = 0 ∧ countSourceUses > 0 then 1 else 0
  let occChange := if sync then (st.info tid r).getOccChange st.ctl.currentBatchStamp else 0
  ρ.occupancy (st.node r) r - preDecOcc + preIncOcc + occChange - nodeCapacity

/-- The factor by which congestion makes a child more expensive. -/
def congestionOf (ρ : Reads R.database.NodeId K) (st : RouterState R.database)
    (c : R.database.ConnId) (tid : Nat) (sync : Bool) (r : R.database.NodeId) : K :=
  if countSourceUses st (R.database.netOf c) sync r ≠ 0 then
    Arith.toFloat ((1 : Int) + Arith.toFloat
      ((overOccupancy ρ st c tid sync r : K) * st.ctl.presentCongestionFactor))
  else ρ.presentCongestionCost (st.node r) r

section Cost

variable [ExactArith K] {ρ : Reads R.database.NodeId K} {c : R.database.ConnId} {tid : Nat}
  {sync : Bool} {r : R.database.NodeId}

/-- **The assertions on a child hold** when its congestion is not negative. -/
theorem evaluateChild_ne_halt (huses : 0 ≤ countSourceUses st (R.database.netOf c) sync r)
    (hcong : ((0 : Int) : K) ≤ congestionOf ρ st c tid sync r)
    (hbase : ((0 : Int) : K) ≤ (R.database.routeNodes r).baseCost)
    (hhist : ((0 : Int) : K) ≤ (st.node r).historicalCongestionCost)
    (hsharing : ((0 : Int) : K) ≤ R.sharingWeight)
    (hhpwl : 0 ≤ (R.database.nets (R.database.netOf c)).doubleHpwl) (isTarget : Bool) :
    R.evaluateChild ρ st c tid sync r isTarget ≠ .halt := by
  let bias : K :=
    if isTarget then (0 : Int)
    else
      Arith.toFloat ((R.database.routeNodes r).baseCost /
          (R.database.nets (R.database.netOf c)).getConnectionSize) *
        (Arith.fabs (((R.database.routeNodes r).endTileXCoordinate : K) -
            (R.database.nets (R.database.netOf c)).xCenter) +
          Arith.fabs (((R.database.routeNodes r).endTileYCoordinate : K) -
            (R.database.nets (R.database.netOf c)).yCenter)) /
        (R.database.nets (R.database.netOf c)).doubleHpwl
  have hbias : ((0 : Int) : K) ≤ bias := by
    unfold bias
    split_ifs
    · exact ExactArith.intCast_nonneg 0 le_rfl
    · rw [ExactArith.toFloat_eq]
      have hsize := ExactArith.intCast_nonneg (K := K)
        (R.database.nets (R.database.netOf c)).getConnectionSize (Int.natCast_nonneg _)
      exact ExactArith.div_nonneg _ _ (ExactArith.mul_nonneg _ _
        (ExactArith.div_nonneg _ _ hbase hsize)
        (ExactArith.add_nonneg (ExactArith.fabs_nonneg _) (ExactArith.fabs_nonneg _)))
        (ExactArith.intCast_nonneg _ hhpwl)
  let sharingFactor : K :=
    (1 : Int) + R.sharingWeight * (countSourceUses st (R.database.netOf c) sync r : K)
  have hfactor : ((0 : Int) : K) ≤ sharingFactor :=
    ExactArith.add_nonneg ExactArith.one_nonneg
      (ExactArith.mul_nonneg _ _ hsharing (ExactArith.intCast_nonneg _ huses))
  let cost : K := Arith.toFloat ((R.database.routeNodes r).baseCost *
    (st.node r).historicalCongestionCost) * congestionOf ρ st c tid sync r / sharingFactor + bias
  have hcost : ((0 : Int) : K) ≤ cost := by
    unfold cost
    rw [ExactArith.toFloat_eq]
    exact ExactArith.add_nonneg (ExactArith.div_nonneg _ _ (ExactArith.mul_nonneg _ _
      (ExactArith.mul_nonneg _ _ hbase hhist) hcong) hfactor) hbias
  have hnode : R.getNodeCost ρ st r c
      (if sync then (st.info tid r).getOccChange st.ctl.currentBatchStamp else 0)
      (countSourceUses st (R.database.netOf c) sync r)
      ((st.net (R.database.netOf c)).countConnectionsOfUser r) sharingFactor isTarget =
        some cost := by
    unfold getNodeCost
    dsimp only
    rw [if_neg (not_lt.2 huses)]
    rfl
  intro hhalt
  unfold evaluateChild at hhalt
  dsimp only at hhalt
  split at hhalt
  · rename_i hnone
    cases hnode.symm.trans hnone
  · rename_i x hsome
    obtain rfl : cost = x := Option.some.inj (hnode.symm.trans hsome)
    rw [if_pos hcost] at hhalt
    cases hhalt

end Cost

/-! ## The records of the threads -/

section Records

variable {ρ : Reads R.database.NodeId K} {c : R.database.ConnId} {tid : Nat} {sync : Bool}
  {n : R.database.NetId} {g : R.database.NetId → R.database.NodeId → Nat}
  {P : R.database.NetId → Prop}

/-- From `st` to `st'` no thread recorded anything. -/
def SameRecords (st st' : RouterState R.database) : Prop :=
  ∀ t r, (st'.info t r).occChangeBatchStamp = (st.info t r).occChangeBatchStamp ∧
    (st'.info t r).occChange = (st.info t r).occChange

theorem SameRecords.getOccChange (h : SameRecords st st') (stamp : Int) (t : Nat)
    (r : R.database.NodeId) :
    (st'.info t r).getOccChange stamp = (st.info t r).getOccChange stamp := by
  unfold NodeInfo.getOccChange
  rw [(h t r).1, (h t r).2]

theorem SameRecords.trans {st₁ : RouterState R.database} (h : SameRecords st st₁)
    (h' : SameRecords st₁ st') : SameRecords st st' :=
  fun t r => ⟨(h' t r).1.trans (h t r).1, (h' t r).2.trans (h t r).2⟩

theorem sameRecords_of_info (h : st'.info = st.info) : SameRecords st st' := by
  intro t r
  rw [h]
  exact ⟨rfl, rfl⟩

theorem sameRecords_withMarks (st : RouterState R.database) (tid : Nat)
    (m : R.database.NodeId → BestFirst.Mark R.database.NodeId K) :
    SameRecords st (st.withMarks tid m) := by
  intro t r
  by_cases e : t = tid
  · subst e
    simp [RouterState.withMarks, RouterState.withInfo]
  · simp [RouterState.withMarks, RouterState.withInfo, e]

/-- An attempt writes marks only. -/
theorem Attempt.sameRecords (h : R.Attempt ρ c tid sync st st') : SameRecords st st' := by
  obtain ⟨st₁, success, st₂, hrip, hroute, hsame⟩ := h
  have hstart : SameRecords st (R.beginRoute c st₁) := sameRecords_of_info (ripup_frame hrip).2.1
  refine SameRecords.trans ?_ (sameRecords_of_info hsame.info)
  rcases routeOneConnection_cases hroute with ⟨-, f, -, rfl⟩ | ⟨-, m, k, path, -, -, rfl⟩
  · exact hstart.trans (sameRecords_withMarks _ tid f.marks)
  · exact (hstart.trans (sameRecords_withMarks _ tid m)).trans
      (sameRecords_of_info (commitRoute_frame ρ c sync k _).2.1)

theorem sameRecords_routeWorkerConnection (h : R.routeWorkerConnection tid c st = some st') :
    SameRecords st st' := by
  rcases routeWorkerConnection_attempt h with rfl | ⟨-, hatt⟩
  · exact fun _ _ => ⟨rfl, rfl⟩
  · exact hatt.sameRecords

theorem sameRecords_connections {l : List R.database.ConnId}
    (h : runAll (R.routeWorkerConnection tid) l (R.clearPreUsers n st) = some st') :
    SameRecords st st' := by
  have hclear : SameRecords st (R.clearPreUsers n st) := fun _ _ => ⟨rfl, rfl⟩
  exact runAll_invariant (I := SameRecords st)
    (fun _ _ _ _ hs ht => hs.trans (sameRecords_routeWorkerConnection ht)) hclear h

/-- A worker records for its own thread. -/
theorem routeWorkerNet_info (h : R.routeWorkerNet tid n st = some st') {t : Nat} (ht : t ≠ tid)
    (r : R.database.NodeId) (stamp : Int) :
    (st'.info t r).getOccChange stamp = (st.info t r).getOccChange stamp := by
  obtain ⟨u, hu, rfl⟩ := Option.map_eq_some_iff.1 h
  have hsame : SameRecords st u := sameRecords_connections hu
  have hinfo : ∀ i, (u.withInfo tid i).info t = u.info t := fun i => by
    simp [RouterState.withInfo, ht]
  rw [hinfo]
  exact hsame.getOccChange stamp t r

/-- A node is recorded as left only if the net had it on a route. -/
theorem recorded_ge {V : Type} [DecidableEq V] (before after : List V) (r : V) :
    -(if r ∈ before then 1 else 0) ≤ recorded before after r := by
  unfold recorded
  by_cases hb : r ∈ before
  · by_cases ha : r ∈ after <;> simp [hb, ha]
  · simp [hb]

/-- **The nets routed take no more off a node than they were counted there.** -/
theorem Pending.records : ∀ {work : List (Nat × R.database.NetId)} {P : R.database.NetId → Prop}
    {st st' : RouterState R.database}, Pending st g P → (work.map Prod.snd).Nodup →
    (∀ p ∈ work, ¬ P p.2) → runAll (fun p => R.routeWorkerNet p.1 p.2) work st = some st' →
    st'.loggedFailures = st.loggedFailures → ∀ t r,
    (st.info t r).getOccChange st.ctl.currentBatchStamp ≤
      (st'.info t r).getOccChange st'.ctl.currentBatchStamp +
        (work.map Prod.snd).countP fun n => decide (0 < g n r)
  | [], P, st, st', _, _, _, hrun, _, t, r => by
    cases hrun
    simp
  | (tid, n) :: work, P, st, st', h, hnd, hP, hrun, hlog, t, r => by
    rw [runAll_cons, Option.bind_eq_some_iff] at hrun
    obtain ⟨u, hu, hrun⟩ := hrun
    replace hu : R.routeWorkerNet tid n st = some u := hu
    rw [List.map_cons, List.nodup_cons] at hnd
    have hle := routeWorkerNet_log_le hu
    have hle' := runAll_mono (m := RouterState.loggedFailures)
      (fun _ _ _ => routeWorkerNet_log_le) hrun
    have hn : ¬P n := hP _ List.mem_cons_self
    have hstep := h.routeWorkerNet hn hu (by omega)
    have hrest := hstep.records hnd.2 (fun p hp hpn => ?_) hrun (by omega) t r
    · obtain ⟨hq, hocc⟩ := quiet_routeWorkerNet hu (by omega)
      have hcount : (if r ∈ R.routedNodes st n then 1 else 0 : Int) ≤
          if 0 < g n r then 1 else 0 := by
        by_cases hr : r ∈ R.routedNodes st n
        · have hpos : 0 < g n r := by
            rw [← h.untouched n hn]
            exact demand_pos_iff.2 (.inl hr)
          rw [if_pos hr, if_pos hpos]
        · rw [if_neg hr]
          split_ifs <;> decide
      have hself : (st.info t r).getOccChange st.ctl.currentBatchStamp ≤
          (u.info t r).getOccChange u.ctl.currentBatchStamp + if 0 < g n r then 1 else 0 := by
        by_cases e : t = tid
        · subst e
          have hrec := recorded_ge (R.routedNodes st n) (R.routedNodes u n) r
          rw [hocc r]
          omega
        · rw [routeWorkerNet_info hu e, hq.ctl]
          split_ifs <;> omega
      rw [List.map_cons, List.countP_cons]
      simp only [decide_eq_true_eq]
      push_cast
      omega
    · rcases hpn with hpn | hpn
      · exact hP p (List.mem_cons_of_mem _ hp) hpn
      · have hmem : p.2 ∈ work.map Prod.snd := List.mem_map_of_mem hp
        exact hnd.1 (hpn ▸ hmem)

end Records

/-! ## The searches of a run -/

variable (R) in
/-- The stamp of the batch is later than any that was given. -/
def InOrder (st : RouterState R.database) (batchId : Nat) : Prop :=
  st.ctl.currentBatchStamp < (R.setBatchStamp batchId st).ctl.currentBatchStamp

/-- What a thread reads of the nodes while others write: of a node that its own net uses, no occupancy
below one, as only this thread changes what the net uses. -/
def CountsOwnNet (ρ : Reads R.database.NodeId K) (s : RouterState R.database) (n : R.database.NetId) :
    Prop :=
  ∀ r, 0 < (s.net n).countConnectionsOfUser r → nodeCapacity ≤ ρ.occupancy (s.node r) r

variable (R) in
/-- Between two steps the router is in state `st`, and in the next one thread `tid` starts a search
for `c` in state `s`: at once, with other threads writing or not, or in the routing phase of a batch
where no attempt has failed before. -/
inductive SearchCall (st : RouterState R.database) (ρ : Reads R.database.NodeId K) :
    Nat → R.database.ConnId → Bool → RouterState R.database → Prop
  | immediate {ρ' : Reads R.database.NodeId K} {tid : Nat} {c : R.database.ConnId}
      {s : RouterState R.database} (hrip : R.ripup ρ' c false st = some s)
      (hreads : ρ = .own ∨ CountsOwnNet ρ (R.beginRoute c s) (R.database.netOf c)) :
      SearchCall st ρ tid c false (R.beginRoute c s)
  | batch {p : List (List R.database.NetId) × Nat} {routing : List (Nat × R.database.NetId)}
      {tid : Nat} {c : R.database.ConnId} {s s₁ : RouterState R.database} (hreads : ρ = .own)
      (hnodup : p.1.flatten.Nodup) (horder : R.InOrder st p.2)
      (hrouting : Interleaving (R.netThreads p.1) routing)
      (hcall : R.BatchCall routing (R.setBatchStamp p.2 st) tid c s)
      (hlog : s.loggedFailures = st.loggedFailures)
      (hrip : R.ripup .own c true (s.withConn c ((s.conn c).setRoutedThisIter false)) = some s₁) :
      SearchCall st ρ tid c true (R.beginRoute c s₁)

section Calls

variable {ρ ρ' : Reads R.database.NodeId K} {c : R.database.ConnId} {tid : Nat}
  {s s₁ : RouterState R.database}
  {routing : List (Nat × R.database.NetId)}

/-- After an immediate rip-up the net counts its other connections, and so do the nodes. -/
theorem ripup_counts (h : Settled ∅ st) (hrip : R.ripup ρ' c false st = some s) :
    (∀ r, 0 ≤ ((R.beginRoute c s).net (R.database.netOf c)).countConnectionsOfUser r) ∧
      CountsOwnNet .own (R.beginRoute c s) (R.database.netOf c) := by
  have hflight := h.ripup (Finset.notMem_empty c) hrip
  have hcount : ∀ r, ((R.beginRoute c s).net (R.database.netOf c)).countConnectionsOfUser r =
      R.demand (insert c ∅) s (R.database.netOf c) r := (hflight.counts.tallies _).count_eq
  refine ⟨fun r => ?_, fun r hpos => ?_⟩
  · rw [hcount]
    exact Int.natCast_nonneg _
  · have hocc : ((R.beginRoute c s).node r).occupancy = usersOf (R.demand (insert c ∅) s) r :=
      hflight.counts.occupancy r
    have hone := countP_le_usersOf (g := R.demand (insert c ∅) s) (a := r)
      (List.nodup_singleton (R.database.netOf c))
    rw [hcount] at hpos
    have hdem : 0 < R.demand (insert c ∅) s (R.database.netOf c) r := by omega
    simp only [List.countP_singleton, hdem, decide_true, ↓reduceIte] at hone
    show (1 : Int) ≤ ((R.beginRoute c s).node r).occupancy
    omega

/-- An immediate search finds its connection taken out of the counts. -/
theorem immediate_estimate (h : Settled ∅ st) (hrip : R.ripup ρ' c false st = some s)
    (hreads : ρ = .own ∨ CountsOwnNet ρ (R.beginRoute c s) (R.database.netOf c))
    (r : R.database.NodeId) :
    0 ≤ countSourceUses (R.beginRoute c s) (R.database.netOf c) false r ∧
      (0 < countSourceUses (R.beginRoute c s) (R.database.netOf c) false r →
        0 ≤ overOccupancy ρ (R.beginRoute c s) c tid false r) := by
  obtain ⟨hnonneg, hown⟩ := ripup_counts h hrip
  have hsees : CountsOwnNet ρ (R.beginRoute c s) (R.database.netOf c) := by
    rcases hreads with rfl | hreads
    · exact hown
    · exact hreads
  refine ⟨hnonneg r, fun hpos => ?_⟩
  have hocc := hsees r hpos
  have huses : countSourceUses (R.beginRoute c s) (R.database.netOf c) false r =
      ((R.beginRoute c s).net (R.database.netOf c)).countConnectionsOfUser r := rfl
  unfold overOccupancy
  rw [huses] at hpos ⊢
  simp only [Bool.false_eq_true, ↓reduceIte]
  split_ifs <;> omega

/-- **What holds where a thread comes to a connection in a batch.** -/
theorem BatchCall.pending (h : Settled ∅ st) (hnd : (routing.map Prod.snd).Nodup)
    (hfresh : ∀ t r, (st.info t r).getOccChange st.ctl.currentBatchStamp = 0)
    (hcall : R.BatchCall routing st tid c s) (hlog : s.loggedFailures = st.loggedFailures) :
    (∃ P, Pending s (R.demand ∅ st) P ∧ P (R.database.netOf c)) ∧ s.node = st.node ∧
      s.ctl = st.ctl ∧ ∀ r, (if 0 < R.demand ∅ st (R.database.netOf c) r then 1 else 0 : Int) ≤
        (s.node r).occupancy + (s.info tid r).getOccChange s.ctl.currentBatchStamp := by
  obtain ⟨pre, n, post, cs, ds, u, rfl, hconns, hpre, hcs⟩ := hcall
  obtain rfl : R.database.netOf c = n := R.database.netOf_eq (by rw [hconns]; simp)
  have hle := runAll_mono (m := RouterState.loggedFailures)
    (fun _ _ _ => routeWorkerNet_log_le) hpre
  have hle' := runAll_mono (m := RouterState.loggedFailures)
    (fun _ _ _ => routeWorkerConnection_log_le) hcs
  replace hle' : u.loggedFailures ≤ s.loggedFailures := hle'
  rw [List.map_append, List.map_cons] at hnd
  obtain ⟨hndpre, -, hdisj⟩ := List.nodup_append.1 hnd
  have hnew : R.database.netOf c ∉ pre.map Prod.snd := fun hmem =>
    hdisj _ hmem _ List.mem_cons_self rfl
  -- the nets before it are routed, and what they took off the nodes was counted there
  have hpend := h.pending.routing hndpre (fun _ _ hf => hf) hpre (by omega)
  have hrec := h.pending.records hndpre (fun _ _ hf => hf) hpre (by omega)
  obtain ⟨hnode, hctl⟩ := routing_frame hpre
  have hclear := hpend.clear (n := R.database.netOf c) fun hmem => hnew (hmem.resolve_left id)
  have hloop : Pending s (R.demand ∅ st)
      fun m => (False ∨ m ∈ pre.map Prod.snd) ∨ m = R.database.netOf c := by
    refine runAll_monitored (m := RouterState.loggedFailures)
      (I := fun s => Pending s (R.demand ∅ st)
        fun m => (False ∨ m ∈ pre.map Prod.snd) ∨ m = R.database.netOf c)
      (fun _ _ _ => routeWorkerConnection_log_le) ?_ hclear hcs
      (show s.loggedFailures = u.loggedFailures by omega)
    intro d hd v w hv hw hlog
    have hnet : R.database.netOf d = R.database.netOf c :=
      R.database.netOf_eq (by rw [hconns]; exact List.mem_append_left _ hd)
    exact hv.routeWorkerConnection (.inr hnet) hw hlog
  obtain ⟨hnode', hctl'⟩ : s.node = u.node ∧ s.ctl = u.ctl :=
    connections_frame hcs
  refine ⟨⟨_, hloop, .inr rfl⟩, hnode'.trans hnode, hctl'.trans hctl, fun r => ?_⟩
  have hsame : SameRecords u s := sameRecords_connections hcs
  have hcounted := countP_le_usersOf (g := R.demand ∅ st) (a := r)
    (l := R.database.netOf c :: pre.map Prod.snd) (List.nodup_cons.2 ⟨hnew, hndpre⟩)
  have hchange := hrec tid r
  rw [hfresh] at hchange
  rw [hsame.getOccChange, hctl', hnode', hnode, h.counts.occupancy]
  rw [List.countP_cons] at hcounted
  simp only [decide_eq_true_eq] at hcounted
  split_ifs at hcounted ⊢ <;> omega

/-- A deferred search finds its connection taken out of the maps of its net. -/
theorem batch_estimate {g : R.database.NetId → R.database.NodeId → Nat}
    {P : R.database.NetId → Prop} (h : Pending s g P) (hP : P (R.database.netOf c))
    (hrip : R.ripup .own c true s = some s₁) {r : R.database.NodeId}
    (hocc : (if 0 < g (R.database.netOf c) r then 1 else 0 : Int) ≤
      (s.node r).occupancy + (s.info tid r).getOccChange s.ctl.currentBatchStamp) :
    0 ≤ countSourceUses (R.beginRoute c s₁) (R.database.netOf c) true r ∧
      (0 < countSourceUses (R.beginRoute c s₁) (R.database.netOf c) true r →
        0 ≤ overOccupancy .own (R.beginRoute c s₁) c tid true r) := by
  obtain ⟨d, i, hd, hi, e⟩ := h.pending _ hP
  obtain ⟨hnode, hnet⟩ := ripup_net hrip
  obtain ⟨hctl, hinfo, -⟩ := ripup_frame hrip
  have hnet' : (R.beginRoute c s₁).net (R.database.netOf c) =
      (s.net (R.database.netOf c)).leaving (R.heldNodes s c) := by
    simp [beginRoute, hnet]
  have horigin : ((R.beginRoute c s₁).net (R.database.netOf c)).countConnectionsOfUser r =
      g (R.database.netOf c) r := by
    rw [hnet']
    exact (h.counts.tallies _).count_eq r
  have hheld : R.heldCount ∅ s c r = (R.heldNodes s c).count r := by simp [heldCount]
  have hle := heldCount_le ∅ s c r
  have huses : countSourceUses (R.beginRoute c s₁) (R.database.netOf c) true r =
      (R.demand ∅ s (R.database.netOf c) r : Int) - (R.heldNodes s c).count r := by
    unfold countSourceUses
    rw [if_pos rfl, horigin, hnet']
    simp only [NetUsers.getPreDecrementUser, NetUsers.getPreIncrementUser, NetUsers.leaving,
      hd.incrAll.count_eq, hi.count_eq]
    have := e r
    push_cast
    omega
  refine ⟨by omega, fun hpos => ?_⟩
  have hread : Reads.own.occupancy ((R.beginRoute c s₁).node r) r = (s.node r).occupancy := by
    rw [show (R.beginRoute c s₁).node = s.node from hnode]
    rfl
  have hrecord : ((R.beginRoute c s₁).info tid r).getOccChange
      (R.beginRoute c s₁).ctl.currentBatchStamp =
        (s.info tid r).getOccChange s.ctl.currentBatchStamp := by
    rw [show (R.beginRoute c s₁).info = s.info from hinfo,
      show (R.beginRoute c s₁).ctl = s.ctl from hctl]
  unfold overOccupancy
  simp only [horigin, hread, hrecord, nodeCapacity, ↓reduceIte]
  split_ifs at hocc ⊢ <;> omega

end Calls

/-! ## Runs -/

/-- No record is of a batch that is still to come. -/
def Recorded (st : RouterState R.database) : Prop :=
  ∀ t r, (st.info t r).occChangeBatchStamp ≤ st.ctl.currentBatchStamp

section Recorded

variable {ρ : Reads R.database.NodeId K} {c : R.database.ConnId} {tid : Nat} {sync : Bool}

theorem Recorded.congr (h : Recorded st) (hrec : SameRecords st st')
    (hctl : st'.ctl.currentBatchStamp = st.ctl.currentBatchStamp) : Recorded st' := by
  intro t r
  rw [(hrec t r).1, hctl]
  exact h t r

/-- A new batch starts without records. -/
theorem Recorded.fresh (h : Recorded st) {batchId : Nat} (horder : R.InOrder st batchId) (t : Nat)
    (r : R.database.NodeId) :
    ((R.setBatchStamp batchId st).info t r).getOccChange
      (R.setBatchStamp batchId st).ctl.currentBatchStamp = 0 := by
  have hle : ((R.setBatchStamp batchId st).info t r).occChangeBatchStamp ≤
      st.ctl.currentBatchStamp := h t r
  unfold NodeInfo.getOccChange
  exact if_pos (ne_of_gt (lt_of_le_of_lt hle horder))

/-- A record is stamped when it is written. -/
theorem recordOccChanges_stamp (stamp : Int) (before after : List R.database.NodeId)
    (info : R.database.NodeId → NodeInfo R.database.NodeId K) (r : R.database.NodeId) :
    (R.recordOccChanges stamp before after info r).occChangeBatchStamp =
        (info r).occChangeBatchStamp ∨
      (R.recordOccChanges stamp before after info r).occChangeBatchStamp = stamp := by
  have hinc : ∀ i : NodeInfo R.database.NodeId K,
      (i.incOccChange stamp).occChangeBatchStamp = stamp := by
    intro i
    unfold NodeInfo.incOccChange
    split_ifs with h
    · rfl
    · exact (not_not.1 h).symm
  have hdec : ∀ i : NodeInfo R.database.NodeId K,
      (i.decOccChange stamp).occChangeBatchStamp = stamp := by
    intro i
    unfold NodeInfo.decOccChange
    split_ifs with h
    · rfl
    · exact (not_not.1 h).symm
  let Stamped (i : NodeInfo R.database.NodeId K) : Prop := i.occChangeBatchStamp = stamp
  unfold recordOccChanges
  rcases foldl_update_cases (P := Stamped) hdec (· ∈ after) before.dedup _ r with h | h
  · rw [h]
    rcases foldl_update_cases (P := Stamped) hinc (· ∈ before) after info r with h | h
    · rw [h]
      exact .inl rfl
    · exact .inr h
  · exact .inr h

theorem Recorded.routeWorkerNet {n : R.database.NetId} (h : Recorded st)
    (hstep : R.routeWorkerNet tid n st = some st') : Recorded st' := by
  have hctl := (routeWorkerNet_frame hstep).2
  obtain ⟨u, hu, rfl⟩ := Option.map_eq_some_iff.1 hstep
  have hsame : SameRecords st u := sameRecords_connections hu
  have hold : ∀ t r, (u.info t r).occChangeBatchStamp ≤ u.ctl.currentBatchStamp := by
    intro t r
    rw [(hsame t r).1, show u.ctl = st.ctl from hctl]
    exact h t r
  intro t r
  by_cases e : t = tid
  · subst e
    have hwritten := recordOccChanges_stamp u.ctl.currentBatchStamp
      (R.routedNodes (R.clearPreUsers n st) n) (R.routedNodes u n) (u.info t) r
    simp only [RouterState.withInfo, Function.update_self]
    rcases hwritten with heq | heq
    · rw [heq]
      exact hold t r
    · exact le_of_eq heq
  · simp only [RouterState.withInfo, Function.update_of_ne e]
    exact hold t r

end Recorded

section Steps

variable {call : Nat → R.database.ConnId → RouterState R.database → Prop}

theorem StableStep.recorded (hstep : R.StableStep call R.InOrder st st') (h : Recorded st) :
    Recorded st' := by
  cases hstep with
  | beginIteration => exact h
  | @batch p routing commits costs _ _ _ horder _ _ _ _ hrun =>
    obtain ⟨st₁, hroute, hctl, hinfo⟩ := runBatch_frame hrun
    have hstamped : Recorded (R.setBatchStamp p.2 st) := fun t r =>
      le_of_lt (lt_of_le_of_lt (h t r) horder)
    have hrouted : Recorded st₁ :=
      runAll_invariant (I := Recorded) (fun q _ s t hs ht => hs.routeWorkerNet ht) hstamped hroute
    exact hrouted.congr (sameRecords_of_info hinfo) (by rw [hctl])
  | tree _ hrun =>
    rcases routeConnection_cases hrun with rfl | ⟨-, hatt⟩
    · exact h
    · exact h.congr hatt.sameRecords (by rw [hatt.ctl])
  | refresh =>
    obtain ⟨hctl, hinfo⟩ := dynamicCostFactorUpdating_frame (R.judgeCongestion st)
    refine h.congr (sameRecords_of_info ?_) ?_
    · rw [hinfo, (judgeCongestion_frame st).2.2.2.1]
    · rw [hctl]
      unfold updateFactors judgeCongestion
      dsimp only
      split_ifs <;> rfl
  | leaveOverlapRouting => exact h

/-- **The batches of an iteration come in order**, from the first on, and the next iteration starts with
a later stamp. -/
theorem batches_inOrder : ∀ {batches : List (List (List R.database.NetId))} {k : Nat}
    {st st' : RouterState R.database}, (∀ b ∈ batches, b.flatten.Nodup) →
    st.ctl.currentBatchStamp < st.ctl.iter * R.numBatches + k →
    Runs R.Batch (batches.zipIdx k) st st' →
    Relation.ReflTransGen (R.StableStep (fun _ _ _ => True) R.InOrder) st st' ∧
      st'.ctl.iter = st.ctl.iter ∧
      st'.ctl.currentBatchStamp < st.ctl.iter * R.numBatches + (k + batches.length : Nat)
  | [], k, st, st', _, hstamp, hrun => by
    cases hrun
    exact ⟨.refl, rfl, hstamp⟩
  | b :: batches, k, st, st', hnodup, hstamp, hrun => by
    rw [List.zipIdx_cons] at hrun
    obtain _ | ⟨hbatch, hrest⟩ := hrun
    rename_i u
    obtain ⟨routing, commits, costs, hrouting, hcommits, hcosts, hrun⟩ := hbatch
    have hstep : R.StableStep (fun _ _ _ => True) R.InOrder st u :=
      StableStep.batch (p := (b, k)) (hnodup b List.mem_cons_self) hstamp hrouting hcommits hcosts
        (fun _ _ _ _ _ => trivial) hrun
    obtain ⟨v, hroute, hctl, -⟩ := runBatch_frame hrun
    replace hctl : u.ctl = (R.setBatchStamp k st).ctl := hctl.trans (routing_frame hroute).2
    have hiter : u.ctl.iter = st.ctl.iter := by
      rw [hctl]
      rfl
    have hnext : u.ctl.currentBatchStamp < u.ctl.iter * R.numBatches + (k + 1 : Nat) := by
      rw [hctl]
      simp only [setBatchStamp]
      push_cast
      omega
    obtain ⟨hsteps, hiter', hend⟩ :=
      batches_inOrder (fun x hx => hnodup x (List.mem_cons_of_mem b hx)) hnext hrest
    refine ⟨.head hstep hsteps, hiter'.trans hiter, ?_⟩
    rw [hiter] at hend
    rw [List.length_cons]
    push_cast at hend ⊢
    omega

/-- A step in which no attempt fails keeps the accounting. -/
theorem StableStep.achieves {batch : RouterState R.database → Nat → Prop}
    (hstep : R.StableStep call batch st st') : Achieves (Settled ∅) ∅ st st' := by
  cases hstep with
  | beginIteration => exact .of_conn rfl rfl fun hs => hs.congr rfl rfl fun _ => rfl
  | @batch p routing commits costs _ _ hnodup _ hrouting hcommits hcosts _ hrun =>
    exact (achieves_batch hnodup ⟨routing, commits, costs, hrouting, hcommits, hcosts, hrun⟩).mono
      (Set.empty_subset _)
  | tree _ hrun => exact (achieves_routeConnection hrun).mono (Set.empty_subset _)
  | refresh => exact achieves_update st
  | leaveOverlapRouting => exact .of_conn rfl rfl fun hs => hs.congr rfl rfl fun _ => rfl

end Steps

/-! ### Runs of both modes -/

variable (R) in
/-- The steps of a run of either mode: those of a stable-first run, and a connection that is ripped up
and routed at once, by any thread and whatever it reads of the nodes. -/
inductive MixedStep : RouterState R.database → RouterState R.database → Prop
  | stable {st st' : RouterState R.database}
      (hstep : R.StableStep (fun _ _ _ => True) R.InOrder st st') : MixedStep st st'
  | immediate {ρ : Reads R.database.NodeId K} {c : R.database.ConnId} {tid : Nat}
      {st st₁ st' : RouterState R.database} (hrip : R.ripup ρ c false st = some st₁)
      (hroute : R.routeOneConnection ρ c tid false st₁ = some (true, st')) : MixedStep st st'

section Mixed

/-- A rip-up and a search that succeeds. -/
theorem attempt_of_route {ρ : Reads R.database.NodeId K} {c : R.database.ConnId} {tid : Nat}
    {sync success : Bool} {st₁ : RouterState R.database} (hrip : R.ripup ρ c sync st = some st₁)
    (hroute : R.routeOneConnection ρ c tid sync st₁ = some (success, st')) :
    R.Attempt ρ c tid sync st st' :=
  ⟨st₁, success, st', hrip, hroute, rfl, rfl, rfl, rfl, rfl⟩

/-- Where no attempt has failed, every net and every thread has its books in order. -/
theorem settled_of_run {st₁ : RouterState R.database}
    (hrun : Relation.ReflTransGen R.MixedStep st₁ st) :
    Achieves (Settled ∅) ∅ st₁ st ∧ (Recorded st₁ → Recorded st) := by
  induction hrun with
  | refl => exact ⟨.of_conn rfl rfl fun hs => hs, id⟩
  | tail _ hstep ih =>
    obtain ⟨hachieves, hrecorded⟩ := ih
    cases hstep with
    | stable hstep =>
      exact ⟨(hachieves.trans hstep.achieves).mono (Set.empty_subset _),
        fun h => hstep.recorded (hrecorded h)⟩
    | immediate hrip hroute =>
      have hatt := attempt_of_route hrip hroute
      refine ⟨(hachieves.trans (achieves_reroute (I := Settled ∅) hrip hroute rfl (fun _ hd => hd)
        fun hs => hs.reroute hrip hroute)).mono (Set.empty_subset _), fun h => ?_⟩
      exact (hrecorded h).congr hatt.sameRecords (by rw [hatt.ctl])

/-- **No cost falls below one**, in exact arithmetic. -/
theorem floored_of_run [ExactArith K] (hrefl : ∀ x : K, x ≤ x)
    (hmax : ((0 : Int) : K) ≤ R.maxPresentCongestionFactor) {st₁ : RouterState R.database}
    (hrun : Relation.ReflTransGen R.MixedStep st₁ st) (hfactors : FactorsOk st₁.ctl)
    (h : Floored st₁) : FactorsOk st.ctl ∧ Floored st := by
  induction hrun with
  | refl => exact ⟨hfactors, h⟩
  | tail _ hstep ih =>
    obtain ⟨hfactors, h⟩ := ih
    cases hstep with
    | stable hstep =>
      have hnext := hstep.factorsOk hmax hfactors
      exact ⟨hnext, hstep.floored hrefl hnext h⟩
    | immediate hrip hroute =>
      have hatt := attempt_of_route hrip hroute
      refine ⟨?_, h.attempt hrefl hatt⟩
      rw [hatt.ctl]
      exact hfactors

end Mixed

section Assertions

variable {ρ : Reads R.database.NodeId K} {c : R.database.ConnId} {tid : Nat} {sync : Bool}
  {s : RouterState R.database}

/-- **The users and the overuse that a search reckons with.** -/
theorem SearchCall.overOccupancy_nonneg (hcall : R.SearchCall st ρ tid c sync s)
    (h : Settled ∅ st) (hrec : Recorded st) (r : R.database.NodeId) :
    0 ≤ countSourceUses s (R.database.netOf c) sync r ∧
      (0 < countSourceUses s (R.database.netOf c) sync r → 0 ≤ overOccupancy ρ s c tid sync r) := by
  cases hcall with
  | immediate hrip hreads => exact immediate_estimate h hrip hreads r
  | @batch p routing _ _ s s₁ hreads hnodup horder hrouting hcall hlog hrip =>
    subst hreads
    have hsettled : Settled ∅ (R.setBatchStamp p.2 st) := h.congr rfl rfl fun _ => rfl
    obtain ⟨⟨P, hpend, hP⟩, -, -, hocc⟩ :=
      hcall.pending hsettled ((map_snd_perm hrouting).nodup_iff.2 hnodup) (hrec.fresh horder) hlog
    have hflag : Pending (s.withConn c ((s.conn c).setRoutedThisIter false)) _ P :=
      hpend.congr rfl rfl fun d => setRoutedThisIter_conn s c d false
    exact batch_estimate hflag hP hrip (hocc r)

/-- The costs that a search finds. -/
theorem SearchCall.floored [ExactArith K] (hrefl : ∀ x : K, x ≤ x)
    (hcall : R.SearchCall st ρ tid c sync s) (h : Floored st) : Floored s := by
  cases hcall with
  | immediate hrip _ =>
    have hripped := h.ripup hrefl hrip
    exact ⟨hripped.factor, hripped.cost⟩
  | @batch p routing _ _ s s₁ _ _ _ _ hcall _ hrip =>
    obtain ⟨pre, n, post, cs, ds, u, -, -, hpre, hcs⟩ := hcall
    obtain ⟨hnode, hctl⟩ := routing_frame hpre
    obtain ⟨hnode', hctl'⟩ : s.node = u.node ∧ s.ctl = u.ctl := connections_frame hcs
    have hnodes : (R.beginRoute c s₁).node = st.node :=
      ((ripup_net hrip).1.trans hnode').trans hnode
    have hctls : (R.beginRoute c s₁).ctl = (R.setBatchStamp p.2 st).ctl :=
      ((ripup_frame hrip).1.trans hctl').trans hctl
    refine h.congr hnodes ?_
    rw [hctls]
    rfl

/-- Congestion makes no child cheaper. -/
theorem one_le_congestionOf [ExactArith K] (h : Floored s) {r : R.database.NodeId}
    (hreads : ρ = .own ∨ ((1 : Int) : K) ≤ ρ.presentCongestionCost (s.node r) r)
    (huses : 0 ≤ countSourceUses s (R.database.netOf c) sync r)
    (hover : 0 < countSourceUses s (R.database.netOf c) sync r → 0 ≤ overOccupancy ρ s c tid sync r) :
    ((1 : Int) : K) ≤ congestionOf ρ s c tid sync r := by
  unfold congestionOf
  split_ifs with hzero
  · rw [ExactArith.toFloat_eq, ExactArith.toFloat_eq]
    exact ExactArith.le_add _ _ (ExactArith.mul_nonneg _ _
      (ExactArith.intCast_nonneg _ (hover (lt_of_le_of_ne huses (Ne.symm hzero)))) h.factor)
  · rcases hreads with rfl | hreads
    · exact h.cost r
    · exact hreads

/-- **The cost assertions hold in every search of every run in which no attempt fails**, of either mode
and by any thread. A net counts no less than zero users of a child; where it counts some, the overuse
it reckons with is not negative. In exact arithmetic, with base costs and historical costs that are not
negative, congestion is no less than one and no assertion on a child fires. A thread that reads what
others write must read a cost that some thread has written, so no less than one. -/
theorem searchCall_assertions {isRoutedThisIter : R.database.ConnId → Bool}
    {routedConnectionNum failRouteNum : Int} {st₁ : RouterState R.database}
    (hstart : R.updateSinkNodeUsage
      (.init (fun _ => false) isRoutedThisIter routedConnectionNum failRouteNum) = some st₁)
    (hrun : Relation.ReflTransGen R.MixedStep st₁ st)
    (hlog : st.loggedFailures = st₁.loggedFailures) (hcall : R.SearchCall st ρ tid c sync s)
    (r : R.database.NodeId) :
    0 ≤ countSourceUses s (R.database.netOf c) sync r ∧
      (0 < countSourceUses s (R.database.netOf c) sync r → 0 ≤ overOccupancy ρ s c tid sync r) ∧
      (ExactArith K → (∀ x : K, x ≤ x) →
        ((0 : Int) : K) ≤ R.maxPresentCongestionFactor → ((0 : Int) : K) ≤ R.sharingWeight →
        R.database.Boxed → R.database.layout = .set 0 0 108 300 →
        ((0 : Int) : K) ≤ (R.database.routeNodes r).baseCost →
        ((0 : Int) : K) ≤ (s.node r).historicalCongestionCost →
        (ρ = .own ∨ ((1 : Int) : K) ≤ ρ.presentCongestionCost (s.node r) r) →
        (∀ a, ((1 : Int) : K) ≤ (s.node a).presentCongestionCost) ∧
          ((1 : Int) : K) ≤ congestionOf ρ s c tid sync r ∧
          ∀ isTarget, R.evaluateChild ρ s c tid sync r isTarget ≠ .halt) := by
  have hfresh : Fresh (R := R)
      (.init (fun _ => false) isRoutedThisIter routedConnectionNum failRouteNum) :=
    ⟨fun _ => rfl, fun _ => rfl, fun _ => rfl, fun _ => rfl⟩
  obtain ⟨hctl, hinfo⟩ := updateSinkNodeUsage_frame hstart
  obtain ⟨hachieves, hrecords⟩ := settled_of_run hrun
  have hsettled : Settled ∅ st := hachieves.keeps hlog (hfresh.settled hstart)
  have hrecorded : Recorded st := by
    refine hrecords fun t a => ?_
    rw [hctl, hinfo]
    exact le_refl _
  obtain ⟨huses, hover⟩ := hcall.overOccupancy_nonneg hsettled hrecorded r
  refine ⟨huses, hover, ?_⟩
  intro hexact hrefl hmax hsharing hboxed hlayout hbase hhist hreads
  have hfactors : FactorsOk st₁.ctl := by
    rw [hctl]
    exact factorsOk_init
  have hinit : Floored (R := R)
      (.init (fun _ => false) isRoutedThisIter routedConnectionNum failRouteNum) :=
    ⟨factorsOk_init.factor, fun _ => hrefl _⟩
  obtain ⟨-, hfloored⟩ :=
    floored_of_run hrefl hmax hrun hfactors (hinit.updateSinkNodeUsage hrefl hstart)
  have hcosts := hcall.floored hrefl hfloored
  have hone : ((1 : Int) : K) ≤ congestionOf ρ s c tid sync r :=
    one_le_congestionOf hcosts hreads huses hover
  refine ⟨hcosts.cost, hone, evaluateChild_ne_halt huses
    (ExactArith.le_trans _ _ _ ExactArith.one_nonneg hone) hbase hhist hsharing ?_⟩
  exact le_of_lt (hboxed.doubleHpwl_pos hlayout (List.ne_nil_of_mem (R.database.mem_conns_netOf c)))

end Assertions

/-! ## The second search of a fork -/

/-- A fork with the boxes that the netlist reader computes. -/
abbrev boxedFork : AStarRoute ℚ :=
  { fork 1 with
    database := (fork 1).database.boxed 3 15
    queue := scanQueue _ ℚ }

abbrev boxedFork.source : boxedFork.database.NodeId := (idx 0 : Fin 3)
abbrev boxedFork.net : boxedFork.database.NetId := (idx 0 : Fin 1)
abbrev boxedFork.first : boxedFork.database.ConnId := (idx 0 : Fin 2)
abbrev boxedFork.second : boxedFork.database.ConnId := (idx 1 : Fin 2)

open boxedFork in
/-- Thread 1 routes the second connection at once. A batch comes to it again, where the first path has
been noted at the source. -/
theorem exists_searchCall_fork :
    ∃ st₁ ∈ boxedFork.updateSinkNodeUsage (.init (fun _ => false) (fun _ => false) 0 0),
      ∃ u ∈ boxedFork.ripup .own second false (boxedFork.beginIteration st₁),
      ∃ q ∈ boxedFork.routeOneConnection .own second 1 false u,
      q.1 = true ∧ q.2.loggedFailures = st₁.loggedFailures ∧
      q.2.ctl.currentBatchStamp < (boxedFork.setBatchStamp 0 q.2).ctl.currentBatchStamp ∧
      ∃ s ∈ boxedFork.routeWorkerConnection 0 first
        (boxedFork.clearPreUsers net (boxedFork.setBatchStamp 0 q.2)),
      s.loggedFailures = q.2.loggedFailures ∧
      ∃ s₁ ∈ boxedFork.ripup .own second true
        (s.withConn second ((s.conn second).setRoutedThisIter false)),
      countSourceUses (boxedFork.beginRoute second s₁) net true source = 1 ∧
      0 ≤ ((boxedFork.beginRoute second s₁).node source).historicalCongestionCost := by
  decide +kernel

open boxedFork in
theorem searchCall_assertions_fork :
    ∃ st s : RouterState boxedFork.database, boxedFork.SearchCall st .own 0 second true s ∧
      countSourceUses s net true source = 1 ∧ 0 ≤ overOccupancy .own s second 0 true source ∧
      1 ≤ congestionOf .own s second 0 true source ∧
      ∀ isTarget, boxedFork.evaluateChild .own s second 0 true source isTarget ≠ .halt := by
  obtain ⟨st₁, hstart, u, hrip', ⟨success, st⟩, hroute', rfl, hlog', horder, s, hfirst, hlog, s₁, hrip,
    huses, hhist⟩ := exists_searchCall_fork
  have hboxed : boxedFork.database.Boxed :=
    ⟨(fork 1).database, 3, 15, rfl, by decide, by decide, by decide⟩
  have hrun : Relation.ReflTransGen boxedFork.MixedStep st₁ st :=
    .tail (.single (.stable (.beginIteration st₁))) (.immediate hrip' hroute')
  have hroute : boxedFork.BatchCall [(0, net)] (boxedFork.setBatchStamp 0 st) 0 second s := by
    refine ⟨[], net, [], [first], [], _, rfl, by decide +kernel, rfl, ?_⟩
    rw [runAll_cons, hfirst]
    rfl
  have hcall : boxedFork.SearchCall st .own 0 second true (boxedFork.beginRoute second s₁) :=
    .batch (p := ([[net]], 0)) rfl (List.nodup_singleton _) horder (.flatten _) hroute hlog hrip
  obtain ⟨-, hover, hcost⟩ := searchCall_assertions hstart hrun hlog' hcall source
  obtain ⟨-, hone, hhalt⟩ := hcost inferInstance (fun x => le_refl x) (by decide) (by decide) hboxed rfl
    (by decide) hhist (.inl rfl)
  have hpos : 0 < countSourceUses (boxedFork.beginRoute second s₁) net true source := by
    rw [huses]
    decide
  exact ⟨_, _, hcall, huses, hover hpos, hone, hhalt⟩

end AStarRoute

end Potter
