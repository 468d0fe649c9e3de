import Potter.Route.Accounting

/-!
# Usage accounting over batches and runs

During the routing phase of a batch the counts do not move. For a net that was routed in it, the
demand of its new routes is the count at the start, less what its pre-decrement map holds, plus what
its pre-increment map holds (`NetPending`); the other nets are as before. The second phase settles
one net after the other, in any order (`Pending.updateNet`).

A run mixes immediate steps and batches; every state between them is settled (`Run.settled`).
-/

namespace Potter

open Lib

namespace AStarRoute

variable {K : Type} [Arith K] {R : AStarRoute K} {st st' : RouterState R.database}

/-! ## The maps of a net in flight -/

section Maps

variable {n : R.database.NetId}

theorem withNet_withNet (u v : NetUsers R.database.NodeId) :
    (st.withNet n u).withNet n v = st.withNet n v := by
  simp [RouterState.withNet]

theorem withNet_self : st.withNet n (st.net n) = st := by
  simp [RouterState.withNet]

/-- A run of pre-decrements enters the nodes in one map. -/
theorem runAll_preDecrement : ∀ {l : List R.database.NodeId} {st st' : RouterState R.database},
    runAll (R.preDecrement n) l st = some st' →
    st' = st.withNet n ((st.net n).leaving l)
  | [], st, st', h => by
    cases h
    exact withNet_self.symm
  | r :: l, st, st', h => by
    rw [runAll_cons, Option.bind_eq_some_iff] at h
    obtain ⟨t, ht, h⟩ := h
    obtain ⟨u, hu, rfl⟩ := Option.map_eq_some_iff.1 ht
    simp only [NetUsers.preDecrementUser] at hu
    split at hu
    · cases hu
      rw [runAll_preDecrement h, withNet_withNet]
      simp [NetUsers.leaving, Tally.incrAll]
    · cases hu

/-- Pre-increments enter the nodes in the other map. -/
theorem foldl_preIncrement : ∀ (l : List R.database.NodeId) (st : RouterState R.database),
    l.foldl (R.preIncrement n) st = st.withNet n ((st.net n).entering l)
  | [], st => withNet_self.symm
  | r :: l, st => by
    rw [List.foldl_cons, foldl_preIncrement l, preIncrement, withNet_withNet]
    simp [NetUsers.entering, Tally.incrAll, NetUsers.preIncrementUser]

end Maps

/-- The demand of net `n` differs from its count by the two maps. -/
def NetPending (st : RouterState R.database) (g : R.database.NetId → R.database.NodeId → Nat)
    (n : R.database.NetId) : Prop :=
  ∃ d i : R.database.NodeId → Nat,
    Tally.Tallies (st.net n).userConnectionToDecrement d ∧
      Tally.Tallies (st.net n).userConnectionToIncrement i ∧
      ∀ r, R.demand ∅ st n r + d r = g n r + i r

/-- What holds in the routing phase: the counts are those of its start, `g`, and the nets of `P`
have been routed. -/
structure Pending (st : RouterState R.database) (g : R.database.NetId → R.database.NodeId → Nat)
    (P : R.database.NetId → Prop) : Prop where
  routes : Routes st
  counts : Counts st g
  pending : ∀ n, P n → NetPending st g n
  untouched : ∀ n, ¬ P n → R.demand ∅ st n = g n

/-! ## The routing phase -/

section Routing

variable {ρ : Reads R.database.NodeId K} {c : R.database.ConnId} {tid : Nat} {sync : Bool}
  {st₁ : RouterState R.database} {g : R.database.NetId → R.database.NodeId → Nat}
  {P : R.database.NetId → Prop}

/-- A deferred rip-up touches one map of its net only. -/
theorem ripup_net (hrip : R.ripup ρ c true st = some st₁) :
    st₁.node = st.node ∧ st₁.net = Function.update st.net (R.database.netOf c)
      ((st.net (R.database.netOf c)).leaving (R.heldNodes st c)) := by
  simp only [AStarRoute.ripup] at hrip
  split at hrip
  · cases hrip
  · simp only [↓reduceIte, Option.map_eq_some_iff] at hrip
    obtain ⟨t, ht, rfl⟩ := hrip
    obtain rfl := runAll_preDecrement ht
    exact ⟨rfl, rfl⟩

/-- A deferred rip-up and search touch the two maps of their net only. -/
theorem reroute_net (hrip : R.ripup ρ c true st = some st₁)
    (hroute : R.routeOneConnection ρ c tid true st₁ = some (true, st')) :
    st'.node = st.node ∧ st'.net = Function.update st.net (R.database.netOf c)
      (((st.net (R.database.netOf c)).leaving (R.heldNodes st c)).entering
        (st'.conn c).rnodes) := by
  obtain ⟨marks, k, path, -, rfl⟩ := routeOneConnection_true hroute
  obtain ⟨hnode, hnet⟩ := ripup_net hrip
  simp only [commitRoute, foldl_preIncrement, ↓reduceIte, appendPath, beginRoute,
    RouterState.withConn_conn, RouterState.withConn_net, RouterState.withConn_node,
    RouterState.withNet_node, RouterState.withNet_net, RouterState.withMarks_conn,
    RouterState.withMarks_net, RouterState.withMarks_node, RouterState.withNet_conn,
    hnode, hnet, Function.update_self, Function.update_idem, and_self]

/-- The nets other than that of a rerouted connection stay as they are, and so does their demand. -/
theorem NetPending.congr {n : R.database.NetId} (h : NetPending st g n)
    (hnet : st'.net n = st.net n) (hdem : R.demand ∅ st' n = R.demand ∅ st n) :
    NetPending st' g n := by
  obtain ⟨d, i, hd, hi, e⟩ := h
  exact ⟨d, i, by rw [hnet]; exact hd, by rw [hnet]; exact hi, by rw [hdem]; exact e⟩

theorem Pending.reroute (h : Pending st g P) (hP : P (R.database.netOf c))
    (hrip : R.ripup ρ c true st = some st₁)
    (hroute : R.routeOneConnection ρ c tid true st₁ = some (true, st')) : Pending st' g P := by
  obtain ⟨hpath, hr, hother⟩ := reroute_conn hrip hroute
  have hother' : ∀ d, d ≠ c → st'.conn d = st₁.conn d := fun d hd => by
    rw [hother d hd, ripup_conn hrip, Function.update_of_ne hd]
  obtain ⟨hnode, hnet⟩ := reroute_net hrip hroute
  have hheld : ∀ d, d ≠ c → R.heldCount ∅ st' d = R.heldCount ∅ st d := fun d hd =>
    heldCount_congr (by rw [hother d hd]) Iff.rfl
  refine ⟨(h.routes.ripup hrip).route hpath hr hother', h.counts.congr (fun m => ?_)
    (fun r => by rw [hnode]), fun m hm => ?_, fun m hm => ?_⟩
  · rw [hnet]
    by_cases e : m = R.database.netOf c
    · subst e
      rw [Function.update_self]
      rfl
    · rw [Function.update_of_ne e]
  · by_cases e : m = R.database.netOf c
    · subst e
      obtain ⟨d, i, hd, hi, eq⟩ := h.pending _ hP
      refine ⟨fun r => d r + (R.heldNodes st c).count r,
        fun r => i r + (st'.conn c).rnodes.count r, ?_, ?_, fun r => ?_⟩
      · rw [hnet, Function.update_self]
        exact hd.incrAll
      · rw [hnet, Function.update_self]
        exact hi.incrAll
      · have hrep := demand_replace hheld r
        simp only [heldCount, Finset.notMem_empty, ↓reduceIte, heldNodes_of_isPath hpath] at hrep
        have := eq r
        dsimp only
        omega
    · exact (h.pending m hm).congr (by rw [hnet, Function.update_of_ne e]) (demand_other hheld e)
  · have e : m ≠ R.database.netOf c := fun e => hm (e ▸ hP)
    rw [demand_other hheld e]
    exact h.untouched m hm

/-! ### The log -/

theorem ripup_loggedFailures (h : R.ripup ρ c sync st = some st') :
    st'.loggedFailures = st.loggedFailures := by
  simp only [AStarRoute.ripup] at h
  split at h
  · cases h
  · obtain ⟨t, ht, rfl⟩ := Option.map_eq_some_iff.1 h
    cases sync with
    | false =>
      cases ht
      exact foldl_frame (f := R.leaveNode ρ (R.database.netOf c)) (p := RouterState.loggedFailures)
        (fun _ _ => rfl) _ _
    | true => rw [runAll_preDecrement ht]; rfl

theorem routeOneConnection_loggedFailures {b : Bool}
    (h : R.routeOneConnection ρ c tid sync st = some (b, st')) :
    st'.loggedFailures = st.loggedFailures := by
  cases b with
  | false =>
    obtain ⟨marks, rfl⟩ := routeOneConnection_false h
    rfl
  | true =>
    obtain ⟨marks, k, path, -, rfl⟩ := routeOneConnection_true h
    cases sync with
    | false =>
      simp only [commitRoute, Bool.false_eq_true, ↓reduceIte, updateUsersAndPresentCongestionCost]
      exact foldl_frame (f := R.useNode ρ (R.database.netOf c)) (p := RouterState.loggedFailures)
        (fun _ _ => rfl) _ _
    | true =>
      simp only [commitRoute, ↓reduceIte, foldl_preIncrement]
      rfl

theorem isRouted_of_not_shouldRoute (h : ¬R.shouldRoute ρ st c = true) :
    (st.conn c).isRouted = true := by
  unfold shouldRoute at h
  rw [Bool.or_eq_true, not_or, Bool.not_eq_true'] at h
  exact Bool.eq_true_of_not_eq_false h.1

/-- The flag of the iteration says nothing about the route. -/
theorem setRoutedThisIter_conn (st : RouterState R.database) (c d : R.database.ConnId) (b : Bool) :
    ((st.withConn c ((st.conn c).setRoutedThisIter b)).conn d).rnodes = (st.conn d).rnodes ∧
      ((st.withConn c ((st.conn c).setRoutedThisIter b)).conn d).isRouted =
        (st.conn d).isRouted := by
  by_cases e : d = c
  · subst e
    simp [ConnState.setRoutedThisIter]
  · simp [e]

/-- What becomes of a connection in the loop of `routeWorker`: it is routed and left alone, rerouted,
or its failure is logged. -/
theorem routeWorkerConnection_cases (h : R.routeWorkerConnection tid c st = some st') :
    (st' = st.withConn c ((st.conn c).setRoutedThisIter false) ∧ (st.conn c).isRouted = true ∨
      ∃ st₁, R.ripup .own c true (st.withConn c ((st.conn c).setRoutedThisIter false)) = some st₁ ∧
        R.routeOneConnection .own c tid true st₁ = some (true, st')) ∧
      st'.loggedFailures = st.loggedFailures ∨
    st'.loggedFailures = st.loggedFailures + 1 := by
  simp only [routeWorkerConnection] at h
  split at h
  · obtain ⟨t, ht, h⟩ := Option.bind_eq_some_iff.1 h
    obtain ⟨⟨success, u⟩, hu, rfl⟩ := Option.map_eq_some_iff.1 h
    have hlog := (routeOneConnection_loggedFailures hu).trans (ripup_loggedFailures ht)
    cases success with
    | true => exact Or.inl ⟨Or.inr ⟨t, ht, hu⟩, hlog⟩
    | false =>
      right
      show u.loggedFailures + 1 = st.loggedFailures + 1
      rw [hlog]
      rfl
  · rename_i hnot
    cases h
    refine Or.inl ⟨Or.inl ⟨rfl, ?_⟩, rfl⟩
    rw [← (setRoutedThisIter_conn st c c false).2]
    exact isRouted_of_not_shouldRoute hnot

theorem routeWorkerConnection_log_le (h : R.routeWorkerConnection tid c st = some st') :
    st.loggedFailures ≤ st'.loggedFailures := by
  rcases routeWorkerConnection_cases h with ⟨-, e⟩ | e <;> omega

/-! ### Connections, nets and lists of nets -/

theorem Pending.congr (h : Pending st g P) (hnode : st'.node = st.node) (hnet : st'.net = st.net)
    (hconn : ∀ c, (st'.conn c).rnodes = (st.conn c).rnodes ∧
      (st'.conn c).isRouted = (st.conn c).isRouted) : Pending st' g P := by
  have hdem : ∀ n, R.demand ∅ st' n = R.demand ∅ st n := fun n =>
    demand_congr fun c _ => heldCount_congr (hconn c).1 Iff.rfl
  exact ⟨h.routes.congr hconn, h.counts.congr (fun m => by rw [hnet]) (fun r => by rw [hnode]),
    fun n hn => (h.pending n hn).congr (by rw [hnet]) (hdem n),
    fun n hn => (hdem n).trans (h.untouched n hn)⟩

theorem Pending.routeWorkerConnection (h : Pending st g P) (hP : P (R.database.netOf c))
    (hstep : R.routeWorkerConnection tid c st = some st')
    (hlog : st'.loggedFailures = st.loggedFailures) : Pending st' g P := by
  have hflag : Pending (st.withConn c ((st.conn c).setRoutedThisIter false)) g P :=
    h.congr rfl rfl fun d => setRoutedThisIter_conn st c d false
  rcases routeWorkerConnection_cases hstep with ⟨⟨rfl, -⟩ | ⟨st₁, hrip, hroute⟩, -⟩ | e
  · exact hflag
  · exact hflag.reroute hP hrip hroute
  · omega

/-- A net that has not been routed in the batch joins the nets that have. -/
theorem Pending.clear (h : Pending st g P) {n : R.database.NetId} (hn : ¬ P n) :
    Pending (R.clearPreUsers n st) g fun m => P m ∨ m = n := by
  have hdem : ∀ m, R.demand ∅ (R.clearPreUsers n st) m = R.demand ∅ st m := fun m =>
    demand_congr fun _ _ => rfl
  have hnet : ∀ m, m ≠ n → (R.clearPreUsers n st).net m = st.net m := fun m hm => by
    simp [clearPreUsers, hm]
  refine ⟨h.routes.congr fun _ => ⟨rfl, rfl⟩, h.counts.congr (fun m => ?_) (fun _ => rfl),
    fun m hm => ?_, fun m hm => ?_⟩
  · by_cases e : m = n
    · subst e
      simp [clearPreUsers, NetUsers.clearPreDecrement, NetUsers.clearPreIncrement]
    · rw [hnet m e]
  · by_cases e : m = n
    · subst e
      refine ⟨fun _ => 0, fun _ => 0, ?_, ?_, fun r => ?_⟩
      · simpa [clearPreUsers, NetUsers.clearPreDecrement, NetUsers.clearPreIncrement] using
          Tally.tallies_empty
      · simpa [clearPreUsers, NetUsers.clearPreDecrement, NetUsers.clearPreIncrement] using
          Tally.tallies_empty
      · rw [hdem, h.untouched m hn]
    · exact (h.pending m (hm.resolve_right e)).congr (hnet m e) (hdem m)
  · rw [hdem]
    exact h.untouched m fun hp => hm (Or.inl hp)

theorem routeWorkerNet_log_le {n : R.database.NetId} (h : R.routeWorkerNet tid n st = some st') :
    st.loggedFailures ≤ st'.loggedFailures := by
  obtain ⟨t, ht, rfl⟩ := Option.map_eq_some_iff.1 h
  have hmono := runAll_mono (m := RouterState.loggedFailures)
    (fun _ _ _ => routeWorkerConnection_log_le) ht
  exact hmono

theorem Pending.routeWorkerNet {n : R.database.NetId} (h : Pending st g P) (hn : ¬ P n)
    (hstep : R.routeWorkerNet tid n st = some st')
    (hlog : st'.loggedFailures = st.loggedFailures) : Pending st' g fun m => P m ∨ m = n := by
  obtain ⟨t, ht, rfl⟩ := Option.map_eq_some_iff.1 hstep
  have hloop : Pending t g fun m => P m ∨ m = n := by
    refine runAll_monitored (m := RouterState.loggedFailures)
      (I := fun s => Pending s g fun m => P m ∨ m = n)
      (fun _ _ _ => routeWorkerConnection_log_le) ?_ (h.clear hn) ht hlog
    intro c hc s u hs hu hlog
    exact hs.routeWorkerConnection (Or.inr (R.database.netOf_eq hc)) hu hlog
  exact hloop.congr rfl rfl fun _ => ⟨rfl, rfl⟩

/-- **The routing phase of a batch**, with every net at most once. -/
theorem Pending.routing : ∀ {work : List (Nat × R.database.NetId)} {P : R.database.NetId → Prop}
    {st st' : RouterState R.database}, Pending st g P → (work.map Prod.snd).Nodup →
    (∀ p ∈ work, ¬ P p.2) → runAll (fun p => R.routeWorkerNet p.1 p.2) work st = some st' →
    st'.loggedFailures = st.loggedFailures →
    Pending st' g fun m => P m ∨ m ∈ work.map Prod.snd
  | [], P, st, st', h, _, _, hrun, _ => by
    cases hrun
    simpa using h
  | (tid, n) :: work, P, st, st', h, hnd, hP, hrun, hlog => by
    rw [runAll_cons, Option.bind_eq_some_iff] at hrun
    obtain ⟨t, ht, hrun⟩ := hrun
    rw [List.map_cons, List.nodup_cons] at hnd
    have hle := routeWorkerNet_log_le ht
    have hle' := runAll_mono (m := RouterState.loggedFailures)
      (fun _ _ _ => routeWorkerNet_log_le) hrun
    have hstep := h.routeWorkerNet (hP _ List.mem_cons_self) ht (by omega)
    have hrest := hstep.routing hnd.2 (fun p hp hpn => ?_) hrun (by omega)
    · simpa [or_assoc] using hrest
    · rcases hpn with hpn | hpn
      · exact hP p (List.mem_cons_of_mem _ hp) hpn
      · exact hnd.1 (hpn ▸ List.mem_map_of_mem hp)

end Routing

/-! ## The phase that merges the user counts -/

/-- From `st` to `st'` no route and no map moved but the user counts of net `n`. -/
structure CountsOnly (n : R.database.NetId) (st st' : RouterState R.database) : Prop where
  conn : st'.conn = st.conn
  other : ∀ m, m ≠ n → st'.net m = st.net m
  toDecrement : (st'.net n).userConnectionToDecrement = (st.net n).userConnectionToDecrement
  toIncrement : (st'.net n).userConnectionToIncrement = (st.net n).userConnectionToIncrement

section Merging

variable {n : R.database.NetId} {g : R.database.NetId → R.database.NodeId → Nat} {b : Int}

/-- Merging writes counts and nodes, and nothing else. -/
theorem updateNet_frame {B : Type} (p : RouterState R.database → B)
    (hnet : ∀ s n u, p (s.withNet n u) = p s) (hnode : ∀ s r x, p (s.withNode r x) = p s)
    (h : R.updateNet n st = some st') : p st' = p st := by
  have hinc : ∀ (b : Int) (s : RouterState R.database), p (R.updatePreIncrement b n s) = p s := by
    intro b s
    unfold updatePreIncrement
    refine foldl_frame (fun s e => ?_) _ s
    unfold commitIncrement
    dsimp only
    split
    · rw [hnode, hnet]
    · rw [hnet]
  unfold updateNet updatePreDecrement at h
  rw [← hinc st.ctl.currentBatchStamp st]
  refine runAll_invariant (I := fun s =>
    p s = p (R.updatePreIncrement st.ctl.currentBatchStamp n st)) (fun e _ s t hs ht => ?_) rfl h
  unfold commitDecrement at ht
  split at ht
  · cases ht
  · split at ht
    · dsimp only at ht
      split at ht
      · cases ht
        rw [hnode, hnet, hs]
      · cases ht
        rw [hnet, hs]
    · cases ht

theorem CountsOnly.refl (n : R.database.NetId) (st : RouterState R.database) :
    CountsOnly n st st :=
  ⟨rfl, fun _ _ => rfl, rfl, rfl⟩

theorem CountsOnly.trans {st₁ st₂ st₃ : RouterState R.database} (h : CountsOnly n st₁ st₂)
    (h' : CountsOnly n st₂ st₃) : CountsOnly n st₁ st₃ :=
  ⟨h'.conn.trans h.conn, fun m hm => (h'.other m hm).trans (h.other m hm),
    h'.toDecrement.trans h.toDecrement, h'.toIncrement.trans h.toIncrement⟩

theorem countsOnly_of_net {t : Tally R.database.NodeId} (hconn : st'.conn = st.conn)
    (hnet : st'.net =
      Function.update st.net n { st.net n with usersConnectionCounts := t }) :
    CountsOnly n st st' := by
  refine ⟨hconn, fun m hm => ?_, ?_, ?_⟩
  · rw [hnet, Function.update_of_ne hm]
  · rw [hnet, Function.update_self]
  · rw [hnet, Function.update_self]

theorem commitIncrement_countsOnly (e : Sigma fun _ : R.database.NodeId => Int) :
    CountsOnly n st (R.commitIncrement b n e st) := by
  simp only [commitIncrement]
  split <;> exact countsOnly_of_net rfl rfl

theorem Counts.commitIncrement (h : Counts st g) (e : Sigma fun _ : R.database.NodeId => Int) :
    Counts (R.commitIncrement b n e st)
      (Function.update g n (Function.update (g n) e.1 (g n e.1 + e.2.toNat))) := by
  obtain ⟨htal, hnew⟩ := (h.tallies n).incrTimes (a := e.1) (k := e.2.toNat)
  simp only [AStarRoute.commitIncrement]
  split
  · rename_i hb
    obtain ⟨h0, hk⟩ := hnew.1 hb
    refine h.setKey (fun m hm => ?_) ?_ (fun a ha => ?_) ?_
    · simp [hm]
    · simpa using htal
    · simp [ha]
    · simp [NodeState.incrementOccupancy, NodeState.setNeedUpdateBatchStamp, h0, hk]
  · rename_i hb
    refine h.setKey (fun m hm => ?_) ?_ (fun a ha => rfl) ?_
    · simp [hm]
    · simpa using htal
    · by_cases h0 : g n e.1 = 0
      · have hk : e.2.toNat = 0 := by
          by_contra hk
          exact hb (hnew.2 ⟨h0, by omega⟩)
        simp [h0, hk]
      · simp [Nat.pos_of_ne_zero h0]

theorem commitDecrement_countsOnly {e : Sigma fun _ : R.database.NodeId => Int}
    (h : R.commitDecrement b n e st = some st') : CountsOnly n st st' := by
  unfold commitDecrement at h
  split at h
  · cases h
  · split at h
    · dsimp only at h
      split at h <;>
        (cases h
         exact countsOnly_of_net rfl rfl)
    · cases h

/-- Merging a net moves no other net. -/
theorem updateNet_countsOnly (h : R.updateNet n st = some st') : CountsOnly n st st' := by
  have hinc : CountsOnly n st (R.updatePreIncrement st.ctl.currentBatchStamp n st) :=
    List.foldlRecOn _ _ (CountsOnly.refl n st)
      fun s hs e _ => hs.trans (commitIncrement_countsOnly e)
  exact runAll_invariant (I := CountsOnly n st)
    (fun e _ s t hs ht => hs.trans (commitDecrement_countsOnly ht)) hinc h

/-- An entry of a pre-decrement map that the counts cover. -/
theorem Counts.commitDecrement (h : Counts st g) {e : Sigma fun _ : R.database.NodeId => Int}
    (hpos : 0 < e.2) (hle : e.2.toNat ≤ g n e.1) :
    ∃ st', R.commitDecrement b n e st = some st' ∧ CountsOnly n st st' ∧
      Counts st' (Function.update g n (Function.update (g n) e.1 (g n e.1 - e.2.toNat))) := by
  obtain ⟨htal, hlast⟩ := (h.tallies n).decrTimes hle
  have hne : g n e.1 ≠ 0 := by omega
  have hlook := h.tallies n e.1
  rw [if_neg hne] at hlook
  have hcov : e.2 ≤ (g n e.1 : Int) := by omega
  simp only [AStarRoute.commitDecrement, hlook, if_pos hcov]
  split
  · rename_i hb
    obtain ⟨hk, -⟩ := hlast.1 hb
    refine ⟨_, rfl, countsOnly_of_net rfl rfl,
      h.setKey (fun m hm => ?_) ?_ (fun a ha => ?_) ?_⟩
    · simp [hm]
    · simpa using htal
    · simp [ha]
    · have hk' : ¬ e.2.toNat < g n e.1 := by omega
      simp [NodeState.decrementOccupancy, NodeState.setNeedUpdateBatchStamp, hk',
        Nat.pos_of_ne_zero hne]
  · rename_i hb
    refine ⟨_, rfl, countsOnly_of_net rfl rfl,
      h.setKey (fun m hm => ?_) ?_ (fun a ha => rfl) ?_⟩
    · simp [hm]
    · simpa using htal
    · have hk' : e.2.toNat < g n e.1 := by
        by_contra hk
        exact hb (hlast.2 ⟨by omega, by omega⟩)
      simp [hk', Nat.pos_of_ne_zero hne]

theorem Counts.increments : ∀ (es : List (Sigma fun _ : R.database.NodeId => Int))
    {st : RouterState R.database} {g : R.database.NetId → R.database.NodeId → Nat}, Counts st g →
    CountsOnly n st (es.foldl (fun st e => R.commitIncrement b n e st) st) ∧
      Counts (es.foldl (fun st e => R.commitIncrement b n e st) st)
        (Function.update g n fun r => g n r + Tally.entryCount es r)
  | [], st, g, h => ⟨.refl n st, by simpa [Tally.entryCount] using h⟩
  | e :: es, st, g, h => by
    obtain ⟨hf, hc⟩ := (h.commitIncrement (n := n) (b := b) e).increments es
    refine ⟨(commitIncrement_countsOnly e).trans hf, ?_⟩
    rw [Function.update_idem, Function.update_self] at hc
    have heq : (fun r => g n r + Tally.entryCount (e :: es) r) =
        fun r => Function.update (g n) e.1 (g n e.1 + e.2.toNat) r + Tally.entryCount es r := by
      funext r
      by_cases hr : r = e.1
      · subst hr
        simp only [Function.update_self, Tally.entryCount, ↓reduceIte]
        omega
      · simp only [Function.update_of_ne hr, Tally.entryCount, hr, ↓reduceIte]
        omega
    rw [heq]
    exact hc

theorem Counts.decrements : ∀ {es : List (Sigma fun _ : R.database.NodeId => Int)}
    {st : RouterState R.database} {g : R.database.NetId → R.database.NodeId → Nat}, Counts st g →
    (∀ e ∈ es, 0 < e.2) → (∀ r, Tally.entryCount es r ≤ g n r) →
    ∃ st', runAll (R.commitDecrement b n) es st = some st' ∧ CountsOnly n st st' ∧
      Counts st' (Function.update g n fun r => g n r - Tally.entryCount es r)
  | [], st, g, h, _, _ => ⟨st, rfl, .refl n st, by simpa [Tally.entryCount] using h⟩
  | e :: es, st, g, h, hpos, hle => by
    have hle' : e.2.toNat ≤ g n e.1 := by
      have := hle e.1
      simp only [Tally.entryCount, ↓reduceIte] at this
      omega
    obtain ⟨t, ht, hf, hc⟩ := h.commitDecrement (b := b) (hpos e List.mem_cons_self) hle'
    have hrest : ∀ r, Tally.entryCount es r ≤ Function.update (g n) e.1 (g n e.1 - e.2.toNat) r ∧
        Function.update (g n) e.1 (g n e.1 - e.2.toNat) r - Tally.entryCount es r =
          g n r - Tally.entryCount (e :: es) r := by
      intro r
      have hr := hle r
      by_cases e' : r = e.1
      · subst e'
        simp only [Tally.entryCount, ↓reduceIte, Function.update_self] at hr ⊢
        omega
      · simp only [Tally.entryCount, e', ↓reduceIte, Function.update_of_ne e'] at hr ⊢
        omega
    obtain ⟨u, hu, hf', hc'⟩ := hc.decrements (fun x hx => hpos x (List.mem_cons_of_mem e hx))
      (fun r => by rw [Function.update_self]; exact (hrest r).1)
    refine ⟨u, by rw [runAll_cons, ht]; exact hu, hf.trans hf', ?_⟩
    rw [Function.update_idem, Function.update_self] at hc'
    rw [show (fun r => g n r - Tally.entryCount (e :: es) r) = fun r =>
        Function.update (g n) e.1 (g n e.1 - e.2.toNat) r - Tally.entryCount es r from
      funext fun r => (hrest r).2.symm]
    exact hc'

theorem Counts.updatePreIncrement (h : Counts st g) {i : R.database.NodeId → Nat}
    (hi : Tally.Tallies (st.net n).userConnectionToIncrement i) :
    CountsOnly n st (R.updatePreIncrement b n st) ∧
      Counts (R.updatePreIncrement b n st) (Function.update g n fun r => g n r + i r) := by
  have := h.increments (n := n) (b := b) (st.net n).userConnectionToIncrement.entries
  simp only [hi.entryCount] at this
  exact this

theorem Counts.updatePreDecrement (h : Counts st g) {d : R.database.NodeId → Nat}
    (hd : Tally.Tallies (st.net n).userConnectionToDecrement d) (hle : ∀ r, d r ≤ g n r) :
    ∃ st', R.updatePreDecrement b n st = some st' ∧ CountsOnly n st st' ∧
      Counts st' (Function.update g n fun r => g n r - d r) := by
  have := h.decrements (n := n) (b := b)
    (fun e he => hd.pos (AList.mem_lookup_iff.2 he)) (fun r => by rw [hd.entryCount r]; exact hle r)
  simp only [hd.entryCount] at this
  exact this

/-- **Merging the maps of a net settles its counts**, and none of the assertions fires. -/
theorem NetPending.updateNet (h : NetPending st g n) (hc : Counts st g) :
    ∃ st', R.updateNet n st = some st' ∧ CountsOnly n st st' ∧
      Counts st' (Function.update g n (R.demand ∅ st n)) := by
  obtain ⟨d, i, hd, hi, e⟩ := h
  obtain ⟨hf, hc₁⟩ := hc.updatePreIncrement (b := st.ctl.currentBatchStamp) hi
  rw [← hf.toDecrement] at hd
  have hle : ∀ r, d r ≤ Function.update g n (fun r => g n r + i r) n r := by
    intro r
    rw [Function.update_self]
    have := e r
    omega
  obtain ⟨t, ht, hf', hc₂⟩ := hc₁.updatePreDecrement (b := st.ctl.currentBatchStamp) hd hle
  refine ⟨t, ht, hf.trans hf', ?_⟩
  rw [Function.update_idem, Function.update_self] at hc₂
  rw [show R.demand ∅ st n = fun r => g n r + i r - d r from funext fun r => by
    have := e r
    omega]
  exact hc₂

/-- A net of the batch is settled, the others wait. -/
theorem Pending.updateNet {P : R.database.NetId → Prop} (h : Pending st g P) (hn : P n) :
    ∃ st', R.updateNet n st = some st' ∧ st'.conn = st.conn ∧
      Pending st' (Function.update g n (R.demand ∅ st n)) fun m => P m ∧ m ≠ n := by
  obtain ⟨t, ht, hf, hc⟩ := (h.pending n hn).updateNet h.counts
  have hconn : ∀ c, (t.conn c).rnodes = (st.conn c).rnodes ∧
      (t.conn c).isRouted = (st.conn c).isRouted := fun c => by rw [hf.conn]; exact ⟨rfl, rfl⟩
  have hdem : ∀ m, R.demand ∅ t m = R.demand ∅ st m := fun m =>
    demand_congr fun c _ => heldCount_congr (hconn c).1 Iff.rfl
  refine ⟨t, ht, hf.conn, h.routes.congr hconn, hc, fun m hm => ?_, fun m hm => ?_⟩
  · obtain ⟨d, i, hd, hi, e⟩ := h.pending m hm.1
    refine ⟨d, i, by rw [hf.other m hm.2]; exact hd, by rw [hf.other m hm.2]; exact hi, ?_⟩
    rw [hdem, Function.update_of_ne hm.2]
    exact e
  · rw [hdem]
    by_cases e : m = n
    · subst e
      rw [Function.update_self]
    · rw [Function.update_of_ne e]
      exact h.untouched m fun hp => hm ⟨hp, e⟩

/-- **The second phase, in any order, settles the nets of the batch.** -/
theorem Pending.merging : ∀ {commits : List R.database.NetId} {P : R.database.NetId → Prop}
    {st : RouterState R.database} {g : R.database.NetId → R.database.NodeId → Nat},
    Pending st g P → commits.Nodup → (∀ n, P n ↔ n ∈ commits) →
    ∃ st', runAll R.updateNet commits st = some st' ∧ st'.conn = st.conn ∧ Settled ∅ st'
  | [], P, st, g, h, _, hP => by
    refine ⟨st, rfl, rfl, h.routes, fun c hc => absurd hc (Finset.notMem_empty c), ?_⟩
    have e : R.demand ∅ st = g := funext fun n => h.untouched n (by simp [hP n])
    rw [e]
    exact h.counts
  | n :: commits, P, st, g, h, hnd, hP => by
    rw [List.nodup_cons] at hnd
    obtain ⟨t, ht, hconn, hp⟩ := h.updateNet ((hP n).2 List.mem_cons_self)
    obtain ⟨u, hu, hconn', hs⟩ := hp.merging hnd.2 fun m => by
      rw [hP m, List.mem_cons]
      refine ⟨fun hm => hm.1.resolve_left hm.2, fun hm => ⟨Or.inr hm, ?_⟩⟩
      exact fun e => hnd.1 (e ▸ hm)
    exact ⟨u, by rw [runAll_cons, ht]; exact hu, hconn'.trans hconn, hs⟩

end Merging

/-! ## The start of a run -/

/-- Nothing is routed and nothing is counted. -/
structure Fresh (st : RouterState R.database) : Prop where
  users : ∀ n, (st.net n).usersConnectionCounts = ∅
  occupancy : ∀ r, (st.node r).occupancy = 0
  rnodes : ∀ c, (st.conn c).rnodes = []
  isRouted : ∀ c, (st.conn c).isRouted = false

section Start

theorem Fresh.counts (h : Fresh st) : Counts st fun _ _ => 0 := by
  refine ⟨fun n => ?_, fun r => ?_⟩
  · rw [h.users n]
    exact Tally.tallies_empty
  · simp [h.occupancy r, usersOf]

/-- The reservations made so far, next to counts `g`. -/
theorem Counts.reserve : ∀ {l : List R.database.ConnId} {st st' : RouterState R.database}
    {g : R.database.NetId → R.database.NodeId → Nat}, Counts st g →
    runAll R.reserveSink l st = some st' → st'.conn = st.conn ∧
      Counts st' fun n r => g n r +
        l.countP fun c => decide (R.database.netOf c = n ∧ R.database.sink c = r)
  | [], st, st', g, h, hrun => by
    cases hrun
    exact ⟨rfl, by simpa using h⟩
  | c :: l, st, st', g, h, hrun => by
    rw [runAll_cons, Option.bind_eq_some_iff] at hrun
    obtain ⟨t, ht, hrun⟩ := hrun
    simp only [reserveSink] at ht
    split at ht
    · cases ht
    · cases ht
      obtain ⟨hconn, hc⟩ := (h.useNode .own (R.database.sink c)).reserve hrun
      refine ⟨hconn.trans rfl, ?_⟩
      have e : (fun n r => g n r + (c :: l).countP fun c =>
          decide (R.database.netOf c = n ∧ R.database.sink c = r)) = fun n r =>
          Function.update g (R.database.netOf c) (Function.update (g (R.database.netOf c))
            (R.database.sink c) (g (R.database.netOf c) (R.database.sink c) + 1)) n r +
          l.countP fun c => decide (R.database.netOf c = n ∧ R.database.sink c = r) := by
        funext n r
        rw [List.countP_cons]
        by_cases hn : n = R.database.netOf c
        · subst hn
          rw [Function.update_self]
          by_cases hr : r = R.database.sink c
          · subst hr
            simp
            omega
          · simp [hr, Ne.symm hr]
        · simp [hn, Ne.symm hn]
      rw [e]
      exact hc

/-- The connections of a net, among all connections. -/
theorem countP_finRange (n : R.database.NetId) (p : R.database.ConnId → Bool) :
    ((List.finRange R.database.numConns).countP fun c => decide (R.database.netOf c = n) && p c) =
      (R.database.nets n).indirectConns.countP p := by
  have hperm : ((List.finRange R.database.numConns).filter
      fun c => decide (R.database.netOf c = n)).Perm (R.database.nets n).indirectConns := by
    refine (List.perm_ext_iff_of_nodup ((List.nodup_finRange _).filter _)
      (R.database.nodup_indirectConns n)).2 fun c => ?_
    simp only [List.mem_filter, List.mem_finRange, true_and, decide_eq_true_eq]
    exact R.database.mem_indirectConns.symm
  rw [← hperm.countP_eq, List.countP_filter]
  exact List.countP_congr fun c _ => by simp [and_comm]

/-- **Reserving the sinks settles a fresh state.** -/
theorem Fresh.settled (h : Fresh st) (hstart : R.updateSinkNodeUsage st = some st') :
    Settled ∅ st' := by
  obtain ⟨hconn, hc⟩ := h.counts.reserve hstart
  have hnil : ∀ c, (st'.conn c).rnodes = [] := fun c => by rw [hconn]; exact h.rnodes c
  have hrouted : ∀ c, (st'.conn c).isRouted = false := fun c => by rw [hconn]; exact h.isRouted c
  have hroutes : Routes st' := by
    refine ⟨fun c hc => ?_, fun c _ => hnil c⟩
    rw [hrouted c] at hc
    cases hc
  refine ⟨hroutes, fun c hc => absurd hc (Finset.notMem_empty c), ?_⟩
  have e : R.demand ∅ st' = fun n r => 0 + R.sortedConnectionIds.countP fun c =>
      decide (R.database.netOf c = n ∧ R.database.sink c = r) := by
    funext n r
    rw [hroutes.demand_eq, connectionsUsing, ← countP_finRange, Nat.zero_add, sortedConnectionIds]
    refine List.countP_congr fun c _ => ?_
    simp only [Uses, hnil c, List.not_mem_nil, false_or, true_and, Bool.decide_and, Bool.and_eq_true,
      decide_eq_true_eq, @eq_comm _ r]
  rw [e]
  exact hc

end Start

/-! ## Runs -/

variable (R) in
/-- The steps of a run in which no attempt fails: an immediate reroute, a batch, or a change of
control variables and costs. A batch routes its nets in any order, each with the working memory of
some thread, and merges them in any order. -/
inductive Step : RouterState R.database → RouterState R.database → Prop
  | immediate {ρ : Reads R.database.NodeId K} {c : R.database.ConnId} {tid : Nat}
      {st st₁ st' : RouterState R.database} : R.ripup ρ c false st = some st₁ →
      R.routeOneConnection ρ c tid false st₁ = some (true, st') → Step st st'
  | batch {work : List (Nat × R.database.NetId)} {commits : List R.database.NetId}
      {st st₁ st' : RouterState R.database} : (work.map Prod.snd).Nodup →
      commits.Perm (work.map Prod.snd) →
      runAll (fun p => R.routeWorkerNet p.1 p.2) work st = some st₁ →
      st₁.loggedFailures = st.loggedFailures →
      runAll R.updateNet commits st₁ = some st' → Step st st'
  | control {st st' : RouterState R.database} : st'.conn = st.conn → st'.net = st.net →
      (∀ r, (st'.node r).occupancy = (st.node r).occupancy) → Step st st'

section Runs

theorem Settled.pending (h : Settled ∅ st) : Pending st (R.demand ∅ st) fun _ => False :=
  ⟨h.routes, h.counts, fun _ hn => hn.elim, fun _ _ => rfl⟩

/-- **A batch keeps the accounting**, and its second phase ends. -/
theorem Settled.batch {st₁ : RouterState R.database} {work : List (Nat × R.database.NetId)}
    {commits : List R.database.NetId} (h : Settled ∅ st) (hnd : (work.map Prod.snd).Nodup)
    (hperm : commits.Perm (work.map Prod.snd))
    (hroute : runAll (fun p => R.routeWorkerNet p.1 p.2) work st = some st₁)
    (hlog : st₁.loggedFailures = st.loggedFailures) :
    ∃ st', runAll R.updateNet commits st₁ = some st' ∧ st'.conn = st₁.conn ∧ Settled ∅ st' := by
  have hp := h.pending.routing hnd (fun _ _ hf => hf) hroute hlog
  refine hp.merging (hperm.nodup_iff.2 hnd) fun n => ?_
  rw [hperm.mem_iff, false_or]

theorem Settled.congr {F : Finset R.database.ConnId} (h : Settled F st)
    (hconn : st'.conn = st.conn) (hnet : st'.net = st.net)
    (hocc : ∀ r, (st'.node r).occupancy = (st.node r).occupancy) : Settled F st' := by
  refine ⟨h.routes.congr fun c => by rw [hconn]; exact ⟨rfl, rfl⟩,
    fun c hc => by rw [hconn]; exact h.inFlight c hc, ?_⟩
  have e : R.demand F st' = R.demand F st := funext fun n =>
    demand_congr fun c _ => heldCount_congr (by rw [hconn]) Iff.rfl
  rw [e]
  exact h.counts.congr (fun n => by rw [hnet]) hocc

theorem Step.settled (hstep : Step R st st') (h : Settled ∅ st) : Settled ∅ st' := by
  cases hstep with
  | immediate hrip hroute => exact h.reroute hrip hroute
  | batch hnd hperm hroute hlog hmerge =>
    obtain ⟨t, ht, -, hs⟩ := h.batch hnd hperm hroute hlog
    rw [hmerge] at ht
    cases ht
    exact hs
  | control hconn hnet hocc => exact h.congr hconn hnet hocc

/-- **Usage accounting over whole runs.** After every step of every run from reserved sinks, the
counts of the nets and the occupancies of the nodes are those of the routes, no entry is zero or
negative, and the connections with a route are the routed ones. -/
theorem run_accounted {st₀ st₁ st : RouterState R.database} (hfresh : Fresh st₀)
    (hstart : R.updateSinkNodeUsage st₀ = some st₁)
    (hrun : Relation.ReflTransGen (Step R) st₁ st) :
    Accounted st ∧
      (∀ n r k, (st.net n).usersConnectionCounts.lookup r = some k → 0 < k) ∧
      ∀ c, (st.conn c).isRouted = true ↔ (st.conn c).rnodes ≠ [] := by
  have h : Settled ∅ st := by
    induction hrun with
    | refl => exact hfresh.settled hstart
    | tail _ hstep ih => exact hstep.settled ih
  exact ⟨h.accounted, fun n _ _ hk => (h.counts.tallies n).pos hk, h.routes.isRouted_iff⟩

/-- A batch that routes the net of a column, then an immediate reroute. -/
theorem run_accounted_columns :
    ∃ st₀ st₁ st₂ st₃ : RouterState (columns 1 1 true false).database, Fresh st₀ ∧
      (columns 1 1 true false).updateSinkNodeUsage st₀ = some st₁ ∧
      Step _ st₁ st₂ ∧ Step _ st₂ st₃ ∧ (st₃.conn 0).rnodes = [1, 0] ∧ Accounted st₃ := by
  have hrun : ∃ st₁ ∈ (columns 1 1 true false).updateSinkNodeUsage
      (.init (fun _ => false) (fun _ => false) 0 0),
      ∃ t ∈ runAll (fun p => (columns 1 1 true false).routeWorkerNet p.1 p.2) [(0, 0)] st₁,
      t.loggedFailures = st₁.loggedFailures ∧
      ∃ st₂ ∈ runAll (columns 1 1 true false).updateNet [0] t,
      ∃ u ∈ (columns 1 1 true false).ripup .own 0 false st₂,
      ∃ p ∈ (columns 1 1 true false).routeOneConnection .own 0 0 false u,
      p.1 = true ∧ (p.2.conn 0).rnodes = [1, 0] := by
    decide +kernel
  obtain ⟨st₁, hstart, t, hroute, hlog, st₂, hmerge, u, hrip, ⟨b, st₃⟩, hroute', rfl, hpath⟩ := hrun
  have hfresh : Fresh (R := columns 1 1 true false)
      (.init (fun _ => false) (fun _ => false) 0 0) :=
    ⟨fun _ => rfl, fun _ => rfl, fun _ => rfl, fun _ => rfl⟩
  have hbatch : Step _ st₁ st₂ :=
    Step.batch (by simp) (by rfl) hroute hlog hmerge
  have himmediate : Step _ st₂ st₃ := .immediate hrip hroute'
  exact ⟨_, st₁, st₂, st₃, hfresh, hstart, hbatch, himmediate, hpath,
    (run_accounted hfresh hstart ((Relation.ReflTransGen.single hbatch).tail himmediate)).1⟩

end Runs

end AStarRoute

end Potter
