import Potter.Db.BBox
import Potter.Route.Commutation
import Potter.Route.MainLoop
import Potter.Route.Preserved

/-!
# The leaves of a level side by side

`routePartitionTree` hands the leaves of a level to several threads, which all work on the table of
thread 0. In a level free of conflicts this is no race: a connection is routed inside its box
(`keeps_treeConnection`), and the boxes of two leaves' connections have no common point. So no thread
changes what another reads (`treeConnection_undisturbed`), and every schedule of a level ends as the
leaves one after the other do, which is what `runJobsMT` does on a single thread
(`quietTreeLevel_iff`).
-/

namespace Potter

open Lib

namespace AStarRoute

variable {K : Type} [Arith K] {R : AStarRoute K} {st st' : RouterState R.database}

/-! ## Routes stay inside their boxes -/

/-- Source and sink of every connection are inside its box, as the boxes were computed. -/
def EndsInside (R : AStarRoute K) : Prop :=
  ∀ c, R.database.InBox c (R.database.source c) ∧ R.database.InBox c (R.database.sink c)

theorem endsInside_of_boxed (h : R.database.Boxed) : R.EndsInside := h.ends

/-- Every route lies inside the box of its connection. -/
def RoutesInside (st : RouterState R.database) : Prop :=
  ∀ c, ∀ r ∈ (st.conn c).rnodes, R.database.InBox c r

theorem inBox_of_isPath (hends : R.EndsInside) {c : R.database.ConnId} {p : List R.database.NodeId}
    (h : R.database.IsPath c p) : ∀ r ∈ p, R.database.InBox c r := by
  intro r hr
  rcases h.inBox r hr with rfl | rfl | hbox
  · exact (hends c).2
  · exact (hends c).1
  · exact hbox

/-- **Whatever the router does, routes stay inside.** -/
theorem RoutesInside.acts (hends : R.EndsInside) (hst : RoutesInside st)
    (h : Relation.ReflTransGen R.Act st st') : RoutesInside st' := by
  induction h with
  | refl => exact hst
  | tail _ hact ih =>
    intro c r hr
    rcases hact.rnodes c with heq | heq | ⟨path, hpath, heq⟩
    · exact ih c r (heq ▸ hr)
    · rw [heq] at hr
      cases hr
    · rw [heq] at hr
      rcases List.mem_append.1 hr with hr | hr
      · exact ih c r hr
      · exact inBox_of_isPath hends hpath r hr

theorem Reachable.routesInside (hends : R.EndsInside) (h : R.Reachable st) : RoutesInside st := by
  obtain ⟨isRouted, isRoutedThisIter, routedConnectionNum, failRouteNum, hacts⟩ := h
  refine RoutesInside.acts hends ?_ hacts
  intro c r hr
  cases hr

/-! ## What a thread reads while others run -/

variable (R) in
/-- A thread that routes `c` finds the nodes inside the box of `c` as the state has them. -/
def Undisturbed (c : R.database.ConnId) (ρ : Reads R.database.NodeId K) : Prop :=
  ∀ (s : NodeState K) (r : R.database.NodeId), R.database.InBox c r →
    ρ.occupancy s r = s.occupancy ∧ ρ.presentCongestionCost s r = s.presentCongestionCost

section Undisturbed

variable {c : R.database.ConnId} {ρ : Reads R.database.NodeId K} {tid : Nat} {sync : Bool}

theorem undisturbed_own (c : R.database.ConnId) : R.Undisturbed c .own := fun _ _ _ => ⟨rfl, rfl⟩

theorem evaluateChild_undisturbed (hρ : R.Undisturbed c ρ) {v : R.database.NodeId}
    (hv : R.database.InBox c v) (t : Bool) :
    R.evaluateChild ρ st c tid sync v t = R.evaluateChild .own st c tid sync v t := by
  simp only [evaluateChild, getNodeCost, Reads.own, (hρ (st.node v) v hv).1, (hρ (st.node v) v hv).2]

/-- Outside the box a child is skipped before anything of it is read. -/
theorem search_undisturbed (hρ : R.Undisturbed c ρ) :
    R.search ρ st c tid sync = R.search .own st c tid sync := by
  have hverdict : R.childVerdict ρ st c tid sync = R.childVerdict .own st c tid sync := by
    funext v t
    by_cases hv : R.database.InBox c v
    · simp only [childVerdict, evaluateChild_undisturbed hρ hv]
    · simp only [childVerdict, isAccessible, hv, decide_false, Bool.false_eq_true,
        not_false_eq_true, ↓reduceIte]
  unfold search problem
  rw [hverdict]

theorem useNodes_undisturbed (hρ : R.Undisturbed c ρ) {l : List R.database.NodeId}
    (hl : ∀ r ∈ l, R.database.InBox c r) (n : R.database.NetId) (st : RouterState R.database) :
    l.foldl (R.useNode ρ n) st = l.foldl (R.useNode .own n) st := by
  refine List.foldl_ext _ _ _ fun s r hr => ?_
  simp only [useNode, Reads.own, (hρ _ r (hl r hr)).1]

theorem leaveNodes_undisturbed (hρ : R.Undisturbed c ρ) {l : List R.database.NodeId}
    (hl : ∀ r ∈ l, R.database.InBox c r) (n : R.database.NetId) (st : RouterState R.database) :
    l.foldl (R.leaveNode ρ n) st = l.foldl (R.leaveNode .own n) st := by
  refine List.foldl_ext _ _ _ fun s r hr => ?_
  simp only [leaveNode, Reads.own, (hρ _ r (hl r hr)).1]

theorem commitRoute_undisturbed (hρ : R.Undisturbed c ρ) (k : Nat)
    (hroute : ∀ r ∈ (st.conn c).rnodes, R.database.InBox c r) :
    R.commitRoute ρ c sync k st = R.commitRoute .own c sync k st := by
  cases sync with
  | true => rfl
  | false =>
    simp only [commitRoute, Bool.false_eq_true, ↓reduceIte, updateUsersAndPresentCongestionCost]
    refine useNodes_undisturbed hρ (fun r hr => hroute r ?_) _ _
    simpa [ConnState.setRouted] using hr

theorem routeOneConnection_undisturbed (hends : R.EndsInside) (hρ : R.Undisturbed c ρ)
    (hroute : ∀ r ∈ (st.conn c).rnodes, R.database.InBox c r) :
    R.routeOneConnection ρ c tid sync st = R.routeOneConnection .own c tid sync st := by
  unfold routeOneConnection
  dsimp only
  rw [search_undisturbed hρ]
  cases hs : R.search .own (R.beginRoute c st) c tid sync with
  | halted => rfl
  | exhausted f => rfl
  | found marks k =>
    dsimp only
    unfold saveRouting
    rw [RouterState.marks_withMarks]
    cases htrace : BestFirst.trace marks (R.database.source c) 9999 (R.database.sink c) with
    | none => rfl
    | some path =>
      dsimp only [Option.bind_some]
      split
      · rw [Option.map_some, Option.map_some, commitRoute_undisturbed hρ k]
        intro r hr
        simp only [RouterState.withConn_conn, Function.update_self, RouterState.withMarks_conn,
          beginRoute, ConnState.setRoutedThisIter, List.mem_append] at hr
        exact hr.elim (hroute r) (inBox_of_isPath hends (isPath_of_found hs htrace) r)
      · rfl

theorem ripup_undisturbed (hends : R.EndsInside) (hρ : R.Undisturbed c ρ)
    (hroute : ∀ r ∈ (st.conn c).rnodes, R.database.InBox c r) :
    R.ripup ρ c sync st = R.ripup .own c sync st := by
  unfold ripup
  split
  · rfl
  · cases sync with
    | true => rfl
    | false =>
      have hheld : ∀ r ∈ R.heldNodes st c, R.database.InBox c r := by
        intro r hr
        unfold heldNodes at hr
        split at hr
        · rw [List.mem_singleton.1 hr]
          exact (hends c).2
        · exact hroute r hr
      dsimp only
      rw [leaveNodes_undisturbed hρ hheld]

theorem shouldRoute_undisturbed (hρ : R.Undisturbed c ρ)
    (hroute : ∀ r ∈ (st.conn c).rnodes, R.database.InBox c r) :
    R.shouldRoute ρ st c = R.shouldRoute .own st c := by
  have hcongested : R.isCongested ρ st c = R.isCongested .own st c := by
    unfold isCongested
    rw [Bool.eq_iff_iff, List.any_eq_true, List.any_eq_true]
    refine exists_congr fun r => and_congr_right fun hr => ?_
    rw [(hρ (st.node r) r (hroute r hr)).1]
    rfl
  unfold shouldRoute
  rw [hcongested]

/-- **A step that is not disturbed inside its box runs as if it were alone.** -/
theorem treeConnection_undisturbed (hends : R.EndsInside) (hρ : R.Undisturbed c ρ)
    (hst : RoutesInside st) : R.treeConnection ρ c st = R.treeConnection .own c st := by
  unfold treeConnection routeConnection
  rw [shouldRoute_undisturbed hρ (hst c)]
  split
  · rw [ripup_undisturbed hends hρ (hst c)]
    refine Option.bind_congr fun s hs => ?_
    rw [routeOneConnection_undisturbed hends hρ]
    intro r hr
    rw [ripup_conn hs, Function.update_self] at hr
    cases hr
  · rfl

end Undisturbed

/-! ## Steps of different leaves -/

section Apart

variable {c d : R.database.ConnId}

/-- Counting a failure. -/
theorem keeps_countFailure {σ : Scope R.database} {P : RouterState R.database → Prop} :
    σ.Keeps P fun s => some (R.countFailure s) := by
  refine Confined.total (fun | .failed => fun x : Int => x + 1 | _ => id) ?_ ?_ ?_
  · intro l
    cases l with
    | failed => exact ⟨1, rfl⟩
    | _ => exact (countEffects _ _).id_mem
  · intro s l _
    cases l <;> rfl
  · intro s s' h l hl
    cases l with
    | failed => exact hl.elim
    | _ => exact Scope.agree_of_same h hl

/-- **A step stays inside the box of its connection**, failures included. -/
theorem keeps_treeConnection (hends : R.EndsInside) (c : R.database.ConnId) :
    (R.boxScope c).Keeps (RouteInside (R.boxScope c) c) (R.treeConnection .own c) := by
  have hc : Covers (R.boxScope c) c := boxScope_covers (hends c).1 (hends c).2
  have hroute : (R.boxScope c).Keeps (RouteInside (R.boxScope c) c) fun s =>
      (R.routeOneConnection .own c 0 false s).map fun p =>
        if p.1 then p.2 else (R.countFailure p.2).logFailure := by
    refine (keeps_routeOneConnection false hc fun _ => rfl).map
      (g := fun success s => if success then s else (R.countFailure s).logFailure) fun success => ?_
    cases success with
    | false =>
      exact Confined.bind (Q := fun _ => True) (f := fun s => some (R.countFailure s))
        keeps_countFailure (fun _ _ _ _ => trivial) Scope.keeps_logFailure
    | true => exact Confined.pure
  refine Confined.read (r := fun s => R.shouldRoute .own s c)
    (F := fun need s => if need then (R.ripup .own c false s).bind fun s =>
      (R.routeOneConnection .own c 0 false s).map fun p =>
        if p.1 then p.2 else (R.countFailure p.2).logFailure else some s)
    (fun s s' hs h => shouldRoute_congr hc hs h) fun need => ?_
  cases need with
  | false => exact Confined.pure
  | true =>
    refine ((keeps_ripup false hc fun _ => rfl).mono fun s hs => hs.1).bind ?_ hroute
    intro s t _ h r hr
    rw [ripup_conn h, Function.update_self] at hr
    cases hr

variable (R) in
/-- Two connections of different nets whose boxes have no common point inside. -/
def ConnsApart (c d : R.database.ConnId) : Prop :=
  R.database.netOf c ≠ R.database.netOf d ∧
    ∀ px py, ¬((R.database.bbox c).Inside px py ∧ (R.database.bbox d).Inside px py)

theorem ConnsApart.region (h : R.ConnsApart c d) :
    (R.boxScope c).region.Apart (R.boxScope d).region := by
  obtain ⟨hnet, hpoint⟩ := h
  have hin : ∀ r, R.database.InBox c r → ¬ R.database.InBox d r := fun r hc hd =>
    hpoint _ _ ⟨hc, hd⟩
  intro l
  cases l with
  | occupancy r => exact ⟨fun h h' => hin r h.2 h', fun h h' => hin r h' h.2⟩
  | presentCost r => exact ⟨fun h h' => hin r h.2 h', fun h h' => hin r h' h.2⟩
  | conn e =>
    refine ⟨fun h h' => hnet ?_, fun h h' => hnet ?_⟩
    · rw [← show e = c from h, ← show e = d from h']
    · rw [← show e = d from h, ← show e = c from h']
  | net n => exact ⟨fun h h' => hnet (h.symm.trans h'), fun h h' => hnet (h'.symm.trans h)⟩
  | info t r => exact ⟨fun h h' => hin r h.2 h'.2, fun h h' => hin r h'.2 h.2⟩
  | _ => exact ⟨fun h => h.elim, fun h => h.elim⟩

theorem treeConnection_commute (hends : R.EndsInside) (hap : R.ConnsApart c d)
    (hst : RoutesInside st) :
    (R.treeConnection .own c st).bind (R.treeConnection .own d) =
      (R.treeConnection .own d st).bind (R.treeConnection .own c) :=
  (keeps_treeConnection hends c).commute (keeps_treeConnection hends d) hap.region
    (routeInside_of_agree rfl) (routeInside_of_agree rfl) (hst c) (hst d)

/-- A step changes nothing that a connection apart from it reads. -/
theorem treeConnection_outside (hends : R.EndsInside) (hap : R.ConnsApart c d)
    (hst : RoutesInside st) (h : R.treeConnection .own c st = some st') {r : R.database.NodeId}
    (hr : R.database.InBox d r) :
    (st'.node r).occupancy = (st.node r).occupancy ∧
      (st'.node r).presentCongestionCost = (st.node r).presentCongestionCost ∧
      st'.info 0 r = st.info 0 r := by
  have hagree := (keeps_treeConnection hends c).agree_of_apart hap.region (hst c) h
  exact ⟨Scope.Agree.occupancy (σ := R.boxScope d) hagree hr,
    Scope.Agree.presentCost (σ := R.boxScope d) hagree hr,
    Scope.Agree.info (σ := R.boxScope d) hagree hr⟩

end Apart

/-! ## Levels -/

section Levels

variable {leaves : List (PartitionTreeNode R.database.ConnId)}
  {levels : List (List (PartitionTreeNode R.database.ConnId))}

variable (R) in
/-- A level on several threads. What a thread reads inside the box of its connection is not
disturbed. -/
def QuietTreeLevel (leaves : List (PartitionTreeNode R.database.ConnId))
    (st st' : RouterState R.database) : Prop :=
  ∃ sched, Interleaving (leaves.map PartitionTreeNode.connectionIds) sched ∧
    Runs (fun c s s' => ∃ ρ, R.Undisturbed c ρ ∧ R.treeConnection ρ c s = some s') sched st st'

variable (R) in
/-- A leaf on a single thread. -/
def routePartitionTreeLeafNode (leaf : PartitionTreeNode R.database.ConnId)
    (st : RouterState R.database) : Option (RouterState R.database) :=
  runAll (R.treeConnection .own) leaf.connectionIds st

variable (R) in
/-- `routePartitionTree` on a single thread. -/
def treeInOrder (levels : List (List (PartitionTreeNode R.database.ConnId)))
    (st : RouterState R.database) : Option (RouterState R.database) :=
  runAll (runAll R.routePartitionTreeLeafNode) levels st

variable (R) in
/-- No two leaves of a level are in conflict. -/
def LeavesApart (leaves : List (PartitionTreeNode R.database.ConnId)) : Prop :=
  leaves.Pairwise fun n m => ∀ c ∈ n.connectionIds, ∀ d ∈ m.connectionIds, R.ConnsApart c d

theorem acts_treeConnection {ρ : Reads R.database.NodeId K} {c : R.database.ConnId}
    (h : R.treeConnection ρ c st = some st') : Relation.ReflTransGen R.Act st st' :=
  acts_routeConnection h

/-- A run of undisturbed steps is a run of steps that are alone. -/
theorem runs_undisturbed_iff (hends : R.EndsInside) {sched : List R.database.ConnId}
    (hst : RoutesInside st) :
    Runs (fun c s s' => ∃ ρ, R.Undisturbed c ρ ∧ R.treeConnection ρ c s = some s') sched st st' ↔
      runAll (R.treeConnection .own) sched st = some st' := by
  refine Runs.iff_runAll (I := RoutesInside) (fun c _ s t hs => ?_)
    (fun c _ s t hs h => hs.acts hends (acts_treeConnection h)) hst
  constructor
  · rintro ⟨ρ, hρ, h⟩
    rwa [treeConnection_undisturbed hends hρ hs] at h
  · exact fun h => ⟨.own, undisturbed_own c, h⟩

/-- **A level ends as its leaves one after the other**, whatever the schedule. -/
theorem quietTreeLevel_iff (hends : R.EndsInside) (hap : R.LeavesApart leaves)
    (hst : RoutesInside st) :
    R.QuietTreeLevel leaves st st' ↔ runAll R.routePartitionTreeLeafNode leaves st = some st' := by
  have hflat : runAll (R.treeConnection .own) (leaves.map PartitionTreeNode.connectionIds).flatten st =
      runAll R.routePartitionTreeLeafNode leaves st := by
    rw [runAll_flatten, runAll_map]
    rfl
  have hcomm : (leaves.map PartitionTreeNode.connectionIds).Pairwise fun t u =>
      ∀ c ∈ t, ∀ d ∈ u, ∀ s, RoutesInside s → (R.treeConnection .own c s).bind (R.treeConnection .own d) =
        (R.treeConnection .own d s).bind (R.treeConnection .own c) := by
    rw [List.pairwise_map]
    exact hap.imp fun h c hc d hd s hs => treeConnection_commute hends (h c hc d hd) hs
  rw [← hflat]
  constructor
  · rintro ⟨sched, hsched, hrun⟩
    rw [runs_undisturbed_iff hends hst] at hrun
    rwa [hsched.runAll_eq_of_invariant (I := RoutesInside)
      (fun _ _ c _ s s' hs h => hs.acts hends (acts_treeConnection h)) hcomm hst] at hrun
  · intro hrun
    exact ⟨_, .flatten _, (runs_undisturbed_iff hends hst).2 hrun⟩

/-- What is not disturbed is one of the ways a level can run. -/
theorem QuietTreeLevel.treeLevel (h : R.QuietTreeLevel leaves st st') : R.TreeLevel R.steps leaves st st' := by
  obtain ⟨sched, hsched, hrun⟩ := h
  exact ⟨sched, hsched, hrun.mono fun c s t ⟨ρ, _, hstep⟩ => ⟨ρ, hstep⟩⟩

/-- **A tree is routed as on a single thread.** -/
theorem runs_quietTreeLevel_iff (hends : R.EndsInside) (hap : ∀ leaves ∈ levels, R.LeavesApart leaves)
    (hst : RoutesInside st) :
    Runs R.QuietTreeLevel levels st st' ↔ R.treeInOrder levels st = some st' := by
  refine Runs.iff_runAll (I := RoutesInside) (fun leaves hleaves s t hs => ?_)
    (fun leaves _ s t hs h => hs.acts hends ?_) hst
  · exact quietTreeLevel_iff hends (hap leaves hleaves) hs
  · exact runAll_acts (fun _ _ _ _ h => runAll_acts (fun _ _ _ _ h => acts_treeConnection h) h) h

/-- The levels that the router schedules are free of conflicts. -/
theorem leavesApart_of_scheduledTree (hends : R.EndsInside) {ids : List R.database.ConnId}
    (hbox : ∀ c ∈ ids, R.database.WellBoxed c) (hnodup : ids.Nodup)
    (h : R.database.scheduledTree R.sorter ids (R.database.unionBBox ids) = some levels) :
    ∀ leaves ∈ levels, R.LeavesApart leaves := by
  obtain ⟨tree, nodes, htree, hcount, hnodes, hfree⟩ :=
    (Database.fits_unionBBox hbox).conflictFree hbox (fun c _ => (hends c).1) hnodup R.sorter
  unfold Database.scheduledTree at h
  rw [htree, Option.bind_some, hcount, Option.bind_some, hnodes] at h
  cases h
  exact hfree.apart

variable (R) in
/-- The nodes inside the box of `d` look the same. -/
def SameInBox (d : R.database.ConnId) (st st' : RouterState R.database) : Prop :=
  ∀ r, R.database.InBox d r → (st'.node r).occupancy = (st.node r).occupancy ∧
    (st'.node r).presentCongestionCost = (st.node r).presentCongestionCost ∧
    st'.info 0 r = st.info 0 r

/-- **Routing a partition tree is deterministic.** Connections of different leaves of a level leave
the inside of each other's boxes alone, so that the routes, counts and costs in the end are those of
a run on a single thread, whatever the schedule of every level. -/
theorem routePartitionTree_deterministic (hends : R.EndsInside) {ids : List R.database.ConnId}
    (hbox : ∀ c ∈ ids, R.database.WellBoxed c) (hnodup : ids.Nodup)
    (hlevels : R.database.scheduledTree R.sorter ids (R.database.unionBBox ids) = some levels)
    (hst : R.Reachable st) :
    (∀ leaves ∈ levels, leaves.Pairwise fun n m => ∀ c ∈ n.connectionIds, ∀ d ∈ m.connectionIds,
      ∀ s s', R.Reachable s →
        (R.treeConnection .own c s = some s' → R.SameInBox d s s') ∧
        (R.treeConnection .own d s = some s' → R.SameInBox c s s')) ∧
    ∀ st', Runs R.QuietTreeLevel levels st st' ↔ R.treeInOrder levels st = some st' := by
  have hap := leavesApart_of_scheduledTree hends hbox hnodup hlevels
  refine ⟨fun leaves hleaves => (hap leaves hleaves).imp ?_, fun st' =>
    runs_quietTreeLevel_iff hends hap (hst.routesInside hends)⟩
  intro n m h c hc d hd s s' hs
  have hinside := hs.routesInside hends
  have hcd := h c hc d hd
  have hdc : R.ConnsApart d c := ⟨hcd.1.symm, fun px py hp => hcd.2 px py hp.symm⟩
  exact ⟨fun hstep r hr => treeConnection_outside hends hcd hinside hstep hr,
    fun hstep r hr => treeConnection_outside hends hdc hinside hstep hr⟩

end Levels

theorem endsInside_columns (k numThread : Nat) (linked isRuntimeFirst : Bool) :
    (columns k numThread linked isRuntimeFirst).EndsInside := by
  have hinside : ∀ (c : Fin k) (r : Fin (2 * k)), r.val / 2 = c.val →
      (columns k numThread linked isRuntimeFirst).database.InBox c r := by
    intro c r hr
    have hcol : (3 * (r.val / 2 : Nat) : Int) = 3 * (c : Nat) := by rw [hr]
    show ((3 * (c : Nat) : Int) - 1 < 3 * (r.val / 2 : Nat) ∧ (3 * (r.val / 2 : Nat) : Int) <
      3 * (c : Nat) + 1) ∧ (-1 : Int) < 0 ∧ (0 : Int) < 1
    omega
  intro c
  refine ⟨hinside c _ ?_, hinside c _ ?_⟩
  · show 2 * c.val / 2 = c.val
    omega
  · show (2 * c.val + 1) / 2 = c.val
    omega

/-- Two columns in two leaves of one level. -/
theorem routePartitionTree_deterministic_columns :
    ∃ levels, (columns 2 2 true false).database.scheduledTree insertionSorter [(0 : Fin 2), 1]
        ((columns 2 2 true false).database.unionBBox [(0 : Fin 2), 1]) = some levels ∧
      levels.map (List.map PartitionTreeNode.connectionIds) = [[[(0 : Fin 2)], [1], []]] ∧
      ∃ st, (columns 2 2 true false).Reachable st ∧
      ∃ st', Runs (columns 2 2 true false).QuietTreeLevel levels st st' ∧
        (st'.conn (0 : Fin 2)).rnodes = [1, 0] ∧ (st'.conn (1 : Fin 2)).rnodes = [3, 2] := by
  have hrun : ∃ levels ∈ (columns 2 2 true false).database.scheduledTree insertionSorter
        [(0 : Fin 2), 1] ((columns 2 2 true false).database.unionBBox [(0 : Fin 2), 1]),
      levels.map (List.map PartitionTreeNode.connectionIds) = [[[(0 : Fin 2)], [1], []]] ∧
      ∃ st ∈ (columns 2 2 true false).updateSinkNodeUsage
        (.init (fun _ => false) (fun _ => false) 0 0),
      ∃ st' ∈ (columns 2 2 true false).treeInOrder levels st,
        (st'.conn (0 : Fin 2)).rnodes = [1, 0] ∧ (st'.conn (1 : Fin 2)).rnodes = [3, 2] := by
    decide +kernel
  obtain ⟨levels, hlevels, hleaves, st, hst, st', hst', hroutes⟩ := hrun
  have hreach : (columns 2 2 true false).Reachable st :=
    ⟨_, _, _, _, runAll_acts (fun c _ s t hc => .single (.reserveSink hc)) hst⟩
  have hdet := routePartitionTree_deterministic (endsInside_columns 2 2 true false)
    (fun c _ => Database.wellBoxed_columns (by decide) c) (by decide) hlevels hreach
  exact ⟨levels, hlevels, hleaves, st, hreach, st', (hdet.2 st').2 hst', hroutes⟩

end AStarRoute

end Potter
