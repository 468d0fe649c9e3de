import Potter.Route.Accounting
import Potter.Route.Locality

/-!
# Orders of steps that do not matter

Two connections of different nets whose boxes do not meet can be routed in either order
(`routeIfNeeded_commute`): each stays inside its box. Two nets that are routed for a barrier by
different threads can be routed in either order: each changes its own net and its thread's memory.
After the barrier the nets are merged in any order, since the occupancies are only added to; and the
present costs are recomputed in any order, one node at a time. So a batch ends in the same state
under every schedule.
-/

namespace Potter

open Lib

namespace AStarRoute

variable {K : Type} [Arith K] {R : AStarRoute K}

/-! ## Connections with separate boxes -/

section Boxes

variable {a b c : R.database.ConnId}

variable (R) in
/-- One connection in the loop over a leaf, apart from the report of a failure. -/
def routeIfNeeded (c : R.database.ConnId) (st : RouterState R.database) :
    Option (RouterState R.database) :=
  if R.shouldRoute .own st c then R.reroute c st else some st

variable (R) in
/-- The scope of an immediate step inside the box of a connection. -/
def boxScope (c : R.database.ConnId) : Scope R.database where
  conns d := d = c
  net := R.database.netOf c
  tid := 0
  In := R.database.InBox c
  immediate := true

theorem boxScope_covers (hsource : R.database.InBox c (R.database.source c))
    (hsink : R.database.InBox c (R.database.sink c)) : Covers (R.boxScope c) c :=
  ⟨rfl, rfl, hsource, hsink, fun _ h => h⟩

/-- **A step stays inside the box**, if the route it starts from does. -/
theorem keeps_routeIfNeeded {σ : Scope R.database} (hc : Covers σ c) (himm : σ.immediate = true)
    (htid : σ.tid = 0) : σ.Keeps (RouteInside σ c) (R.routeIfNeeded c) := by
  refine Confined.read (r := fun s => R.shouldRoute .own s c)
    (F := fun need s => if need then R.reroute c s else some s)
    (fun s s' hs h => shouldRoute_congr hc hs h) fun need => ?_
  cases need with
  | false => exact Confined.pure
  | true =>
    have hroute := (keeps_routeOneConnection false hc fun _ => himm).map (g := fun _ s => s)
      fun _ => Confined.pure
    rw [htid] at hroute
    refine ((keeps_ripup false hc fun _ => himm).mono fun s hs => hs.1).bind ?_ hroute
    intro s t _ h r hr
    rw [ripup_conn h, Function.update_self] at hr
    cases hr

theorem boxScope_apart (hnet : R.database.netOf a ≠ R.database.netOf b)
    (hbox : ¬ (R.database.bbox a).HasStrictIntersectWith (R.database.bbox b)) :
    (R.boxScope a).region.Apart (R.boxScope b).region := by
  have hin : ∀ r, R.database.InBox a r → ¬ R.database.InBox b r := fun r ha hb =>
    hbox (BoxT.hasStrictIntersectWith_of_inside ha hb)
  intro l
  cases l with
  | occupancy r => exact ⟨fun h h' => hin r h.2 h', fun h h' => hin r h' h.2⟩
  | presentCost r => exact ⟨fun h h' => hin r h.2 h', fun h h' => hin r h' h.2⟩
  | conn d =>
    refine ⟨fun h h' => hnet ?_, fun h h' => hnet ?_⟩
    · rw [← show d = a from h, ← show d = b from h']
    · rw [← show d = b from h, ← show d = a from h']
  | net n =>
    exact ⟨fun h h' => hnet (h.symm.trans h'), fun h h' => hnet (h'.symm.trans h)⟩
  | info t r => exact ⟨fun h h' => hin r h.2 h'.2, fun h h' => hin r h'.2 h.2⟩
  | _ => exact ⟨fun h => h.elim, fun h => h.elim⟩

theorem routeInside_of_agree {σ : Scope R.database} (hc : σ.conns c)
    (s t : RouterState R.database) (h : σ.Agree s t) (hs : RouteInside σ c s) :
    RouteInside σ c t := by
  intro r hr
  rw [h.conn hc] at hr
  exact hs r hr

/-- **Independent connections commute.** If the ends and the routes of two connections of different
nets lie inside their boxes, and these have no strict intersection, the two can be routed in either
order. -/
theorem routeIfNeeded_commute {st : RouterState R.database}
    (hinside : ∀ c, R.database.InBox c (R.database.source c) ∧
      R.database.InBox c (R.database.sink c) ∧ ∀ r ∈ (st.conn c).rnodes, R.database.InBox c r)
    (hnet : R.database.netOf a ≠ R.database.netOf b)
    (hbox : ¬ (R.database.bbox a).HasStrictIntersectWith (R.database.bbox b)) :
    (R.routeIfNeeded a st).bind (R.routeIfNeeded b) =
      (R.routeIfNeeded b st).bind (R.routeIfNeeded a) := by
  have hcovers : ∀ c, Covers (R.boxScope c) c := fun c =>
    boxScope_covers (hinside c).1 (hinside c).2.1
  exact (keeps_routeIfNeeded (hcovers a) rfl rfl).commute (keeps_routeIfNeeded (hcovers b) rfl rfl)
    (boxScope_apart hnet hbox) (routeInside_of_agree rfl) (routeInside_of_agree rfl)
    (hinside a).2.2 (hinside b).2.2

theorem routeIfNeeded_commute_columns :
    ∃ st ∈ (columns 2 1 true false).updateSinkNodeUsage
        (.init (fun _ => false) (fun _ => false) 0 0),
      ((columns 2 1 true false).routeIfNeeded 0 st).bind ((columns 2 1 true false).routeIfNeeded 1) =
        ((columns 2 1 true false).routeIfNeeded 1 st).bind
          ((columns 2 1 true false).routeIfNeeded 0) ∧
      ∃ t ∈ ((columns 2 1 true false).routeIfNeeded 0 st).bind
        ((columns 2 1 true false).routeIfNeeded 1), (t.conn 0).rnodes = [1, 0] := by
  have hrun : ∃ st ∈ (columns 2 1 true false).updateSinkNodeUsage
      (.init (fun _ => false) (fun _ => false) 0 0),
      (∀ c, (columns 2 1 true false).database.InBox c
          ((columns 2 1 true false).database.source c) ∧
        (columns 2 1 true false).database.InBox c ((columns 2 1 true false).database.sink c) ∧
        ∀ r ∈ (st.conn c).rnodes, (columns 2 1 true false).database.InBox c r) ∧
      ∃ t ∈ ((columns 2 1 true false).routeIfNeeded 0 st).bind
        ((columns 2 1 true false).routeIfNeeded 1), (t.conn 0).rnodes = [1, 0] := by
    decide +kernel
  obtain ⟨st, hst, hinside, hend⟩ := hrun
  exact ⟨st, hst, routeIfNeeded_commute hinside (by decide) (by decide), hend⟩

end Boxes

/-! ## The routing phase of a batch -/

section Routing

variable {n : R.database.NetId} {tid : Nat}

variable (R) in
/-- The scope of a worker on a net: its connections, any node, no change of counts. -/
def workerScope (tid : Nat) (n : R.database.NetId) : Scope R.database where
  conns c := R.database.netOf c = n
  net := n
  tid := tid
  In _ := True
  immediate := false

theorem workerScope_covers (tid : Nat) {c : R.database.ConnId} (hc : R.database.netOf c = n) :
    Covers (R.workerScope tid n) c :=
  ⟨hc, hc.symm, trivial, trivial, fun _ _ => trivial⟩

theorem keeps_routeWorkerConnection {c : R.database.ConnId} (hnet : R.database.netOf c = n) :
    (R.workerScope tid n).Keeps (fun _ => True) (R.routeWorkerConnection tid c) := by
  have hc := workerScope_covers tid hnet
  have hinside : ∀ s, RouteInside (R.workerScope tid n) c s := fun s r _ => trivial
  have hroute : (R.workerScope tid n).Keeps (fun _ => True) fun s =>
      (R.routeOneConnection .own c tid true s).map fun p => if p.1 then p.2 else p.2.logFailure := by
    refine ((keeps_routeOneConnection true hc nofun).map
      (g := fun success s => if success then s else s.logFailure) fun success => ?_).mono
      fun s _ => hinside s
    cases success with
    | false => exact Scope.keeps_logFailure
    | true => exact Confined.pure
  have hstep : (R.workerScope tid n).Keeps (fun _ => True) fun s =>
      if R.shouldRoute .own s c then (R.ripup .own c true s).bind fun s =>
        (R.routeOneConnection .own c tid true s).map fun p => if p.1 then p.2 else p.2.logFailure
      else some s := by
    refine Confined.read (r := fun s => R.shouldRoute .own s c)
      (F := fun need s => if need then (R.ripup .own c true s).bind fun s =>
        (R.routeOneConnection .own c tid true s).map fun p => if p.1 then p.2 else p.2.logFailure
        else some s)
      (fun s s' _ h => shouldRoute_congr hc (hinside s) h) fun need => ?_
    cases need with
    | false => exact Confined.pure
    | true =>
      exact ((keeps_ripup true hc nofun).mono fun s _ => hinside s).bind
        (fun _ _ _ _ => trivial) hroute
  refine Confined.bind (Q := fun _ => True) (f := fun s : RouterState R.database =>
    some (s.withConn c ((s.conn c).setRoutedThisIter false)))
    (Scope.keeps_withConn hc.conns fun s s' h => ?_) (fun _ _ _ _ => trivial) hstep
  rw [h.conn hc.conns]

/-- **A worker stays with its net and its thread's memory.** -/
theorem keeps_routeWorkerNet :
    (R.workerScope tid n).Keeps (fun _ => True) (R.routeWorkerNet tid n) := by
  have hconns : ∀ c ∈ (R.database.nets n).indirectConns, R.database.netOf c = n := fun c hc =>
    R.database.netOf_eq hc
  have hrouted : ∀ s s' : RouterState R.database, (R.workerScope tid n).Agree s s' →
      R.routedNodes s' n = R.routedNodes s n := by
    intro s s' h
    unfold routedNodes
    refine List.flatMap_congr fun c hc => ?_
    rw [h.conn (hconns c hc)]
  have hclear : (R.workerScope tid n).Keeps (fun _ => True) fun s => some (R.clearPreUsers n s) := by
    refine Scope.keeps_withNet (σ := R.workerScope tid n)
      (F := fun s => (s.net n).clearPreDecrement.clearPreIncrement) fun s s' h => ?_
    rw [show s'.net n = s.net n from h.net]
  refine hclear.bind (Q := fun _ => True)
    (g := fun s => (runAll (R.routeWorkerConnection tid) (R.database.nets n).indirectConns s).map
      fun t => t.withInfo tid (R.recordOccChanges t.ctl.currentBatchStamp (R.routedNodes s n)
        (R.routedNodes t n) (t.info tid)))
    (fun _ _ _ _ => trivial) ?_
  refine Confined.read (r := fun s => R.routedNodes s n)
    (F := fun before s =>
      (runAll (R.routeWorkerConnection tid) (R.database.nets n).indirectConns s).map
        fun t => t.withInfo tid (R.recordOccChanges t.ctl.currentBatchStamp before
          (R.routedNodes t n) (t.info tid)))
    (fun s s' _ h => hrouted s s' h) fun before => ?_
  have hloop : (R.workerScope tid n).Keeps (fun s => True ∧ R.routedNodes s n = before)
      (runAll (R.routeWorkerConnection tid) (R.database.nets n).indirectConns) :=
    (Confined.runAll fun c hc => keeps_routeWorkerConnection (hconns c hc)).mono fun _ _ => trivial
  have hrecord : (R.workerScope tid n).Keeps (fun _ => True) fun t => some (t.withInfo tid
      (R.recordOccChanges t.ctl.currentBatchStamp before (R.routedNodes t n) (t.info tid))) := by
    refine Scope.keeps_withInfo (σ := R.workerScope tid n) (fun s s' h r _ => ?_) fun s r hr => ?_
    · have hinfo : s'.info tid = s.info tid := funext fun r => h.info (r := r) trivial
      rw [h.ctl, hrouted s s' h, hinfo]
    · exact absurd trivial hr
  have hboth := hloop.bind (fun _ _ _ _ => trivial) hrecord
  simpa only [Option.map_eq_bind, Function.comp_def] using hboth

theorem workerScope_apart {tid' : Nat} {m : R.database.NetId} (htid : tid ≠ tid') (hn : n ≠ m) :
    (R.workerScope tid n).region.Apart (R.workerScope tid' m).region := by
  intro l
  cases l with
  | conn c => exact ⟨fun h h' => hn (h.symm.trans h'), fun h h' => hn (h'.symm.trans h)⟩
  | net k => exact ⟨fun h h' => hn (h.symm.trans h'), fun h h' => hn (h'.symm.trans h)⟩
  | info t r =>
    exact ⟨fun h h' => htid (h.1.symm.trans h'.1), fun h h' => htid (h'.1.symm.trans h.1)⟩
  | occupancy r => exact ⟨fun h => absurd h.1 nofun, fun h => absurd h.1 nofun⟩
  | presentCost r => exact ⟨fun h => absurd h.1 nofun, fun h => absurd h.1 nofun⟩
  | _ => exact ⟨fun h => h.elim, fun h => h.elim⟩

end Routing

/-! ## The merging phase -/

section Merging

variable {b : Int} {n : R.database.NetId} {P : RouterState R.database → Prop}

/-- What merging does unseen: it adds to occupancies, and sets stamps to that of the batch. -/
def mergeEffects (D : Database K) (b : Int) : Effects (Loc.Val (D := D))
  | .occupancy _ => Effect.adding
  | .stamp _ => Effect.writing (X := Int) b
  | .ctl => Effect.none _
  | .presentCost _ => Effect.none _
  | .historicalCost _ => Effect.none _
  | .conn _ => Effect.none _
  | .net _ => Effect.none _
  | .info _ _ => Effect.none _
  | .routed => Effect.none _
  | .failed => Effect.none _
  | .overUsed => Effect.none _
  | .logged => Effect.none _

variable (R) in
/-- Merging a net reads and writes its maps. -/
def mergeRegion (b : Int) (n : R.database.NetId) : Region (mergeEffects R.database b) where
  reads
    | .net m => m = n
    | _ => False
  writes
    | .net m => m = n
    | _ => False
  reads_of_writes h := h
  eq_id {l} h f hf := by
    cases l with
    | net m => exact hf
    | _ => exact h.elim

variable (R) in
/-- The step stays with the maps of net `n`. -/
abbrev Merges (b : Int) (n : R.database.NetId) (P : RouterState R.database → Prop)
    (f : RouterState R.database → Option (RouterState R.database)) : Prop :=
  Confined (RouterState.memory R.database) (R.mergeRegion b n) P f

theorem merges_withNet (F : NetUsers R.database.NodeId → NetUsers R.database.NodeId) :
    R.Merges b n P fun s => some (s.withNet n (F (s.net n))) := by
  refine Confined.total (fun _ => id) (fun l => (mergeEffects _ b l).id_mem) ?_ ?_
  · intro s l hl
    cases l with
    | net m =>
      have hm : m ≠ n := hl
      exact Function.update_of_ne hm _ _
    | _ => rfl
  · intro s s' h l hl
    cases l with
    | net m =>
      obtain rfl : m = n := hl
      have hnet : s.net m = s'.net m := h (.net m) rfl
      show Function.update s.net m _ m = Function.update s'.net m _ m
      rw [Function.update_self, Function.update_self, hnet]
    | _ => exact hl.elim

/-- A net enters a node or leaves it. -/
theorem merges_recount (r : R.database.NodeId) (k : Int) :
    R.Merges b n P fun s => some (s.withNode r { s.node r with
      occupancy := (s.node r).occupancy + k, needUpdateBatchStamp := b }) := by
  refine Confined.total (fun
    | .occupancy a => if a = r then fun x : Int => x + k else id
    | .stamp a => if a = r then fun _ : Int => b else id
    | _ => id) ?_ ?_ ?_
  · intro l
    cases l with
    | occupancy a =>
      show Effect.adding.allowed (if a = r then fun x : Int => x + k else id)
      split
      · exact ⟨k, rfl⟩
      · exact Effect.adding.id_mem
    | stamp a =>
      show (Effect.writing (X := Int) b).allowed (if a = r then fun _ : Int => b else id)
      split
      · exact Or.inr rfl
      · exact Or.inl rfl
    | _ => exact (mergeEffects _ b _).id_mem
  · intro s l _
    cases l with
    | occupancy a =>
      show (Function.update s.node r _ a).occupancy = _
      by_cases ha : a = r
      · subst ha
        simp only [Function.update_self, ↓reduceIte]
        rfl
      · simp only [Function.update_of_ne ha, ha, ↓reduceIte]
        rfl
    | stamp a =>
      show (Function.update s.node r _ a).needUpdateBatchStamp = _
      by_cases ha : a = r
      · subst ha
        simp only [Function.update_self, ↓reduceIte]
      · simp only [Function.update_of_ne ha, ha, ↓reduceIte]
        rfl
    | presentCost a =>
      show (Function.update s.node r _ a).presentCongestionCost = (s.node a).presentCongestionCost
      by_cases ha : a = r
      · subst ha
        rw [Function.update_self]
      · rw [Function.update_of_ne ha]
    | historicalCost a =>
      show (Function.update s.node r _ a).historicalCongestionCost =
        (s.node a).historicalCongestionCost
      by_cases ha : a = r
      · subst ha
        rw [Function.update_self]
      · rw [Function.update_of_ne ha]
    | _ => rfl
  · intro s s' h l hl
    cases l with
    | net m => exact h (.net m) hl
    | _ => exact hl.elim

theorem merges_commitIncrement (e : Sigma fun _ : R.database.NodeId => Int) :
    R.Merges b n P fun s => some (R.commitIncrement b n e s) := by
  refine Confined.read (r := fun s : RouterState R.database =>
      ((s.net n).usersConnectionCounts.incrTimes e.2.toNat e.1).2)
    (F := fun newlyAdd s => some (
      let t := s.withNet n { s.net n with
        usersConnectionCounts := ((s.net n).usersConnectionCounts.incrTimes e.2.toNat e.1).1 }
      if newlyAdd then
        t.withNode e.1 ((t.node e.1).incrementOccupancy.setNeedUpdateBatchStamp b)
      else t)) (fun s s' _ h => ?_) fun newlyAdd => ?_
  · rw [show s'.net n = s.net n from (h (.net n) rfl).symm]
  · have hnet := merges_withNet (P := fun s : RouterState R.database => P s ∧
      ((s.net n).usersConnectionCounts.incrTimes e.2.toNat e.1).2 = newlyAdd) (b := b) (n := n)
      fun u => { u with usersConnectionCounts := (u.usersConnectionCounts.incrTimes e.2.toNat e.1).1 }
    cases newlyAdd with
    | false => exact hnet
    | true => exact hnet.bind (fun _ _ _ _ => trivial) (merges_recount (P := fun _ => True) e.1 1)

variable (R) in
/-- What an entry of the pre-decrement map does to a net with the counts of `u`. -/
def decrementBy (b : Int) (n : R.database.NetId) (e : Sigma fun _ : R.database.NodeId => Int)
    (u : NetUsers R.database.NodeId) (s : RouterState R.database) :
    Option (RouterState R.database) :=
  (u.usersConnectionCounts.lookup e.1).bind fun k =>
    let decr := u.usersConnectionCounts.decrTimes e.2.toNat e.1
    let s := s.withNet n { u with usersConnectionCounts := decr.1 }
    if e.2 ≤ k then
      if decr.2 then
        some (s.withNode e.1 ((s.node e.1).decrementOccupancy.setNeedUpdateBatchStamp b))
      else some s
    else none

theorem commitDecrement_eq (e : Sigma fun _ : R.database.NodeId => Int) :
    R.commitDecrement b n e = fun s => R.decrementBy b n e (s.net n) s := by
  funext s
  unfold commitDecrement decrementBy
  cases (s.net n).usersConnectionCounts.lookup e.1 <;> rfl

theorem merges_commitDecrement (e : Sigma fun _ : R.database.NodeId => Int) :
    R.Merges b n P (R.commitDecrement b n e) := by
  rw [commitDecrement_eq]
  refine Confined.read (r := fun s : RouterState R.database => s.net n)
    (F := fun u s => R.decrementBy b n e u s) (fun s s' _ h => (h (.net n) rfl).symm) fun u => ?_
  unfold decrementBy
  cases u.usersConnectionCounts.lookup e.1 with
  | none =>
    intro s t _ h
    cases h
  | some k =>
    dsimp only [Option.bind_some]
    split
    · have hnet := merges_withNet (P := fun s : RouterState R.database => P s ∧ s.net n = u)
        (b := b) (n := n) fun _ =>
        { u with usersConnectionCounts := (u.usersConnectionCounts.decrTimes e.2.toNat e.1).1 }
      cases (u.usersConnectionCounts.decrTimes e.2.toNat e.1).2 with
      | false => exact hnet
      | true =>
        exact hnet.bind (fun _ _ _ _ => trivial) (merges_recount (P := fun _ => True) e.1 (-1))
    · intro s t _ h
      cases h

variable (R) in
/-- The merge of a net in the batch with stamp `b`. -/
def mergeNet (b : Int) (n : R.database.NetId) (st : RouterState R.database) :
    Option (RouterState R.database) :=
  R.updatePreDecrement b n (R.updatePreIncrement b n st)

/-- **Merging a net stays with its maps**, apart from what it adds to occupancies. -/
theorem merges_mergeNet : R.Merges b n (fun _ => True) (R.mergeNet b n) := by
  have hinc : R.Merges b n (fun _ => True) fun s => some (R.updatePreIncrement b n s) := by
    refine Confined.read (r := fun s : RouterState R.database =>
        (s.net n).userConnectionToIncrement.entries)
      (F := fun es s => some (es.foldl (fun s e => R.commitIncrement b n e s) s))
      (fun s s' _ h => by rw [show s'.net n = s.net n from (h (.net n) rfl).symm]) fun es => ?_
    have hrun : R.Merges b n (fun _ => True)
        (runAll (fun e s => some (R.commitIncrement b n e s)) es) :=
      Confined.runAll fun e _ => merges_commitIncrement e
    rw [show runAll (fun e s => some (R.commitIncrement b n e s)) es =
      fun s => some (es.foldl (fun s e => R.commitIncrement b n e s) s) from
      funext (runAll_some es)] at hrun
    exact hrun.mono fun _ _ => trivial
  have hdec : R.Merges b n (fun _ => True) (R.updatePreDecrement b n) := by
    refine Confined.read (r := fun s : RouterState R.database =>
        (s.net n).userConnectionToDecrement.entries)
      (F := fun es s => runAll (R.commitDecrement b n) es s)
      (fun s s' _ h => by rw [show s'.net n = s.net n from (h (.net n) rfl).symm]) fun es => ?_
    exact (Confined.runAll fun e _ => merges_commitDecrement e).mono fun _ _ => trivial
  exact hinc.bind (fun _ _ _ _ => trivial) hdec

theorem mergeNet_ctl {st st' : RouterState R.database} (h : R.mergeNet b n st = some st') :
    st'.ctl = st.ctl := by
  obtain ⟨eff, heff, hmoved, -⟩ := merges_mergeNet st st' trivial h
  have hctl : st'.ctl = eff .ctl st.ctl := hmoved .ctl id
  rw [hctl, show eff .ctl = id from heff .ctl]
  rfl

/-- The stamp of the batch does not change while nets are merged. -/
theorem runAll_updateNet : ∀ (l : List (Nat × R.database.NetId)) (st : RouterState R.database),
    runAll (fun p => R.updateNet p.2) l st =
      runAll (fun p => R.mergeNet st.ctl.currentBatchStamp p.2) l st := by
  intro l
  induction l with
  | nil => exact fun _ => rfl
  | cons p l ih =>
    intro st
    rw [runAll_cons, runAll_cons]
    show (R.mergeNet st.ctl.currentBatchStamp p.2 st).bind _ =
      (R.mergeNet st.ctl.currentBatchStamp p.2 st).bind _
    cases ht : R.mergeNet st.ctl.currentBatchStamp p.2 st with
    | none => rfl
    | some t => rw [Option.bind_some, Option.bind_some, ih t, mergeNet_ctl ht]

theorem mergeRegion_apart {m : R.database.NetId} (hn : n ≠ m) :
    (R.mergeRegion b n).Apart (R.mergeRegion b m) := by
  intro l
  cases l with
  | net k => exact ⟨fun h h' => hn (h.symm.trans h'), fun h h' => hn (h'.symm.trans h)⟩
  | _ => exact ⟨fun h => h.elim, fun h => h.elim⟩

end Merging

/-! ## The phase that recomputes the present costs -/

section Costs

variable {r : R.database.NodeId}

variable (R) in
/-- Recomputing the present cost of a node. -/
def costRegion (r : R.database.NodeId) : Region (countEffects R.database) where
  reads
    | .ctl => True
    | .occupancy a => a = r
    | .stamp a => a = r
    | .presentCost a => a = r
    | _ => False
  writes
    | .presentCost a => a = r
    | _ => False
  reads_of_writes {l} h := by
    cases l with
    | presentCost a => exact h
    | _ => exact h.elim
  eq_id {l} h f hf := by
    cases l with
    | routed => exact h.elim
    | failed => exact h.elim
    | logged => exact h.elim
    | _ => exact hf

theorem updatePresentCongCost_other (st : RouterState R.database) {a : R.database.NodeId}
    (ha : a ≠ r) : (R.updatePresentCongCost r st).node a = st.node a := by
  unfold updatePresentCongCost
  dsimp only
  split
  · exact Function.update_of_ne ha _ _
  · rfl

/-- Only the present cost of the node changes. -/
theorem updatePresentCongCost_self (st : RouterState R.database) :
    (R.updatePresentCongCost r st).node r = (st.node r).setPresentCongestionCost
      ((R.updatePresentCongCost r st).node r).presentCongestionCost := by
  unfold updatePresentCongCost
  dsimp only
  split
  · rw [RouterState.withNode_node, Function.update_self]
    unfold NodeState.updatePresentCongestionCost
    split <;> rfl
  · rfl

theorem updatePresentCongCost_frame (st : RouterState R.database) :
    R.updatePresentCongCost r st = { st with node := (R.updatePresentCongCost r st).node } := by
  unfold updatePresentCongCost
  dsimp only
  split <;> rfl

/-- The cost a node gets depends on the node and the control variables. -/
theorem updatePresentCongCost_congr {s s' : RouterState R.database}
    (h : (RouterState.memory R.database).Agree (R.costRegion r).reads s s') :
    ((R.updatePresentCongCost r s).node r).presentCongestionCost =
      ((R.updatePresentCongCost r s').node r).presentCongestionCost := by
  have hctl : s.ctl = s'.ctl := h .ctl trivial
  have hocc : (s.node r).occupancy = (s'.node r).occupancy := h (.occupancy r) rfl
  have hstamp : (s.node r).needUpdateBatchStamp = (s'.node r).needUpdateBatchStamp :=
    h (.stamp r) rfl
  have hcost : (s.node r).presentCongestionCost = (s'.node r).presentCongestionCost :=
    h (.presentCost r) rfl
  unfold updatePresentCongCost
  dsimp only
  rw [hctl, hstamp]
  split
  · rw [RouterState.withNode_node, RouterState.withNode_node, Function.update_self,
      Function.update_self, hocc]
    unfold NodeState.updatePresentCongestionCost
    split <;> rfl
  · exact hcost

theorem confined_updatePresentCongCost :
    Confined (RouterState.memory R.database) (R.costRegion r) (fun _ => True)
      fun s => some (R.updatePresentCongCost r s) := by
  refine Confined.total (fun _ => id) (fun l => (countEffects _ l).id_mem) ?_ ?_
  · intro s l hl
    have hnode : ∀ a, (R.updatePresentCongCost r s).node a = (s.node a).setPresentCongestionCost
        ((R.updatePresentCongCost r s).node a).presentCongestionCost := by
      intro a
      by_cases ha : a = r
      · subst ha
        exact updatePresentCongCost_self s
      · rw [updatePresentCongCost_other s ha]
        rfl
    cases l with
    | occupancy a => exact (congrArg NodeState.occupancy (hnode a)).trans rfl
    | stamp a => exact (congrArg NodeState.needUpdateBatchStamp (hnode a)).trans rfl
    | historicalCost a => exact (congrArg NodeState.historicalCongestionCost (hnode a)).trans rfl
    | presentCost a =>
      have ha : a ≠ r := hl
      exact congrArg NodeState.presentCongestionCost (updatePresentCongCost_other s ha)
    | _ =>
      rw [updatePresentCongCost_frame s]
      rfl
  · intro s s' h l hl
    cases l with
    | presentCost a =>
      obtain rfl : a = r := hl
      have hcost := updatePresentCongCost_congr h
      exact hcost
    | _ => exact hl.elim

theorem costRegion_apart {a : R.database.NodeId} (ha : a ≠ r) :
    (R.costRegion a).Apart (R.costRegion r) := by
  intro l
  cases l with
  | presentCost x => exact ⟨fun h h' => ha (h.symm.trans h'), fun h h' => ha (h'.symm.trans h)⟩
  | _ => exact ⟨fun h => h.elim, fun h => h.elim⟩

end Costs

/-! ## Batches -/

section Batch

variable {lists : List (List R.database.NetId)}

/-- Steps of different threads are on different nets. -/
theorem netThreads_pairwise (hdisj : lists.Pairwise List.Disjoint) :
    (R.netThreads lists).Pairwise fun t u => ∀ p ∈ t, ∀ q ∈ u, p.1 ≠ q.1 ∧ p.2 ≠ q.2 := by
  have hgen : ∀ (lists : List (List R.database.NetId)) (k : Nat), lists.Pairwise List.Disjoint →
      ((lists.zipIdx k).map fun p => p.1.map fun n => (p.2, n)).Pairwise
        fun t u => ∀ p ∈ t, ∀ q ∈ u, p.1 ≠ q.1 ∧ p.2 ≠ q.2 := by
    intro lists
    induction lists with
    | nil => exact fun _ _ => List.Pairwise.nil
    | cons l lists ih =>
      intro k h
      rw [List.pairwise_cons] at h
      rw [List.zipIdx_cons, List.map_cons, List.pairwise_cons]
      refine ⟨?_, ih (k + 1) h.2⟩
      intro u hu p hp q hq
      obtain ⟨⟨m, j⟩, hm, rfl⟩ := List.mem_map.1 hu
      obtain ⟨n, hn, rfl⟩ := List.mem_map.1 hp
      obtain ⟨n', hn', rfl⟩ := List.mem_map.1 hq
      have hj := (List.mem_zipIdx hm)
      refine ⟨?_, ?_⟩
      · have := hj.1
        simp only
        omega
      · intro e
        simp only at e
        subst e
        refine h.1 m ?_ hn hn'
        rw [hj.2.2]
        exact List.getElem_mem _
  exact hgen lists 0 hdisj

theorem nodeThreads_pairwise :
    R.nodeThreads.Pairwise fun t u => ∀ a ∈ t, ∀ b ∈ u, a ≠ b := by
  unfold nodeThreads
  rw [List.pairwise_map]
  refine List.Pairwise.imp_of_mem ?_ List.pairwise_lt_range
  intro i j hi hj hij a ha b hb e
  subst e
  have h1 := mod_of_mem_strided ha
  have h2 := mod_of_mem_strided hb
  rw [List.mem_range] at hi hj
  rw [Nat.mod_eq_of_lt hi] at h1
  rw [Nat.mod_eq_of_lt hj] at h2
  omega

/-- The first phase ends alike under every schedule. -/
theorem routing_eq (hdisj : lists.Pairwise List.Disjoint) {routing : List (Nat × R.database.NetId)}
    (h : Interleaving (R.netThreads lists) routing) (st : RouterState R.database) :
    runAll (fun p => R.routeWorkerNet p.1 p.2) routing st =
      runAll (fun p => R.routeWorker p.1 p.2) lists.zipIdx st := by
  have hcomm : (R.netThreads lists).Pairwise fun t u => ∀ p ∈ t, ∀ q ∈ u,
      Commutes (fun p => R.routeWorkerNet p.1 p.2) p q := by
    refine (netThreads_pairwise hdisj).imp fun hne p hp q hq s => ?_
    obtain ⟨htid, hnet⟩ := hne p hp q hq
    exact keeps_routeWorkerNet.commute keeps_routeWorkerNet (workerScope_apart htid hnet)
      (fun _ _ _ _ => trivial) (fun _ _ _ _ => trivial) trivial trivial
  rw [h.runAll_eq hcomm, runAll_flatten, netThreads, runAll_map]
  exact runAll_congr (fun p _ s => runAll_map _ p.1 s) st

/-- The second phase ends alike under every schedule. -/
theorem merging_eq (hdisj : lists.Pairwise List.Disjoint) {commits : List (Nat × R.database.NetId)}
    (h : Interleaving (R.netThreads lists) commits) (st : RouterState R.database) :
    runAll (fun p => R.updateNet p.2) commits st = runAll R.updateNetsWorker lists st := by
  have hcomm : (R.netThreads lists).Pairwise fun t u => ∀ p ∈ t, ∀ q ∈ u,
      Commutes (fun p => R.mergeNet st.ctl.currentBatchStamp p.2) p q := by
    refine (netThreads_pairwise hdisj).imp fun hne p hp q hq s => ?_
    exact merges_mergeNet.commute merges_mergeNet (mergeRegion_apart (hne p hp q hq).2)
      (fun _ _ _ _ => trivial) (fun _ _ _ _ => trivial) trivial trivial
  have hlists : runAll R.updateNetsWorker lists st =
      runAll (fun p => R.updateNetsWorker p.1) lists.zipIdx st := by
    rw [← runAll_map Prod.fst, List.zipIdx_map_fst]
  rw [runAll_updateNet, h.runAll_eq hcomm, ← runAll_updateNet, runAll_flatten, netThreads,
    runAll_map, hlists]
  exact runAll_congr (fun p _ s => runAll_map _ p.1 s) st

/-- The third phase ends alike under every schedule. -/
theorem costs_eq {costs : List R.database.NodeId} (h : Interleaving R.nodeThreads costs)
    (st : RouterState R.database) :
    runAll (fun r st => some (R.updatePresentCongCost r st)) costs st =
      runAll (fun tid st => some (R.updatePresentCongCostWorker tid st))
        (List.range R.numThread) st := by
  have hcomm : R.nodeThreads.Pairwise fun t u => ∀ a ∈ t, ∀ b ∈ u,
      Commutes (fun r st => some (R.updatePresentCongCost r st)) a b := by
    refine nodeThreads_pairwise.imp fun hne a ha b hb s => ?_
    exact confined_updatePresentCongCost.commute confined_updatePresentCongCost
      (costRegion_apart (hne a ha b hb)) (fun _ _ _ _ => trivial) (fun _ _ _ _ => trivial)
      trivial trivial
  rw [h.runAll_eq hcomm, runAll_flatten, nodeThreads, runAll_map]
  exact runAll_congr (fun tid _ s => runAll_some (R.nodesOfThread tid) s) st

/-- **A batch is deterministic.** If every net is in at most one list, the batch ends in the state in
which its threads end when they run one after the other, whatever the schedule of each phase. -/
theorem runBatch_eq_batchInOrder (hdisj : lists.Pairwise List.Disjoint)
    {routing commits : List (Nat × R.database.NetId)} {costs : List R.database.NodeId}
    (hrouting : Interleaving (R.netThreads lists) routing)
    (hcommits : Interleaving (R.netThreads lists) commits)
    (hcosts : Interleaving R.nodeThreads costs) (st : RouterState R.database) :
    R.runBatch routing commits costs st = R.batchInOrder lists st := by
  have hmerging : runAll (fun p => R.updateNet p.2) commits = runAll R.updateNetsWorker lists :=
    funext (merging_eq hdisj hcommits)
  have hcost : runAll (fun r st => some (R.updatePresentCongCost r st)) costs =
      runAll (fun tid st => some (R.updatePresentCongCostWorker tid st))
        (List.range R.numThread) := funext (costs_eq hcosts)
  rw [runBatch, batchInOrder, routing_eq hdisj hrouting, hmerging, hcost]

/-- Two nets on two threads, routed in one order and merged in the other. -/
theorem runBatch_eq_batchInOrder_columns :
    ∃ st ∈ (columns 2 2 true false).updateSinkNodeUsage
        (.init (fun _ => false) (fun _ => false) 0 0),
      (columns 2 2 true false).runBatch [(1, 1), (0, 0)] [(0, 0), (1, 1)] [1, 0, 2, 3] st =
        (columns 2 2 true false).batchInOrder [[0], [1]] st ∧
      ∃ t ∈ (columns 2 2 true false).batchInOrder [[0], [1]] st, (t.conn 1).rnodes = [3, 2] := by
  have hrun : ∃ st ∈ (columns 2 2 true false).updateSinkNodeUsage
      (.init (fun _ => false) (fun _ => false) 0 0),
      ∃ t ∈ (columns 2 2 true false).batchInOrder [[0], [1]] st, (t.conn 1).rnodes = [3, 2] := by
    decide +kernel
  obtain ⟨st, hst, hend⟩ := hrun
  have hdisj : List.Pairwise List.Disjoint [[(0 : Fin 2)], [1]] := by simp
  have hdone : ∀ t ∈ [[], ([] : List (Nat × Fin 2))], t = [] := by simp
  have hnodes : ∀ t ∈ [[], ([] : List (Fin 4))], t = [] := by simp
  refine ⟨st, hst, runBatch_eq_batchInOrder hdisj ?_ ?_ ?_ st, hend⟩
  · exact .step [[(0, 0)]] [] (.step [] [[]] (.done hdone))
  · exact .step [] [[(1, 1)]] (.step [[]] [] (.done hdone))
  · exact .step [[0, 2]] [] (.step [] [[3]] (.step [] [[3]] (.step [[]] [] (.done hnodes))))

end Batch

end AStarRoute

end Potter
