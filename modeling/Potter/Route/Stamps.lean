import Potter.Lib.SearchFootprint
import Potter.Route.Accounting

/-!
# The stamps of the searches

A search marks the nodes it has visited with `connectionUniqueId`, the id of its connection plus a
base, so that the marks of earlier searches need not be cleared. At the start of an iteration the
base grows by the number of connections routed in the last one, plus one.

`Traced` is the relation between a run and the searches made in it. The base grows by the number of
searches but the ids range over all connections: an iteration that routes a few connections with
large ids uses stamps beyond the next base, and these come up again (`Traced.reused`). Where every
iteration routes at least as many connections as its largest id says, no stamp is used twice.
-/

namespace Potter

open Lib

namespace AStarRoute

variable {K : Type} [Arith K] (R : AStarRoute K)

/-- The head of the main loop's body. -/
def beginIteration (st : RouterState R.database) : RouterState R.database :=
  { st with
    ctl := { st.ctl with
      iter := st.ctl.iter + 1
      connectionIdBase := st.ctl.connectionIdBase + (st.routedConnectionNum + 1) }
    routedConnectionNum := 0
    failRouteNum := 0 }

/-- A run with the connections it has routed, one list for every iteration and the latest first, and
the stamps of their searches. The base of the first iteration is `b`. -/
inductive Traced : Int → List (List R.database.ConnId) → List Int → RouterState R.database → Prop
  | start {st : RouterState R.database}
      (hmarks : ∀ t r, (st.info t r).isVisited = -1 ∧ (st.info t r).isTarget = -1) :
      Traced (st.ctl.connectionIdBase + (st.routedConnectionNum + 1)) [] [] st
  | iteration {b : Int} {hist : List (List R.database.ConnId)} {stamps : List Int}
      {st : RouterState R.database} :
      Traced b hist stamps st → Traced b ([] :: hist) stamps (R.beginIteration st)
  | attempt {b : Int} {S : List R.database.ConnId} {hist : List (List R.database.ConnId)}
      {stamps : List Int} {st st' : RouterState R.database} {ρ : Reads R.database.NodeId K}
      {c : R.database.ConnId} {tid : Nat} {sync success : Bool} :
      Traced b (S :: hist) stamps st → c ∉ S →
      R.routeOneConnection ρ c tid sync st = some (success, st') →
      Traced b ((c :: S) :: hist) (R.connectionUniqueId st c :: stamps) st'
  | other {b : Int} {hist : List (List R.database.ConnId)} {stamps : List Int}
      {st st' : RouterState R.database} : Traced b hist stamps st →
      st'.ctl.connectionIdBase = st.ctl.connectionIdBase →
      st'.routedConnectionNum = st.routedConnectionNum → (∀ t, st'.marks t = st.marks t) →
      Traced b hist stamps st'

/-- The base of the iteration after `hist`. -/
def baseAfter (b : Int) : List (List R.database.ConnId) → Int
  | [] => b
  | S :: hist => baseAfter b hist + (S.length + 1)

variable {R} {st st' : RouterState R.database} {b : Int} {S : List R.database.ConnId}
  {hist : List (List R.database.ConnId)} {stamps : List Int}

theorem le_baseAfter : ∀ hist : List (List R.database.ConnId), b ≤ R.baseAfter b hist
  | [] => le_refl b
  | S :: hist => by
    have := le_baseAfter hist
    simp only [baseAfter]
    omega

/-! ## What a search does to the marks and the counters -/

section Attempt

variable {ρ : Reads R.database.NodeId K} {c : R.database.ConnId} {tid : Nat} {sync success : Bool}

theorem search_marks_stamped :
    (R.search ρ st c tid sync).All
      (BestFirst.Stamped (R.connectionUniqueId st c) (st.marks tid)) := by
  rw [search, searchLoop_eq]
  exact BestFirst.search_stamped _ _

/-- Committing a route leaves the control variables, the working memory and the counter. -/
theorem commitRoute_frame (ρ : Reads R.database.NodeId K) (c : R.database.ConnId) (sync : Bool)
    (k : Nat) (st : RouterState R.database) :
    (R.commitRoute ρ c sync k st).ctl = st.ctl ∧ (R.commitRoute ρ c sync k st).info = st.info ∧
      (R.commitRoute ρ c sync k st).routedConnectionNum = st.routedConnectionNum := by
  cases sync with
  | false =>
    simp only [commitRoute, Bool.false_eq_true, ↓reduceIte, updateUsersAndPresentCongestionCost]
    exact ⟨foldl_frame (f := R.useNode ρ _) (p := RouterState.ctl) (fun _ _ => rfl) _ _,
      foldl_frame (f := R.useNode ρ _) (p := RouterState.info) (fun _ _ => rfl) _ _,
      foldl_frame (f := R.useNode ρ _) (p := RouterState.routedConnectionNum) (fun _ _ => rfl) _ _⟩
  | true =>
    simp only [commitRoute, ↓reduceIte]
    exact ⟨foldl_frame (f := R.preIncrement _) (p := RouterState.ctl) (fun _ _ => rfl) _ _,
      foldl_frame (f := R.preIncrement _) (p := RouterState.info) (fun _ _ => rfl) _ _,
      foldl_frame (f := R.preIncrement _) (p := RouterState.routedConnectionNum)
        (fun _ _ => rfl) _ _⟩

/-- So does a rip-up. -/
theorem ripup_frame (h : R.ripup ρ c sync st = some st') :
    st'.ctl = st.ctl ∧ st'.info = st.info ∧ st'.routedConnectionNum = st.routedConnectionNum := by
  simp only [ripup] at h
  split at h
  · cases h
  · obtain ⟨t, ht, rfl⟩ := Option.map_eq_some_iff.1 h
    cases sync with
    | false =>
      cases ht
      exact ⟨foldl_frame (f := R.leaveNode ρ _) (p := RouterState.ctl) (fun _ _ => rfl) _ _,
        foldl_frame (f := R.leaveNode ρ _) (p := RouterState.info) (fun _ _ => rfl) _ _,
        foldl_frame (f := R.leaveNode ρ _) (p := RouterState.routedConnectionNum)
          (fun _ _ => rfl) _ _⟩
    | true =>
      have hrun : runAll (R.preDecrement (R.database.netOf c)) (R.heldNodes st c) st = some t := ht
      have hframe := runAll_invariant (I := fun s : RouterState R.database => s.ctl = st.ctl ∧
        s.info = st.info ∧ s.routedConnectionNum = st.routedConnectionNum)
        (fun r _ u v hu hv => by
          obtain ⟨w, -, rfl⟩ := Option.map_eq_some_iff.1 hv
          exact hu) ⟨rfl, rfl, rfl⟩ hrun
      exact hframe

/-- **An attempt is counted, and leaves marks of its own stamp or none.** -/
theorem routeOneConnection_stamped
    (h : R.routeOneConnection ρ c tid sync st = some (success, st')) :
    st'.ctl.connectionIdBase = st.ctl.connectionIdBase ∧
      st'.routedConnectionNum = st.routedConnectionNum + 1 ∧
      ∀ t, BestFirst.Stamped (R.connectionUniqueId st c) (st.marks t) (st'.marks t) := by
  have hall : (R.search ρ (R.beginRoute c st) c tid sync).All
      (BestFirst.Stamped (R.connectionUniqueId st c) (st.marks tid)) := search_marks_stamped
  have hmarks : ∀ m, BestFirst.Stamped (R.connectionUniqueId st c) (st.marks tid) m →
      ∀ t, BestFirst.Stamped (R.connectionUniqueId st c) (st.marks t)
        (((R.beginRoute c st).withMarks tid m).marks t) := by
    intro m hm t
    by_cases ht : t = tid
    · subst ht
      rwa [RouterState.marks_withMarks]
    · have e : ((R.beginRoute c st).withMarks tid m).marks t = st.marks t := by
        funext r
        simp [RouterState.marks, RouterState.withMarks, RouterState.withInfo, beginRoute, ht]
      rw [e]
      exact BestFirst.Stamped.refl _ _
  rcases routeOneConnection_cases h with ⟨-, f, hf, rfl⟩ | ⟨-, m, k, path, hf, -, rfl⟩
  · rw [hf] at hall
    exact ⟨rfl, rfl, hmarks _ hall⟩
  · rw [hf] at hall
    obtain ⟨hctl, hinfo, hnum⟩ := commitRoute_frame ρ c sync k
      (appendPath c path ((R.beginRoute c st).withMarks tid m))
    refine ⟨?_, hnum.trans rfl, fun t => ?_⟩
    · rw [hctl]
      rfl
    · have e : (R.commitRoute ρ c sync k (appendPath c path ((R.beginRoute c st).withMarks tid
          m))).marks t = ((R.beginRoute c st).withMarks tid m).marks t := by
        funext r
        simp only [RouterState.marks, hinfo]
        rfl
      rw [e]
      exact hmarks m hall t

end Attempt

/-! ## The stamps of a run -/

variable (R) in
/-- The stamps a history stands for. -/
def stampsOf (b : Int) : List (List R.database.ConnId) → List Int
  | [] => []
  | S :: hist =>
    S.map (fun c : R.database.ConnId => ((c : Nat) : Int) + R.baseAfter b hist) ++ stampsOf b hist

/-- What holds along a run. -/
structure TraceInv (b : Int) (hist : List (List R.database.ConnId)) (stamps : List Int)
    (st : RouterState R.database) : Prop where
  base : st.ctl.connectionIdBase + (st.routedConnectionNum + 1) = R.baseAfter b hist
  count : ∀ S rest, hist = S :: rest → st.routedConnectionNum = S.length
  stamps_eq : stamps = R.stampsOf b hist
  nodup : ∀ S ∈ hist, S.Nodup
  marks : ∀ t r, ((st.marks t r).isVisited = -1 ∨ (st.marks t r).isVisited ∈ stamps) ∧
    ((st.marks t r).isTarget = -1 ∨ (st.marks t r).isTarget ∈ stamps)

/-- The stamp of a search is its id over the base of its iteration. -/
theorem TraceInv.uid (h : TraceInv b (S :: hist) stamps st) (c : R.database.ConnId) :
    R.connectionUniqueId st c = (c : Nat) + R.baseAfter b hist := by
  have hbase := h.base
  have hcount := h.count S hist rfl
  simp only [baseAfter, connectionUniqueId] at hbase ⊢
  omega

theorem TraceInv.attempt {ρ : Reads R.database.NodeId K} {c : R.database.ConnId} {tid : Nat}
    {sync success : Bool} (h : TraceInv b (S :: hist) stamps st) (hc : c ∉ S)
    (hroute : R.routeOneConnection ρ c tid sync st = some (success, st')) :
    TraceInv b ((c :: S) :: hist) (R.connectionUniqueId st c :: stamps) st' := by
  obtain ⟨hbase, hnum, hstamped⟩ := routeOneConnection_stamped hroute
  refine ⟨?_, ?_, ?_, ?_, fun t r => ?_⟩
  · have := h.base
    simp only [baseAfter, List.length_cons] at this ⊢
    push_cast
    omega
  · intro T rest he
    cases he
    rw [hnum, h.count S hist rfl, List.length_cons]
    push_cast
    ring
  · rw [h.uid c, h.stamps_eq]
    rfl
  · intro T hT
    rcases List.mem_cons.1 hT with rfl | hT
    · exact List.nodup_cons.2 ⟨hc, h.nodup S List.mem_cons_self⟩
    · exact h.nodup T (List.mem_cons_of_mem _ hT)
  · have keep : ∀ {x y : Int}, (x = -1 ∨ x ∈ stamps) →
        (y = x ∨ y = R.connectionUniqueId st c ∨ y = -1) →
        y = -1 ∨ y ∈ R.connectionUniqueId st c :: stamps := by
      rintro x y hx (rfl | rfl | rfl)
      · exact hx.imp_right (List.mem_cons_of_mem _)
      · exact Or.inr List.mem_cons_self
      · exact Or.inl rfl
    exact ⟨keep (h.marks t r).1 (hstamped t r).1, keep (h.marks t r).2 (hstamped t r).2⟩

theorem Traced.inv (h : R.Traced b hist stamps st) : TraceInv b hist stamps st := by
  induction h with
  | start hmarks =>
    refine ⟨rfl, fun _ _ he => ?_, rfl, fun _ hS => ?_, fun t r => ?_⟩
    · cases he
    · cases hS
    · exact ⟨Or.inl (hmarks t r).1, Or.inl (hmarks t r).2⟩
  | iteration _ ih =>
    refine ⟨?_, fun T rest he => ?_, ih.stamps_eq, fun T hT => ?_, ih.marks⟩
    · simp only [beginIteration, baseAfter, ih.base, List.length_nil]
      rfl
    · cases he
      rfl
    · rcases List.mem_cons.1 hT with rfl | hT
      · exact List.nodup_nil
      · exact ih.nodup T hT
  | attempt _ hc hroute ih => exact ih.attempt hc hroute
  | other _ hbase hnum hmarks ih =>
    refine ⟨?_, fun T rest he => hnum.trans (ih.count T rest he), ih.stamps_eq, ih.nodup,
      fun t r => ?_⟩
    · rw [hbase, hnum]
      exact ih.base
    · rw [hmarks t]
      exact ih.marks t r

/-! ## Iterations of a run -/

/-- A rip-up before a search leaves its stamp as it was. -/
theorem Traced.reroute {c : R.database.ConnId} (h : R.Traced b (S :: hist) stamps st) (hc : c ∉ S)
    (hroute : R.reroute c st = some st') :
    R.Traced b ((c :: S) :: hist) (R.connectionUniqueId st c :: stamps) st' := by
  obtain ⟨t, hrip, hsnd⟩ := Option.bind_eq_some_iff.1 hroute
  obtain ⟨⟨success, u⟩, hattempt, rfl⟩ := Option.map_eq_some_iff.1 hsnd
  obtain ⟨hctl, hinfo, hnum⟩ := ripup_frame hrip
  have huid : R.connectionUniqueId st c = R.connectionUniqueId t c := by
    rw [connectionUniqueId, connectionUniqueId, hctl]
  have hmarks : ∀ i, t.marks i = st.marks i := fun i => by
    funext r
    rw [RouterState.marks, RouterState.marks, hinfo]
  rw [huid]
  exact Traced.attempt (h.other (by rw [hctl]) hnum hmarks) hc hattempt

theorem Traced.reroutes : ∀ {l S : List R.database.ConnId} {stamps : List Int}
    {st st' : RouterState R.database}, R.Traced b (S :: hist) stamps st →
    (l.reverse ++ S).Nodup → runAll R.reroute l st = some st' →
    R.Traced b ((l.reverse ++ S) :: hist) (R.stampsOf b ((l.reverse ++ S) :: hist)) st'
  | [], S, stamps, st, st', h, _, hrun => by
    cases hrun
    rw [List.reverse_nil, List.nil_append, ← h.inv.stamps_eq]
    exact h
  | c :: l, S, stamps, st, st', h, hnd, hrun => by
    rw [runAll_cons, Option.bind_eq_some_iff] at hrun
    obtain ⟨t, ht, hrun⟩ := hrun
    rw [List.reverse_cons, List.append_assoc, List.singleton_append] at hnd ⊢
    have hc : c ∉ S := (List.nodup_cons.1 (List.nodup_append.1 hnd).2.1).1
    exact (h.reroute hc ht).reroutes hnd hrun

/-- Reserving the sinks starts a run. -/
theorem Traced.reserved (hmarks : ∀ t r, (st.info t r).isVisited = -1 ∧ (st.info t r).isTarget = -1)
    (hstart : R.updateSinkNodeUsage st = some st') :
    R.Traced (st.ctl.connectionIdBase + (st.routedConnectionNum + 1)) [] [] st' := by
  have hframe := runAll_invariant (I := fun s : RouterState R.database => s.ctl = st.ctl ∧
    s.info = st.info ∧ s.routedConnectionNum = st.routedConnectionNum)
    (fun r _ u v hu hv => by
      simp only [reserveSink] at hv
      split at hv
      · cases hv
      · cases hv
        exact hu) ⟨rfl, rfl, rfl⟩ hstart
  obtain ⟨hctl, hinfo, hnum⟩ := hframe
  refine (Traced.start hmarks).other (by rw [hctl]) hnum fun t => ?_
  funext r
  rw [RouterState.marks, RouterState.marks, hinfo]

/-! ## Where stamps are fresh -/

/-- The iterations route as many connections as their largest id says. -/
def Dense (hist : List (List R.database.ConnId)) : Prop :=
  ∀ T ∈ hist, ∀ i ∈ T, (i : Nat) ≤ T.length

instance (hist : List (List R.database.ConnId)) : Decidable (Dense hist) :=
  inferInstanceAs (Decidable (∀ T ∈ hist, ∀ i ∈ T, (i : Nat) ≤ T.length))

/-- Dense iterations stay below the next base. -/
theorem mem_stampsOf : ∀ {hist : List (List R.database.ConnId)}, Dense hist →
    ∀ x ∈ R.stampsOf b hist, b ≤ x ∧ x < R.baseAfter b hist
  | [], _, _, hx => by cases hx
  | S :: hist, hd, x, hx => by
    simp only [baseAfter]
    rcases List.mem_append.1 hx with hx | hx
    · obtain ⟨i, hi, rfl⟩ := List.mem_map.1 hx
      have hle := hd S List.mem_cons_self i hi
      have := le_baseAfter (R := R) (b := b) hist
      omega
    · have := mem_stampsOf (fun T hT => hd T (List.mem_cons_of_mem _ hT)) x hx
      omega

theorem nodup_stampsOf : ∀ {hist : List (List R.database.ConnId)}, (∀ S ∈ hist, S.Nodup) →
    Dense hist.tail → (R.stampsOf b hist).Nodup
  | [], _, _ => List.nodup_nil
  | S :: hist, hnd, hd => by
    have hd' : Dense hist := hd
    have hinj : Function.Injective fun c : R.database.ConnId =>
        (((c : Nat) : Int) + R.baseAfter b hist) := fun i j hij => Fin.ext (by simpa using hij)
    refine List.Nodup.append ((hnd S List.mem_cons_self).map hinj)
      (nodup_stampsOf (fun T hT => hnd T (List.mem_cons_of_mem _ hT))
        fun T hT => hd' T (List.mem_of_mem_tail hT)) fun x hx hx' => ?_
    obtain ⟨i, -, rfl⟩ := List.mem_map.1 hx
    have := (mem_stampsOf hd' _ hx').2
    omega

/-- **Stamps are fresh in a run of dense iterations**: no two searches have the same one, and a
search that is about to start finds its stamp nowhere in the working memory of any thread. -/
theorem traced_stamps_fresh (h : R.Traced b (S :: hist) stamps st) (hb : 0 ≤ b)
    (hdense : Dense hist) :
    stamps.Nodup ∧ ∀ c ∉ S, R.connectionUniqueId st c ∉ stamps ∧
      ∀ t r, (st.info t r).isVisited ≠ R.connectionUniqueId st c ∧
        (st.info t r).isTarget ≠ R.connectionUniqueId st c := by
  have hinv := h.inv
  have hfresh : ∀ c ∉ S, R.connectionUniqueId st c ∉ stamps := by
    intro c hc hmem
    rw [hinv.uid c, hinv.stamps_eq] at hmem
    rcases List.mem_append.1 hmem with hx | hx
    · obtain ⟨i, hi, he⟩ := List.mem_map.1 hx
      have : i = c := Fin.ext (by simpa using he)
      exact hc (this ▸ hi)
    · have := (mem_stampsOf hdense _ hx).2
      omega
  refine ⟨by rw [hinv.stamps_eq]; exact nodup_stampsOf hinv.nodup hdense, fun c hc =>
    ⟨hfresh c hc, fun t r => ?_⟩⟩
  have hpos : (0 : Int) ≤ R.connectionUniqueId st c := by
    have := le_baseAfter (R := R) (b := b) hist
    rw [hinv.uid c]
    omega
  have hne : ∀ x : Int, (x = -1 ∨ x ∈ stamps) → x ≠ R.connectionUniqueId st c := by
    rintro x (rfl | hx) he
    · omega
    · exact hfresh c hc (he ▸ hx)
  exact ⟨hne _ (hinv.marks t r).1, hne _ (hinv.marks t r).2⟩

/-- A dense iteration, then one connection in each of the next two. -/
theorem traced_stamps_fresh_columns :
    ∃ st, (columns 2 1 true false).Traced 1 [[0], [1], [1, 0]] [6, 5, 2, 1] st ∧
      ([6, 5, 2, 1] : List Int).Nodup := by
  have hrun : ∃ s ∈ (columns 2 1 true false).updateSinkNodeUsage
      (.init (fun _ => false) (fun _ => false) 0 0),
      ∃ s₁ ∈ runAll (columns 2 1 true false).reroute [0, 1]
        ((columns 2 1 true false).beginIteration s),
      ∃ s₂ ∈ runAll (columns 2 1 true false).reroute [1]
        ((columns 2 1 true false).beginIteration s₁),
      ∃ s₃ ∈ runAll (columns 2 1 true false).reroute [0]
        ((columns 2 1 true false).beginIteration s₂), True := by
    decide +kernel
  obtain ⟨s, hs, s₁, h₁, s₂, h₂, s₃, h₃, -⟩ := hrun
  have htrace : (columns 2 1 true false).Traced 1 [] [] s :=
    Traced.reserved (fun _ _ => ⟨rfl, rfl⟩) hs
  have htrace₁ := htrace.iteration.reroutes (by decide) h₁
  have htrace₂ := htrace₁.iteration.reroutes (by decide) h₂
  have htrace₃ : (columns 2 1 true false).Traced 1 [[0], [1], [1, 0]] [6, 5, 2, 1] s₃ :=
    htrace₂.iteration.reroutes (by decide) h₃
  exact ⟨s₃, htrace₃, (traced_stamps_fresh htrace₃ (by decide) (by decide)).1⟩

/-! ## Where stamps come up again -/

/-- Iterations that route nothing. -/
theorem Traced.iterate (h : R.Traced b hist stamps st) (p : Nat) :
    R.Traced b (List.replicate p [] ++ hist) stamps (R.beginIteration^[p] st) := by
  induction p with
  | zero => exact h
  | succ p ih =>
    rw [Function.iterate_succ_apply']
    exact ih.iteration

theorem baseAfter_replicate (p : Nat) (hist : List (List R.database.ConnId)) :
    R.baseAfter b (List.replicate p [] ++ hist) = R.baseAfter b hist + p := by
  induction p with
  | zero => simp
  | succ p ih =>
    rw [List.replicate_succ, List.cons_append]
    simp only [baseAfter, ih, List.length_nil]
    push_cast
    ring

/-- **An iteration that is not dense leaves a stamp that comes up again**: after some iterations
that route nothing, a search for the first connection would use it. -/
theorem Traced.reused (h : R.Traced b (S :: hist) stamps st) {c : R.database.ConnId} (hc : c ∈ S)
    (hlt : S.length < c) : ∃ p, R.Traced b (List.replicate (p + 1) [] ++ S :: hist) stamps
        (R.beginIteration^[p + 1] st) ∧
      R.connectionUniqueId (R.beginIteration^[p + 1] st) ⟨0, by have := c.isLt; omega⟩ ∈ stamps := by
  refine ⟨c - S.length - 1, h.iterate _, ?_⟩
  have hrun := (h.iterate (c - S.length - 1 + 1)).inv
  rw [List.replicate_succ, List.cons_append] at hrun
  rw [hrun.uid, baseAfter_replicate, h.inv.stamps_eq]
  refine List.mem_append_left _ (List.mem_map.2 ⟨c, hc, ?_⟩)
  simp only [baseAfter]
  omega

/-- Three connections are routed, then the last one alone, then the first one alone: the stamp of
the third search for the first connection is that of the second search for the last, and the sink of
the last still carries it as its target mark. -/
theorem stamp_reused_columns :
    ∃ st, (columns 3 1 true false).Traced 1 [[], [2], [2, 1, 0]] [7, 3, 2, 1] st ∧
      (columns 3 1 true false).connectionUniqueId st 0 = 7 ∧ (st.info 0 5).isTarget = 7 := by
  have hrun : ∃ s ∈ (columns 3 1 true false).updateSinkNodeUsage
      (.init (fun _ => false) (fun _ => false) 0 0),
      ∃ s₁ ∈ runAll (columns 3 1 true false).reroute [0, 1, 2]
        ((columns 3 1 true false).beginIteration s),
      ∃ s₂ ∈ runAll (columns 3 1 true false).reroute [2]
        ((columns 3 1 true false).beginIteration s₁),
      (columns 3 1 true false).connectionUniqueId ((columns 3 1 true false).beginIteration s₂) 0 = 7 ∧
        (s₂.info 0 5).isTarget = 7 := by
    decide +kernel
  obtain ⟨s, hs, s₁, h₁, s₂, h₂, huid, htarget⟩ := hrun
  have htrace : (columns 3 1 true false).Traced 1 [] [] s :=
    Traced.reserved (fun _ _ => ⟨rfl, rfl⟩) hs
  have htrace₁ := htrace.iteration.reroutes (by decide) h₁
  have htrace₂ := htrace₁.iteration.reroutes (by decide) h₂
  exact ⟨_, htrace₂.iteration, huid, htarget⟩

end AStarRoute

end Potter
