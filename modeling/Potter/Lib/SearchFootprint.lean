import Potter.Lib.BestFirst

/-!
# What a search reads and writes

`loop_invariant` is the rule for properties of the mark table: a search writes it in three ways only
(a pushed node, the target mark, the back pointer of a found sink). Two uses: the stamps a search
leaves behind are its own or none (`Stamped`), and a search that accepts nodes of a region only
writes inside it (`search_outside`). Of the table it starts from, a search uses the target marks in its
verdicts (`loop_flagged`).

`loop_agree` compares two searches for the same ends whose verdicts agree on a region and skip
everything outside. They start from tables that agree on the region, and end alike: the marks
outside are read, but whether they carry the stamp or not the child is passed over.
-/

namespace Potter.Lib.BestFirst

section Invariant

variable {V K : Type} [DecidableEq V] [LT K] {Q : PriorityQueue V K} {P : Problem V K}
  {children : V → List V}

/-- A property of the mark table a scan or a search ends with, if it ends with one. -/
def Scan.All (I : (V → Mark V K) → Prop) : Scan V K → Prop
  | .next f => I f.marks
  | .found f => I f.marks
  | .halted => True

@[inherit_doc Scan.All]
def Outcome.All (I : (V → Mark V K) → Prop) : Outcome V K → Prop
  | .halted => True
  | .found marks _ => I marks
  | .exhausted f => I f.marks

variable {I : (V → Mark V K) → Prop}
  (hpush : ∀ (m : V → Mark V K) (v : V) (prev : Option V) (cost partialCost : K), P.Accepts v →
    I m → I (Function.update m v ⟨prev, cost, partialCost, P.uid, -1⟩))
  (hfound : ∀ (m : V → Mark V K) (u : V), I m →
    I (Function.update m P.sink ((m P.sink).withPrev u)))

include hpush hfound

theorem expand_invariant {u : V} {k : K} : ∀ {l : List V} {f : Frontier V K}, I f.marks →
    (expand Q P u k f l).All I
  | [], _, h => h
  | c :: l, f, h => by
    simp only [expand]
    cases hv : visitChild Q P u k f c with
    | halted => trivial
    | found g =>
      obtain ⟨-, -, rfl⟩ := visitChild_found hv
      exact hfound _ _ h
    | next g =>
      rcases visitChild_next hv with rfl | ⟨-, -, hacc, cost, partialCost, rfl⟩
      · exact expand_invariant h
      · exact expand_invariant (hpush _ _ _ _ _ hacc h)

/-- The invariant rule for the mark table. -/
theorem loop_invariant : ∀ {fuel popped : Nat} {f : Frontier V K}, I f.marks →
    (loop Q P children fuel popped f).All I
  | 0, _, _, h => h
  | fuel + 1, popped, f, h => by
    simp only [loop]
    cases hp : Q.pop (fun u => (f.marks u).cost) f.queue with
    | none => exact h
    | some p =>
      obtain ⟨u, q⟩ := p
      have he := expand_invariant (Q := Q) (P := P) hpush hfound (u := u)
        (k := (f.marks u).partialCost) (l := children u) (f := { f with queue := q }) h
      dsimp only
      cases hx : expand Q P u (f.marks u).partialCost { f with queue := q } (children u) with
      | next g =>
        rw [hx] at he
        exact loop_invariant he
      | found g =>
        rw [hx] at he
        exact he
      | halted => trivial

end Invariant

/-! ## The stamps left behind -/

section Stamps

variable {V K : Type}

/-- The stamps of `m'` are those of `m`, that of the search, or the `-1` of no search. -/
def Stamped (uid : Int) (m m' : V → Mark V K) : Prop :=
  ∀ v, ((m' v).isVisited = (m v).isVisited ∨ (m' v).isVisited = uid ∨ (m' v).isVisited = -1) ∧
    ((m' v).isTarget = (m v).isTarget ∨ (m' v).isTarget = uid ∨ (m' v).isTarget = -1)

theorem Stamped.refl (uid : Int) (m : V → Mark V K) : Stamped uid m m :=
  fun _ => ⟨Or.inl rfl, Or.inl rfl⟩

variable [DecidableEq V] {uid : Int} {m m' : V → Mark V K} {v : V}

/-- A write of a mark whose stamps are the search's, none, or unchanged. -/
theorem Stamped.update (h : Stamped uid m m') (x : Mark V K)
    (hv : x.isVisited = (m' v).isVisited ∨ x.isVisited = uid ∨ x.isVisited = -1)
    (ht : x.isTarget = (m' v).isTarget ∨ x.isTarget = uid ∨ x.isTarget = -1) :
    Stamped uid m (Function.update m' v x) := by
  intro w
  by_cases hw : w = v
  · subst hw
    rw [Function.update_self]
    refine ⟨?_, ?_⟩
    · rcases hv with e | e
      · rw [e]; exact (h w).1
      · exact Or.inr e
    · rcases ht with e | e
      · rw [e]; exact (h w).2
      · exact Or.inr e
  · rw [Function.update_of_ne hw]
    exact h w

variable [LT K] {Q : PriorityQueue V K} {P : Problem V K} {children : V → List V}

/-- **A search leaves its own stamp or none.** -/
theorem search_stamped (fuel : Nat) (marks : V → Mark V K) :
    (loop Q P children fuel 0 (start Q P marks)).All (Stamped P.uid marks) := by
  refine loop_invariant ?_ ?_ ?_
  · intro m v prev cost partialCost _ h
    exact h.update _ (Or.inr (Or.inl rfl)) (Or.inr (Or.inr rfl))
  · intro m u h
    exact h.update _ (Or.inl rfl) (Or.inl rfl)
  · refine Stamped.update ?_ _ (Or.inr (Or.inr rfl)) (Or.inr (Or.inl rfl))
    exact (Stamped.refl _ _).update _ (Or.inr (Or.inl rfl)) (Or.inr (Or.inr rfl))

end Stamps

/-! ## The flags a search goes by -/

section Flags

variable {V K : Type}

/-- The search whose verdict is told whether a node was marked as its target in `marks`. -/
def Problem.flagged (P : Problem V K) (marks : V → Mark V K) : Problem V K :=
  { P with verdict := fun v _ => P.verdict v (decide ((marks v).isTarget = P.uid)) }

/-- The sink is marked as the target, and a node that has not been pushed as `marks` says. -/
structure Flags (P : Problem V K) (marks : V → Mark V K) (f : Frontier V K) : Prop where
  sink : (f.marks P.sink).isTarget = P.uid
  unvisited : ∀ v, v ≠ P.sink → (f.marks v).isVisited ≠ P.uid →
    (f.marks v).isTarget = (marks v).isTarget

variable [DecidableEq V] [LT K] {Q : PriorityQueue V K} {P : Problem V K} {children : V → List V}
  {marks : V → Mark V K} {f : Frontier V K}

theorem start_flags (marks : V → Mark V K) : Flags P marks (start Q P marks) := by
  refine ⟨by simp [start], fun v hsink hv => ?_⟩
  have hm : (start Q P marks).marks v = (pushNode Q P ⟨marks, []⟩ P.source none P.zero P.zero).marks v :=
    Function.update_of_ne hsink _ _
  have hsource : v ≠ P.source := by
    rintro rfl
    rw [hm, pushNode_marks_self] at hv
    exact hv rfl
  rw [hm, pushNode_marks_ne _ _ _ _ hsource]

theorem Flags.visitChild_eq (h : Flags P marks f) (u c : V) (pc : K) :
    visitChild Q (P.flagged marks) u pc f c = visitChild Q P u pc f c := by
  by_cases hvisited : (f.marks c).isVisited = P.uid
  · simp only [visitChild, Problem.flagged, hvisited, ↓reduceIte]
  · by_cases hsink : c = P.sink
    · subst hsink
      simp only [visitChild, Problem.flagged, hvisited, h.sink, and_self, ↓reduceIte]
    · simp only [visitChild, Problem.flagged, hvisited, hsink, and_false, ↓reduceIte,
        h.unvisited c hsink hvisited]
      rfl

theorem Flags.visitChild {u c : V} {pc : K} {f' : Frontier V K} (h : Flags P marks f)
    (hnext : visitChild Q P u pc f c = .next f') : Flags P marks f' := by
  rcases visitChild_next hnext with rfl | ⟨-, htarget, -, cost, partialCost, rfl⟩
  · exact h
  · have hsink : P.sink ≠ c := by
      rintro rfl
      exact htarget ⟨h.sink, rfl⟩
    refine ⟨?_, fun v hv hvisited => ?_⟩
    · rw [pushNode_marks_ne _ _ _ _ hsink]
      exact h.sink
    · by_cases e : v = c
      · rw [e, pushNode_marks_self] at hvisited
        exact absurd rfl hvisited
      · rw [pushNode_marks_ne _ _ _ _ e] at hvisited ⊢
        exact h.unvisited v hv hvisited

theorem Flags.expand (u : V) (pc : K) : ∀ (cs : List V) {f : Frontier V K}, Flags P marks f →
    BestFirst.expand Q (P.flagged marks) u pc f cs = BestFirst.expand Q P u pc f cs ∧
      ∀ f', BestFirst.expand Q P u pc f cs = .next f' → Flags P marks f'
  | [], f, h => by
    refine ⟨rfl, fun f' hnext => ?_⟩
    cases hnext
    exact h
  | c :: cs, f, h => by
    simp only [BestFirst.expand, h.visitChild_eq]
    cases hv : BestFirst.visitChild Q P u pc f c with
    | next g => exact (h.visitChild hv).expand u pc cs
    | found g => exact ⟨rfl, fun f' hnext => by cases hnext⟩
    | halted => exact ⟨rfl, fun f' hnext => by cases hnext⟩

/-- **A search asks its verdict with the target marks of the table it starts from.** -/
theorem loop_flagged : ∀ {fuel popped : Nat} {f : Frontier V K}, Flags P marks f →
    loop Q (P.flagged marks) children fuel popped f = loop Q P children fuel popped f
  | 0, _, _, _ => rfl
  | fuel + 1, popped, f, h => by
    simp only [loop]
    cases Q.pop (fun u => (f.marks u).cost) f.queue with
    | none => rfl
    | some p =>
      obtain ⟨u, q⟩ := p
      have hpop : Flags P marks { f with queue := q } := ⟨h.sink, h.unvisited⟩
      obtain ⟨heq, hnext⟩ := hpop.expand (Q := Q) u (f.marks u).partialCost (children u)
      dsimp only
      rw [heq]
      cases he : BestFirst.expand Q P u (f.marks u).partialCost { f with queue := q } (children u) with
      | next g => exact loop_flagged (hnext g he)
      | found g => rfl
      | halted => rfl

end Flags

/-! ## Searches confined to a region -/

section Region

variable {V K : Type}

/-- The search stays inside `In`: its ends lie there and it skips every other node. -/
structure Problem.Within (P : Problem V K) (In : V → Prop) : Prop where
  source : In P.source
  sink : In P.sink
  skip : ∀ v, ¬In v → ∀ t, P.verdict v t = .skip

/-- The two searches are the same inside `In`. -/
structure Problem.SameOn (In : V → Prop) (P P' : Problem V K) : Prop where
  uid : P'.uid = P.uid
  source : P'.source = P.source
  sink : P'.sink = P.sink
  zero : P'.zero = P.zero
  verdict : ∀ v, In v → P'.verdict v = P.verdict v

theorem Problem.Within.accepts {P : Problem V K} {In : V → Prop} (h : P.Within In) {v : V}
    (hv : P.Accepts v) : In v := by
  by_contra hn
  obtain ⟨t, costs, e⟩ := hv
  rw [h.skip v hn t] at e
  cases e

/-- Equal queues inside `In`, and equal marks there. -/
structure Frontier.AgreeOn (In : V → Prop) (f g : Frontier V K) : Prop where
  queue : g.queue = f.queue
  inside : ∀ v ∈ f.queue, In v
  marks : ∀ v, In v → g.marks v = f.marks v

/-- The two results are alike, up to marks outside `In`. -/
inductive Scan.AgreeOn (In : V → Prop) : Scan V K → Scan V K → Prop
  | next {f g : Frontier V K} : f.AgreeOn In g → Scan.AgreeOn In (.next f) (.next g)
  | found {f g : Frontier V K} : f.AgreeOn In g → Scan.AgreeOn In (.found f) (.found g)
  | halted : Scan.AgreeOn In .halted .halted

@[inherit_doc Scan.AgreeOn]
inductive Outcome.AgreeOn (In : V → Prop) : Outcome V K → Outcome V K → Prop
  | halted : Outcome.AgreeOn In .halted .halted
  | found {m m' : V → Mark V K} {k : Nat} : (∀ v, In v → m' v = m v) →
      Outcome.AgreeOn In (.found m k) (.found m' k)
  | exhausted {f g : Frontier V K} : f.AgreeOn In g →
      Outcome.AgreeOn In (.exhausted f) (.exhausted g)

variable [DecidableEq V] [LT K] {Q : PriorityQueue V K} {P P' : Problem V K}
  {children : V → List V} {In : V → Prop}

theorem Frontier.AgreeOn.pushNode {f g : Frontier V K} (h : f.AgreeOn In g) (hu : P'.uid = P.uid)
    {v : V} (hv : In v) (prev : Option V) (cost partialCost : K) :
    (BestFirst.pushNode Q P f v prev cost partialCost).AgreeOn In
      (BestFirst.pushNode Q P' g v prev cost partialCost) := by
  have hm : ∀ w, In w → (BestFirst.pushNode Q P' g v prev cost partialCost).marks w =
      (BestFirst.pushNode Q P f v prev cost partialCost).marks w := by
    intro w hw
    by_cases e : w = v
    · subst e
      rw [pushNode_marks_self, pushNode_marks_self, hu]
    · rw [pushNode_marks_ne _ _ _ _ e, pushNode_marks_ne _ _ _ _ e, h.marks w hw]
  refine ⟨?_, ?_, hm⟩
  · simp only [BestFirst.pushNode]
    rw [h.queue]
    apply Q.push_congr
    intro w hw
    have hw' : In w := by
      rcases List.mem_cons.1 hw with rfl | hw
      · exact hv
      · exact h.inside w hw
    exact congrArg Mark.cost (hm w hw')
  · intro w hw
    rcases mem_pushNode_queue.1 hw with rfl | hw
    · exact hv
    · exact h.inside w hw

theorem start_agree (hw : P.Within In) (hP : P.SameOn In P') {m m' : V → Mark V K}
    (hm : ∀ v, In v → m' v = m v) : (start Q P m).AgreeOn In (start Q P' m') := by
  have h0 : (Frontier.mk m []).AgreeOn In ⟨m', []⟩ :=
    ⟨rfl, fun v hv => absurd hv List.not_mem_nil, hm⟩
  have h1 := h0.pushNode (Q := Q) hP.uid hw.source none P.zero P.zero
  refine ⟨?_, h1.inside, ?_⟩
  · simp only [start, hP.source, hP.zero]
    exact h1.queue
  · intro v hv
    simp only [start, hP.source, hP.zero, hP.sink, hP.uid]
    by_cases e : v = P.sink
    · subst e
      rw [Function.update_self, Function.update_self]
    · rw [Function.update_of_ne e, Function.update_of_ne e]
      exact h1.marks v hv

/-- A child outside the region leaves the frontier alone. -/
theorem visitChild_outside (hw : P.Within In) {u child : V} {pc : K}
    {f : Frontier V K} (hc : ¬In child) : visitChild Q P u pc f child = .next f := by
  have hne : child ≠ P.sink := fun e => hc (e ▸ hw.sink)
  simp only [visitChild, hne, and_false, ↓reduceIte, hw.skip child hc, ite_self]

theorem visitChild_agree (hw : P.Within In) (hw' : P'.Within In) (hP : P.SameOn In P')
    {f g : Frontier V K} (h : f.AgreeOn In g) (u child : V) (pc : K) :
    (visitChild Q P u pc f child).AgreeOn In (visitChild Q P' u pc g child) := by
  by_cases hc : In child
  · simp only [visitChild, h.marks child hc, hP.uid, hP.sink, hP.verdict child hc]
    split
    · exact .next h
    · split
      · refine .found ⟨h.queue, h.inside, fun v hv => ?_⟩
        dsimp only
        by_cases e : v = child
        · subst e
          rw [Function.update_self, Function.update_self]
        · rw [Function.update_of_ne e, Function.update_of_ne e]
          exact h.marks v hv
      · cases P.verdict child (decide ((f.marks child).isTarget = P.uid)) with
        | skip => exact .next h
        | halt => exact .halted
        | visit costs => exact .next (h.pushNode hP.uid hc _ _ _)
  · rw [visitChild_outside hw hc, visitChild_outside hw' hc]
    exact .next h

theorem expand_agree (hw : P.Within In) (hw' : P'.Within In) (hP : P.SameOn In P') (u : V)
    (pc : K) : ∀ (cs : List V) {f g : Frontier V K}, f.AgreeOn In g →
      (expand Q P u pc f cs).AgreeOn In (expand Q P' u pc g cs)
  | [], _, _, h => .next h
  | c :: cs, f, g, h => by
    simp only [expand]
    have hv := visitChild_agree (Q := Q) hw hw' hP h u c pc
    cases hx : visitChild Q P u pc f c <;> cases hy : visitChild Q P' u pc g c <;>
      rw [hx, hy] at hv <;> cases hv
    case next.next hfg => exact expand_agree hw hw' hP u pc cs hfg
    case found.found hfg => exact .found hfg
    case halted.halted => exact .halted

/-- **Two searches that are the same on a region end alike on it.** -/
theorem loop_agree (hw : P.Within In) (hw' : P'.Within In) (hP : P.SameOn In P') :
    ∀ (fuel popped : Nat) {f g : Frontier V K}, f.AgreeOn In g →
      (loop Q P children fuel popped f).AgreeOn In (loop Q P' children fuel popped g)
  | 0, _, _, _, h => .exhausted h
  | fuel + 1, popped, f, g, h => by
    have hpop : Q.pop (fun u => (g.marks u).cost) g.queue =
        Q.pop (fun u => (f.marks u).cost) f.queue := by
      rw [h.queue]
      exact Q.pop_congr fun v hv => congrArg Mark.cost (h.marks v (h.inside v hv))
    simp only [loop, hpop]
    cases hp : Q.pop (fun u => (f.marks u).cost) f.queue with
    | none => exact .exhausted h
    | some p =>
      obtain ⟨u, q⟩ := p
      have hu : In u := h.inside u (Q.mem_of_pop hp)
      have hq : Frontier.AgreeOn In { f with queue := q } { g with queue := q } :=
        ⟨rfl, fun v hv => h.inside v (Q.mem_of_pop_rest hp hv), h.marks⟩
      have he := expand_agree (Q := Q) hw hw' hP u (f.marks u).partialCost (children u) hq
      dsimp only
      rw [h.marks u hu]
      cases hx : expand Q P u (f.marks u).partialCost { f with queue := q } (children u) <;>
        cases hy : expand Q P' u (f.marks u).partialCost { g with queue := q } (children u) <;>
        rw [hx, hy] at he <;> cases he
      case next.next hfg => exact loop_agree hw hw' hP fuel (popped + 1) hfg
      case found.found hfg => exact .found hfg.marks
      case halted.halted => exact .halted

omit [LT K] in
/-- Following back pointers reads the marks on the chain only. -/
theorem trace_congr {m m' : V → Mark V K} {source : V} : ∀ {fuel : Nat} {v : V} {p : List V},
    trace m source fuel v = some p → (∀ u ∈ p, m' u = m u) → trace m' source fuel v = some p := by
  intro fuel
  induction fuel with
  | zero => intro v p h _; cases h
  | succ fuel ih =>
    intro v p h hm
    simp only [trace] at h ⊢
    cases hp : (m v).prev with
    | none =>
      simp only [hp] at h
      split at h
      · rename_i hv
        cases h
        rw [hm v List.mem_cons_self]
        simp only [hp, if_pos hv]
      · cases h
    | some u =>
      simp only [hp, Option.map_eq_some_iff] at h
      obtain ⟨q, hq, rfl⟩ := h
      rw [hm v List.mem_cons_self]
      simp only [hp, ih hq fun w hw => hm w (List.mem_cons_of_mem v hw), Option.map_some]

/-- **A search confined to a region writes inside it.** -/
theorem search_outside (hw : P.Within In) (fuel : Nat) (marks : V → Mark V K) :
    (loop Q P children fuel 0 (start Q P marks)).All fun m => ∀ v, ¬In v → m v = marks v := by
  refine loop_invariant ?_ ?_ ?_
  · intro m v prev cost partialCost hv h w hn
    rw [Function.update_of_ne (fun e => hn (by rw [e]; exact hw.accepts hv))]
    exact h w hn
  · intro m u h w hn
    rw [Function.update_of_ne (fun e => hn (by rw [e]; exact hw.sink))]
    exact h w hn
  · intro w hn
    have h1 : w ≠ P.sink := fun e => hn (e ▸ hw.sink)
    have h2 : w ≠ P.source := fun e => hn (e ▸ hw.source)
    simp only [start]
    rw [Function.update_of_ne h1, pushNode_marks_ne _ _ _ _ h2]

end Region

end Potter.Lib.BestFirst
