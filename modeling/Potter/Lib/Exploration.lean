import Potter.Lib.BestFirst
import Mathlib.Logic.Relation

/-!
# Completeness of best-first search

A search that starts from a table without marks of its own finds the sink if there is a path to it
(`Exploring.unreachable`), and the back pointers then lead to the source (`Exploring.trace_isSome`).
The costs play no part in this: whatever the order in which nodes are popped, a popped node is
expanded, and a child of an expanded node has been pushed or skipped.

`examined` lists the children that a search puts to its verdict. A search stops the program only at
one of them (`loop_exploring`).
-/

namespace Potter.Lib.BestFirst

open Relation

/-! ## The children that are put to the verdict -/

section Definitions

variable {V K : Type} [DecidableEq V] [LT K]

/-- Those of one expanded node. -/
def lookedAt (Q : PriorityQueue V K) (P : Problem V K) (u : V) (pc : K) :
    Frontier V K → List V → List V
  | _, [] => []
  | f, child :: rest =>
    let m := f.marks child
    if m.isVisited = P.uid then lookedAt Q P u pc f rest
    else if m.isTarget = P.uid ∧ child = P.sink then []
    else
      child :: match visitChild Q P u pc f child with
        | .next f' => lookedAt Q P u pc f' rest
        | _ => []

/-- Those of a whole search. -/
def examined (Q : PriorityQueue V K) (P : Problem V K) (children : V → List V) :
    Nat → Frontier V K → List V
  | 0, _ => []
  | fuel + 1, f =>
    match Q.pop (fun u => (f.marks u).cost) f.queue with
    | none => []
    | some (u, q) =>
      lookedAt Q P u (f.marks u).partialCost { f with queue := q } (children u) ++
        match expand Q P u (f.marks u).partialCost { f with queue := q } (children u) with
        | .next f' => examined Q P children fuel f'
        | _ => []

end Definitions

/-! ## The invariant -/

section Invariant

variable {V K : Type}

/-- A child that has been dealt with: pushed, or skipped for good. -/
def Seen (P : Problem V K) (l : List V) (v : V) : Prop :=
  v ∈ l ∨ (v ≠ P.sink ∧ P.verdict v false = .skip)

theorem Seen.mono {P : Problem V K} {l l' : List V} {v : V} (h : Seen P l v) (hsub : l ⊆ l') :
    Seen P l' v :=
  h.imp_left fun hv => hsub hv

/-- All marks of the search are its own, and what it has popped it has expanded, apart from the nodes
in `O`. -/
structure Exploring (children : V → List V) (P : Problem V K) (O : Set V) (f : Frontier V K)
    (l : List V) : Prop extends Searching children P f l where
  own : ∀ v, (f.marks v).isVisited = P.uid → v ∈ l
  targeted : ∀ v, (f.marks v).isTarget = P.uid → v = P.sink
  accepted : ∀ v ∈ l, v = P.source ∨ ∃ costs, P.verdict v false = .visit costs
  expanded : ∀ u ∈ l, u ∉ f.queue → u ∉ O → ∀ v ∈ children u, Seen P l v

variable {children : V → List V} {P : Problem V K} {O : Set V} {f : Frontier V K} {l : List V} {u : V}

/-- A child put to the verdict is not the sink, and no target. -/
theorem Exploring.untargeted {c : V} (h : Exploring children P O f l)
    (ht : ¬((f.marks c).isTarget = P.uid ∧ c = P.sink)) :
    c ≠ P.sink ∧ decide ((f.marks c).isTarget = P.uid) = false := by
  refine ⟨?_, decide_eq_false fun e => ht ⟨e, h.targeted c e⟩⟩
  rintro rfl
  exact ht ⟨h.target, rfl⟩

/-- A popped node whose children have been seen is expanded. -/
theorem Exploring.close (h : Exploring children P {u} f l) (hseen : ∀ c ∈ children u, Seen P l c) :
    Exploring children P ∅ f l := by
  refine ⟨h.toSearching, h.own, h.targeted, h.accepted, fun w hw hqueue _ => ?_⟩
  by_cases e : w = u
  · rw [e]
    exact hseen
  · exact h.expanded w hw hqueue e

variable [LT K] {Q : PriorityQueue V K}

/-- Popping a node leaves it to be expanded. -/
theorem Exploring.pop {q : List V} (h : Exploring children P ∅ f l)
    (hp : Q.pop (fun v => (f.marks v).cost) f.queue = some (u, q)) :
    Exploring children P {u} { f with queue := q } l := by
  refine ⟨⟨h.grown, fun v hv => h.queued v (Q.mem_of_pop_rest hp hv), h.visited, h.target, h.sink⟩,
    h.own, h.targeted, h.accepted, fun w hw hqueue hne => ?_⟩
  refine h.expanded w hw (fun hmem => ?_) (Set.notMem_empty w)
  rcases List.mem_cons.1 ((Q.pop_perm hp).mem_iff.1 hmem) with rfl | hmem
  · exact hne rfl
  · exact hqueue hmem

variable [DecidableEq V]

theorem start_exploring (hid : P.uid ≠ -1) (hne : P.source ≠ P.sink) {marks : V → Mark V K}
    (hfresh : ∀ v, (marks v).isVisited ≠ P.uid ∧ (marks v).isTarget ≠ P.uid) :
    Exploring children P ∅ (start Q P marks) [P.source] where
  toSearching := start_searching marks
  own v hv := by
    by_contra hsource
    rw [List.mem_singleton] at hsource
    by_cases hsink : v = P.sink
    · subst hsink
      exact hid (by simpa [start] using hv.symm)
    · exact (hfresh v).1 (by simpa [start, pushNode, hsink, hsource] using hv)
  targeted v hv := by
    by_contra hsink
    by_cases hsource : v = P.source
    · subst hsource
      exact hid (by simpa [start, hne] using hv.symm)
    · exact (hfresh v).2 (by simpa [start, pushNode, hsink, hsource] using hv)
  accepted v hv := .inl (List.mem_singleton.1 hv)
  expanded v hv hqueue := by
    rw [List.mem_singleton.1 hv] at hqueue
    exact absurd (by simp [start, pushNode, Q.mem_push]) hqueue

/-- Pushing a child that is not marked. -/
theorem Exploring.pushNode {v : V} (h : Exploring children P O f l) (hid : P.uid ≠ -1)
    (cost partialCost : K) (hu : u ∈ l) (hc : v ∈ children u)
    (hv : (f.marks v).isVisited ≠ P.uid) (ht : ¬((f.marks v).isTarget = P.uid ∧ v = P.sink))
    {costs : K → K × K} (ha : P.verdict v false = .visit costs) :
    Exploring children P O (BestFirst.pushNode Q P f v (some u) cost partialCost) (v :: l) where
  toSearching := h.toSearching.pushNode cost partialCost hu hc hv ht ⟨false, costs, ha⟩
  own w hw := by
    by_cases e : w = v
    · exact e ▸ List.mem_cons_self
    · rw [pushNode_marks_ne _ _ _ _ e] at hw
      exact List.mem_cons_of_mem v (h.own w hw)
  targeted w hw := by
    by_cases e : w = v
    · subst e
      rw [pushNode_marks_self] at hw
      exact absurd hw.symm hid
    · rw [pushNode_marks_ne _ _ _ _ e] at hw
      exact h.targeted w hw
  accepted w hw := by
    rcases List.mem_cons.1 hw with rfl | hw
    · exact .inr ⟨costs, ha⟩
    · exact h.accepted w hw
  expanded w hw hqueue hO := by
    rw [mem_pushNode_queue, not_or] at hqueue
    have hwl : w ∈ l := (List.mem_cons.1 hw).resolve_left hqueue.1
    intro x hx
    exact (h.expanded w hwl hqueue.2 hO x hx).mono (List.subset_cons_self v l)

/-- A child that is not the sink is seen afterwards, unless it stops the program. -/
theorem Exploring.visitChild {c : V} (h : Exploring children P O f l) (hid : P.uid ≠ -1)
    (hu : u ∈ l) (hc : c ∈ children u) (pc : K) :
    (∀ f', BestFirst.visitChild Q P u pc f c = .next f' →
      ∃ l', Exploring children P O f' l' ∧ l ⊆ l' ∧ Seen P l' c) ∧
    (BestFirst.visitChild Q P u pc f c = .halted →
      (f.marks c).isVisited ≠ P.uid ∧ ¬((f.marks c).isTarget = P.uid ∧ c = P.sink) ∧
        P.verdict c false = .halt) := by
  unfold BestFirst.visitChild
  dsimp only
  split
  · rename_i hvisited
    refine ⟨fun f' hnext => ?_, fun hhalt => by cases hhalt⟩
    cases hnext
    exact ⟨l, h, List.Subset.refl l, .inl (h.own c hvisited)⟩
  · rename_i hvisited
    split
    · exact ⟨fun f' hnext => (by cases hnext), fun hhalt => by cases hhalt⟩
    · rename_i htarget
      obtain ⟨hsink, hfalse⟩ := h.untargeted htarget
      rw [hfalse]
      cases hverdict : P.verdict c false with
      | skip =>
        refine ⟨fun f' hnext => ?_, fun hhalt => by cases hhalt⟩
        cases hnext
        exact ⟨l, h, List.Subset.refl l, .inr ⟨hsink, hverdict⟩⟩
      | halt => exact ⟨fun f' hnext => (by cases hnext), fun _ => ⟨hvisited, htarget, rfl⟩⟩
      | visit costs =>
        refine ⟨fun f' hnext => ?_, fun hhalt => by cases hhalt⟩
        cases hnext
        exact ⟨c :: l, h.pushNode hid _ _ hu hc hvisited htarget hverdict,
          List.subset_cons_self c l, .inl List.mem_cons_self⟩

/-- The sink was met below `u` in a search that explores. -/
def MetBelow (children : V → List V) (P : Problem V K) (marks : V → Mark V K) : Prop :=
  ∃ f l u, Exploring children P {u} f l ∧ u ∈ l ∧ P.sink ∈ children u ∧
    marks = Function.update f.marks P.sink ((f.marks P.sink).withPrev u)

/-- The expansion of a node sees all its children, meets the sink, or stops at a child it looks at. -/
theorem expand_exploring (hid : P.uid ≠ -1) (pc : K) : ∀ {cs : List V} {f : Frontier V K}
    {l : List V}, Exploring children P {u} f l → u ∈ l → (∀ c ∈ cs, c ∈ children u) →
    (∀ f', expand Q P u pc f cs = .next f' → ∃ l', Exploring children P {u} f' l' ∧ l ⊆ l' ∧
      ∀ c ∈ cs, Seen P l' c) ∧
    (∀ f', expand Q P u pc f cs = .found f' → MetBelow children P f'.marks) ∧
    (expand Q P u pc f cs = .halted → ∃ c ∈ lookedAt Q P u pc f cs, P.verdict c false = .halt)
  | [], f, l, h, _, _ => by
    refine ⟨fun f' hnext => ?_, fun f' hfound => (by cases hfound), fun hhalt => by cases hhalt⟩
    cases hnext
    exact ⟨l, h, List.Subset.refl l, fun c hc => absurd hc List.not_mem_nil⟩
  | c :: cs, f, l, h, hu, hcs => by
    have hc : c ∈ children u := hcs c List.mem_cons_self
    have hcs' : ∀ x ∈ cs, x ∈ children u := fun x hx => hcs x (List.mem_cons_of_mem c hx)
    obtain ⟨hnext, hhalt⟩ := h.visitChild (Q := Q) hid hu hc pc
    cases hv : BestFirst.visitChild Q P u pc f c with
    | halted =>
      obtain ⟨hvisited, htarget, hverdict⟩ := hhalt hv
      simp only [expand, hv]
      refine ⟨fun f' hn => (by cases hn), fun f' hf => (by cases hf), fun _ => ⟨c, ?_, hverdict⟩⟩
      simp only [lookedAt, if_neg hvisited, if_neg htarget]
      exact List.mem_cons_self
    | found g =>
      obtain ⟨hsink, -, rfl⟩ := visitChild_found hv
      simp only [expand, hv]
      refine ⟨fun f' hn => (by cases hn), fun f' hf => ?_, fun hh => by cases hh⟩
      cases hf
      exact ⟨f, l, u, h, hu, hsink ▸ hc, rfl⟩
    | next g =>
      obtain ⟨l₁, h₁, hsub, hseen⟩ := hnext g hv
      obtain ⟨hnext', hfound', hhalt'⟩ := expand_exploring hid pc h₁ (hsub hu) hcs'
      simp only [expand, hv]
      refine ⟨fun f' hn => ?_, hfound', fun hh => ?_⟩
      · obtain ⟨l', h', hsub', hseen'⟩ := hnext' f' hn
        refine ⟨l', h', List.Subset.trans hsub hsub', fun x hx => ?_⟩
        rcases List.mem_cons.1 hx with rfl | hx
        · exact hseen.mono hsub'
        · exact hseen' x hx
      · obtain ⟨x, hx, hverdict⟩ := hhalt' hh
        refine ⟨x, ?_, hverdict⟩
        -- the child just visited may or may not have been looked at
        simp only [lookedAt, hv]
        split
        · rename_i hvisited
          have hg : g = f := by
            simp only [BestFirst.visitChild, if_pos hvisited] at hv
            cases hv
            rfl
          exact hg ▸ hx
        · split
          · rename_i hvisited htarget
            simp only [BestFirst.visitChild, if_neg hvisited, if_pos htarget] at hv
            cases hv
          · exact List.mem_cons_of_mem c hx

/-- A search explores until the queue is empty or the sink is met, or stops at a child it examines. -/
theorem loop_exploring (hid : P.uid ≠ -1) : ∀ (fuel popped : Nat) {f : Frontier V K} {l : List V},
    Exploring children P ∅ f l →
    (∀ g, loop Q P children fuel popped f = .exhausted g → ∃ l', Exploring children P ∅ g l') ∧
    (∀ marks k, loop Q P children fuel popped f = .found marks k → MetBelow children P marks) ∧
    (loop Q P children fuel popped f = .halted →
      ∃ c ∈ examined Q P children fuel f, P.verdict c false = .halt)
  | 0, popped, f, l, h => by
    refine ⟨fun g hg => ?_, fun marks k hm => (by cases hm), fun hh => by cases hh⟩
    cases hg
    exact ⟨l, h⟩
  | fuel + 1, popped, f, l, h => by
    simp only [loop, examined]
    cases hp : Q.pop (fun u => (f.marks u).cost) f.queue with
    | none =>
      refine ⟨fun g hg => ?_, fun marks k hm => (by cases hm), fun hh => by cases hh⟩
      cases hg
      exact ⟨l, h⟩
    | some p =>
      obtain ⟨u, q⟩ := p
      have hu : u ∈ l := h.queued u (Q.mem_of_pop hp)
      obtain ⟨hnext, hfound, hhalt⟩ := expand_exploring (Q := Q) hid
        (f.marks u).partialCost (h.pop hp) hu fun c hc => hc
      dsimp only
      cases he : expand Q P u (f.marks u).partialCost { f with queue := q } (children u) with
      | next g =>
        obtain ⟨l', h', -, hseen⟩ := hnext g he
        obtain ⟨hexhausted, hmet, hstopped⟩ :=
          loop_exploring hid fuel (popped + 1) (h'.close hseen)
        refine ⟨hexhausted, hmet, fun hh => ?_⟩
        obtain ⟨c, hc, hverdict⟩ := hstopped hh
        exact ⟨c, List.mem_append_right _ hc, hverdict⟩
      | found g =>
        refine ⟨fun _ hg => (by cases hg), fun marks k hm => ?_, fun hh => by cases hh⟩
        cases hm
        exact hfound g he
      | halted =>
        refine ⟨fun _ hg => (by cases hg), fun marks k hm => (by cases hm), fun _ => ?_⟩
        obtain ⟨c, hc, hverdict⟩ := hhalt he
        exact ⟨c, List.mem_append_left _ hc, hverdict⟩

end Invariant

/-! ## Reachability -/

section Reachability

variable {V K : Type} {children : V → List V} {P : Problem V K} {O : Set V} {f : Frontier V K}
  {l : List V}

/-- Every pushed node is reached over pushed nodes. -/
theorem Grown.reachable {marks : V → Mark V K} {A : V → Prop} (h : Grown children P marks l)
    (hA : ∀ v ∈ l, v = P.source ∨ A v) :
    ∀ v ∈ l, ReflTransGen (fun a b => b ∈ children a ∧ A b) P.source v := by
  induction h with
  | source =>
    intro v hv
    rw [List.mem_singleton.1 hv]
  | @push l u v hl hu hc _ hv _ ih =>
    have hreach := ih fun w hw => hA w (List.mem_cons_of_mem v hw)
    intro w hw
    rcases List.mem_cons.1 hw with rfl | hw
    · refine (hreach u hu).tail ⟨hc, (hA w List.mem_cons_self).resolve_left ?_⟩
      rintro rfl
      exact hv hl.source_mem
    · exact hreach w hw

/-- **A search with an empty queue has missed no path to the sink.** -/
theorem Exploring.unreachable (h : Exploring children P ∅ f l) (hempty : f.queue = [])
    (hne : P.source ≠ P.sink) {A : V → Prop} (hA : ∀ v, A v → P.verdict v false ≠ .skip) {u : V}
    (hu : ReflTransGen (fun a b => b ∈ children a ∧ A b) P.source u) : P.sink ∉ children u := by
  have hseen : ∀ w ∈ l, ∀ v ∈ children w, Seen P l v := fun w hw =>
    h.expanded w hw (by rw [hempty]; exact List.not_mem_nil) (Set.notMem_empty w)
  have hpushed : u ∈ l := by
    induction hu with
    | refl => exact h.grown.source_mem
    | tail _ hstep ih =>
      exact (hseen _ ih _ hstep.1).resolve_right fun hskip => hA _ hstep.2 hskip.2
  intro hsink
  rcases hseen u hpushed P.sink hsink with hmem | ⟨hself, -⟩
  · exact hne (h.sink hmem).symm
  · exact hself rfl

variable [DecidableEq V]

/-- The back pointers of the pushed nodes lead to the source. -/
theorem Grown.trace_isSome {marks : V → Mark V K} (h : Grown children P marks l) :
    ∀ {fuel : Nat} {v : V}, v ∈ l → l.length ≤ fuel →
      ∃ p, BestFirst.trace marks P.source fuel v = some p := by
  induction h with
  | source hs =>
    intro fuel v hv hfuel
    obtain rfl := List.mem_singleton.1 hv
    obtain ⟨fuel, rfl⟩ := Nat.exists_eq_add_of_le' hfuel
    exact ⟨[P.source], by simp [BestFirst.trace, hs]⟩
  | @push l u v _ hu _ hp _ _ ih =>
    intro fuel w hw hfuel
    obtain ⟨fuel, rfl⟩ := Nat.exists_eq_add_of_le' (le_trans (Nat.succ_pos l.length) hfuel)
    rcases List.mem_cons.1 hw with rfl | hw
    · obtain ⟨p, ht⟩ := ih hu (Nat.le_of_succ_le_succ hfuel)
      exact ⟨w :: p, by simp [BestFirst.trace, hp, ht]⟩
    · exact ih hw (Nat.le_of_succ_le hfuel)

/-- A chain that is shorter than the fuel is traced with less fuel as well. -/
theorem trace_of_length_le {marks : V → Mark V K} {s : V} :
    ∀ {fuel fuel' : Nat} {v : V} {p : List V}, trace marks s fuel v = some p → p.length ≤ fuel' →
      trace marks s fuel' v = some p
  | 0, _, _, _, h, _ => by cases h
  | fuel + 1, 0, v, p, h, hlen => by
    obtain rfl := List.length_eq_zero_iff.1 (Nat.le_zero.1 hlen)
    simp only [trace] at h
    split at h
    · split at h <;> cases h
    · simp at h
  | fuel + 1, fuel' + 1, v, p, h, hlen => by
    simp only [trace] at h ⊢
    cases hprev : (marks v).prev with
    | none =>
      rw [hprev] at h
      exact h
    | some u =>
      simp only [hprev, Option.map_eq_some_iff] at h ⊢
      obtain ⟨q, hq, rfl⟩ := h
      exact ⟨q, trace_of_length_le hq (Nat.le_of_succ_le_succ hlen), rfl⟩

variable {marks : V → Mark V K}

/-- A sink that was met is reachable over nodes that the verdict admits. -/
theorem MetBelow.reachable (h : MetBelow children P marks) :
    ∃ u, ReflTransGen (fun a b => b ∈ children a ∧ ∃ costs, P.verdict b false = .visit costs)
      P.source u ∧ P.sink ∈ children u := by
  obtain ⟨f, l, u, hs, hu, hsink, -⟩ := h
  exact ⟨u, hs.grown.reachable hs.accepted u hu, hsink⟩

/-- The back pointers lead from the sink to the source. -/
theorem MetBelow.trace_isSome (h : MetBelow children P marks) (hne : P.source ≠ P.sink) :
    ∃ fuel p, trace marks P.source fuel P.sink = some p := by
  obtain ⟨f, l, u, hs, hu, -, rfl⟩ := h
  obtain ⟨p, ht⟩ := (hs.grown_found (fun hm => hne (hs.sink hm).symm) u).trace_isSome hu (le_refl _)
  refine ⟨l.length + 1, P.sink :: p, ?_⟩
  simp only [trace, Function.update_self, Mark.withPrev_prev, ht, Option.map_some]

/-- The path goes over nodes that the verdict admits. -/
theorem MetBelow.route (h : MetBelow children P marks) {fuel : Nat} {p : List V}
    (ht : trace marks P.source fuel P.sink = some p) :
    IsRoute children P p ∧ 2 ≤ p.length ∧
      ∀ v ∈ p, v ≠ P.sink → v ≠ P.source → ∃ costs, P.verdict v false = .visit costs := by
  obtain ⟨f, l, u, hs, hu, hsink, rfl⟩ := h
  obtain ⟨hr, hlen, hmem⟩ := hs.route hu hsink ht
  refine ⟨hr, hlen, fun v hv hnsink hnsource => ?_⟩
  exact (hs.accepted v ((hmem v hv).resolve_left hnsink)).resolve_left hnsource

end Reachability

end Potter.Lib.BestFirst
