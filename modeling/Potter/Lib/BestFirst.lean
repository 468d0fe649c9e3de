import Potter.Lib.PriorityQueue
import Mathlib.Data.Fintype.Card
import Mathlib.Data.List.Chain
import Mathlib.Logic.Function.Basic

/-!
# Best-first search over a stamped mark table

A search for a path from a source to a sink in a graph given by child lists. Its working memory is
a table of marks that is never cleared: a search recognizes its own marks by a stamp (`uid`), and
marks with any other stamp count as absent. A node is marked when it is pushed, the sink is
recognized when it is met as a child and not when it is popped, and the path is rebuilt from the
back pointers (`trace`).

What the search does with a child that is neither marked nor the sink is a parameter, `verdict`: it
is skipped, it stops the program, or it is pushed with costs computed from its parent's.

The table may hold any marks at the start, also ones that carry the stamp of this search. `found_route`
says that a path the search returns is nevertheless a path (`IsRoute`): every node of the back
pointer chain was pushed by this search, after its parent.
-/

namespace Potter.Lib.BestFirst

/-- The entry of the mark table for one node. -/
structure Mark (V K : Type) where
  prev : Option V
  cost : K
  partialCost : K
  isVisited : Int
  isTarget : Int
deriving DecidableEq

/-- The entry with its back pointer set. -/
def Mark.withPrev {V K : Type} (m : Mark V K) (u : V) : Mark V K := { m with prev := some u }

@[simp] theorem Mark.withPrev_prev {V K : Type} (m : Mark V K) (u : V) :
    (m.withPrev u).prev = some u := rfl

/-- What becomes of a child: ignored, a fatal error, or pushed. The total and the partial cost of a
pushed child are computed from the partial cost of its parent. -/
inductive Verdict (K : Type)
  | skip
  | halt
  | visit (costs : K → K × K)

/-- One search: its stamp, its ends and its verdict on children (told whether the child's mark
names it as the target of this search). -/
structure Problem (V K : Type) where
  uid : Int
  source : V
  sink : V
  zero : K
  verdict : V → Bool → Verdict K

/-- A node the search may push. -/
def Problem.Accepts {V K : Type} (P : Problem V K) (v : V) : Prop :=
  ∃ t costs, P.verdict v t = .visit costs

/-- The mark table and the queued nodes. -/
structure Frontier (V K : Type) where
  marks : V → Mark V K
  queue : List V

/-- The result of looking at children: go on, the sink was found, or a fatal error. -/
inductive Scan (V K : Type)
  | next (f : Frontier V K)
  | found (f : Frontier V K)
  | halted

/-- The result of a search. The number is that of the nodes popped. -/
inductive Outcome (V K : Type)
  | halted
  | found (marks : V → Mark V K) (popped : Nat)
  | exhausted (f : Frontier V K)

section Definitions

variable {V K : Type} [DecidableEq V] [LT K]

/-- Mark a node and queue it. -/
def pushNode (Q : PriorityQueue V K) (P : Problem V K) (f : Frontier V K) (v : V)
    (prev : Option V) (cost partialCost : K) : Frontier V K :=
  let marks := Function.update f.marks v ⟨prev, cost, partialCost, P.uid, -1⟩
  ⟨marks, Q.push (fun u => (marks u).cost) v f.queue⟩

/-- The frontier a search starts from: the source is queued, the sink is marked as the target. -/
def start (Q : PriorityQueue V K) (P : Problem V K) (marks : V → Mark V K) : Frontier V K :=
  let f := pushNode Q P ⟨marks, []⟩ P.source none P.zero P.zero
  { f with marks := Function.update f.marks P.sink ⟨none, P.zero, P.zero, -1, P.uid⟩ }

/-- One child of the expanded node `u`, whose partial cost is `pc`. -/
def visitChild (Q : PriorityQueue V K) (P : Problem V K) (u : V) (pc : K) (f : Frontier V K)
    (child : V) : Scan V K :=
  let m := f.marks child
  if m.isVisited = P.uid then .next f
  else if m.isTarget = P.uid ∧ child = P.sink then
    .found { f with marks := Function.update f.marks child (m.withPrev u) }
  else
    match P.verdict child (decide (m.isTarget = P.uid)) with
    | .skip => .next f
    | .halt => .halted
    | .visit costs => .next (pushNode Q P f child (some u) (costs pc).1 (costs pc).2)

/-- The children of the expanded node in turn, up to the sink. -/
def expand (Q : PriorityQueue V K) (P : Problem V K) (u : V) (pc : K) :
    Frontier V K → List V → Scan V K
  | f, [] => .next f
  | f, child :: rest =>
    match visitChild Q P u pc f child with
    | .next f' => expand Q P u pc f' rest
    | .found f' => .found f'
    | .halted => .halted

/-- Pop and expand until the sink is found or the queue is empty. -/
def loop (Q : PriorityQueue V K) (P : Problem V K) (children : V → List V) :
    Nat → Nat → Frontier V K → Outcome V K
  | 0, _, f => .exhausted f
  | fuel + 1, popped, f =>
    match Q.pop (fun u => (f.marks u).cost) f.queue with
    | none => .exhausted f
    | some (u, q) =>
      match expand Q P u (f.marks u).partialCost { f with queue := q } (children u) with
      | .next f' => loop Q P children fuel (popped + 1) f'
      | .found f' => .found f'.marks (popped + 1)
      | .halted => .halted

theorem expand_append (Q : PriorityQueue V K) (P : Problem V K) (u : V) (pc : K) :
    ∀ (l l' : List V) (f : Frontier V K), expand Q P u pc f (l ++ l') =
      match expand Q P u pc f l with
      | .next f' => expand Q P u pc f' l'
      | .found f' => .found f'
      | .halted => .halted
  | [], _, _ => rfl
  | child :: l, l', f => by
    simp only [List.cons_append, expand]
    cases visitChild Q P u pc f child with
    | next f' => exact expand_append Q P u pc l l' f'
    | found f' => rfl
    | halted => rfl

end Definitions

/-- The nodes on the back pointer chain from `v`, at most `fuel` of them. The chain has to end at
`source`. -/
def trace {V K : Type} [DecidableEq V] (marks : V → Mark V K) (source : V) : Nat → V → Option (List V)
  | 0, _ => none
  | fuel + 1, v =>
    match (marks v).prev with
    | none => if v = source then some [v] else none
    | some u => (trace marks source fuel u).map (v :: ·)

/-! ## What one child does -/

section Child

variable {V K : Type} [DecidableEq V] [LT K] {Q : PriorityQueue V K} {P : Problem V K}

/-- A child either leaves the frontier alone or is pushed, unmarked before and not the sink. -/
theorem visitChild_next {u child : V} {pc : K} {f f' : Frontier V K}
    (h : visitChild Q P u pc f child = .next f') :
    f' = f ∨ ((f.marks child).isVisited ≠ P.uid ∧
      ¬((f.marks child).isTarget = P.uid ∧ child = P.sink) ∧ P.Accepts child ∧
      ∃ cost partialCost, f' = pushNode Q P f child (some u) cost partialCost) := by
  simp only [visitChild] at h
  split at h
  · left; cases h; rfl
  · rename_i hv
    split at h
    · cases h
    · rename_i ht
      split at h
      · left; cases h; rfl
      · cases h
      · rename_i costs hc
        right
        cases h
        exact ⟨hv, ht, ⟨_, costs, hc⟩, _, _, rfl⟩

theorem visitChild_found {u child : V} {pc : K} {f f' : Frontier V K}
    (h : visitChild Q P u pc f child = .found f') :
    child = P.sink ∧ (f.marks child).isTarget = P.uid ∧
      f' = { f with
        marks := Function.update f.marks P.sink ((f.marks P.sink).withPrev u) } := by
  simp only [visitChild] at h
  split at h
  · cases h
  · split at h
    · rename_i ht
      cases h
      obtain ⟨ht, rfl⟩ := ht
      exact ⟨rfl, ht, rfl⟩
    · split at h <;> cases h

@[simp] theorem pushNode_marks_self (f : Frontier V K) (v : V) (prev : Option V)
    (cost partialCost : K) : (pushNode Q P f v prev cost partialCost).marks v =
      ⟨prev, cost, partialCost, P.uid, -1⟩ := by
  simp [pushNode]

theorem pushNode_marks_ne (f : Frontier V K) {v w : V} (prev : Option V) (cost partialCost : K)
    (h : w ≠ v) : (pushNode Q P f v prev cost partialCost).marks w = f.marks w := by
  simp [pushNode, h]

theorem mem_pushNode_queue {f : Frontier V K} {v w : V} {prev : Option V} {cost partialCost : K} :
    w ∈ (pushNode Q P f v prev cost partialCost).queue ↔ w = v ∨ w ∈ f.queue := by
  simp [pushNode, Q.mem_push]

end Child

/-! ## The pushed nodes -/

section Grown

variable {V K : Type}

/-- The pushed nodes, last one first: each was reached from one pushed before it. -/
inductive Grown (children : V → List V) (P : Problem V K) (marks : V → Mark V K) : List V → Prop
  | source : (marks P.source).prev = none → Grown children P marks [P.source]
  | push {l : List V} {u v : V} : Grown children P marks l → u ∈ l → v ∈ children u →
      (marks v).prev = some u → v ∉ l → P.Accepts v → Grown children P marks (v :: l)

variable {children : V → List V} {P : Problem V K} {marks marks' : V → Mark V K} {l : List V}

theorem Grown.congr (h : Grown children P marks l)
    (hm : ∀ v ∈ l, (marks' v).prev = (marks v).prev) : Grown children P marks' l := by
  induction h with
  | source hs => exact .source ((hm _ List.mem_cons_self).trans hs)
  | push _ hu hc hp hv ha ih =>
    exact .push (ih fun w hw => hm w (List.mem_cons_of_mem _ hw)) hu hc
      ((hm _ List.mem_cons_self).trans hp) hv ha

theorem Grown.nodup (h : Grown children P marks l) : l.Nodup := by
  induction h with
  | source => exact List.nodup_singleton _
  | push _ _ _ _ hv _ ih => exact List.nodup_cons.2 ⟨hv, ih⟩

theorem Grown.source_mem (h : Grown children P marks l) : P.source ∈ l := by
  induction h with
  | source => exact List.mem_cons_self
  | push _ _ _ _ _ _ ih => exact List.mem_cons_of_mem _ ih

/-- Every pushed node but the source points back to a pushed node. -/
theorem Grown.back (h : Grown children P marks l) :
    ∀ v ∈ l, v ≠ P.source → ∃ u ∈ l, (marks v).prev = some u := by
  induction h with
  | source => intro v hv hne; exact absurd (List.mem_singleton.1 hv) hne
  | push _ hu _ hp _ _ ih =>
    intro w hw hne
    rcases List.mem_cons.1 hw with rfl | hw
    · exact ⟨_, List.mem_cons_of_mem _ hu, hp⟩
    · obtain ⟨x, hx, e⟩ := ih w hw hne
      exact ⟨x, List.mem_cons_of_mem _ hx, e⟩

end Grown

/-! ## The invariant of a search -/

section Invariant

variable {V K : Type}

/-- `l` is the list of the nodes pushed so far. -/
structure Searching (children : V → List V) (P : Problem V K) (f : Frontier V K) (l : List V) :
    Prop where
  grown : Grown children P f.marks l
  queued : ∀ v ∈ f.queue, v ∈ l
  visited : ∀ v ∈ l, (f.marks v).isVisited = P.uid ∨ v = P.sink
  target : (f.marks P.sink).isTarget = P.uid
  sink : P.sink ∈ l → P.sink = P.source

variable [DecidableEq V]

/-- The frontier when the sink was met below `u`: that of a running search, with the sink's back
pointer set. -/
def FoundBelow (children : V → List V) (P : Problem V K) (marks : V → Mark V K) : Prop :=
  ∃ f l u, Searching children P f l ∧ u ∈ l ∧ P.sink ∈ children u ∧
    marks = Function.update f.marks P.sink ((f.marks P.sink).withPrev u)

variable [LT K] {Q : PriorityQueue V K} {children : V → List V} {P : Problem V K}

theorem start_searching (marks : V → Mark V K) :
    Searching children P (start Q P marks) [P.source] where
  grown := by
    refine .source ?_
    by_cases h : P.source = P.sink
    · simp [start, h]
    · simp [start, h]
  queued v hv := by
    simpa [start, pushNode, Q.mem_push] using hv
  visited v hv := by
    obtain rfl := List.mem_singleton.1 hv
    by_cases h : P.source = P.sink
    · exact Or.inr h
    · left; simp [start, h]
  target := by simp [start]
  sink h := List.mem_singleton.1 h

/-- Pushing an unmarked node keeps the invariant. -/
theorem Searching.pushNode {f : Frontier V K} {l : List V} {u v : V}
    (h : Searching children P f l) (cost partialCost : K) (hu : u ∈ l) (hc : v ∈ children u)
    (hv : (f.marks v).isVisited ≠ P.uid)
    (ht : ¬((f.marks v).isTarget = P.uid ∧ v = P.sink)) (ha : P.Accepts v) :
    Searching children P (BestFirst.pushNode Q P f v (some u) cost partialCost) (v :: l) := by
  have hsink : v ≠ P.sink := by
    rintro rfl
    exact ht ⟨h.target, rfl⟩
  have hvl : v ∉ l := fun hm => (h.visited v hm).elim hv hsink
  have hne : ∀ w ∈ l, w ≠ v := fun w hw e => hvl (e ▸ hw)
  refine ⟨.push (h.grown.congr fun w hw => ?_) hu hc (by simp) hvl ha, ?_, ?_, ?_, ?_⟩
  · rw [pushNode_marks_ne _ _ _ _ (hne w hw)]
  · intro w hw
    rcases mem_pushNode_queue.1 hw with rfl | hw
    · exact List.mem_cons_self
    · exact List.mem_cons_of_mem _ (h.queued w hw)
  · intro w hw
    rcases List.mem_cons.1 hw with rfl | hw
    · left; simp
    · rw [pushNode_marks_ne _ _ _ _ (hne w hw)]
      exact h.visited w hw
  · rw [pushNode_marks_ne _ _ _ _ (Ne.symm hsink)]
    exact h.target
  · intro hs
    rcases List.mem_cons.1 hs with hs | hs
    · exact absurd hs.symm hsink
    · exact h.sink hs

/-- The expansion of a pushed node keeps the invariant, and what it queues it pushes. -/
theorem expand_searching {u : V} {k : K} : ∀ {cs : List V} {f : Frontier V K} {l : List V},
    Searching children P f l → u ∈ l → (∀ c ∈ cs, c ∈ children u) →
    (∀ f', expand Q P u k f cs = .next f' → ∃ l', Searching children P f' l' ∧
      l'.length + f.queue.length = l.length + f'.queue.length) ∧
    (∀ f', expand Q P u k f cs = .found f' → FoundBelow children P f'.marks)
  | [], f, l, hs, _, _ => by
    refine ⟨fun f' h => ?_, fun f' h => ?_⟩
    · cases h
      exact ⟨l, hs, rfl⟩
    · cases h
  | c :: cs, f, l, hs, hu, hcs => by
    have hcs' : ∀ x ∈ cs, x ∈ children u := fun x hx => hcs x (List.mem_cons_of_mem _ hx)
    simp only [expand]
    cases hv : visitChild Q P u k f c with
    | halted => exact ⟨fun _ h => (by cases h), fun _ h => (by cases h)⟩
    | found g =>
      refine ⟨fun _ h => (by cases h), fun f' h => ?_⟩
      cases h
      obtain ⟨hc, -, hg⟩ := visitChild_found hv
      refine ⟨f, l, u, hs, hu, hc ▸ hcs c List.mem_cons_self, ?_⟩
      rw [hg]
    | next g =>
      rcases visitChild_next hv with rfl | ⟨hvis, htgt, hacc, cost, partialCost, rfl⟩
      · exact expand_searching hs hu hcs'
      · have hs' := hs.pushNode (Q := Q) cost partialCost hu
          (hcs c List.mem_cons_self) hvis htgt hacc
        obtain ⟨hnext, hfound⟩ := expand_searching (k := k) hs' (List.mem_cons_of_mem _ hu) hcs'
        refine ⟨fun f' h => ?_, hfound⟩
        obtain ⟨l', hl', e⟩ := hnext f' h
        refine ⟨l', hl', ?_⟩
        simp only [BestFirst.pushNode, Q.length_push, List.length_cons] at e
        omega

omit [DecidableEq V] in
/-- The node that is expanded next was pushed. -/
theorem Searching.pop {f : Frontier V K} {l q : List V} {u : V} (hs : Searching children P f l)
    (hp : Q.pop (fun u => (f.marks u).cost) f.queue = some (u, q)) :
    Searching children P { f with queue := q } l ∧ u ∈ l :=
  ⟨⟨hs.grown, fun v hv => hs.queued v (Q.mem_of_pop_rest hp hv), hs.visited, hs.target, hs.sink⟩,
    hs.queued u (Q.mem_of_pop hp)⟩

/-- A search that finds the sink finds it below a node it pushed. -/
theorem loop_found : ∀ {fuel popped k : Nat} {f : Frontier V K} {l : List V}
    {marks : V → Mark V K}, Searching children P f l →
    loop Q P children fuel popped f = .found marks k → FoundBelow children P marks
  | 0, _, _, _, _, _, _, h => by cases h
  | fuel + 1, popped, k, f, l, marks, hs, h => by
    simp only [loop] at h
    cases hp : Q.pop (fun u => (f.marks u).cost) f.queue with
    | none => rw [hp] at h; cases h
    | some p =>
      obtain ⟨u, q⟩ := p
      simp only [hp] at h
      obtain ⟨hs', hu⟩ := hs.pop hp
      obtain ⟨hnext, hfound⟩ := expand_searching (Q := Q) (k := (f.marks u).partialCost) hs' hu
        (fun c hc => hc)
      split at h
      · rename_i f' he
        obtain ⟨l', hl', -⟩ := hnext f' he
        exact loop_found hl' h
      · rename_i f' he
        cases h
        exact hfound f' he
      · cases h

/-- With fuel for every node of the graph the search stops by itself: the queue is empty. -/
theorem loop_exhausted [Fintype V] : ∀ {fuel popped : Nat} {f g : Frontier V K} {l : List V},
    Searching children P f l → l.length = popped + f.queue.length →
    Fintype.card V < fuel + popped →
    loop Q P children fuel popped f = .exhausted g → g.queue = []
  | 0, popped, f, g, l, hs, hl, hf, _ => by
    have := hs.grown.nodup.length_le_card
    omega
  | fuel + 1, popped, f, g, l, hs, hl, hf, h => by
    simp only [loop] at h
    cases hp : Q.pop (fun u => (f.marks u).cost) f.queue with
    | none =>
      rw [hp] at h
      cases h
      exact Q.pop_none.1 hp
    | some p =>
      obtain ⟨u, q⟩ := p
      simp only [hp] at h
      obtain ⟨hs', hu⟩ := hs.pop hp
      have hlen := Q.length_pop hp
      split at h
      · rename_i f' he
        obtain ⟨l', hl', e⟩ :=
          (expand_searching (Q := Q) (k := (f.marks u).partialCost) hs' hu (fun c hc => hc)).1 f' he
        simp only at e
        exact loop_exhausted hl' (by omega) (by omega) h
      · cases h
      · cases h

end Invariant

/-! ## The path -/

section Route

variable {V K : Type} [DecidableEq V]

/-- A path of the graph from the sink back to the source, through nodes the search may push. -/
structure IsRoute (children : V → List V) (P : Problem V K) (p : List V) : Prop where
  head : p.head? = some P.sink
  last : p.getLast? = some P.source
  nodup : p.Nodup
  chain : p.IsChain fun v u => v ∈ children u
  accepted : ∀ v ∈ p, v = P.sink ∨ v = P.source ∨ P.Accepts v

variable {children : V → List V} {P : Problem V K}

/-- The chain of back pointers from a pushed node is a path to the source over pushed nodes. -/
theorem Grown.trace {marks : V → Mark V K} {l : List V} (h : Grown children P marks l) :
    ∀ {fuel : Nat} {v : V} {p : List V}, v ∈ l → trace marks P.source fuel v = some p →
      p.head? = some v ∧ p.getLast? = some P.source ∧ p.Nodup ∧
        p.IsChain (fun v u => v ∈ children u) ∧
        ∀ w ∈ p, w ∈ l ∧ (w = P.source ∨ P.Accepts w) := by
  induction h with
  | source hs =>
    intro fuel v p hv ht
    obtain rfl := List.mem_singleton.1 hv
    cases fuel with
    | zero => simp [BestFirst.trace] at ht
    | succ fuel =>
      simp only [BestFirst.trace, hs, ↓reduceIte, Option.some.injEq] at ht
      subst ht
      refine ⟨rfl, rfl, List.nodup_singleton _, List.isChain_singleton _, fun w hw => ?_⟩
      exact ⟨hw, Or.inl (List.mem_singleton.1 hw)⟩
  | @push l u v _ hu hc hp hv ha ih =>
    intro fuel w p hw ht
    rcases List.mem_cons.1 hw with rfl | hw
    · cases fuel with
      | zero => simp [BestFirst.trace] at ht
      | succ fuel =>
        simp only [BestFirst.trace, hp, Option.map_eq_some_iff] at ht
        obtain ⟨q, hq, rfl⟩ := ht
        obtain ⟨hh, hl, hn, hch, hall⟩ := ih hu hq
        refine ⟨rfl, ?_, List.nodup_cons.2 ⟨fun hm => hv (hall _ hm).1, hn⟩, ?_, fun x hx => ?_⟩
        · rw [List.getLast?_cons, hl]; rfl
        · cases q with
          | nil => cases hh
          | cons x q =>
            simp only [List.head?_cons, Option.some.injEq] at hh
            subst hh
            exact List.isChain_cons_cons.2 ⟨hc, hch⟩
        · rcases List.mem_cons.1 hx with rfl | hx
          · exact ⟨List.mem_cons_self, Or.inr ha⟩
          · exact ⟨List.mem_cons_of_mem _ (hall x hx).1, (hall x hx).2⟩
    · obtain ⟨hh, hl, hn, hch, hall⟩ := ih hw ht
      exact ⟨hh, hl, hn, hch, fun x hx => ⟨List.mem_cons_of_mem _ (hall x hx).1, (hall x hx).2⟩⟩

/-- No chain leaves a set of nodes that all point into it. -/
theorem trace_none_of_closed {marks : V → Mark V K} {s : V} {l : List V}
    (h : ∀ v ∈ l, ∃ u ∈ l, (marks v).prev = some u) :
    ∀ {fuel : Nat} {v : V}, v ∈ l → trace marks s fuel v = none
  | 0, _, _ => rfl
  | fuel + 1, v, hv => by
    obtain ⟨u, hu, e⟩ := h v hv
    simp only [trace, e, trace_none_of_closed h hu, Option.map_none]

/-- Setting the back pointer of the sink touches no pushed node. -/
theorem Searching.grown_found {f : Frontier V K} {l : List V} (hs : Searching children P f l)
    (hsink : P.sink ∉ l) (u : V) :
    Grown children P (Function.update f.marks P.sink ((f.marks P.sink).withPrev u)) l := by
  refine hs.grown.congr fun v hv => ?_
  have hne : v ≠ P.sink := fun e => hsink (e ▸ hv)
  rw [Function.update_of_ne hne]

/-- The path from a sink met below `u`. There is none when the source is its own sink: the chain of
back pointers is then a cycle. -/
theorem Searching.route {f : Frontier V K} {l : List V} {u : V} (hs : Searching children P f l)
    (hu : u ∈ l) (hc : P.sink ∈ children u) {fuel : Nat} {p : List V}
    (ht : BestFirst.trace (Function.update f.marks P.sink ((f.marks P.sink).withPrev u)) P.source fuel
      P.sink = some p) :
    IsRoute children P p ∧ 2 ≤ p.length ∧ ∀ v ∈ p, v = P.sink ∨ v ∈ l := by
  by_cases hsink : P.sink = P.source
  · -- every pushed node now points to a pushed node
    have hclosed : ∀ v ∈ l, ∃ x ∈ l, (Function.update f.marks P.sink
        ((f.marks P.sink).withPrev u) v).prev = some x := by
      intro v hv
      by_cases hvs : v = P.sink
      · subst hvs
        exact ⟨u, hu, by simp [Mark.withPrev]⟩
      · rw [Function.update_of_ne hvs]
        exact hs.grown.back v hv (hsink ▸ hvs)
    rw [trace_none_of_closed hclosed (hsink ▸ hs.grown.source_mem)] at ht
    cases ht
  · have hsl : P.sink ∉ l := fun hm => hsink (hs.sink hm)
    cases fuel with
    | zero => cases ht
    | succ fuel =>
      simp only [BestFirst.trace, Function.update_self, Mark.withPrev, Option.map_eq_some_iff] at ht
      obtain ⟨q, hq, rfl⟩ := ht
      obtain ⟨hh, hl, hn, hch, hall⟩ := (hs.grown_found hsl u).trace hu hq
      cases q with
      | nil => cases hh
      | cons x q =>
        simp only [List.head?_cons, Option.some.injEq] at hh
        subst hh
        refine ⟨⟨rfl, ?_, ?_, List.isChain_cons_cons.2 ⟨hc, hch⟩, fun w hw => ?_⟩, ?_, fun w hw => ?_⟩
        · rw [List.getLast?_cons, hl]; rfl
        · exact List.nodup_cons.2 ⟨fun hm => hsl (hall _ hm).1, hn⟩
        · rcases List.mem_cons.1 hw with rfl | hw
          · exact Or.inl rfl
          · exact Or.inr (hall w hw).2
        · simp
        · exact (List.mem_cons.1 hw).imp_right fun hw => (hall w hw).1

/-- **A found path is a path**, whatever the mark table held before. -/
theorem found_route {marks : V → Mark V K} (h : FoundBelow children P marks) {fuel : Nat}
    {p : List V} (ht : trace marks P.source fuel P.sink = some p) :
    IsRoute children P p ∧ 2 ≤ p.length := by
  obtain ⟨f, l, u, hs, hu, hc, rfl⟩ := h
  obtain ⟨hr, hlen, -⟩ := hs.route hu hc ht
  exact ⟨hr, hlen⟩

end Route

end Potter.Lib.BestFirst
