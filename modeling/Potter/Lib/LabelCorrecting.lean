import Mathlib.Algebra.Order.Monoid.Defs
import Mathlib.Data.Finset.Card
import Mathlib.Logic.Relation
import Potter.Lib.PriorityQueue

/-!
# Label-correcting shortest paths

Costs from a source are lowered edge by edge until no edge lowers one any more. Nodes whose cost was
lowered wait in a priority queue. Its order is the current cost, which changes while they wait, so
nothing is known about the node popped: a node may be expanded many times, and correctness does not
depend on the order.

Every node starts at a cost `top` that stands for "not reached", and a node is reached when its cost
drops below that. So the costs found are those of the cheapest walks, if these are below `top`
(`Labeled.cost_le`, `Labeled.reached_iff`). The predecessors form chains to the source
(`Labeled.leads`): lowering the cost of a node never closes a cycle, because costs do not increase
along a chain.

A watchdog bounds the number of expansions.
-/

namespace Potter.Lib.LabelCorrecting

open Relation

/-! ## The loop -/

structure Labels (V K : Type) where
  cost : V → K
  prev : V → Option V
  visited : V → Bool
  queue : List V

/-- The loop ended, was stopped by the watchdog, or needs more fuel. -/
inductive Outcome (V K : Type)
  | done (s : Labels V K)
  | stopped
  | outOfFuel

/-- The watchdog stopped the loop. -/
def Outcome.isStopped {V K : Type} : Outcome V K → Bool
  | .stopped => true
  | _ => false

theorem Outcome.ne_stopped {V K : Type} {o : Outcome V K} (h : o.isStopped = false) :
    o ≠ .stopped := by
  rintro rfl
  cases h

section Definitions

variable {V K : Type} [DecidableEq V] [Add K] [LT K] [DecidableLT K]

/-- One edge of the expanded node. -/
def relax (Q : PriorityQueue V K) (weight : V → K) (cur : V) (s : Labels V K) (child : V) :
    Labels V K :=
  let newCost := s.cost cur + weight child
  if s.visited child = false ∨ newCost < s.cost child then
    let cost := Function.update s.cost child newCost
    { cost := cost
      prev := Function.update s.prev child (some cur)
      visited := Function.update s.visited child true
      queue := Q.push cost child s.queue }
  else s

/-- Pop and expand until the queue is empty. Only nodes with edges count for the watchdog. -/
def loop (Q : PriorityQueue V K) (children : V → List V) (weight : V → K) (limit : Nat) :
    Nat → Nat → Labels V K → Outcome V K
  | 0, _, _ => .outOfFuel
  | fuel + 1, watchDog, s =>
    match Q.pop s.cost s.queue with
    | none => .done s
    | some (cur, q) =>
      if children cur = [] then loop Q children weight limit fuel watchDog { s with queue := q }
      else if watchDog > limit then .stopped
      else
        loop Q children weight limit fuel (watchDog + 1)
          ((children cur).foldl (relax Q weight cur) { s with queue := q })

end Definitions

/-- Follow the predecessors from `v` to the source, in at most `fuel` steps. The nodes passed are
listed, without the source. -/
def climb {V : Type} [DecidableEq V] (prev : V → Option V) (source : V) : Nat → V → Option (List V)
  | 0, v => if v = source then some [] else none
  | fuel + 1, v =>
    if v = source then some []
    else (prev v).bind fun u => (climb prev source fuel u).map (v :: ·)

/-! ## What the loop looks at -/

section Congr

variable {V K : Type} [DecidableEq V] [Add K] [LT K] [DecidableLT K] {Q : PriorityQueue V K}
  {weight : V → K}

theorem mem_queue_relax {cur child v : V} {s : Labels V K}
    (h : v ∈ (relax Q weight cur s child).queue) : v = child ∨ v ∈ s.queue := by
  unfold relax at h
  dsimp only at h
  split at h
  · exact Q.mem_push.1 h
  · exact .inr h

theorem mem_queue_relaxAll {cur v : V} {cs : List V} {s : Labels V K}
    (h : v ∈ (cs.foldl (relax Q weight cur) s).queue) : v ∈ cs ∨ v ∈ s.queue := by
  induction cs generalizing s with
  | nil => exact .inr h
  | cons c cs ih =>
    rcases ih h with hv | hv
    · exact .inl (List.mem_cons_of_mem c hv)
    · rcases mem_queue_relax hv with rfl | hv
      · exact .inl List.mem_cons_self
      · exact .inr hv

/-- The loop does not look at the edges of nodes that are never queued. -/
theorem loop_congr {children children' : V → List V} {N : V → Prop} {limit : Nat}
    (hclosed : ∀ u v, N u → v ∈ children u → N v) (hsame : ∀ u, N u → children' u = children u)
    (fuel watchDog : Nat) (s : Labels V K) (hqueue : ∀ v ∈ s.queue, N v) :
    loop Q children' weight limit fuel watchDog s = loop Q children weight limit fuel watchDog s := by
  induction fuel generalizing watchDog s with
  | zero => rfl
  | succ fuel ih =>
    unfold loop
    cases hpop : Q.pop s.cost s.queue with
    | none => rfl
    | some r =>
      obtain ⟨cur, q⟩ := r
      have hcur : N cur := hqueue cur (Q.mem_of_pop hpop)
      have hq : ∀ v ∈ q, N v := fun v hv => hqueue v (Q.mem_of_pop_rest hpop hv)
      dsimp only
      rw [hsame cur hcur, ih watchDog { s with queue := q } hq, ih (watchDog + 1)]
      intro v hv
      rcases mem_queue_relaxAll hv with hv | hv
      · exact hclosed cur v hcur hv
      · exact hq v hv

end Congr

/-! ## Walks and chains -/

/-- A walk from the source, with the sum of the weights of the nodes it enters. -/
inductive Walk {V K : Type} [Add K] [Zero K] (children : V → List V) (weight : V → K) (source : V) :
    V → K → Prop
  | source : Walk children weight source source 0
  | step {u v : V} {k : K} : Walk children weight source u k → v ∈ children u →
      Walk children weight source v (k + weight v)

/-- The predecessors lead from a node to the source. -/
inductive Leads {V : Type} (prev : V → Option V) (source : V) : V → Prop
  | source : Leads prev source source
  | step {u v : V} : prev v = some u → Leads prev source u → Leads prev source v

section Leads

variable {V K : Type} [DecidableEq V] [LinearOrder K] {prev : V → Option V} {source u v w : V}
  {cost : V → K}

/-- A chain along which costs do not increase misses every node with a higher cost. -/
theorem Leads.update_of_lt (h : Leads prev source u)
    (hcost : ∀ x y, prev x = some y → cost y ≤ cost x) (hlt : cost u < cost v) :
    Leads (Function.update prev v (some w)) source u := by
  induction h with
  | source => exact .source
  | @step y x hprev _ ih =>
    have hne : x ≠ v := fun e => absurd hlt (by rw [e]; exact lt_irrefl _)
    refine .step ?_ (ih (lt_of_le_of_lt (hcost x y hprev) hlt))
    rw [Function.update_of_ne hne]
    exact hprev

/-- Lowering the cost of `v` below that of the chain of `u` keeps all chains. -/
theorem Leads.update (h : Leads prev source w) (hu : Leads prev source u)
    (hcost : ∀ x y, prev x = some y → cost y ≤ cost x) (hlt : cost u < cost v) :
    Leads (Function.update prev v (some u)) source w := by
  induction h with
  | source => exact .source
  | @step y x hprev _ ih =>
    by_cases e : x = v
    · rw [e]
      exact .step (Function.update_self _ _ _) (hu.update_of_lt hcost hlt)
    · refine .step ?_ ih
      rw [Function.update_of_ne e]
      exact hprev

end Leads

/-! ## The invariant -/

section Invariant

variable {V K : Type} [AddCommMonoid K] [LinearOrder K]

/-- The labels of a search among the nodes of `N`. No edge lowers a cost any more that leaves a node
which is neither queued nor in `O`; such a node, once reached, has been expanded. -/
structure Labeled (children : V → List V) (weight : V → K) (N : V → Prop) (source : V) (top : K)
    (O : Set V) (E : Finset V) (s : Labels V K) : Prop where
  source_cost : s.cost source = 0
  source_prev : s.prev source = none
  nonneg : ∀ v, N v → 0 ≤ s.cost v
  le_top : ∀ v, N v → s.cost v ≤ top
  visited : ∀ v, N v → s.visited v = true
  queued : ∀ v ∈ s.queue, v = source ∨ s.prev v ≠ none
  edge : ∀ u v, s.prev v = some u →
    N u ∧ v ∈ children u ∧ s.cost u + weight v ≤ s.cost v ∧ s.cost v < top
  unreached : ∀ v, N v → v ≠ source → s.prev v = none → s.cost v = top
  walk : ∀ v, v = source ∨ s.prev v ≠ none → Walk children weight source v (s.cost v)
  leads : ∀ v, s.prev v ≠ none → Leads s.prev source v
  relaxed : ∀ u, N u → u ∉ s.queue → u ∉ O → ∀ v ∈ children u, s.cost v ≤ s.cost u + weight v
  expanded : ∀ u, u = source ∨ s.prev u ≠ none → u ∉ s.queue → u ∉ O → children u ≠ [] → u ∈ E

variable {children : V → List V} {weight : V → K} {N : V → Prop} {source : V} {top : K} {O : Set V}
  {E : Finset V} {s : Labels V K} {cur : V}

/-- A reached node is a node of the search. -/
theorem Labeled.mem (h : Labeled children weight N source top O E s) (hsource : N source)
    (hclosed : ∀ u v, N u → v ∈ children u → N v) {v : V} (hv : v = source ∨ s.prev v ≠ none) :
    N v := by
  rcases hv with rfl | hv
  · exact hsource
  · obtain ⟨u, hu⟩ := Option.ne_none_iff_exists'.1 hv
    obtain ⟨hN, hedge, -⟩ := h.edge u v hu
    exact hclosed u v hN hedge

/-- A node whose edges do not lower a cost is expanded. -/
theorem Labeled.close [DecidableEq V] (h : Labeled children weight N source top {cur} E s)
    (hrelaxed : ∀ v ∈ children cur, s.cost v ≤ s.cost cur + weight v) :
    Labeled children weight N source top ∅ (insert cur E) s := by
  refine { h with relaxed := fun u hN hqueue _ => ?_, expanded := fun u hu hqueue _ hne => ?_ }
  · by_cases e : u = cur
    · rw [e]
      exact hrelaxed
    · exact h.relaxed u hN hqueue e
  · by_cases e : u = cur
    · rw [e]
      exact Finset.mem_insert_self cur E
    · exact Finset.mem_insert_of_mem (h.expanded u hu hqueue e hne)

/-- A node without edges needs no expansion. -/
theorem Labeled.close_leaf (h : Labeled children weight N source top {cur} E s)
    (hleaf : children cur = []) : Labeled children weight N source top ∅ E s := by
  refine { h with relaxed := fun u hN hqueue _ => ?_, expanded := fun u hu hqueue _ hne => ?_ }
  · by_cases e : u = cur
    · rw [e, hleaf]
      intro v hv
      exact absurd hv List.not_mem_nil
    · exact h.relaxed u hN hqueue e
  · exact h.expanded u hu hqueue (fun e => hne (e ▸ hleaf)) hne

variable {Q : PriorityQueue V K}

/-- The node popped has been reached, and is to be expanded. -/
theorem Labeled.pop {q : List V} (h : Labeled children weight N source top ∅ E s)
    (hpop : Q.pop s.cost s.queue = some (cur, q)) :
    Labeled children weight N source top {cur} E { s with queue := q } ∧
      (cur = source ∨ s.prev cur ≠ none) := by
  have hqueue : ∀ u, u ∉ q → u ∉ ({cur} : Set V) → u ∉ s.queue := by
    intro u hq hcur hmem
    rcases List.mem_cons.1 ((Q.pop_perm hpop).mem_iff.1 hmem) with rfl | hmem
    · exact hcur rfl
    · exact hq hmem
  refine ⟨{ h with
    queued := fun v hv => h.queued v (Q.mem_of_pop_rest hpop hv)
    relaxed := fun u hN hq hO => h.relaxed u hN (hqueue u hq hO) (Set.notMem_empty u)
    expanded := fun u hu hq hO => h.expanded u hu (hqueue u hq hO) (Set.notMem_empty u) }, ?_⟩
  exact h.queued cur (Q.mem_of_pop hpop)

variable [IsOrderedAddMonoid K] [DecidableEq V]

/-- The labels at the start. -/
theorem Labeled.init (hsource : N source) (hweight : ∀ v, 0 ≤ weight v) (htop : 0 < top)
    {cost : V → K} {visited : V → Bool} (hzero : cost source = 0)
    (hcost : ∀ v, N v → v ≠ source → cost v = top) (hvisited : ∀ v, N v → visited v = true)
    (hclosed : ∀ u v, N u → v ∈ children u → N v) :
    Labeled children weight N source top ∅ ∅ ⟨cost, fun _ => none, visited, [source]⟩ := by
  have hle : ∀ v, N v → 0 ≤ cost v ∧ cost v ≤ top := by
    intro v hv
    by_cases e : v = source
    · rw [e, hzero]
      exact ⟨le_refl 0, le_of_lt htop⟩
    · rw [hcost v hv e]
      exact ⟨le_of_lt htop, le_refl top⟩
  refine ⟨hzero, rfl, fun v hv => (hle v hv).1, fun v hv => (hle v hv).2, hvisited,
    fun v hv => .inl (List.mem_singleton.1 hv), fun _ _ h => (by cases h),
    fun v hv hne _ => hcost v hv hne, ?_, fun v hv => absurd rfl hv, ?_, ?_⟩
  · rintro v (rfl | hv)
    · dsimp only
      rw [hzero]
      exact .source
    · exact absurd rfl hv
  · intro u hu hqueue _ v hv
    have hne : u ≠ source := fun e => hqueue (List.mem_singleton.2 e)
    dsimp only
    rw [hcost u hu hne]
    exact le_trans (hle v (hclosed u v hu hv)).2 (le_add_of_nonneg_right (hweight v))
  · rintro u (rfl | hu) hqueue
    · exact absurd (List.mem_singleton_self u) hqueue
    · exact absurd rfl hu

omit [AddCommMonoid K] [LinearOrder K] [IsOrderedAddMonoid K] in
/-- A node of the search is only entered at a lower cost. -/
theorem relax_cases [Add K] [LT K] [DecidableLT K] (Q : PriorityQueue V K) (weight : V → K)
    (cur : V) {s : Labels V K} {child : V} (hvisited : s.visited child = true) :
    (¬s.cost cur + weight child < s.cost child ∧ relax Q weight cur s child = s) ∨
    (s.cost cur + weight child < s.cost child ∧ relax Q weight cur s child =
      { cost := Function.update s.cost child (s.cost cur + weight child)
        prev := Function.update s.prev child (some cur)
        visited := Function.update s.visited child true
        queue := Q.push (Function.update s.cost child (s.cost cur + weight child)) child s.queue }) := by
  unfold relax
  dsimp only
  rw [hvisited]
  by_cases hlt : s.cost cur + weight child < s.cost child
  · exact .inr ⟨hlt, if_pos (.inr hlt)⟩
  · exact .inl ⟨hlt, if_neg (by simp [hlt])⟩

/-- A cost is lowered. -/
theorem Labeled.lower (h : Labeled children weight N source top {cur} E s) (hsource : N source)
    (hclosed : ∀ u v, N u → v ∈ children u → N v) (hweight : ∀ v, 0 ≤ weight v)
    (hcur : cur = source ∨ s.prev cur ≠ none) {child : V} (hchild : child ∈ children cur)
    (hlt : s.cost cur + weight child < s.cost child) {q : List V}
    (hq : ∀ v, v ∈ q ↔ v = child ∨ v ∈ s.queue) :
    Labeled children weight N source top {cur} E
      { cost := Function.update s.cost child (s.cost cur + weight child)
        prev := Function.update s.prev child (some cur)
        visited := Function.update s.visited child true
        queue := q } := by
  have hNcur : N cur := h.mem hsource hclosed hcur
  have hN : N child := hclosed cur child hNcur hchild
  have hcurlt : s.cost cur < s.cost child :=
    lt_of_le_of_lt (le_add_of_nonneg_right (hweight child)) hlt
  have hnew : 0 ≤ s.cost cur + weight child := add_nonneg (h.nonneg cur hNcur) (hweight child)
  have hchildcur : cur ≠ child := fun e => absurd hcurlt (by rw [e]; exact lt_irrefl _)
  have hchildsource : source ≠ child := by
    rintro rfl
    rw [h.source_cost] at hlt
    exact absurd hlt (not_lt.2 hnew)
  have hdown : ∀ v, Function.update s.cost child (s.cost cur + weight child) v ≤ s.cost v := by
    intro v
    by_cases e : v = child
    · subst e
      rw [Function.update_self]
      exact le_of_lt hlt
    · rw [Function.update_of_ne e]
  have hchain : ∀ x y, s.prev x = some y → s.cost y ≤ s.cost x := fun x y hxy =>
    le_trans (le_add_of_nonneg_right (hweight x)) (h.edge y x hxy).2.2.1
  have hleads : Leads s.prev source cur := by
    rcases hcur with rfl | hcur
    · exact .source
    · exact h.leads cur hcur
  refine ⟨?_, ?_, fun v hv => ?_, fun v hv => ?_, fun v hv => ?_, fun v hv => ?_, fun u v huv => ?_,
    fun v hv hne hnone => ?_, fun v hv => ?_, fun v hv => ?_, fun u hu hqueue hO v hv => ?_,
    fun u hu hqueue hO hne => ?_⟩ <;> dsimp only at *
  · rw [Function.update_of_ne hchildsource, h.source_cost]
  · rw [Function.update_of_ne hchildsource, h.source_prev]
  · by_cases e : v = child
    · rw [e, Function.update_self]
      exact hnew
    · rw [Function.update_of_ne e]
      exact h.nonneg v hv
  · exact le_trans (hdown v) (h.le_top v hv)
  · by_cases e : v = child
    · rw [e, Function.update_self]
    · rw [Function.update_of_ne e]
      exact h.visited v hv
  · by_cases e : v = child
    · right
      rw [e, Function.update_self]
      exact Option.some_ne_none cur
    · rw [Function.update_of_ne e]
      exact h.queued v (((hq v).1 hv).resolve_left e)
  · by_cases e : v = child
    · subst e
      rw [Function.update_self] at huv
      cases huv
      rw [Function.update_of_ne hchildcur, Function.update_self]
      exact ⟨hNcur, hchild, le_refl _, lt_of_lt_of_le hlt (h.le_top v hN)⟩
    · rw [Function.update_of_ne e] at huv ⊢
      obtain ⟨hNu, hedge, hle, htop⟩ := h.edge u v huv
      exact ⟨hNu, hedge, le_trans (add_le_add_left (hdown u) (weight v)) hle, htop⟩
  · by_cases e : v = child
    · rw [e, Function.update_self] at hnone
      cases hnone
    · rw [Function.update_of_ne e] at hnone ⊢
      exact h.unreached v hv hne hnone
  · by_cases e : v = child
    · rw [e, Function.update_self]
      exact .step (h.walk cur hcur) hchild
    · rw [Function.update_of_ne e] at hv ⊢
      exact h.walk v hv
  · by_cases e : v = child
    · rw [e]
      exact .step (Function.update_self _ _ _) (hleads.update_of_lt hchain hcurlt)
    · rw [Function.update_of_ne e] at hv
      exact (h.leads v hv).update hleads hchain hcurlt
  · rw [hq, not_or] at hqueue
    rw [Function.update_of_ne hqueue.1]
    exact le_trans (hdown v) (h.relaxed u hu hqueue.2 hO v hv)
  · rw [hq, not_or] at hqueue
    rw [Function.update_of_ne hqueue.1] at hu
    exact h.expanded u hu hqueue.2 hO hne

/-- The outcome of relaxing edges of `cur`: none of them lowers a cost any more, and the cost of
`cur` has not moved. -/
structure Relaxes (weight : V → K) (cur : V) (cs : List V) (s s' : Labels V K) : Prop where
  cost_cur : s'.cost cur = s.cost cur
  reached : s.prev cur ≠ none → s'.prev cur ≠ none
  cost_le : ∀ v, s'.cost v ≤ s.cost v
  done : ∀ c ∈ cs, s'.cost c ≤ s'.cost cur + weight c
  length_le : s'.queue.length ≤ s.queue.length + cs.length

/-- **One edge.** -/
theorem Labeled.relax (h : Labeled children weight N source top {cur} E s) (hsource : N source)
    (hclosed : ∀ u v, N u → v ∈ children u → N v) (hweight : ∀ v, 0 ≤ weight v)
    (hcur : cur = source ∨ s.prev cur ≠ none) {child : V} (hchild : child ∈ children cur) :
    Labeled children weight N source top {cur} E (LabelCorrecting.relax Q weight cur s child) ∧
      Relaxes weight cur [child] s (LabelCorrecting.relax Q weight cur s child) := by
  have hN : N child := hclosed cur child (h.mem hsource hclosed hcur) hchild
  rcases relax_cases Q weight cur (h.visited child hN) with ⟨hnot, e⟩ | ⟨hlt, e⟩
  · rw [e]
    refine ⟨h, rfl, fun hne => hne, fun v => le_refl _, fun c hc => ?_, Nat.le_succ _⟩
    rw [List.mem_singleton.1 hc]
    exact not_lt.1 hnot
  · have hne : cur ≠ child := by
      rintro rfl
      exact absurd hlt (not_lt.2 (le_add_of_nonneg_right (hweight cur)))
    rw [e]
    refine ⟨h.lower hsource hclosed hweight hcur hchild hlt fun v => Q.mem_push, ?_, fun hprev => ?_,
      fun v => ?_, fun c hc => ?_, ?_⟩ <;> dsimp only
    · rw [Function.update_of_ne hne]
    · rw [Function.update_of_ne hne]
      exact hprev
    · by_cases e : v = child
      · subst e
        rw [Function.update_self]
        exact le_of_lt hlt
      · rw [Function.update_of_ne e]
    · rw [List.mem_singleton.1 hc, Function.update_self, Function.update_of_ne hne]
    · exact le_of_eq (Q.length_push _ _ _)

/-- The edges of an expanded node. -/
theorem Labeled.relaxAll (hsource : N source) (hclosed : ∀ u v, N u → v ∈ children u → N v)
    (hweight : ∀ v, 0 ≤ weight v) : ∀ {cs : List V} {s : Labels V K},
    Labeled children weight N source top {cur} E s → (cur = source ∨ s.prev cur ≠ none) →
    (∀ c ∈ cs, c ∈ children cur) →
    Labeled children weight N source top {cur} E (cs.foldl (LabelCorrecting.relax Q weight cur) s) ∧
      Relaxes weight cur cs s (cs.foldl (LabelCorrecting.relax Q weight cur) s)
  | [], s, h, _, _ => ⟨h, rfl, fun hne => hne, fun v => le_refl _,
      fun c hc => absurd hc List.not_mem_nil, Nat.le_refl _⟩
  | c :: cs, s, h, hcur, hcs => by
    obtain ⟨h₁, hr₁⟩ := h.relax (Q := Q) hsource hclosed hweight hcur (hcs c List.mem_cons_self)
    obtain ⟨h₂, hr₂⟩ := h₁.relaxAll hsource hclosed hweight (hcur.imp_right hr₁.reached)
      fun x hx => hcs x (List.mem_cons_of_mem c hx)
    rw [List.foldl_cons]
    refine ⟨h₂, hr₂.cost_cur.trans hr₁.cost_cur, fun hne => hr₂.reached (hr₁.reached hne),
      fun v => le_trans (hr₂.cost_le v) (hr₁.cost_le v), fun x hx => ?_, ?_⟩
    · rcases List.mem_cons.1 hx with rfl | hx
      · rw [hr₂.cost_cur]
        exact le_trans (hr₂.cost_le x) (hr₁.done x List.mem_cons_self)
      · exact hr₂.done x hx
    · have hle₁ := hr₁.length_le
      have hle₂ := hr₂.length_le
      rw [List.length_singleton] at hle₁
      rw [List.length_cons]
      omega

/-- **The loop.** With fuel for the nodes queued and for those that the expansions left can queue, it
ends unless the watchdog stops it, and then no edge lowers a cost any more. -/
theorem loop_spec {limit n : Nat} (hsource : N source)
    (hclosed : ∀ u v, N u → v ∈ children u → N v) (hweight : ∀ v, 0 ≤ weight v)
    (hn : ∀ u, N u → (children u).length ≤ n) : ∀ (fuel watchDog : Nat) (E : Finset V)
    (s : Labels V K), Labeled children weight N source top ∅ E s → E.card ≤ watchDog →
    watchDog ≤ limit + 1 → s.queue.length + (limit + 1 - watchDog) * n < fuel →
    loop Q children weight limit fuel watchDog s = .stopped ∨
      ∃ s' E', loop Q children weight limit fuel watchDog s = .done s' ∧
        Labeled children weight N source top ∅ E' s' ∧ s'.queue = [] ∧ E'.card ≤ limit + 1 := by
  intro fuel
  induction fuel with
  | zero => intro watchDog E s _ _ _ hfuel; omega
  | succ fuel ih =>
    intro watchDog E s h hE hdog hfuel
    unfold loop
    rcases hpop : Q.pop s.cost s.queue with _ | ⟨cur, q⟩
    · exact .inr ⟨s, E, rfl, h, Q.pop_none.1 hpop, Nat.le_trans hE hdog⟩
    · obtain ⟨hopen, hcur⟩ := h.pop hpop
      have hlength := Q.length_pop hpop
      dsimp only
      by_cases hleaf : children cur = []
      · rw [if_pos hleaf]
        exact ih watchDog E _ (hopen.close_leaf hleaf) hE hdog (by dsimp only; omega)
      · rw [if_neg hleaf]
        by_cases hstop : watchDog > limit
        · exact .inl (if_pos hstop)
        · rw [if_neg hstop]
          obtain ⟨hall, hr⟩ := hopen.relaxAll (Q := Q) hsource hclosed hweight hcur fun c hc => hc
          refine ih (watchDog + 1) (insert cur E) _ (hall.close hr.done) ?_ (by omega) ?_
          · exact Nat.le_trans (Finset.card_insert_le cur E) (Nat.succ_le_succ hE)
          · -- One expansion is spent: it pays for the nodes it queues.
            have hle := hr.length_le
            have hcs := hn cur (h.mem hsource hclosed hcur)
            have hpay : (limit + 1 - watchDog) * n = (limit + 1 - (watchDog + 1)) * n + n := by
              rw [← Nat.succ_mul]
              congr 1
              omega
            dsimp only at hle
            omega

/-! ## Cheapest walks -/

omit [LinearOrder K] [IsOrderedAddMonoid K] [DecidableEq V] in
theorem Walk.mem (hsource : N source) (hclosed : ∀ u v, N u → v ∈ children u → N v) {v : V} {k : K}
    (h : Walk children weight source v k) : N v := by
  induction h with
  | source => exact hsource
  | step _ hedge ih => exact hclosed _ _ ih hedge

omit [LinearOrder K] [IsOrderedAddMonoid K] [DecidableEq V] in
theorem Walk.congr {children' : V → List V} (hsource : N source)
    (hclosed : ∀ u v, N u → v ∈ children u → N v) (hsame : ∀ u, N u → children' u = children u)
    {v : V} {k : K} : Walk children' weight source v k ↔ Walk children weight source v k := by
  have hmono : ∀ {f g : V → List V}, (∀ u v, N u → v ∈ f u → N v) → (∀ u, N u → g u = f u) →
      ∀ {v k}, Walk f weight source v k → Walk g weight source v k := by
    intro f g hf hfg v k h
    induction h with
    | source => exact .source
    | @step u v k hu hedge ih =>
      refine .step ih ?_
      rw [hfg u (hu.mem hsource hf)]
      exact hedge
  refine ⟨hmono (fun u v hu hv => ?_) fun u hu => (hsame u hu).symm, hmono hclosed hsame⟩
  rw [hsame u hu] at hv
  exact hclosed u v hu hv

omit [DecidableEq V] in
/-- When no node waits, no walk is cheaper than the cost found. -/
theorem Labeled.cost_le (h : Labeled children weight N source top ∅ E s) (hqueue : s.queue = [])
    (hsource : N source) (hclosed : ∀ u v, N u → v ∈ children u → N v) {v : V} {k : K}
    (hwalk : Walk children weight source v k) : s.cost v ≤ k := by
  induction hwalk with
  | source => exact le_of_eq h.source_cost
  | @step u v k hu hedge ih =>
    have hnot : u ∉ s.queue := by
      rw [hqueue]
      exact List.not_mem_nil
    calc s.cost v ≤ s.cost u + weight v :=
          h.relaxed u (hu.mem hsource hclosed) hnot (Set.notMem_empty u) v hedge
      _ ≤ k + weight v := add_le_add_left ih (weight v)

omit [DecidableEq V] in
/-- **What is reached.** A node is reached if some walk to it is cheaper than `top`. -/
theorem Labeled.reached_iff (h : Labeled children weight N source top ∅ E s) (hqueue : s.queue = [])
    (hsource : N source) (hclosed : ∀ u v, N u → v ∈ children u → N v) {v : V} (hne : v ≠ source) :
    s.prev v ≠ none ↔ ∃ k, Walk children weight source v k ∧ k < top := by
  constructor
  · intro hv
    obtain ⟨u, hu⟩ := Option.ne_none_iff_exists'.1 hv
    exact ⟨s.cost v, h.walk v (.inr hv), (h.edge u v hu).2.2.2⟩
  · rintro ⟨k, hwalk, hlt⟩ hnone
    have hle := h.cost_le hqueue hsource hclosed hwalk
    rw [h.unreached v (hwalk.mem hsource hclosed) hne hnone] at hle
    exact absurd hlt (not_lt.2 hle)

end Invariant

/-! ## Climbing to the source -/

/-- The nodes from `v` up to the source, without the source. -/
inductive Chain {V : Type} (prev : V → Option V) (source : V) : V → List V → Prop
  | source : Chain prev source source []
  | step {u v : V} {l : List V} : v ≠ source → prev v = some u → Chain prev source u l →
      Chain prev source v (v :: l)

section Chain

variable {V : Type} {prev : V → Option V} {source v : V} {l l' : List V}

theorem Leads.chain (h : Leads prev source v) : ∃ l, Chain prev source v l := by
  induction h with
  | source => exact ⟨[], .source⟩
  | @step u v hprev _ ih =>
    obtain ⟨l, hl⟩ := ih
    by_cases e : v = source
    · rw [e]
      exact ⟨[], .source⟩
    · exact ⟨v :: l, .step e hprev hl⟩

theorem Chain.unique (h : Chain prev source v l) (h' : Chain prev source v l') : l = l' := by
  induction h generalizing l' with
  | source =>
    cases h' with
    | source => rfl
    | step hne => exact absurd rfl hne
  | step hne hprev _ ih =>
    cases h' with
    | source => exact absurd rfl hne
    | step _ hprev' hl' =>
      rw [hprev] at hprev'
      cases hprev'
      rw [ih hl']

/-- From a node passed on the way, the rest of the way. -/
theorem Chain.of_mem (h : Chain prev source v l) {x : V} (hx : x ∈ l) :
    ∃ l', Chain prev source x l' ∧ l'.length ≤ l.length ∧ l' ⊆ l := by
  induction h with
  | source => exact absurd hx List.not_mem_nil
  | @step u v l hne hprev hl ih =>
    rcases List.mem_cons.1 hx with rfl | hx
    · exact ⟨x :: l, .step hne hprev hl, Nat.le_refl _, List.Subset.refl _⟩
    · obtain ⟨l', hl', hlength, hsub⟩ := ih hx
      exact ⟨l', hl', Nat.le_succ_of_le hlength, List.subset_cons_of_subset v hsub⟩

/-- No node is passed twice: the way from it would have two lengths. -/
theorem Chain.nodup (h : Chain prev source v l) : l.Nodup := by
  induction h with
  | source => exact List.nodup_nil
  | @step u v l hne hprev hl ih =>
    refine List.nodup_cons.2 ⟨fun hmem => ?_, ih⟩
    obtain ⟨l', hl', hlength, -⟩ := hl.of_mem hmem
    have e := hl'.unique (.step hne hprev hl)
    rw [e, List.length_cons] at hlength
    omega

theorem Chain.of_mem_prev (h : Chain prev source v l) {x : V} (hx : x ∈ l) :
    x ≠ source ∧ ∃ u, prev x = some u ∧ (u = source ∨ u ∈ l) := by
  induction h with
  | source => exact absurd hx List.not_mem_nil
  | @step u v l hne hprev hl ih =>
    rcases List.mem_cons.1 hx with rfl | hx
    · refine ⟨hne, u, hprev, ?_⟩
      cases hl with
      | source => exact .inl rfl
      | step => exact .inr (List.mem_cons_of_mem x List.mem_cons_self)
    · obtain ⟨hx', w, hw, hmem⟩ := ih hx
      exact ⟨hx', w, hw, hmem.imp_right (List.mem_cons_of_mem v)⟩

/-- The nodes above `v` on its chain, with the source, are predecessors. -/
theorem Chain.parents (h : Chain prev source v l) (hne : v ≠ source) :
    ∃ ps : List V, ps.length = l.length ∧ ps.Nodup ∧
      ∀ p ∈ ps, (p = source ∨ prev p ≠ none) ∧ ∃ x ∈ l, prev x = some p := by
  cases h with
  | source => exact absurd rfl hne
  | @step u _ l hv hprev hl =>
    refine ⟨l ++ [source], by simp, ?_, fun p hp => ?_⟩
    · refine List.nodup_append.2 ⟨hl.nodup, List.nodup_singleton source, fun x hx y hy e => ?_⟩
      rw [List.mem_singleton.1 hy] at e
      exact (hl.of_mem_prev hx).1 e
    · -- Each node above is the predecessor of the one below it.
      have hbelow : ∀ {w : V} {m : List V}, Chain prev source w m → ∀ x, prev x = some w →
          ∀ p ∈ m ++ [source], ∃ y ∈ x :: m, prev y = some p := by
        intro w m hm
        induction hm with
        | source =>
          intro x hx p hp
          rw [List.nil_append, List.mem_singleton] at hp
          exact ⟨x, List.mem_cons_self, hp ▸ hx⟩
        | @step u' w m _ hw _ ih =>
          intro x hx p hp
          rw [List.cons_append, List.mem_cons] at hp
          rcases hp with rfl | hp
          · exact ⟨x, List.mem_cons_self, hx⟩
          · obtain ⟨y, hy, hyp⟩ := ih w hw p hp
            exact ⟨y, List.mem_cons_of_mem x hy, hyp⟩
      refine ⟨?_, hbelow hl v hprev p hp⟩
      rcases List.mem_append.1 hp with hp | hp
      · obtain ⟨-, w, hw, -⟩ := hl.of_mem_prev hp
        exact .inr (by rw [hw]; exact Option.some_ne_none w)
      · exact .inl (List.mem_singleton.1 hp)

/-- **The climb** finds the chain, if its bound allows for the length. -/
theorem climb_eq_some [DecidableEq V] : ∀ {fuel : Nat} {v : V} {l : List V},
    climb prev source fuel v = some l ↔ Chain prev source v l ∧ l.length ≤ fuel := by
  intro fuel
  induction fuel with
  | zero =>
    intro v l
    unfold climb
    constructor
    · intro h
      split at h
      · next e =>
        cases h
        exact ⟨e ▸ .source, Nat.le_refl 0⟩
      · cases h
    · rintro ⟨h, hlength⟩
      cases h with
      | source => exact if_pos rfl
      | step => exact absurd hlength (Nat.not_succ_le_zero _)
  | succ fuel ih =>
    intro v l
    unfold climb
    constructor
    · intro h
      split at h
      · next e =>
        cases h
        exact ⟨e ▸ .source, Nat.zero_le _⟩
      · next e =>
        obtain ⟨u, hu, hl⟩ := Option.bind_eq_some_iff.1 h
        obtain ⟨m, hm, rfl⟩ := Option.map_eq_some_iff.1 hl
        obtain ⟨hchain, hlength⟩ := ih.1 hm
        exact ⟨.step e hu hchain, Nat.succ_le_succ hlength⟩
    · rintro ⟨h, hlength⟩
      cases h with
      | source => exact if_pos rfl
      | @step u _ m hne hprev hm =>
        rw [if_neg hne, hprev, Option.bind_some, ih.2 ⟨hm, Nat.le_of_succ_le_succ hlength⟩,
          Option.map_some]

end Chain

/-- **The bound of the climb.** The nodes above a reached node have all been expanded, so the bound
on the expansions is one on the climb. -/
theorem Labeled.climb_isSome {V K : Type} [DecidableEq V] [AddCommMonoid K] [LinearOrder K]
    {children : V → List V} {weight : V → K} {N : V → Prop} {source : V} {top : K} {E : Finset V}
    {s : Labels V K} (h : Labeled children weight N source top ∅ E s) (hqueue : s.queue = [])
    {fuel : Nat} (hE : E.card ≤ fuel) {v : V} (hv : s.prev v ≠ none) :
    ∃ l, climb s.prev source fuel v = some l ∧ Chain s.prev source v l := by
  obtain ⟨l, hl⟩ := (h.leads v hv).chain
  have hne : v ≠ source := fun e => hv (e ▸ h.source_prev)
  obtain ⟨ps, hlength, hnodup, hps⟩ := hl.parents hne
  refine ⟨l, climb_eq_some.2 ⟨hl, ?_⟩, hl⟩
  have hsub : ps.toFinset ⊆ E := by
    intro p hp
    obtain ⟨hreached, x, -, hx⟩ := hps p (List.mem_toFinset.1 hp)
    have hnot : p ∉ s.queue := by
      rw [hqueue]
      exact List.not_mem_nil
    refine h.expanded p hreached hnot (Set.notMem_empty p) fun hnil => ?_
    have hedge := (h.edge p x hx).2.1
    rw [hnil] at hedge
    exact absurd hedge List.not_mem_nil
  calc l.length = ps.toFinset.card := by rw [List.toFinset_card_of_nodup hnodup, hlength]
    _ ≤ E.card := Finset.card_le_card hsub
    _ ≤ fuel := hE

end Potter.Lib.LabelCorrecting
