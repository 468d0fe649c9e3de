import Potter.Route.Search

/-!
# Expanding inline and overflow children

The first eight children of a node are kept in the node itself, the others in a vector. The search
looks at the two parts in two loops, with two copies of the loop body: the second loop is skipped when
the first has found the sink (`targetFound`), a flag that only the first copy sets.

`getChildren_runOps` says what the two parts hold after any calls. `expandChildren_eq` says that the
two loops do what one loop over all children does, and `expandNode_eq` that the search of `Search.lean`
expands nodes by them.
-/

namespace Potter

open Lib
open BestFirst (Scan Frontier)

/-! ## Calls on a node -/

section Calls

variable {V : Type}

/-- The calls that change the children of a node. -/
inductive ChildOp (V : Type)
  | addChildren (c : V)
  | setChildren (cs : List V)
  | clearChildren
deriving DecidableEq

namespace Children

def apply (cs : Children V) : ChildOp V → Children V
  | .addChildren c => cs.addChildren c
  | .setChildren l => setChildren l
  | .clearChildren => clearChildren

/-- The children after some calls on a new node. -/
def runOps (ops : List (ChildOp V)) : Children V := ops.foldl apply clearChildren

end Children

namespace ChildOp

/-- A call as clears, `none`, and additions. -/
def events : ChildOp V → List (Option V)
  | addChildren c => [some c]
  | setChildren cs => none :: cs.map some
  | clearChildren => [none]

/-- The children added since the last clear. -/
def addedSinceClear (ops : List (ChildOp V)) : List V :=
  (((ops.flatMap events).reverse.takeWhile Option.isSome).filterMap id).reverse

/-- What a list of events adds after its last clear. -/
theorem added_append_some (es : List (Option V)) (cs : List V) :
    (((es ++ cs.map some).reverse.takeWhile Option.isSome).filterMap id).reverse =
      ((es.reverse.takeWhile Option.isSome).filterMap id).reverse ++ cs := by
  induction cs using List.reverseRecOn with
  | nil => simp
  | append_singleton cs c ih =>
    rw [List.map_append, List.map_singleton, ← List.append_assoc, List.reverse_append,
      List.reverse_singleton, List.singleton_append, List.takeWhile_cons_of_pos rfl,
      List.filterMap_cons_some (show id (some c) = some c from rfl), List.reverse_cons, ih, List.append_assoc]

theorem addedSinceClear_concat (ops : List (ChildOp V)) (op : ChildOp V) :
    addedSinceClear (ops ++ [op]) =
      match op with
      | addChildren c => addedSinceClear ops ++ [c]
      | setChildren cs => cs
      | clearChildren => [] := by
  unfold addedSinceClear
  rw [List.flatMap_append, List.flatMap_singleton]
  cases op with
  | addChildren c => exact added_append_some _ [c]
  | setChildren cs =>
    have h := added_append_some (ops.flatMap events ++ [none]) cs
    rw [List.append_assoc, List.singleton_append] at h
    rw [events, h, List.reverse_append, List.reverse_singleton, List.singleton_append,
      List.takeWhile_cons_of_neg Bool.false_ne_true]
    rfl
  | clearChildren =>
    rw [events, List.reverse_append, List.reverse_singleton, List.singleton_append,
      List.takeWhile_cons_of_neg Bool.false_ne_true]
    rfl

end ChildOp

/-- **The children are those added since the last clear**, in order, whatever the calls were. -/
theorem getChildren_runOps (ops : List (ChildOp V)) :
    (Children.runOps ops).getChildren = ChildOp.addedSinceClear ops := by
  induction ops using List.reverseRecOn with
  | nil => rfl
  | append_singleton ops op ih =>
    have hrun : Children.runOps (ops ++ [op]) = (Children.runOps ops).apply op := by
      rw [Children.runOps, List.foldl_append]
      rfl
    rw [hrun, ChildOp.addedSinceClear_concat]
    cases op with
    | addChildren c =>
      rw [Children.apply, Children.getChildren_addChildren, ih]
    | setChildren cs => exact Children.getChildren_setChildren cs
    | clearChildren => rfl

end Calls

namespace AStarRoute

variable {K : Type} [Arith K] (R : AStarRoute K)

/-! ## The two loops -/

/-- How a loop body ends: with the next round, with `break`, or by stopping the program. -/
inductive LoopStep (S : Type)
  | goOn (s : S)
  | leave (s : S)
  | exit

/-- A loop over a list. There is no result when the program stops. -/
def forEach {S α : Type} (body : S → α → LoopStep S) : S → List α → Option S
  | s, [] => some s
  | s, a :: l =>
    match body s a with
    | .goOn s => forEach body s l
    | .leave s => some s
    | .exit => none

/-- The variables of the search while it expands a node: the state with the thread's `nodeInfos`, the
queue, the nodes pushed so far with their costs, and what was found. -/
structure Expansion (D : Database K) where
  st : RouterState D
  rnodeQueue : List D.NodeId
  pushes : List (D.NodeId × K × K)
  targetRNode : Option D.NodeId
  targetFound : Bool

section Loops

variable (ρ : Reads R.database.NodeId K) (c : R.database.ConnId) (tid : Nat) (sync : Bool)
  (rnode : R.database.NodeId) (partialCost : K)

/-- `push`, with `prev` and the two costs. -/
def pushChild (s : Expansion R.database) (child : R.database.NodeId) (cost partialCost : K) :
    Expansion R.database :=
  let childInfo := { s.st.info tid child with
    toMark := ⟨some rnode, cost, partialCost, R.connectionUniqueId s.st c, -1⟩ }
  let st := s.st.withInfo tid (Function.update (s.st.info tid) child childInfo)
  { s with
    st := st
    rnodeQueue := R.queue.push (fun r => (st.info tid r).cost) child s.rnodeQueue
    pushes := s.pushes ++ [(child, cost, partialCost)] }

/-- `childInfo.prev = rnode`. -/
def setPrev (st : RouterState R.database) (child : R.database.NodeId) : RouterState R.database :=
  st.withInfo tid (Function.update (st.info tid) child
    { st.info tid child with toMark := (st.info tid child).toMark.withPrev rnode })

/-- The body of the loop over the inline children. -/
def visitInlineChild (s : Expansion R.database) (childRNode : R.database.NodeId) :
    LoopStep (Expansion R.database) :=
  let childInfo := s.st.info tid childRNode
  let isVisited : Bool := childInfo.isVisited = R.connectionUniqueId s.st c
  let isTarget : Bool := childInfo.isTarget = R.connectionUniqueId s.st c
  if isVisited then .goOn s
  else if isTarget ∧ childRNode = R.database.sink c then
    .leave { s with
      st := R.setPrev tid rnode s.st childRNode
      targetRNode := some childRNode
      targetFound := true }
  else
    match R.childVerdict ρ s.st c tid sync childRNode isTarget with
    | .skip => .goOn s
    | .halt => .exit
    | .visit costs =>
      .goOn (R.pushChild c tid rnode s childRNode (costs partialCost).1 (costs partialCost).2)

/-- The body of the loop over the overflow children. -/
def visitOverflowChild (s : Expansion R.database) (childRNode : R.database.NodeId) :
    LoopStep (Expansion R.database) :=
  let childInfo := s.st.info tid childRNode
  let isVisited : Bool := childInfo.isVisited = R.connectionUniqueId s.st c
  let isTarget : Bool := childInfo.isTarget = R.connectionUniqueId s.st c
  if isVisited then .goOn s
  else if isTarget ∧ childRNode = R.database.sink c then
    .leave { s with
      st := R.setPrev tid rnode s.st childRNode
      targetRNode := some childRNode }
  else
    match R.childVerdict ρ s.st c tid sync childRNode isTarget with
    | .skip => .goOn s
    | .halt => .exit
    | .visit costs =>
      .goOn (R.pushChild c tid rnode s childRNode (costs partialCost).1 (costs partialCost).2)

/-- The inline children, then the overflow children unless the sink was found. -/
def expandChildren (cs : Children R.database.NodeId) (s : Expansion R.database) :
    Option (Expansion R.database) :=
  (forEach (R.visitInlineChild ρ c tid sync rnode partialCost) s cs.inlineChildren).bind fun s =>
    if s.targetFound then some s
    else forEach (R.visitOverflowChild ρ c tid sync rnode partialCost) s cs.overflowChildren

/-- One loop over a list of children that stops when the sink is found. -/
def expandPlain (children : List R.database.NodeId) (s : Expansion R.database) :
    Option (Expansion R.database) :=
  forEach (R.visitOverflowChild ρ c tid sync rnode partialCost) s children

end Loops

/-! ## One loop -/

section Plain

variable {R} {ρ : Reads R.database.NodeId K} {c : R.database.ConnId} {tid : Nat} {sync : Bool}
  {rnode : R.database.NodeId} {partialCost : K}

/-- What a search goes on with: the flag `targetFound` is not read again. -/
def Expansion.outcome {D : Database K} (s : Expansion D) :
    RouterState D × List D.NodeId × List (D.NodeId × K × K) × Option D.NodeId :=
  (s.st, s.rnodeQueue, s.pushes, s.targetRNode)

/-- The copies of the loop body differ in the flag. -/
theorem visitInlineChild_eq (s : Expansion R.database) (child : R.database.NodeId) :
    R.visitInlineChild ρ c tid sync rnode partialCost s child =
      match R.visitOverflowChild ρ c tid sync rnode partialCost s child with
      | .goOn s' => .goOn s'
      | .leave s' => .leave { s' with targetFound := true }
      | .exit => .exit := by
  unfold visitInlineChild visitOverflowChild
  dsimp only
  split
  · rfl
  · split
    · rfl
    · cases R.childVerdict ρ s.st c tid sync child _ <;> rfl

theorem targetFound_of_goOn {s s' : Expansion R.database} {child : R.database.NodeId}
    (h : R.visitOverflowChild ρ c tid sync rnode partialCost s child = .goOn s') :
    s'.targetFound = s.targetFound := by
  unfold visitOverflowChild at h
  dsimp only at h
  split at h
  · cases h
    rfl
  · split at h
    · cases h
    · split at h
      · cases h
        rfl
      · cases h
      · cases h
        rfl

/-- **The two loops do what one loop over all children does.** -/
theorem expandChildren_eq (cs : Children R.database.NodeId) {s : Expansion R.database}
    (hs : s.targetFound = false) :
    (R.expandChildren ρ c tid sync rnode partialCost cs s).map Expansion.outcome =
      (R.expandPlain ρ c tid sync rnode partialCost cs.getChildren s).map Expansion.outcome := by
  unfold expandChildren expandPlain Children.getChildren
  -- By induction on the inline children; the overflow children stay.
  generalize cs.inlineChildren = l
  induction l generalizing s with
  | nil =>
    rw [List.nil_append, forEach, Option.bind_some, hs]
    rfl
  | cons child l ih =>
    rw [List.cons_append, forEach, forEach, visitInlineChild_eq]
    cases h : R.visitOverflowChild ρ c tid sync rnode partialCost s child with
    | goOn s' => exact ih ((targetFound_of_goOn h).trans hs)
    | leave s' => rfl
    | exit => rfl

end Plain

/-! ## The search expands nodes by the two loops -/

section Search

variable {R} {ρ : Reads R.database.NodeId K} {c : R.database.ConnId} {tid : Nat} {sync : Bool}
  {rnode : R.database.NodeId} {partialCost : K} {st : RouterState R.database}

/-- The variables for a mark table and a queue. -/
def expansionOf (st : RouterState R.database) (tid : Nat) (f : Frontier R.database.NodeId K)
    (pushes : List (R.database.NodeId × K × K)) : Expansion R.database :=
  ⟨st.withMarks tid f.marks, f.queue, pushes, none, false⟩

theorem withInfo_withMarks (m : R.database.NodeId → BestFirst.Mark R.database.NodeId K)
    (child : R.database.NodeId) (mark : BestFirst.Mark R.database.NodeId K) :
    (st.withMarks tid m).withInfo tid (Function.update ((st.withMarks tid m).info tid) child
        { (st.withMarks tid m).info tid child with toMark := mark }) =
      st.withMarks tid (Function.update m child mark) := by
  unfold RouterState.withMarks RouterState.withInfo
  simp only [Function.update_self, Function.update_idem]
  congr 2
  funext r
  by_cases h : r = child
  · subst h
    simp
  · simp [h]

theorem childVerdict_withMarks (m : R.database.NodeId → BestFirst.Mark R.database.NodeId K)
    (child : R.database.NodeId) (isTarget : Bool) :
    R.childVerdict ρ (st.withMarks tid m) c tid sync child isTarget =
      R.childVerdict ρ st c tid sync child isTarget := by
  have hocc : ((st.withMarks tid m).info tid child).getOccChange st.ctl.currentBatchStamp =
      (st.info tid child).getOccChange st.ctl.currentBatchStamp := by
    simp [RouterState.withMarks, RouterState.withInfo, NodeInfo.getOccChange]
  unfold childVerdict evaluateChild
  simp only [RouterState.withMarks_net, RouterState.withMarks_ctl, hocc]
  rfl

/-- One child, in the terms of the search. -/
theorem visitOverflowChild_expansionOf (f : Frontier R.database.NodeId K)
    (pushes : List (R.database.NodeId × K × K)) (child : R.database.NodeId) :
    R.visitOverflowChild ρ c tid sync rnode partialCost (expansionOf st tid f pushes) child =
      if (f.marks child).isVisited = R.connectionUniqueId st c then .goOn (expansionOf st tid f pushes)
      else if (f.marks child).isTarget = R.connectionUniqueId st c ∧ child = R.database.sink c then
        let marks := Function.update f.marks child ((f.marks child).withPrev rnode)
        .leave { expansionOf st tid ⟨marks, f.queue⟩ pushes with targetRNode := some child }
      else
        match R.childVerdict ρ st c tid sync child
            (decide ((f.marks child).isTarget = R.connectionUniqueId st c)) with
        | .skip => .goOn (expansionOf st tid f pushes)
        | .halt => .exit
        | .visit costs =>
          .goOn (expansionOf st tid (BestFirst.pushNode R.queue (R.problem ρ st c tid sync) f child
              (some rnode) (costs partialCost).1 (costs partialCost).2)
            (pushes ++ [(child, costs partialCost)])) := by
  have hmark : ((st.withMarks tid f.marks).info tid child).toMark = f.marks child := by
    simp [RouterState.withMarks, RouterState.withInfo]
  have huid : R.connectionUniqueId (st.withMarks tid f.marks) c = R.connectionUniqueId st c := rfl
  unfold visitOverflowChild expansionOf
  dsimp only
  rw [hmark, huid, childVerdict_withMarks]
  simp only [decide_eq_true_eq]
  congr 1
  congr 1
  · rw [setPrev, hmark, withInfo_withMarks]
  · congr 1
    funext costs
    have hcost : ∀ mark : BestFirst.Mark R.database.NodeId K,
        (fun r => ((st.withMarks tid (Function.update f.marks child mark)).info tid r).cost) =
          fun r => (Function.update f.marks child mark r).cost := by
      intro mark
      funext r
      simp [RouterState.withMarks, RouterState.withInfo]
    rw [pushChild, huid]
    dsimp only
    rw [withInfo_withMarks, hcost]
    rfl

/-- One child of the search, with the problem written out. -/
theorem visitChild_problem (f : Frontier R.database.NodeId K) (child : R.database.NodeId) :
    BestFirst.visitChild R.queue (R.problem ρ st c tid sync) rnode partialCost f child =
      if (f.marks child).isVisited = R.connectionUniqueId st c then .next f
      else if (f.marks child).isTarget = R.connectionUniqueId st c ∧ child = R.database.sink c then
        .found ⟨Function.update f.marks child ((f.marks child).withPrev rnode), f.queue⟩
      else
        match R.childVerdict ρ st c tid sync child
            (decide ((f.marks child).isTarget = R.connectionUniqueId st c)) with
        | .skip => .next f
        | .halt => .halted
        | .visit costs =>
          .next (BestFirst.pushNode R.queue (R.problem ρ st c tid sync) f child (some rnode)
            (costs partialCost).1 (costs partialCost).2) :=
  rfl

/-- The loop over a list of children, in the terms of the search. -/
theorem expandPlain_expansionOf (children : List R.database.NodeId)
    (f : Frontier R.database.NodeId K) (pushes : List (R.database.NodeId × K × K)) :
    BestFirst.expand R.queue (R.problem ρ st c tid sync) rnode partialCost f children =
      match R.expandPlain ρ c tid sync rnode partialCost children (expansionOf st tid f pushes) with
      | none => .halted
      | some s =>
        if s.targetRNode.isSome then .found ⟨s.st.marks tid, s.rnodeQueue⟩
        else .next ⟨s.st.marks tid, s.rnodeQueue⟩ := by
  unfold expandPlain
  induction children generalizing f pushes with
  | nil => simp [BestFirst.expand, forEach, expansionOf]
  | cons child children ih =>
    rw [BestFirst.expand, forEach, visitOverflowChild_expansionOf, visitChild_problem]
    by_cases hvisited : (f.marks child).isVisited = R.connectionUniqueId st c
    · simp only [if_pos hvisited]
      exact ih f pushes
    · simp only [if_neg hvisited]
      by_cases htarget : (f.marks child).isTarget = R.connectionUniqueId st c ∧
          child = R.database.sink c
      · simp only [if_pos htarget]
        simp [expansionOf]
      · simp only [if_neg htarget]
        cases R.childVerdict ρ st c tid sync child
            (decide ((f.marks child).isTarget = R.connectionUniqueId st c)) with
        | skip => exact ih f pushes
        | halt => rfl
        | visit costs => exact ih _ _

/-- **The search expands a node by the two loops.** -/
theorem expandNode_eq (f : Frontier R.database.NodeId K) :
    R.expandNode (R.problem ρ st c tid sync) rnode partialCost f =
      match R.expandChildren ρ c tid sync rnode partialCost (R.database.routeNodes rnode).children
          (expansionOf st tid f []) with
      | none => .halted
      | some s =>
        if s.targetRNode.isSome then .found ⟨s.st.marks tid, s.rnodeQueue⟩
        else .next ⟨s.st.marks tid, s.rnodeQueue⟩ := by
  rw [expandNode_expand, expandPlain_expansionOf _ f []]
  have htwo : (R.expandChildren ρ c tid sync rnode partialCost
        (R.database.routeNodes rnode).children (expansionOf st tid f [])).map Expansion.outcome =
      (R.expandPlain ρ c tid sync rnode partialCost (R.database.children rnode)
        (expansionOf st tid f [])).map Expansion.outcome :=
    expandChildren_eq _ rfl
  rcases hloops : R.expandChildren ρ c tid sync rnode partialCost
    (R.database.routeNodes rnode).children (expansionOf st tid f []) with _ | s <;>
  rcases hplain : R.expandPlain ρ c tid sync rnode partialCost (R.database.children rnode)
    (expansionOf st tid f []) with _ | s' <;>
  rw [hloops, hplain] at htwo
  · cases htwo
  · cases htwo
  · simp only [Option.map_some, Option.some.injEq, Expansion.outcome, Prod.mk.injEq] at htwo
    obtain ⟨hst, hqueue, -, htarget⟩ := htwo
    simp only [hst, hqueue, htarget]

end Search

/-! ## Storage and expansion -/

/-- The children are those added since the last clear, with eight of them inline before any other is
put in the vector; and from any state and queue the two loops leave the same `nodeInfos`, the same
pushes and the same target as one loop over `getChildren`. -/
theorem inlineStorage_transparent :
    (∀ (V : Type) (ops : List (ChildOp V)),
      (Children.runOps ops).getChildren = ChildOp.addedSinceClear ops ∧
        (Children.runOps ops).inlineChildren.length ≤ 8 ∧
        ((Children.runOps ops).overflowChildren ≠ [] →
          (Children.runOps ops).inlineChildren.length = 8)) ∧
      ∀ (ρ : Reads R.database.NodeId K) (c : R.database.ConnId) (tid : Nat) (sync : Bool)
        (rnode : R.database.NodeId) (partialCost : K) (cs : Children R.database.NodeId)
        (st : RouterState R.database) (rnodeQueue : List R.database.NodeId),
        (R.expandChildren ρ c tid sync rnode partialCost cs ⟨st, rnodeQueue, [], none, false⟩).map
            Expansion.outcome =
          (R.expandPlain ρ c tid sync rnode partialCost cs.getChildren
            ⟨st, rnodeQueue, [], none, false⟩).map Expansion.outcome := by
  refine ⟨?_, ?_⟩
  · intro V ops
    refine ⟨getChildren_runOps ops, (Children.runOps ops).inlineSize_le, ?_⟩
    intro hoverflow
    have hfull : ¬ (Children.runOps ops).inlineChildren.length < inlineCapacity :=
      fun hlt => hoverflow ((Children.runOps ops).overflow_eq_nil hlt)
    exact le_antisymm (Children.runOps ops).inlineSize_le (not_lt.1 hfull)
  · intro ρ c tid sync rnode partialCost cs st rnodeQueue
    exact expandChildren_eq cs rfl

end AStarRoute

end Potter
