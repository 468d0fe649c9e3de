import Potter.Lib.Paths
import Potter.Route.SavedTypes

/-!
# The paths that are saved

Saving a net writes the paths of its connections node by node. In a state where none of their nodes
is used, what has been written is a function of the nodes written so far (`written`): to each of them
the net and the set of its successors. So the whole net leaves what its paths give (`netWritten`),
whatever was saved before. A net that meets a node of another one stops the program.
-/

namespace Potter

open Lib

/-! ## Sets and results -/

section SortedSet

variable {V : Type} [LinearOrder V] {v : V} {l : List V}

/-- A `std::set` into which the entries of a list were inserted. -/
def sortedSet (l : List V) : List V := l.foldl (fun set v => emplace v set) []

theorem sortedSet_concat : sortedSet (l ++ [v]) = emplace v (sortedSet l) := by
  unfold sortedSet
  rw [List.foldl_append]
  rfl

@[simp] theorem mem_sortedSet : v ∈ sortedSet l ↔ v ∈ l := by
  induction l using List.reverseRecOn with
  | nil => exact Iff.rfl
  | append_singleton l u ih => rw [sortedSet_concat, mem_emplace, ih, List.mem_append,
      List.mem_singleton, or_comm]

theorem pairwise_sortedSet : (sortedSet l).Pairwise (· < ·) := by
  induction l using List.reverseRecOn with
  | nil => exact List.Pairwise.nil
  | append_singleton l u ih =>
    rw [sortedSet_concat]
    exact pairwise_emplace ih

end SortedSet

namespace RouteResult

variable {V N : Type} [LinearOrder V]

/-- A node of a net with the given successors. -/
def ofList (n : N) (l : List V) : RouteResult V N := ⟨some n, sortedSet l, pairwise_sortedSet⟩

/-- The successors are a set. -/
theorem ext_of_mem {r r' : RouteResult V N} (hnet : r.netId = r'.netId)
    (hmem : ∀ v, v ∈ r.branches ↔ v ∈ r'.branches) : r = r' := by
  have hbranches : r.branches = r'.branches := r.sorted.eq_of_mem_iff r'.sorted hmem
  cases r
  cases r'
  cases hnet
  cases hbranches
  rfl

end RouteResult

namespace AStarRoute

/-! ## Writing the paths -/

section Paths

variable {K : Type} [Arith K] (R : AStarRoute K) (sol : Solution R.database) (n : R.database.NetId)

/-- The path that is saved for a connection. -/
def savedPath : SaveStep R.database.ConnId → List R.database.NodeId
  | .indirect c => (R.totalPath sol c).getD []
  | .direct c => (sol.directConnections c).rnodes.reverse

/-- The paths of a net. -/
def netPaths : List (List R.database.NodeId) := (R.saveSteps n).map (R.savedPath sol)

/-- The nodes of a net. -/
def netNodes : List R.database.NodeId := sortedSet (R.netPaths sol n).flatten

/-- The branches of a net before they are fixed. -/
def netBranches (u : R.database.NodeId) : List R.database.NodeId :=
  sortedSet (nexts ((R.netPaths sol n).flatMap hops) u)

/-- The parts of the path of an indirect connection meet, and it starts at the source pin. -/
def Meets : SaveStep R.database.ConnId → Prop
  | .indirect c => (R.totalPath sol c).isSome ∧
      (sol.sourceToIntPath c).head? = (sol.pins n).indirectSourcePin
  | .direct _ => True

/-- The state in which some nodes of the paths have been written. -/
def written (s : SaveState R.database)
    (es : List (R.database.NodeId × Option R.database.NodeId)) : NetSave R.database where
  nodeType := s.nodeType
  nodeRoutingResults u :=
    if (es.map Prod.fst).contains u then .ofList n (nexts es u) else s.nodeRoutingResults u
  netRNodes := sortedSet (es.map Prod.fst)
  hasMultiDriver := decide ¬(es.map Prod.fst).Nodup

/-- One of the two kinds of saves. -/
def saveStep (s : NetSave R.database) : SaveStep R.database.ConnId → Option (NetSave R.database)
  | .indirect c => R.saveConnection n sol s c
  | .direct c => R.saveDirectConnection n sol s c

variable {R sol n}

theorem mem_netNodes {u : R.database.NodeId} :
    u ∈ R.netNodes sol n ↔ ∃ p ∈ R.netPaths sol n, u ∈ p := by
  unfold netNodes
  rw [mem_sortedSet, List.mem_flatten]

theorem mem_netBranches {u v : R.database.NodeId} :
    v ∈ R.netBranches sol n u ↔ PathEdge (R.netPaths sol n) u v := by
  unfold netBranches
  rw [mem_sortedSet, mem_nexts_hops]

theorem totalPath_ends {c : R.database.ConnId} {path : List R.database.NodeId}
    (h : R.totalPath sol c = some path) : path ≠ [] ∧ sol.intToSinkPath c ≠ [] ∧
      path.head? = (sol.sourceToIntPath c).head? ∧
      path.getLast? = (sol.intToSinkPath c).getLast? := by
  unfold totalPath at h
  dsimp only at h
  obtain ⟨⟨hsource, hlen⟩, h⟩ := Option.ite_none_right_eq_some.1 h
  obtain ⟨hsink, h⟩ := Option.ite_none_right_eq_some.1 h
  cases h
  have hfirst : sol.sourceToIntPath c ≠ [] := by
    intro e
    rw [e, List.getLast?_nil, eq_comm, List.getLast?_eq_none_iff] at hsource
    rw [hsource] at hlen
    cases hlen
  obtain ⟨a, rest, ha⟩ := List.exists_cons_of_ne_nil hfirst
  rw [ha] at hsink ⊢
  cases hlast : sol.intToSinkPath c with
  | nil =>
    rw [hlast, List.head?_nil, eq_comm, List.getLast?_eq_none_iff] at hsink
    cases hsink
  | cons b tail =>
    rw [hlast, List.head?_cons] at hsink
    refine ⟨List.cons_ne_nil a _, List.cons_ne_nil b tail, rfl, ?_⟩
    rw [List.tail_cons, List.getLast?_append, ← hsink, List.getLast?_cons]
    cases tail.getLast? <;> rfl

/-- **One node is written.** -/
theorem saveNode_written {s : SaveState R.database}
    {es : List (R.database.NodeId × Option R.database.NodeId)} {cur : R.database.NodeId}
    (hfree : s.nodeRoutingResults cur = .init) (next : Option R.database.NodeId) :
    R.saveNode n cur next (R.written n s es) = some (R.written n s (es ++ [(cur, next)])) := by
  -- whether the node was met before or not, it belongs to the net now
  obtain ⟨hnet, hset, hmet⟩ :
      (((R.written n s es).nodeRoutingResults cur).netId = none ∨
        ((R.written n s es).nodeRoutingResults cur).netId = some n) ∧
      ((R.written n s es).nodeRoutingResults cur).setNetId n = .ofList n (nexts es cur) ∧
      ((R.written n s es).nodeRoutingResults cur).netId.isSome =
        decide (cur ∈ es.map Prod.fst) := by
    by_cases hmem : cur ∈ es.map Prod.fst
    · have hres : (R.written n s es).nodeRoutingResults cur = .ofList n (nexts es cur) :=
        if_pos (List.contains_iff_mem.2 hmem)
      rw [hres, decide_eq_true hmem]
      exact ⟨.inr rfl, rfl, rfl⟩
    · have hres : (R.written n s es).nodeRoutingResults cur = .init :=
        (if_neg fun h => hmem (List.contains_iff_mem.1 h)).trans hfree
      have hnexts : nexts es cur = [] := by
        refine List.eq_nil_iff_forall_not_mem.2 fun v hv => hmem ?_
        exact List.mem_map_of_mem (mem_nexts.1 hv)
      rw [hres, decide_eq_false hmem, hnexts]
      exact ⟨.inl rfl, rfl, rfl⟩
  have hbranch : (next.map (RouteResult.ofList n (nexts es cur)).addBranch).getD
      (.ofList n (nexts es cur)) = .ofList n (nexts (es ++ [(cur, next)]) cur) := by
    rw [nexts_concat, if_pos rfl]
    cases next with
    | none => simp
    | some v =>
      refine RouteResult.ext_of_mem rfl fun w => ?_
      simp [RouteResult.addBranch, RouteResult.ofList, or_comm]
  unfold saveNode
  dsimp only
  rw [if_pos hnet, hset, hbranch, hmet]
  unfold written
  simp only [Option.some.injEq, NetSave.mk.injEq, SaveState.setResult, SaveState.mk.injEq, true_and]
  refine ⟨funext fun u => ?_, ?_, ?_⟩
  · by_cases e : u = cur
    · subst e
      simp
    · rw [Function.update_of_ne e, nexts_concat, if_neg (Ne.symm e), List.append_nil]
      simp [e]
  · rw [List.map_append]
    exact sortedSet_concat.symm
  · rw [List.map_append, ← Bool.decide_or, decide_eq_decide, List.map_singleton,
      List.nodup_append', not_and_or, not_and_or]
    simp [or_comm]

theorem savePath_written {s : SaveState R.database} {path : List R.database.NodeId}
    (hfree : ∀ u ∈ path, s.nodeRoutingResults u = .init)
    (es : List (R.database.NodeId × Option R.database.NodeId)) :
    R.savePath n path (R.written n s es) = some (R.written n s (es ++ hops path)) := by
  induction path generalizing es with
  | nil => rw [hops, List.append_nil, savePath]
  | cons cur path ih =>
    obtain ⟨hcur, hpath⟩ := List.forall_mem_cons.1 hfree
    rw [savePath, saveNode_written hcur, Option.bind_some, ih hpath, hops, List.append_assoc,
      List.singleton_append]

/-- **One connection is saved.** -/
theorem saveStep_written {s : SaveState R.database} {step : SaveStep R.database.ConnId}
    (hmeets : R.Meets sol n step) (hfree : ∀ u ∈ R.savedPath sol step, s.nodeRoutingResults u = .init)
    (es : List (R.database.NodeId × Option R.database.NodeId)) :
    R.saveStep sol n (R.written n s es) step =
      some (R.written n { s with nodeType := retype sol s.nodeType step }
        (es ++ hops (R.savedPath sol step))) := by
  cases step with
  | direct c =>
    exact savePath_written (s := { s with nodeType := retype sol s.nodeType (.direct c) }) hfree es
  | indirect c =>
    obtain ⟨htotal, hpin⟩ := hmeets
    obtain ⟨path, hpath⟩ := Option.isSome_iff_exists.1 htotal
    obtain ⟨hne, hsinkne, hhead, hlast⟩ := totalPath_ends hpath
    have hsaved : R.savedPath sol (.indirect c) = path := by rw [savedPath, hpath, Option.getD_some]
    obtain ⟨a, rest, rfl⟩ := List.exists_cons_of_ne_nil hne
    obtain ⟨b, tail, hb⟩ := List.exists_cons_of_ne_nil hsinkne
    rw [List.head?_cons] at hhead
    obtain ⟨t, ht⟩ : ∃ t, (sol.intToSinkPath c).getLast? = some t := by
      rw [hb, List.getLast?_cons]
      exact ⟨_, rfl⟩
    have htypes : retype sol s.nodeType (.indirect c) =
        (((s.recoverBack.setNodeType a .pinfeedO).setNodeType b .wire).setNodeType t
          .pinfeedI).nodeType := by
      unfold retype SaveStep.sourcePin SaveStep.entry SaveStep.sinkPin
      dsimp only
      rw [← hhead, ht, hb]
      rfl
    rw [hsaved] at hfree ⊢
    have hwritten := savePath_written (n := n)
      (s := { s with nodeType := retype sol s.nodeType (.indirect c) }) hfree es
    rw [htypes] at hwritten ⊢
    rw [← hwritten]
    unfold saveStep saveConnection saveSource saveSink
    dsimp only
    rw [← hhead, ht, hb, hpath, ← hpin, ← hhead]
    simp only [List.head?_cons, Option.bind_eq_bind, Option.bind_some, if_true]
    rfl

theorem meets_of_saveStep {s s' : NetSave R.database} {step : SaveStep R.database.ConnId}
    (h : R.saveStep sol n s step = some s') : R.Meets sol n step := by
  cases step with
  | direct c => trivial
  | indirect c =>
    obtain ⟨s₁, h₁, h⟩ := Option.bind_eq_some_iff.1 h
    obtain ⟨s₂, -, h⟩ := Option.bind_eq_some_iff.1 h
    obtain ⟨path, hpath, -⟩ := Option.bind_eq_some_iff.1 h
    obtain ⟨first, hfirst, h₁⟩ := Option.bind_eq_some_iff.1 h₁
    obtain ⟨hpin, -⟩ := Option.ite_none_right_eq_some.1 h₁
    exact ⟨Option.isSome_of_eq_some hpath, hfirst.trans hpin⟩

/-! ## A node of another net -/

section Other

variable {m : R.database.NetId} {u : R.database.NodeId} (hm : m ≠ n)
include hm

/-- A node of another net stays with it, and cannot be written. -/
theorem savePath_other {path : List R.database.NodeId} {s s' : NetSave R.database}
    (hu : (s.nodeRoutingResults u).netId = some m) (h : R.savePath n path s = some s') :
    u ∉ path ∧ (s'.nodeRoutingResults u).netId = some m := by
  induction path generalizing s with
  | nil =>
    cases h
    exact ⟨List.not_mem_nil, hu⟩
  | cons cur path ih =>
    obtain ⟨s₁, h₁, h⟩ := Option.bind_eq_some_iff.1 h
    unfold saveNode at h₁
    dsimp only at h₁
    obtain ⟨hfree, h₁⟩ := Option.ite_none_right_eq_some.1 h₁
    cases h₁
    have hne : u ≠ cur := by
      rintro rfl
      rw [hu, Option.some_inj] at hfree
      exact hfree.elim (by simp) hm
    obtain ⟨hpath, hs'⟩ := ih (s := ⟨s.setResult cur _, _, _⟩)
      ((congrArg RouteResult.netId (Function.update_of_ne hne _ _)).trans hu) h
    exact ⟨fun hmem => (List.mem_cons.1 hmem).elim hne hpath, hs'⟩

theorem saveStep_other {step : SaveStep R.database.ConnId} {s s' : NetSave R.database}
    (hu : (s.nodeRoutingResults u).netId = some m) (h : R.saveStep sol n s step = some s') :
    u ∉ R.savedPath sol step ∧ (s'.nodeRoutingResults u).netId = some m := by
  cases step with
  | direct c =>
    unfold saveStep saveDirectConnection at h
    refine savePath_other hm ?_ h
    exact hu
  | indirect c =>
    obtain ⟨s₁, h₁, h⟩ := Option.bind_eq_some_iff.1 h
    obtain ⟨s₂, h₂, h⟩ := Option.bind_eq_some_iff.1 h
    obtain ⟨path, hpath, h⟩ := Option.bind_eq_some_iff.1 h
    obtain ⟨first, -, h₁⟩ := Option.bind_eq_some_iff.1 h₁
    obtain ⟨entry, -, h₂⟩ := Option.bind_eq_some_iff.1 h₂
    obtain ⟨last, -, h₂⟩ := Option.bind_eq_some_iff.1 h₂
    obtain ⟨-, h₁⟩ := Option.ite_none_right_eq_some.1 h₁
    cases h₁
    cases h₂
    have hsaved : R.savedPath sol (.indirect c) = path := by rw [savedPath, hpath, Option.getD_some]
    rw [hsaved]
    refine savePath_other hm ?_ h
    exact hu

theorem foldlM_saveStep_other {steps : List (SaveStep R.database.ConnId)}
    {s s' : NetSave R.database} (hu : (s.nodeRoutingResults u).netId = some m)
    (h : steps.foldlM (R.saveStep sol n) s = some s') :
    ∀ step ∈ steps, u ∉ R.savedPath sol step := by
  induction steps generalizing s with
  | nil => exact fun _ hstep => absurd hstep List.not_mem_nil
  | cons step steps ih =>
    rw [List.foldlM_cons] at h
    obtain ⟨s₁, h₁, h⟩ := Option.bind_eq_some_iff.1 h
    obtain ⟨hstep, hs₁⟩ := saveStep_other hm hu h₁
    exact List.forall_mem_cons.2 ⟨hstep, ih hs₁ h⟩

end Other

/-! ## All connections of a net -/

variable (R sol n) in
/-- The state when the connections of a net have been saved. -/
def netWritten (s : SaveState R.database) : NetSave R.database :=
  R.written n { s with nodeType := (R.saveSteps n).foldl (retype sol) s.nodeType }
    ((R.netPaths sol n).flatMap hops)

theorem saveOneNet_eq (s : SaveState R.database) : R.saveOneNet sol n s =
    ((R.saveSteps n).foldlM (R.saveStep sol n) (R.written n s [])).bind (R.finishNet sol n) := by
  have hinit : R.written n s [] = ⟨s, [], false⟩ := rfl
  unfold saveSteps
  simp only [List.foldlM_append, List.foldlM_map, Option.bind_eq_bind, Option.bind_assoc, hinit]
  rfl

theorem foldlM_saveStep_written {s : SaveState R.database}
    {steps : List (SaveStep R.database.ConnId)} (hmeets : ∀ step ∈ steps, R.Meets sol n step)
    (hfree : ∀ step ∈ steps, ∀ u ∈ R.savedPath sol step, s.nodeRoutingResults u = .init)
    (es : List (R.database.NodeId × Option R.database.NodeId)) :
    steps.foldlM (R.saveStep sol n) (R.written n s es) =
      some (R.written n { s with nodeType := steps.foldl (retype sol) s.nodeType }
        (es ++ (steps.map (R.savedPath sol)).flatMap hops)) := by
  induction steps generalizing s es with
  | nil =>
    rw [List.map_nil, List.flatMap_nil, List.append_nil]
    rfl
  | cons step steps ih =>
    obtain ⟨hstep, hsteps⟩ := List.forall_mem_cons.1 hmeets
    obtain ⟨hfirst, hrest⟩ := List.forall_mem_cons.1 hfree
    have hfold := ih (s := { s with nodeType := retype sol s.nodeType step }) hsteps hrest
    rw [List.foldlM_cons, saveStep_written hstep hfirst, Option.bind_eq_bind, Option.bind_some, hfold,
      List.map_cons, List.flatMap_cons, List.append_assoc, List.foldl_cons]

/-- **A net is saved** in a state in which its nodes are not used. -/
theorem saveOneNet_eq_finishNet {s : SaveState R.database}
    (hmeets : ∀ step ∈ R.saveSteps n, R.Meets sol n step)
    (hfree : ∀ u ∈ R.netNodes sol n, s.nodeRoutingResults u = .init) :
    R.saveOneNet sol n s = R.finishNet sol n (R.netWritten sol n s) := by
  rw [saveOneNet_eq, foldlM_saveStep_written hmeets (fun step hstep u hu => hfree u ?_),
    Option.bind_some, List.nil_append]
  · rfl
  · exact mem_netNodes.2 ⟨_, List.mem_map_of_mem hstep, hu⟩

theorem meets_of_foldlM {steps : List (SaveStep R.database.ConnId)} {s s' : NetSave R.database}
    (h : steps.foldlM (R.saveStep sol n) s = some s') : ∀ step ∈ steps, R.Meets sol n step := by
  induction steps generalizing s with
  | nil => exact fun _ hstep => absurd hstep List.not_mem_nil
  | cons step steps ih =>
    rw [List.foldlM_cons] at h
    obtain ⟨s₁, h₁, h⟩ := Option.bind_eq_some_iff.1 h
    exact List.forall_mem_cons.2 ⟨meets_of_saveStep h₁, ih h⟩

/-- A net that uses a node of another net is not saved. -/
theorem netId_of_saveOneNet {s s' : SaveState R.database} (h : R.saveOneNet sol n s = some s')
    {u : R.database.NodeId} (hu : u ∈ R.netNodes sol n) :
    (s.nodeRoutingResults u).netId = none ∨ (s.nodeRoutingResults u).netId = some n := by
  rw [saveOneNet_eq] at h
  obtain ⟨s₁, h₁, -⟩ := Option.bind_eq_some_iff.1 h
  cases hnet : (s.nodeRoutingResults u).netId with
  | none => exact .inl rfl
  | some m =>
    refine .inr (congrArg some (by_contra fun hm => ?_))
    obtain ⟨p, hp, hup⟩ := mem_netNodes.1 hu
    obtain ⟨step, hstep, rfl⟩ := List.mem_map.1 hp
    refine foldlM_saveStep_other (u := u) hm ?_ h₁ step hstep hup
    exact hnet

section Written

variable (s : SaveState R.database)

theorem netWritten_results (u : R.database.NodeId) :
    (R.netWritten sol n s).nodeRoutingResults u = if u ∈ R.netNodes sol n then
      .ofList n (nexts ((R.netPaths sol n).flatMap hops) u) else s.nodeRoutingResults u := by
  unfold netWritten written netNodes
  simp only [map_fst_flatMap_hops, mem_sortedSet, List.contains_iff_mem]

theorem netWritten_branches {u : R.database.NodeId} (hu : u ∈ R.netNodes sol n) :
    (R.netWritten sol n s).branches u = R.netBranches sol n u := by
  unfold SaveState.branches
  rw [netWritten_results, if_pos hu]
  rfl

theorem netWritten_netRNodes : (R.netWritten sol n s).netRNodes = R.netNodes sol n := by
  unfold netWritten written netNodes
  dsimp only
  rw [map_fst_flatMap_hops]

theorem netWritten_hasMultiDriver :
    (R.netWritten sol n s).hasMultiDriver = true ↔ ¬(R.netPaths sol n).flatten.Nodup := by
  unfold netWritten written
  dsimp only
  rw [map_fst_flatMap_hops, decide_eq_true_iff]

end Written

end Paths

end AStarRoute

end Potter
