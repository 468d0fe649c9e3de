import Potter.Lib.Folds
import Potter.Route.SaveSolutions

/-!
# The node types after saving

`write` looks for the type `PINFEED_I` at every sink pin. Saving a connection sets it there, and sets
back the interconnect node where the search ended, which the netlist reader had marked. It also sets
back the last node of the whole graph, for every indirect connection, whichever net that node is in.

A run of saves is a sequence of such assignments (`saveAll_nodeType`), of which the last one decides
(`foldl_marked`). So a sink pin keeps its type unless it is the last node of the graph and an
indirect connection is saved after it (`savedTypes_iff`).
-/

namespace Potter

open Lib

/-! ## The assignments of a step -/

/-- The connections in the order they are saved. -/
inductive SaveStep (C : Type)
  | indirect (c : C)
  | direct (c : Nat)

namespace SaveStep

variable {K : Type} {D : Database K} (sol : Solution D)

def isIndirect {C : Type} : SaveStep C → Bool
  | .indirect _ => true
  | .direct _ => false

def sourcePin : SaveStep D.ConnId → Option D.NodeId
  | .indirect c => (sol.sourceToIntPath c).head?
  | .direct c => some (sol.directConnections c).source

/-- The interconnect node where the search for the connection ended. -/
def entry : SaveStep D.ConnId → Option D.NodeId
  | .indirect c => (sol.intToSinkPath c).head?
  | .direct _ => none

def sinkPin : SaveStep D.ConnId → Option D.NodeId
  | .indirect c => (sol.intToSinkPath c).getLast?
  | .direct c => some (sol.directConnections c).sink

end SaveStep

section Retype

variable {K : Type} {D : Database K} (sol : Solution D)

/-- Set the type of a node, if there is one. -/
def setType? (types : D.NodeId → NodeType) (r : Option D.NodeId) (type : NodeType) :
    D.NodeId → NodeType :=
  match r with
  | none => types
  | some r => Function.update types r type

/-- The assignments made when a connection is saved. -/
def retype (types : D.NodeId → NodeType) (step : SaveStep D.ConnId) : D.NodeId → NodeType :=
  let types := if step.isIndirect then recoverBackType types else types
  let types := setType? types (step.sourcePin sol) .pinfeedO
  let types := setType? types (step.entry sol) .wire
  setType? types (step.sinkPin sol) .pinfeedI

/-- The step takes the mark off a node, unless the node is its own sink pin. -/
def Unmarks (v : D.NodeId) (step : SaveStep D.ConnId) : Prop :=
  step.sourcePin sol = some v ∨ step.entry sol = some v ∨ (step.isIndirect = true ∧ D.IsBack v)

theorem setType?_eq_pinfeedI {types : D.NodeId → NodeType} {r : Option D.NodeId} {v : D.NodeId}
    {type : NodeType} (htype : type ≠ .pinfeedI) :
    setType? types r type v = .pinfeedI ↔ types v = .pinfeedI ∧ r ≠ some v := by
  unfold setType?
  cases r with
  | none => simp
  | some r =>
    by_cases e : v = r
    · subst e
      simp [htype]
    · simp [e, Ne.symm e]

theorem setType?_pinfeedI {types : D.NodeId → NodeType} {r : Option D.NodeId} {v : D.NodeId} :
    setType? types r .pinfeedI v = .pinfeedI ↔ r = some v ∨ types v = .pinfeedI := by
  unfold setType?
  cases r with
  | none => simp
  | some r =>
    by_cases e : v = r
    · subst e
      simp
    · simp [e, Ne.symm e]

/-- **What a step does to the mark of a node.** -/
theorem retype_eq_pinfeedI (types : D.NodeId → NodeType) (step : SaveStep D.ConnId)
    (v : D.NodeId) : retype sol types step v = .pinfeedI ↔
      step.sinkPin sol = some v ∨ (types v = .pinfeedI ∧ ¬Unmarks sol v step) := by
  have hback : (if step.isIndirect = true then recoverBackType types else types) v = .pinfeedI ↔
      types v = .pinfeedI ∧ ¬(step.isIndirect = true ∧ D.IsBack v) := by
    by_cases hstep : step.isIndirect = true
    · by_cases hv : D.IsBack v <;> simp [recoverBackType, hstep, hv]
    · simp [hstep]
  unfold retype Unmarks
  rw [setType?_pinfeedI, setType?_eq_pinfeedI (by decide), setType?_eq_pinfeedI (by decide), hback]
  tauto

end Retype

/-! ## The types after a run -/

namespace AStarRoute

section Run

variable {K : Type} [Arith K] (R : AStarRoute K) {sol : Solution R.database} {n : R.database.NetId}

/-- The steps that save a net. -/
def saveSteps (n : R.database.NetId) : List (SaveStep R.database.ConnId) :=
  (R.database.nets n).indirectConns.map .indirect ++ (R.database.nets n).directConns.map .direct

/-- The steps that save the nets of a list. -/
def allSaveSteps (order : List R.database.NetId) : List (SaveStep R.database.ConnId) :=
  order.flatMap R.saveSteps

theorem savePath_nodeType {path : List R.database.NodeId} {s s' : NetSave R.database}
    (h : R.savePath n path s = some s') : s'.nodeType = s.nodeType := by
  induction path generalizing s with
  | nil =>
    cases h
    rfl
  | cons cur path ih =>
    obtain ⟨s₁, h₁, h⟩ := Option.bind_eq_some_iff.1 h
    rw [ih h]
    unfold saveNode at h₁
    dsimp only at h₁
    split at h₁
    · cases h₁
      rfl
    · cases h₁

theorem saveConnection_nodeType {c : R.database.ConnId} {s s' : NetSave R.database}
    (h : R.saveConnection n sol s c = some s') :
    s'.nodeType = retype sol s.nodeType (.indirect c) := by
  obtain ⟨s₁, h₁, h⟩ := Option.bind_eq_some_iff.1 h
  obtain ⟨s₂, h₂, h⟩ := Option.bind_eq_some_iff.1 h
  obtain ⟨path, -, h⟩ := Option.bind_eq_some_iff.1 h
  rw [R.savePath_nodeType h]
  obtain ⟨first, hfirst, h₁⟩ := Option.bind_eq_some_iff.1 h₁
  obtain ⟨entry, hentry, h₂⟩ := Option.bind_eq_some_iff.1 h₂
  obtain ⟨last, hlast, h₂⟩ := Option.bind_eq_some_iff.1 h₂
  split at h₁
  · cases h₁
    cases h₂
    unfold retype SaveStep.sourcePin SaveStep.entry SaveStep.sinkPin
    dsimp only
    rw [hfirst, hentry, hlast]
    rfl
  · cases h₁

theorem saveDirectConnection_nodeType {c : Nat} {s s' : NetSave R.database}
    (h : R.saveDirectConnection n sol s c = some s') :
    s'.nodeType = retype sol s.nodeType (.direct c) := by
  rw [R.savePath_nodeType h]
  rfl

theorem clearNet_nodeType (netRNodes : List R.database.NodeId) (s : SaveState R.database) :
    (R.clearNet netRNodes s).nodeType = s.nodeType := by
  unfold clearNet
  induction netRNodes generalizing s with
  | nil => rfl
  | cons r netRNodes ih =>
    rw [List.foldl_cons, ih]
    rfl

theorem foldlM_linkRoute_nodeType {prevs : R.database.NodeId → Option R.database.NodeId}
    {source : R.database.NodeId} {route l : List R.database.NodeId} {s s' : SaveState R.database}
    (h : l.foldlM (R.linkRoute prevs source route) s = some s') : s'.nodeType = s.nodeType := by
  induction l generalizing s with
  | nil =>
    cases h
    rfl
  | cons r l ih =>
    rw [List.foldlM_cons] at h
    obtain ⟨s₁, h₁, h⟩ := Option.bind_eq_some_iff.1 h
    rw [ih h]
    unfold linkRoute at h₁
    split at h₁
    · obtain ⟨u, -, rfl⟩ := Option.map_eq_some_iff.1 h₁
      rfl
    · cases h₁
      rfl

theorem fixNetRoutes_nodeType {pins : NetPins R.database.NodeId}
    {netRNodes : List R.database.NodeId} {s s' : SaveState R.database}
    (h : R.fixNetRoutes n pins netRNodes s = some s') : s'.nodeType = s.nodeType := by
  obtain ⟨⟨source, sinkPins⟩, -, h⟩ := Option.bind_eq_some_iff.1 h
  dsimp only at h
  split at h
  · obtain ⟨route, -, h⟩ := Option.bind_eq_some_iff.1 h
    rw [R.foldlM_linkRoute_nodeType h, R.clearNet_nodeType]
  · cases h

/-- A fold of saves is a fold of assignments. -/
theorem foldlM_nodeType {A : Type} {save : NetSave R.database → A → Option (NetSave R.database)}
    {step : A → SaveStep R.database.ConnId}
    (hsave : ∀ s a s', save s a = some s' → s'.nodeType = retype sol s.nodeType (step a))
    {l : List A} {s s' : NetSave R.database} (h : l.foldlM save s = some s') :
    s'.nodeType = (l.map step).foldl (retype sol) s.nodeType := by
  induction l generalizing s with
  | nil =>
    cases h
    rfl
  | cons a l ih =>
    rw [List.foldlM_cons] at h
    obtain ⟨s₁, h₁, h⟩ := Option.bind_eq_some_iff.1 h
    rw [ih h, hsave s a s₁ h₁, List.map_cons, List.foldl_cons]

theorem saveOneNet_nodeType {s s' : SaveState R.database} (h : R.saveOneNet sol n s = some s') :
    s'.nodeType = (R.saveSteps n).foldl (retype sol) s.nodeType := by
  obtain ⟨s₁, h₁, h⟩ := Option.bind_eq_some_iff.1 h
  obtain ⟨s₂, h₂, h⟩ := Option.bind_eq_some_iff.1 h
  have e₁ : s₁.nodeType =
      ((R.database.nets n).indirectConns.map .indirect).foldl (retype sol) s.nodeType :=
    R.foldlM_nodeType (fun _ _ _ hs => R.saveConnection_nodeType hs) h₁
  have e₂ : s₂.nodeType =
      ((R.database.nets n).directConns.map .direct).foldl (retype sol) s₁.nodeType :=
    R.foldlM_nodeType (fun _ _ _ hs => R.saveDirectConnection_nodeType hs) h₂
  have e : s'.nodeType = s₂.nodeType := by
    unfold finishNet at h
    split at h
    · split at h
      · exact R.fixNetRoutes_nodeType h
      · cases h
    · cases h
      rfl
  rw [e, e₂, e₁, saveSteps, List.foldl_append]

/-- **A run of saves is a sequence of assignments.** -/
theorem saveAll_nodeType {order : List R.database.NetId} {s s' : SaveState R.database}
    (h : R.saveAllRoutingSolutions sol order s = some s') :
    s'.nodeType = (R.allSaveSteps order).foldl (retype sol) s.nodeType := by
  unfold saveAllRoutingSolutions at h
  induction order generalizing s with
  | nil =>
    cases h
    rfl
  | cons n order ih =>
    obtain ⟨s₁, h₁, h⟩ := Option.bind_eq_some_iff.1 h
    rw [ih h, R.saveOneNet_nodeType h₁]
    unfold allSaveSteps
    rw [List.flatMap_cons, List.foldl_append]

/-- What the netlist promises about the ends of the connections: no pin is a source and a sink, an
interconnect node where a search ends is the sink pin of another connection only if it is one of its
own, and the reader marked no other nodes. -/
structure PinRoles (sol : Solution R.database) (steps : List (SaveStep R.database.ConnId))
    (types : R.database.NodeId → NodeType) : Prop where
  source_ne_sink : ∀ a ∈ steps, ∀ b ∈ steps, ∀ v, a.sourcePin sol = some v → b.sinkPin sol ≠ some v
  entry_sink : ∀ a ∈ steps, ∀ b ∈ steps, ∀ v, a.entry sol = some v → b.sinkPin sol = some v →
    a.sinkPin sol = some v
  marked : ∀ v, types v = .pinfeedI → ∃ c, (sol.intToSinkPath c).head? = some v

/-- The types are right for the writer: the sink pins are marked, and no other node of a net is. -/
def TypesRight (sol : Solution R.database) (steps : List (SaveStep R.database.ConnId))
    (s : SaveState R.database) : Prop :=
  (∀ a ∈ steps, ∀ v, a.sinkPin sol = some v → s.nodeType v = .pinfeedI) ∧
  ∀ v, (s.nodeRoutingResults v).netId ≠ none → s.nodeType v = .pinfeedI →
    ∃ a ∈ steps, a.sinkPin sol = some v

/-- If the last node of the graph is a sink pin, then no indirect connection is saved after the
connection it belongs to. -/
def BackSavedLast (sol : Solution R.database) (steps : List (SaveStep R.database.ConnId)) : Prop :=
  ∀ v, R.database.IsBack v → (∃ a ∈ steps, a.sinkPin sol = some v) →
    ∃ pre a post, steps = pre ++ a :: post ∧ a.sinkPin sol = some v ∧
      ∀ b ∈ post, b.isIndirect = false

variable {R} {order : List R.database.NetId} {s s' : SaveState R.database}

theorem mem_allSaveSteps (hall : ∀ n, n ∈ order) (c : R.database.ConnId) :
    SaveStep.indirect c ∈ R.allSaveSteps order := by
  refine List.mem_flatMap.2 ⟨R.database.netOf c, hall _, List.mem_append_left _ ?_⟩
  exact List.mem_map_of_mem (R.database.mem_conns_netOf c)

theorem not_unmarks_of_direct {steps : List (SaveStep R.database.ConnId)}
    (hroles : R.PinRoles sol steps s.nodeType) {a b : SaveStep R.database.ConnId} (ha : a ∈ steps)
    (hb : b ∈ steps) {v : R.database.NodeId} (hv : a.sinkPin sol = some v)
    (hdirect : b.isIndirect = false) : ¬Unmarks sol v b := by
  rintro (hsource | hentry | ⟨hindirect, -⟩)
  · exact hroles.source_ne_sink b hb a ha v hsource hv
  · cases b with
    | indirect => cases hdirect
    | direct => cases hentry
  · rw [hdirect] at hindirect
    cases hindirect

/-- **When the types are right.** For every order of the nets: if and only if the last node of the
graph is no sink pin, or no indirect connection is saved after its own. -/
theorem savedTypes_iff (hall : ∀ n, n ∈ order)
    (hroles : R.PinRoles sol (R.allSaveSteps order) s.nodeType)
    (h : R.saveAllRoutingSolutions sol order s = some s') :
    R.TypesRight sol (R.allSaveSteps order) s' ↔ R.BackSavedLast sol (R.allSaveSteps order) := by
  have htype := fun v => foldl_marked (P := fun types => types v = NodeType.pinfeedI)
    (fun types a => retype_eq_pinfeedI sol types a v) (R.allSaveSteps order) s.nodeType
  rw [← R.saveAll_nodeType h] at htype
  constructor
  · rintro ⟨hsinks, -⟩ v hv ⟨a, ha, hsink⟩
    rcases (htype v).1 (hsinks a ha v hsink) with ⟨pre, b, post, e, hb, hpost⟩ | ⟨-, hnone⟩
    · refine ⟨pre, b, post, e, hb, fun c hc => ?_⟩
      exact Bool.eq_false_iff.2 fun hind => hpost c hc (.inr (.inr ⟨hind, hv⟩))
    · obtain ⟨pre, post, e⟩ := List.append_of_mem ha
      refine ⟨pre, a, post, e, hsink, fun c hc => Bool.eq_false_iff.2 fun hind => ?_⟩
      refine hnone c ?_ (.inr (.inr ⟨hind, hv⟩))
      rw [e]
      exact List.mem_append_right pre (List.mem_cons_of_mem a hc)
  · intro hback
    refine ⟨fun a ha v hsink => (htype v).2 (.inl ?_), fun v _ hv => ?_⟩
    · by_cases hv : R.database.IsBack v
      · obtain ⟨pre, b, post, e, hb, hpost⟩ := hback v hv ⟨a, ha, hsink⟩
        refine ⟨pre, b, post, e, hb, fun c hc => ?_⟩
        have hmem : c ∈ R.allSaveSteps order := by
          rw [e]
          exact List.mem_append_right pre (List.mem_cons_of_mem b hc)
        exact not_unmarks_of_direct hroles ha hmem hsink (hpost c hc)
      · -- After the last connection with this sink pin nothing touches it.
        obtain ⟨pre, b, post, e, hb, hpost⟩ :=
          exists_last_mark (fun b => b.sinkPin sol = some v) ⟨a, ha, hsink⟩
        refine ⟨pre, b, post, e, hb, fun c hc hun => ?_⟩
        have hmem : c ∈ R.allSaveSteps order := by
          rw [e]
          exact List.mem_append_right pre (List.mem_cons_of_mem b hc)
        rcases hun with hsource | hentry | ⟨-, hv'⟩
        · exact hroles.source_ne_sink c hmem a ha v hsource hsink
        · exact hpost c hc (hroles.entry_sink c hmem a ha v hentry hsink)
        · exact hv hv'
    · rcases (htype v).1 hv with ⟨pre, b, post, e, hb, -⟩ | ⟨hinit, hnone⟩
      · refine ⟨b, ?_, hb⟩
        rw [e]
        exact List.mem_append_right pre List.mem_cons_self
      · obtain ⟨c, hc⟩ := hroles.marked v hinit
        exact absurd (.inr (.inl hc)) (hnone _ (mem_allSaveSteps hall c))

end Run

/-! Two columns: the last node of the graph is the sink pin of the second net. -/

/-- The routes of the columns: every net is one edge between its pins. -/
abbrev columnsSolution : Solution (columnsDatabase 2 true) where
  sourceToIntPath c := [(columnsDatabase 2 true).source c]
  intToSinkPath c := [(columnsDatabase 2 true).sink c]
  rnodes c := [(columnsDatabase 2 true).sink c, (columnsDatabase 2 true).source c]
  directConnections _ := ⟨(idx 0 : Fin 4), (idx 1 : Fin 4), []⟩
  pins n := ⟨some ((columnsDatabase 2 true).source n), [(columnsDatabase 2 true).sink n], none, []⟩

/-- The types of the reader, and no routing. -/
abbrev columnsUnsaved : SaveState (columnsDatabase 2 true) where
  nodeType r := if r.val % 2 = 0 then .pinfeedO else .pinfeedI
  nodeRoutingResults _ := .init

theorem pinRoles_columns (order : List (Fin 2)) :
    (columns 2 1 true false).PinRoles columnsSolution
      ((columns 2 1 true false).allSaveSteps order) columnsUnsaved.nodeType := by
  have hsteps : ∀ a ∈ (columns 2 1 true false).allSaveSteps order,
      ∃ c : Fin 2, a = SaveStep.indirect c := by
    intro a ha
    obtain ⟨n, -, ha⟩ := List.mem_flatMap.1 ha
    exact ⟨n, List.mem_singleton.1 ha⟩
  refine ⟨fun a ha b hb v hv hv' => ?_, fun a ha b _ v hv _ => ?_, ?_⟩
  · obtain ⟨c, rfl⟩ := hsteps a ha
    obtain ⟨d, rfl⟩ := hsteps b hb
    have hc : 2 * c.val = v.val := congrArg Fin.val (Option.some.inj hv)
    have hd : 2 * d.val + 1 = v.val := congrArg Fin.val (Option.some.inj hv')
    omega
  · obtain ⟨c, rfl⟩ := hsteps a ha
    exact hv
  · decide

/-- The nets in the order of their numbers. -/
theorem savedTypes_iff_columns :
    ∃ s', (columns 2 1 true false).saveAllRoutingSolutions columnsSolution [0, 1] columnsUnsaved =
        some s' ∧
      (columns 2 1 true false).TypesRight columnsSolution
        ((columns 2 1 true false).allSaveSteps [0, 1]) s' := by
  obtain ⟨s', hs'⟩ := Option.isSome_iff_exists.1
    (by decide +kernel : ((columns 2 1 true false).saveAllRoutingSolutions columnsSolution [0, 1]
      columnsUnsaved).isSome = true)
  refine ⟨s', hs', (savedTypes_iff (by decide) (pinRoles_columns [0, 1]) hs').2 fun v hv _ => ?_⟩
  have hlast : v = (3 : Fin 4) := Fin.ext (Nat.succ.inj hv)
  exact ⟨[.indirect 0], .indirect 1, [], rfl, congrArg some hlast.symm, fun _ h => by cases h⟩

/-- The other order: the sink pin of the second net is set back when the first net is saved. -/
theorem savedTypes_wrong_columns :
    (∀ n : Fin 2, n ∈ [1, 0]) ∧
    (columns 2 1 true false).PinRoles columnsSolution
      ((columns 2 1 true false).allSaveSteps [1, 0]) columnsUnsaved.nodeType ∧
    SaveStep.indirect (1 : Fin 2) ∈ (columns 2 1 true false).allSaveSteps [1, 0] ∧
    (SaveStep.indirect 1).sinkPin columnsSolution = some 3 ∧
    ((columns 2 1 true false).saveAllRoutingSolutions columnsSolution [1, 0] columnsUnsaved).map
      (fun s' => s'.nodeType 3) = some .wire := by
  refine ⟨by decide, pinRoles_columns [1, 0], ?_, rfl, by decide +kernel⟩
  exact mem_allSaveSteps (by decide) 1

end AStarRoute

end Potter
