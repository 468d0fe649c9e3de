import Mathlib.Data.Fintype.EquivFin
import Potter.Db.Pruning
import Potter.Lib.BackPointers

/-!
# Projecting pins to interconnect tiles

A source pin is moved forward, along the edges of the device, to the last node before an interconnect
tile (`project_output_node_to_int_node`), a sink pin back to a node of such a tile
(`project_input_node_to_int_node`). Both searches meet nodes again and overwrite their back pointers;
the first also overwrites how many layers it may still go from there.

If the nodes outside the interconnect tiles form no cycle, both searches end, and what they read off
the pointers is a walk, whichever pointers were overwritten.
-/

namespace Potter

open Lib BackPointers

namespace Device

variable {V : Type} [DecidableEq V] (D : Device V)

/-! ## The searches -/

/-- The node is in an interconnect tile. -/
def IsInt (v : V) : Prop := D.tileType v = intTile

instance (v : V) : Decidable (D.IsInt v) := inferInstanceAs (Decidable (_ = _))

/-- The two maps of the search from a source pin. Every node in the queue has an entry in both. -/
structure Layered (V : Type) where
  prevMap : V → Option V
  layer : V → Int

/-- The loop over the nodes behind a node. The first one in an interconnect tile ends the search. -/
def visitDownhills (nodeIdx : V) (nodeLayer : Int) :
    List V → Layered V → List V → Visit (Layered V) V (V × (V → Option V))
  | [], s, queued => .next s queued
  | downhill :: downhills, s, queued =>
    if D.IsInt downhill then .stop (nodeIdx, s.prevMap)
    else
      visitDownhills nodeIdx nodeLayer downhills
        ⟨Function.update s.prevMap downhill (some nodeIdx),
          Function.update s.layer downhill (nodeLayer - 1)⟩ (queued ++ [downhill])

def visitOutput (s : Layered V) (nodeIdx : V) : Visit (Layered V) V (V × (V → Option V)) :=
  if s.layer nodeIdx < 0 then .next s []
  else D.visitDownhills nodeIdx (s.layer nodeIdx) (D.getOutgoingNodes nodeIdx) s []

/-- The node returned and the path to it, or nothing for `invalid_obj_idx`. There is no result if the
search or the pointers have not come to an end after `fuel` nodes. -/
def projectOutputNodeToIntNode (fuel : Nat) : Option V → Option (Option (V × List V))
  | none => some none
  | some srcNodeIdx =>
    let watchdog := 5
    let start : Layered V := ⟨fun _ => none, Function.update (fun _ => 0) srcNodeIdx watchdog⟩
    (run D.visitOutput fuel start [srcNodeIdx]).bind fun
      | none => some none
      | some (nodeIdx, prevMap) =>
        (trail prevMap fuel nodeIdx).map fun p => some (nodeIdx, p.reverse)

/-- The nodes before a node from which the search goes on. -/
def uphills (nodeIdx : V) : List V :=
  (D.getIncomingNodes nodeIdx).filter fun uphill => (D.getIncomingNodes uphill).length ≠ 0

def visitInput (prevMap : V → Option V) (nodeIdx : V) :
    Visit (V → Option V) V (V × (V → Option V)) :=
  if D.IsInt nodeIdx then .stop (nodeIdx, prevMap)
  else .next (pointAll prevMap nodeIdx (D.uphills nodeIdx)) (D.uphills nodeIdx)

/-- `watchdog` of the search from a sink pin. -/
def inputWatchdog : Nat := 1000

/-- The path to the sink pin, empty if there is none. -/
def projectInputNodeToIntNode (fuel : Nat) : Option V → Option (List V)
  | none => some []
  | some sinkNodeIdx =>
    match (run D.visitInput (inputWatchdog + 1) (fun _ => none) [sinkNodeIdx]).join with
    | some (nodeIdx, prevMap) => trail prevMap fuel nodeIdx
    | none => some []

/-! ## What they return -/

/-- A walk along the edges. -/
structure IsWalk (u v : V) (p : List V) : Prop where
  head : p.head? = some u
  last : p.getLast? = some v
  chain : p.IsChain fun u v => v ∈ D.getOutgoingNodes u

/-- An edge between nodes outside the interconnect tiles. -/
def OuterEdge (u v : V) : Prop := v ∈ D.getOutgoingNodes u ∧ ¬D.IsInt u ∧ ¬D.IsInt v

/-- A node and a path to it that stays outside the interconnect tiles until its end. -/
structure OutputPath (src n : V) (path : List V) : Prop where
  walk : D.IsWalk src n path
  outer : ∀ v ∈ path, ¬D.IsInt v
  next : ∃ v ∈ D.getOutgoingNodes n, D.IsInt v

/-- A path that leaves the interconnect tiles with its first step. -/
structure InputPath (sink : V) (path : List V) : Prop where
  walk : ∃ u, D.IsInt u ∧ D.IsWalk u sink path
  outer : ∀ v ∈ path.tail, ¬D.IsInt v

variable {D} {nodeIdx src sink : V} {nodeLayer : Int}

/-! ## From a source pin -/

section Output

theorem visitDownhills_next {downhills queued queued' : List V} {s s' : Layered V}
    (h : D.visitDownhills nodeIdx nodeLayer downhills s queued = .next s' queued') :
    (∀ d ∈ downhills, ¬D.IsInt d) ∧ s'.prevMap = pointAll s.prevMap nodeIdx downhills ∧
      queued' = queued ++ downhills := by
  induction downhills generalizing s queued with
  | nil =>
    cases h
    exact ⟨fun _ hd => absurd hd List.not_mem_nil, rfl, (List.append_nil _).symm⟩
  | cons d downhills ih =>
    rw [visitDownhills] at h
    split at h
    · cases h
    · rename_i hd
      obtain ⟨hall, hprev, hq⟩ := ih h
      refine ⟨fun x hx => ?_, hprev, ?_⟩
      · rcases List.mem_cons.1 hx with rfl | hx
        · exact hd
        · exact hall x hx
      · rw [hq, List.append_assoc, List.singleton_append]

theorem visitDownhills_stop {downhills queued : List V} {s : Layered V} {r : V × (V → Option V)}
    (h : D.visitDownhills nodeIdx nodeLayer downhills s queued = .stop r) :
    ∃ passed ⊆ downhills, (∀ d ∈ passed, ¬D.IsInt d) ∧ (∃ d ∈ downhills, D.IsInt d) ∧
      r = (nodeIdx, pointAll s.prevMap nodeIdx passed) := by
  induction downhills generalizing s queued with
  | nil => cases h
  | cons d downhills ih =>
    rw [visitDownhills] at h
    split at h
    · rename_i hd
      cases h
      exact ⟨[], List.nil_subset _, fun _ hx => absurd hx List.not_mem_nil,
        ⟨d, List.mem_cons_self, hd⟩, rfl⟩
    · rename_i hd
      obtain ⟨passed, hsub, hall, ⟨x, hx, hint⟩, rfl⟩ := ih h
      refine ⟨d :: passed, List.cons_subset_cons d hsub, fun y hy => ?_,
        ⟨x, List.mem_cons_of_mem d hx, hint⟩, rfl⟩
      rcases List.mem_cons.1 hy with rfl | hy
      · exact hd
      · exact hall y hy

/-- The pointers are right, and nothing in an interconnect tile is queued. -/
structure OutputInv (D : Device V) (src : V) (s : Layered V) (q : List V) : Prop where
  pointed : Pointed D.OuterEdge src s.prevMap q
  outer : ∀ v ∈ q, ¬D.IsInt v

theorem OutputInv.visit {s s' : Layered V} {q queued : List V}
    (h : D.OutputInv src s (nodeIdx :: q)) (hvisit : D.visitOutput s nodeIdx = .next s' queued) :
    D.OutputInv src s' (q ++ queued) ∧
      (queued = [] ∨ queued = (D.getOutgoingNodes nodeIdx).filter fun d => ¬D.IsInt d) := by
  have hnode := h.outer nodeIdx List.mem_cons_self
  unfold visitOutput at hvisit
  split at hvisit
  · cases hvisit
    rw [List.append_nil]
    exact ⟨⟨h.pointed.mono fun v hv => List.mem_cons_of_mem _ hv,
      fun v hv => h.outer v (List.mem_cons_of_mem _ hv)⟩, .inl rfl⟩
  · obtain ⟨hall, hprev, rfl⟩ := visitDownhills_next hvisit
    rw [List.nil_append]
    refine ⟨⟨?_, fun v hv => ?_⟩, .inr ?_⟩
    · rw [hprev]
      exact (h.pointed.visit fun c hc => ⟨hc, hnode, hall c hc⟩).mono
        fun v hv => List.mem_cons_of_mem _ hv
    · rcases List.mem_append.1 hv with hv | hv
      · exact h.outer v (List.mem_cons_of_mem _ hv)
      · exact hall v hv
    · refine (List.filter_eq_self.2 fun d hd => ?_).symm
      exact decide_eq_true (hall d hd)

omit [DecidableEq V] in
theorem outputInv_start (hsrc : ¬D.IsInt src) (layer : V → Int) :
    D.OutputInv src ⟨fun _ => none, layer⟩ [src] where
  pointed := pointed_start
  outer v hv := by
    rw [List.mem_singleton.1 hv]
    exact hsrc

/-- When the search is ended, the pointers from the node lead back to the source pin. -/
theorem OutputInv.stop {s : Layered V} {q : List V} (h : D.OutputInv src s (nodeIdx :: q))
    {n : V} {prevMap : V → Option V} (hvisit : D.visitOutput s nodeIdx = .stop (n, prevMap)) :
    (∃ v ∈ D.getOutgoingNodes n, D.IsInt v) ∧ ∃ q, Pointed D.OuterEdge src prevMap (n :: q) := by
  have hnode := h.outer nodeIdx List.mem_cons_self
  unfold visitOutput at hvisit
  split at hvisit
  · cases hvisit
  · obtain ⟨passed, hsub, hall, hnext, hr⟩ := visitDownhills_stop hvisit
    cases hr
    exact ⟨hnext, _, h.pointed.visit fun c hc => ⟨hsub hc, hnode, hall c hc⟩⟩

omit [DecidableEq V] in
/-- What is reached along such edges is outside the interconnect tiles, too. -/
theorem outer_of_reach (hsrc : ¬D.IsInt src) {v : V}
    (h : Relation.ReflTransGen D.OuterEdge src v) : ¬D.IsInt v := by
  rcases Relation.ReflTransGen.cases_tail h with rfl | ⟨u, -, hu⟩
  · exact hsrc
  · exact hu.2.2

/-- **What the search from a source pin returns.** -/
theorem outputPath_of_some (hsrc : ¬D.IsInt src) {fuel : Nat} {n : V} {path : List V}
    (h : D.projectOutputNodeToIntNode fuel (some src) = some (some (n, path))) :
    D.OutputPath src n path := by
  obtain ⟨r, hrun, hr⟩ := Option.bind_eq_some_iff.1 h
  cases r with
  | none => cases hr
  | some r =>
    obtain ⟨p, hp, hout⟩ := Option.map_eq_some_iff.1 hr
    cases hout
    obtain ⟨s, v, q, hinv, hstop⟩ := run_stop (D.OutputInv src)
      (fun hs hvisit => (hs.visit hvisit).1) (outputInv_start hsrc _) hrun
    obtain ⟨hnext, q, hpointed⟩ := hinv.stop hstop
    obtain ⟨hhead, hlast, -, hchain, hreach⟩ := hpointed.path List.mem_cons_self hp
    refine ⟨⟨?_, ?_, ?_⟩, fun v hv => ?_, hnext⟩
    · rw [List.head?_reverse, hlast]
    · rw [List.getLast?_reverse, hhead]
    · rw [List.isChain_reverse]
      exact hchain.imp fun _ _ he => he.1
    · exact outer_of_reach hsrc (hreach v (List.mem_reverse.1 hv))

/-- **It does return.** -/
theorem exists_projectOutput [Finite V] (hacyclic : ∀ v, ¬Relation.TransGen D.OuterEdge v v)
    (hsrc : ¬D.IsInt src) : ∃ fuel out, D.projectOutputNodeToIntNode fuel (some src) = some out := by
  let outerChildren (u : V) : List V :=
    if D.IsInt u then [] else (D.getOutgoingNodes u).filter fun d => ¬D.IsInt d
  have hchildren : ∀ v, ¬Relation.TransGen (fun u w => w ∈ outerChildren u) v v := by
    refine fun v hv => hacyclic v (Relation.TransGen.mono (fun u w hw => ?_) _ _ hv)
    by_cases hu : D.IsInt u
    · simp only [outerChildren, if_pos hu, List.not_mem_nil] at hw
    · simp only [outerChildren, if_neg hu, List.mem_filter, decide_eq_true_eq] at hw
      exact ⟨hw.1, hu, hw.2⟩
  -- The size of a node counts the walks from it that stay outside the interconnect tiles.
  obtain ⟨size, hpos, hsize⟩ := exists_size outerChildren hchildren
  have hstep : ∀ {s : Layered V} {v q s' queued}, D.OutputInv src s (v :: q) →
      D.visitOutput s v = .next s' queued →
      D.OutputInv src s' (q ++ queued) ∧ (queued.map size).sum < size v := by
    intro s v q s' queued hs hvisit
    obtain ⟨hinv, hqueued⟩ := hs.visit hvisit
    have hlt := hsize v
    simp only [outerChildren, if_neg (hs.outer v List.mem_cons_self)] at hlt
    refine ⟨hinv, ?_⟩
    rcases hqueued with rfl | rfl
    · exact hpos v
    · exact hlt
  have hstart := outputInv_start hsrc (Function.update (fun _ => 0) src 5)
  obtain ⟨r, hrun⟩ := run_total (D.OutputInv src) size hstep hpos hstart (le_refl _)
  cases r with
  | none =>
    refine ⟨([src].map size).sum, none, ?_⟩
    rw [projectOutputNodeToIntNode, hrun]
    rfl
  | some r =>
    obtain ⟨n, prevMap⟩ := r
    obtain ⟨s, v, q, hinv, hstop⟩ := run_stop (D.OutputInv src)
      (fun hs hvisit => (hs.visit hvisit).1) hstart hrun
    obtain ⟨-, q, hpointed⟩ := hinv.stop hstop
    obtain ⟨fuel, p, hp⟩ := hpointed.exists_trail List.mem_cons_self fun u _ _ => hacyclic u
    refine ⟨max fuel ([src].map size).sum, some (n, p.reverse), ?_⟩
    rw [projectOutputNodeToIntNode, run_mono hrun (le_max_right _ _), Option.bind_some]
    dsimp only
    rw [trail_mono hp (le_max_left _ _), Option.map_some]

end Output

/-! ## From a sink pin -/

section Input

/-- A step of the search: back along an edge, from a node outside the interconnect tiles. -/
def BackEdge (D : Device V) (u v : V) : Prop := v ∈ D.getIncomingNodes u ∧ ¬D.IsInt u

/-- When the search is ended, the pointers lead to the sink pin. -/
theorem pointed_of_searchInput {n : V} {prevMap : V → Option V}
    (h : (run D.visitInput (inputWatchdog + 1) (fun _ => none) [sink]).join = some (n, prevMap)) :
    D.IsInt n ∧ ∃ q, Pointed D.BackEdge sink prevMap (n :: q) := by
  rw [Option.join_eq_some_iff] at h
  have hvisit : ∀ {prevMap v prevMap' queued}, D.visitInput prevMap v = .next prevMap' queued →
      prevMap' = pointAll prevMap v queued ∧ ∀ c ∈ queued, D.BackEdge v c := by
    intro prevMap v prevMap' queued h
    unfold visitInput at h
    split at h
    · cases h
    · rename_i hint
      cases h
      exact ⟨rfl, fun c hc => ⟨List.mem_of_mem_filter hc, hint⟩⟩
  obtain ⟨s, v, q, hpointed, hstop⟩ := pointed_of_run hvisit h
  unfold visitInput at hstop
  split at hstop
  · rename_i hint
    cases hstop
    exact ⟨hint, q, hpointed⟩
  · cases hstop

omit [DecidableEq V] in
theorem outer_of_chain {n : V} {p : List V} (h : (n :: p).IsChain fun w u => D.BackEdge u w) :
    ∀ v ∈ p, ¬D.IsInt v := by
  induction p generalizing n with
  | nil => exact fun _ hv => absurd hv List.not_mem_nil
  | cons u p ih =>
    obtain ⟨hedge, hrest⟩ := List.isChain_cons_cons.1 h
    intro v hv
    rcases List.mem_cons.1 hv with rfl | hv
    · exact hedge.2
    · exact ih hrest v hv

variable (hconv : ∀ u v, u ∈ D.getIncomingNodes v ↔ v ∈ D.getOutgoingNodes u)

include hconv

/-- **What the search from a sink pin returns.** -/
theorem inputPath_of_some {fuel : Nat} {path : List V}
    (h : D.projectInputNodeToIntNode fuel (some sink) = some path) (hne : path ≠ []) :
    D.InputPath sink path := by
  unfold projectInputNodeToIntNode at h
  dsimp only at h
  split at h
  · rename_i n prevMap hsearch
    obtain ⟨hint, q, hpointed⟩ := pointed_of_searchInput hsearch
    obtain ⟨hhead, hlast, -, hchain, -⟩ := hpointed.path List.mem_cons_self h
    refine ⟨⟨n, hint, hhead, hlast, ?_⟩, fun v hv => ?_⟩
    · exact hchain.imp fun w u he => (hconv w u).1 he.1
    · obtain ⟨p, rfl⟩ := List.head?_eq_some_iff.1 hhead
      rw [List.tail_cons] at hv
      exact outer_of_chain hchain v hv
  · cases h
    exact absurd rfl hne

omit [DecidableEq V] in
/-- A cycle of the search is one of nodes outside the interconnect tiles. -/
theorem outerEdge_of_backEdge {u v : V} (h : Relation.TransGen D.BackEdge u v) (hv : ¬D.IsInt v) :
    Relation.TransGen D.OuterEdge v u := by
  induction h with
  | single he => exact .single ⟨(hconv _ _).1 he.1, hv, he.2⟩
  | tail _ he ih => exact .head ⟨(hconv _ _).1 he.1, hv, he.2⟩ (ih he.2)

/-- **It does return.** -/
theorem exists_projectInput [Finite V] (hacyclic : ∀ v, ¬Relation.TransGen D.OuterEdge v v)
    (sink : V) : ∃ fuel path, D.projectInputNodeToIntNode fuel (some sink) = some path := by
  unfold projectInputNodeToIntNode
  dsimp only
  split
  · rename_i n prevMap hsearch
    obtain ⟨-, q, hpointed⟩ := pointed_of_searchInput hsearch
    refine hpointed.exists_trail List.mem_cons_self fun u _ _ hcycle => ?_
    obtain ⟨w, huw, -⟩ := Relation.TransGen.head'_iff.1 hcycle
    exact hacyclic u (outerEdge_of_backEdge hconv hcycle huw.2)
  · exact ⟨0, [], rfl⟩

end Input

/-- **Both projections return**, and what they return is a walk with no node of an interconnect tile
on it, but for the first node of the walk to a sink pin. -/
theorem projections [Finite V] (hacyclic : ∀ v, ¬Relation.TransGen D.OuterEdge v v)
    (hconv : ∀ u v, u ∈ D.getIncomingNodes v ↔ v ∈ D.getOutgoingNodes u) :
    (∀ src, ¬D.IsInt src →
      (∃ fuel out, D.projectOutputNodeToIntNode fuel (some src) = some out) ∧
      ∀ fuel n path, D.projectOutputNodeToIntNode fuel (some src) = some (some (n, path)) →
        D.OutputPath src n path) ∧
    ∀ sink, (∃ fuel path, D.projectInputNodeToIntNode fuel (some sink) = some path) ∧
      ∀ fuel path, D.projectInputNodeToIntNode fuel (some sink) = some path → path ≠ [] →
        D.InputPath sink path :=
  ⟨fun _ hsrc => ⟨exists_projectOutput hacyclic hsrc, fun _ _ _ h => outputPath_of_some hsrc h⟩,
    fun sink => ⟨exists_projectInput hconv hacyclic sink,
      fun _ _ h hne => inputPath_of_some hconv h hne⟩⟩

/-! A tile with a source pin, wire 0, that drives wire 1, and a sink pin, wire 3. Wires 1 and 3 are
joined to node 2, which belongs to the interconnect tile next to it. -/

def pinTile : Device (Fin 4) where
  siteNameToIdx _ := none
  sites _ := ⟨0, 0, 0, 0⟩
  siteTypePinNameToIdx _ _ := none
  tileTypeSitePinToWireIdx _ _ _ := 0
  tileTypes t :=
    if t = 0 then .ofPips id [⟨0, 1, true⟩, ⟨1, 2, true⟩, ⟨2, 3, true⟩] (by decide) (by decide)
    else .noPips id
  stringList _ := ""
  tileToNameIdx t := t
  tileToType t := if t = 0 then 0 else intTile
  tileWireToNode t i := if t = 0 then [0, 1, 2, 3][i]? else if t = 1 then [2][i]? else none
  nodeToWires v := if v = 2 then [⟨1, intTile, 0⟩, ⟨0, 0, 2⟩] else [⟨0, 0, v⟩]
  beginTileId v := if v = 2 then 1 else 0
  nullTile_pips := fun _ _ => rfl
  wire_type := by
    intro v w hw
    revert w
    revert v
    decide
  wire_lt := by
    intro v w hw
    revert w
    revert v
    decide
  begin_eq := by decide
  wire_of_node := by
    intro t i v h
    match t, i with
    | 0, 0 => cases h; decide
    | 0, 1 => cases h; decide
    | 0, 2 => cases h; decide
    | 0, 3 => cases h; decide
    | 0, i + 4 => cases h
    | 1, 0 => cases h; decide
    | 1, i + 1 => cases h
    | t + 2, i => cases h
  node_of_wire := by
    intro v w hw
    revert w
    revert v
    decide

/-- The source pin is projected to node 1, the sink pin to node 2. -/
theorem projections_pinTile : pinTile.OutputPath 0 1 [0, 1] ∧ pinTile.InputPath 3 [2, 3] := by
  have hlt : ∀ {u v : Fin 4}, Relation.TransGen pinTile.OuterEdge u v → u < v := by
    intro u v h
    have hedge : ∀ u v : Fin 4, v ∈ pinTile.getOutgoingNodes u → u < v := by decide
    induction h with
    | single h => exact hedge _ _ h.1
    | tail _ h ih => exact ih.trans (hedge _ _ h.1)
  have hconv : ∀ u v : Fin 4, u ∈ pinTile.getIncomingNodes v ↔ v ∈ pinTile.getOutgoingNodes u := by
    decide
  obtain ⟨houtput, hinput⟩ := projections (fun v hv => lt_irrefl v (hlt hv)) hconv
  exact ⟨(houtput 0 (by decide)).2 3 1 [0, 1] (by decide +kernel),
    (hinput 3).2 3 [2, 3] (by decide +kernel) (by decide)⟩

end Device

end Potter
