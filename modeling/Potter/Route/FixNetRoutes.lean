import Mathlib.Algebra.Order.BigOperators.Group.List
import Mathlib.Algebra.Order.Ring.Cast
import Potter.Lib.Arborescence
import Potter.Route.SaveSolutions

/-!
# The tree of cheapest paths

What `fixNetRoutes` makes of a net whose branches are the union of one path to each sink pin
(`UnionOfPaths`): a tree of cheapest paths to the sink pins (`MinimumArborescence`).

The loop is the label-correcting search of `Lib.LabelCorrecting`. Its predecessors lead from every
node reached to the source pin, and what is kept are the edges on the ways from the sink pins
(`KeepsRoute`). A node counts as not reached while its cost is `INT32_MAX`, so the function needs
a path below that cost to every sink pin.
-/

namespace Potter

open Lib Relation

/-! ## Statements -/

/-- The edges between the nodes of a net. -/
def NetEdge {V : Type} (net : V → Prop) (branches : V → List V) (u v : V) : Prop :=
  net u ∧ v ∈ branches u

/-- The branches of a net are the edges of one path from the source pin to each sink pin. -/
structure UnionOfPaths {V : Type} (branches : V → List V) (netRNodes : List V) (source : V)
    (sinkPins : List V) (paths : List (List V)) : Prop where
  nonempty : sinkPins ≠ []
  ends : List.Forall₂ (fun p t => p.head? = some source ∧ p.getLast? = some t) paths sinkPins
  nodes : ∀ r, r ∈ netRNodes ↔ ∃ p ∈ paths, r ∈ p
  edges : ∀ u v, u ∈ netRNodes → (v ∈ branches u ↔ ∃ p ∈ paths, [u, v] <:+: p)

/-- A tree of cheapest paths from the source pin to the sink pins, cut out of other branches. -/
structure MinimumArborescence {V K : Type} [Add K] [Zero K] [LE K] (net : V → Prop)
    (weight : V → K) (source : V) (sinkPins : List V) (branches branches' : V → List V) : Prop where
  subset : ∀ u v, NetEdge net branches' u v → NetEdge net branches u v
  driver_unique : ∀ u u' v, NetEdge net branches' u v → NetEdge net branches' u' v → u = u'
  source_undriven : ∀ u, ¬NetEdge net branches' u source
  sink_reachable : ∀ t ∈ sinkPins, ReflTransGen (NetEdge net branches') source t
  on_path : ∀ u v, NetEdge net branches' u v → ReflTransGen (NetEdge net branches') source v ∧
    ∃ t ∈ sinkPins, ReflTransGen (NetEdge net branches') v t
  acyclic : ∀ v, ¬TransGen (NetEdge net branches') v v
  cheapest : ∀ t ∈ sinkPins, ∀ k k', LabelCorrecting.Walk branches' weight source t k →
    LabelCorrecting.Walk branches weight source t k' → k ≤ k'

/-- The pins between which a net with only one kind of connections was routed. -/
def NetPins.Between {V C : Type} (pins : NetPins V) (net : Net C) (source : V)
    (sinkPins : List V) : Prop :=
  (net.directConns = [] ∧ pins.indirectSourcePin = some source ∧
    pins.indirectSinkPins = sinkPins) ∨
  (net.indirectConns = [] ∧ pins.indirectSourcePin = none ∧ pins.directSourcePin = some source ∧
    pins.directSinkPins = sinkPins)

namespace UnionOfPaths

variable {V : Type} {branches : V → List V} {netRNodes : List V} {source : V} {sinkPins : List V}
  {paths : List (List V)}

theorem source_mem (h : UnionOfPaths branches netRNodes source sinkPins paths) :
    source ∈ netRNodes := by
  obtain ⟨p, hp, hhead⟩ : ∃ p ∈ paths, p.head? = some source := by
    cases h.ends with
    | nil => exact absurd rfl h.nonempty
    | cons hp _ => exact ⟨_, List.mem_cons_self, hp.1⟩
  exact (h.nodes source).2 ⟨p, hp, List.mem_of_mem_head? hhead⟩

theorem closed (h : UnionOfPaths branches netRNodes source sinkPins paths) (u v : V)
    (hu : u ∈ netRNodes) (hv : v ∈ branches u) : v ∈ netRNodes := by
  obtain ⟨p, hp, hinfix⟩ := (h.edges u v hu).1 hv
  exact (h.nodes v).2 ⟨p, hp, hinfix.subset (by simp)⟩

end UnionOfPaths

/-! The two paths of a fork. -/

/-- The pins of its net, which are the nodes themselves. -/
abbrev forkPins : NetPins (Fin 3) := ⟨some (idx 0), [idx 1, idx 2], none, []⟩

/-- Its two paths as they are saved. -/
abbrev forkSaved (baseCost : ℚ) : SaveState (fork baseCost).database where
  nodeType r := if r.val = 0 then .pinfeedO else .pinfeedI
  nodeRoutingResults r :=
    if r.val = 0 then
      ⟨some (idx 0), [idx 1, idx 2], (by decide : ([idx 1, idx 2] : List (Fin 3)).Pairwise (· < ·))⟩
    else ⟨some (idx 0), [], List.Pairwise.nil⟩

theorem forkSaved_unionOfPaths (baseCost : ℚ) :
    UnionOfPaths (forkSaved baseCost).branches [0, 1, 2] 0 [1, 2] [[0, 1], [0, 2]] where
  nonempty := List.cons_ne_nil 1 [2]
  ends := by simp
  nodes := (by decide : ∀ r : Fin 3, r ∈ [0, 1, 2] ↔ ∃ p ∈ [[0, 1], [0, 2]], r ∈ p)
  edges := by
    have h : ∀ u v : Fin 3, u ∈ [0, 1, 2] → (v ∈ (if u.val = 0 then [idx 1, idx 2] else []) ↔
        ∃ p ∈ [[0, 1], [0, 2]], [u, v] <:+: p) := by decide
    intro u v hu
    rw [← h u v hu]
    unfold SaveState.branches
    dsimp only
    split <;> rfl

namespace AStarRoute

/-! ## The pieces of the function -/

section Pieces

variable {K : Type} [Arith K] (R : AStarRoute K) {n : R.database.NetId}
  {pins : NetPins R.database.NodeId} {netRNodes : List R.database.NodeId}
  {source : R.database.NodeId} {sinkPins : List R.database.NodeId}
  {prevs : R.database.NodeId → Option R.database.NodeId}
  {nodeType : R.database.NodeId → NodeType} {route : List R.database.NodeId}

theorem fixPins_eq (hpins : pins.Between (R.database.nets n) source sinkPins)
    (hsource : source ∈ netRNodes) : R.fixPins n pins netRNodes = some (source, sinkPins) := by
  have hfilter : (some source).filter netRNodes.contains = some source := by
    rw [Option.filter_some, if_pos (List.contains_iff_mem.2 hsource)]
  unfold fixPins Net.getConnectionSize Net.getDirectConnectionSize
  rcases hpins with ⟨hconns, hpin, rfl⟩ | ⟨hconns, hpin, hdirect, rfl⟩
  · simp only [hconns, hpin, hfilter, List.length_nil, Nat.cast_zero, or_true, if_true]
  · simp [hconns, hpin, hdirect, hsource]

theorem inRoute_cons (t : R.database.NodeId) : R.inRoute nodeType prevs source (t :: sinkPins) =
    if nodeType t = .pinfeedI then
      (LabelCorrecting.climb prevs source (watchDogLimit + 1) t).bind fun way =>
        (R.inRoute nodeType prevs source sinkPins).map (way ++ ·)
    else none := by
  rw [inRoute]
  split
  · cases LabelCorrecting.climb prevs source (watchDogLimit + 1) t <;>
      cases R.inRoute nodeType prevs source sinkPins <;> rfl
  · rfl

/-- The ways from the sink pins are found if all are marked and have a way. -/
theorem inRoute_isSome : (∃ route, R.inRoute nodeType prevs source sinkPins = some route) ↔
    ∀ t ∈ sinkPins, nodeType t = .pinfeedI ∧
      ∃ way, LabelCorrecting.climb prevs source (watchDogLimit + 1) t = some way := by
  induction sinkPins with
  | nil => exact ⟨fun _ t ht => absurd ht List.not_mem_nil, fun _ => ⟨[], rfl⟩⟩
  | cons t sinkPins ih =>
    rw [List.forall_mem_cons, ← ih, inRoute_cons]
    constructor
    · rintro ⟨route, h⟩
      split at h
      · next htype =>
        obtain ⟨way, hway, h⟩ := Option.bind_eq_some_iff.1 h
        obtain ⟨rest, hrest, -⟩ := Option.map_eq_some_iff.1 h
        exact ⟨⟨htype, way, hway⟩, rest, hrest⟩
      · cases h
    · rintro ⟨⟨htype, way, hway⟩, rest, hrest⟩
      refine ⟨way ++ rest, ?_⟩
      rw [if_pos htype, hway, hrest, Option.bind_some, Option.map_some]

theorem mem_inRoute (h : R.inRoute nodeType prevs source sinkPins = some route)
    {v : R.database.NodeId} :
    v ∈ route ↔ ∃ t ∈ sinkPins, ∃ way, LabelCorrecting.Chain prevs source t way ∧ v ∈ way := by
  induction sinkPins generalizing route with
  | nil =>
    cases h
    simp
  | cons t sinkPins ih =>
    rw [inRoute_cons] at h
    split at h
    · obtain ⟨way, hway, h⟩ := Option.bind_eq_some_iff.1 h
      obtain ⟨rest, hrest, rfl⟩ := Option.map_eq_some_iff.1 h
      obtain ⟨hchain, -⟩ := LabelCorrecting.climb_eq_some.1 hway
      rw [List.mem_append, ih hrest, List.exists_mem_cons_iff]
      refine or_congr_left ⟨fun hv => ⟨way, hchain, hv⟩, ?_⟩
      rintro ⟨way', hchain', hv⟩
      rwa [hchain.unique hchain']
    · cases h

theorem clearNet_branches (s : SaveState R.database) (u : R.database.NodeId) :
    (R.clearNet netRNodes s).branches u = if u ∈ netRNodes then [] else s.branches u := by
  unfold clearNet
  induction netRNodes generalizing s with
  | nil => simp
  | cons r netRNodes ih =>
    rw [List.foldl_cons, ih]
    by_cases hmem : u ∈ netRNodes
    · rw [if_pos hmem, if_pos (List.mem_cons_of_mem r hmem)]
    · rw [if_neg hmem, SaveState.setResult_branches]
      by_cases e : u = r
      · rw [if_pos e, e, if_pos List.mem_cons_self]
        rfl
      · rw [if_neg e, if_neg (by simp [e, hmem])]

/-- One node is linked to its predecessor. -/
theorem linkRoute_branches {s s' : SaveState R.database} {r : R.database.NodeId}
    (h : R.linkRoute prevs source route s r = some s') (u v : R.database.NodeId) :
    v ∈ s'.branches u ↔
      v ∈ s.branches u ∨ (v = r ∧ r ≠ source ∧ r ∈ route ∧ prevs r = some u) := by
  unfold linkRoute at h
  split at h
  · next hr =>
    obtain ⟨w, hw, rfl⟩ := Option.map_eq_some_iff.1 h
    rw [SaveState.setResult_branches]
    by_cases e : u = w
    · rw [if_pos e, RouteResult.addBranch, mem_emplace, or_comm, e]
      simp [hr.1, List.contains_iff_mem.1 hr.2, hw, SaveState.branches]
    · rw [if_neg e, hw]
      simp [Ne.symm e]
  · next hr =>
    cases h
    refine (or_iff_left ?_).symm
    rintro ⟨-, hne, hmem, -⟩
    exact hr ⟨hne, List.contains_iff_mem.2 hmem⟩

theorem foldlM_linkRoute_branches {l : List R.database.NodeId} {s s' : SaveState R.database}
    (h : l.foldlM (R.linkRoute prevs source route) s = some s') (u v : R.database.NodeId) :
    v ∈ s'.branches u ↔
      v ∈ s.branches u ∨ (v ∈ l ∧ v ≠ source ∧ v ∈ route ∧ prevs v = some u) := by
  induction l generalizing s with
  | nil =>
    cases h
    simp
  | cons r l ih =>
    rw [List.foldlM_cons] at h
    obtain ⟨s₁, h₁, h⟩ := Option.bind_eq_some_iff.1 h
    rw [ih h, R.linkRoute_branches h₁, List.mem_cons]
    constructor
    · rintro ((hv | ⟨rfl, hv⟩) | ⟨hmem, hv⟩)
      · exact .inl hv
      · exact .inr ⟨.inl rfl, hv⟩
      · exact .inr ⟨.inr hmem, hv⟩
    · rintro (hv | ⟨rfl | hmem, hv⟩)
      · exact .inl (.inl hv)
      · exact .inl (.inr ⟨rfl, hv⟩)
      · exact .inr ⟨hmem, hv⟩

theorem foldlM_linkRoute_isSome (hprevs : ∀ r ∈ route, prevs r ≠ none) (l : List R.database.NodeId)
    (s : SaveState R.database) : ∃ s', l.foldlM (R.linkRoute prevs source route) s = some s' := by
  induction l generalizing s with
  | nil => exact ⟨s, rfl⟩
  | cons r l ih =>
    obtain ⟨s₁, h₁⟩ : ∃ s₁, R.linkRoute prevs source route s r = some s₁ := by
      unfold linkRoute
      split
      · next hr =>
        obtain ⟨u, hu⟩ := Option.ne_none_iff_exists'.1 (hprevs r (List.contains_iff_mem.1 hr.2))
        exact ⟨_, by rw [hu]; rfl⟩
      · exact ⟨s, rfl⟩
    obtain ⟨s', h'⟩ := ih s₁
    refine ⟨s', ?_⟩
    rw [List.foldlM_cons, h₁]
    exact h'

end Pieces

/-! ## The search -/

section Exact

variable (R : AStarRoute ℚ) {branches : R.database.NodeId → List R.database.NodeId}
  {netRNodes : List R.database.NodeId} {source : R.database.NodeId}

/-- The base costs, which are what a path costs. -/
def baseCost (r : R.database.NodeId) : ℚ := (R.database.routeNodes r).baseCost

/-- The labels when the search has ended. -/
structure Found (branches : R.database.NodeId → List R.database.NodeId)
    (netRNodes : List R.database.NodeId) (source : R.database.NodeId)
    (labels : LabelCorrecting.Labels R.database.NodeId ℚ) (E : Finset R.database.NodeId) :
    Prop where
  labeled : LabelCorrecting.Labeled branches R.baseCost (· ∈ netRNodes) source (intMax : ℚ) ∅ E
    labels
  queue : labels.queue = []
  card_le : E.card ≤ watchDogLimit + 1

theorem findPrevs_spec (hsource : source ∈ netRNodes)
    (hclosed : ∀ u v, u ∈ netRNodes → v ∈ branches u → v ∈ netRNodes)
    (hcost : ∀ r, 0 ≤ R.baseCost r) :
    R.findPrevs branches source netRNodes = .stopped ∨
      ∃ labels E, R.findPrevs branches source netRNodes = .done labels ∧
        R.Found branches netRNodes source labels E := by
  have hqueue : (R.initLabels source netRNodes).queue = [source] :=
    List.perm_singleton.1 (R.queue.push_perm _ source [])
  have hinit : LabelCorrecting.Labeled branches R.baseCost (· ∈ netRNodes) source (intMax : ℚ) ∅ ∅
      (R.initLabels source netRNodes) := by
    have h : LabelCorrecting.Labeled branches R.baseCost (· ∈ netRNodes) source (intMax : ℚ) ∅ ∅
        ⟨(R.initLabels source netRNodes).cost, fun _ => none,
          (R.initLabels source netRNodes).visited, [source]⟩ :=
      .init hsource hcost (Int.cast_pos.2 (by decide)) (by simp [initLabels])
        (fun v hv hne => by simp [initLabels, hv, hne]) (fun v hv => by simp [initLabels, hv]) hclosed
    rw [← hqueue] at h
    exact h
  have hn : ∀ u, u ∈ netRNodes →
      (branches u).length ≤ (netRNodes.map fun r => (branches r).length).sum := fun u hu =>
    List.le_sum_of_mem (List.mem_map_of_mem hu)
  have hfuel : (R.initLabels source netRNodes).queue.length +
      (watchDogLimit + 1 - 0) * (netRNodes.map fun r => (branches r).length).sum <
      R.fixFuel branches netRNodes := by
    rw [hqueue, List.length_singleton, fixFuel, Nat.sub_zero]
    omega
  rcases LabelCorrecting.loop_spec (Q := R.queue) hsource hclosed hcost hn _ 0 ∅ _ hinit
    (Nat.le_refl 0) (Nat.zero_le _) hfuel with h | ⟨labels, E, h, hlabeled, hempty, hcard⟩
  · exact .inl h
  · exact .inr ⟨labels, E, h, hlabeled, hempty, hcard⟩

/-! ## The tree -/

variable {R} {labels : LabelCorrecting.Labels R.database.NodeId ℚ} {E : Finset R.database.NodeId}
  {sinkPins : List R.database.NodeId} {branches' : R.database.NodeId → List R.database.NodeId}

/-- The nodes on the ways from the sink pins. -/
def Kept (prev : R.database.NodeId → Option R.database.NodeId) (source : R.database.NodeId)
    (sinkPins : List R.database.NodeId) (v : R.database.NodeId) : Prop :=
  ∃ t ∈ sinkPins, ∃ way, LabelCorrecting.Chain prev source t way ∧ v ∈ way

/-- What is kept of the branches: the edges from the predecessors of the nodes that are kept. -/
def KeepsRoute (prev : R.database.NodeId → Option R.database.NodeId) (source : R.database.NodeId)
    (sinkPins netRNodes : List R.database.NodeId)
    (branches' : R.database.NodeId → List R.database.NodeId) : Prop :=
  ∀ u ∈ netRNodes, ∀ v, v ∈ branches' u ↔ Kept prev source sinkPins v ∧ prev v = some u

namespace Found

theorem netEdge_iff (h : R.Found branches netRNodes source labels E)
    (hkeeps : KeepsRoute labels.prev source sinkPins netRNodes branches')
    (u v : R.database.NodeId) : NetEdge (· ∈ netRNodes) branches' u v ↔
      Kept labels.prev source sinkPins v ∧ labels.prev v = some u := by
  constructor
  · rintro ⟨hu, hv⟩
    exact (hkeeps u hu v).1 hv
  · rintro ⟨hkept, hprev⟩
    have hu := (h.labeled.edge u v hprev).1
    exact ⟨hu, (hkeeps u hu v).2 ⟨hkept, hprev⟩⟩

/-- The source pin reaches a node whose chain is kept. -/
theorem reaches (h : R.Found branches netRNodes source labels E)
    (hkeeps : KeepsRoute labels.prev source sinkPins netRNodes branches')
    {v : R.database.NodeId} {way : List R.database.NodeId}
    (hchain : LabelCorrecting.Chain labels.prev source v way)
    (hway : ∀ x ∈ way, Kept labels.prev source sinkPins x) :
    ReflTransGen (NetEdge (· ∈ netRNodes) branches') source v := by
  induction hchain with
  | source => exact .refl
  | @step u v way _ hprev _ ih =>
    refine .tail (ih fun x hx => hway x (List.mem_cons_of_mem v hx)) ?_
    exact (h.netEdge_iff hkeeps u v).2 ⟨hway v List.mem_cons_self, hprev⟩

/-- A node on the way from a sink pin reaches that pin. -/
theorem reaches_sink (h : R.Found branches netRNodes source labels E)
    (hkeeps : KeepsRoute labels.prev source sinkPins netRNodes branches')
    {t v : R.database.NodeId} {way : List R.database.NodeId}
    (hchain : LabelCorrecting.Chain labels.prev source t way)
    (hway : ∀ x ∈ way, Kept labels.prev source sinkPins x) (hv : v ∈ way) :
    ReflTransGen (NetEdge (· ∈ netRNodes) branches') v t := by
  induction hchain with
  | source => exact absurd hv List.not_mem_nil
  | @step u t way _ hprev hrest ih =>
    rcases List.mem_cons.1 hv with rfl | hv
    · exact .refl
    · refine .tail (ih (fun x hx => hway x (List.mem_cons_of_mem t hx)) hv) ?_
      exact (h.netEdge_iff hkeeps u t).2 ⟨hway t List.mem_cons_self, hprev⟩

theorem mem_of_kept (h : R.Found branches netRNodes source labels E) (hsource : source ∈ netRNodes)
    (hclosed : ∀ u v, u ∈ netRNodes → v ∈ branches u → v ∈ netRNodes) (v : R.database.NodeId)
    (hv : v = source ∨ Kept labels.prev source sinkPins v) : v ∈ netRNodes := by
  rcases hv with rfl | ⟨t, -, way, hchain, hv⟩
  · exact hsource
  · obtain ⟨-, u, hu, -⟩ := hchain.of_mem_prev hv
    exact h.labeled.mem hsource hclosed (.inr (by rw [hu]; exact Option.some_ne_none u))

theorem isArborescence (h : R.Found branches netRNodes source labels E)
    (hkeeps : KeepsRoute labels.prev source sinkPins netRNodes branches')
    (hmem : ∀ v, v = source ∨ Kept labels.prev source sinkPins v → v ∈ netRNodes) :
    IsArborescence branches' (fun v => v = source ∨ Kept labels.prev source sinkPins v) source := by
  refine ⟨.inl rfl, fun hu hv => .inr ((hkeeps _ (hmem _ hu) _).1 hv).1, ?_, fun hu hv => ?_,
    fun hu hu' hv hv' => ?_⟩
  · rintro v (rfl | ⟨t, ht, way, hchain, hv⟩)
    · exact .refl
    · obtain ⟨way', hchain', -, hsub⟩ := hchain.of_mem hv
      have hkept : ∀ x ∈ way', Kept labels.prev source sinkPins x := fun x hx =>
        ⟨t, ht, way, hchain, hsub hx⟩
      refine (h.reaches hkeeps hchain' hkept).mono ?_ _ _
      intro u w huw
      obtain ⟨⟨t', ht', way'', hchain'', hw⟩, hprev⟩ := (h.netEdge_iff hkeeps u w).1 huw
      obtain ⟨-, u', hu', hup⟩ := hchain''.of_mem_prev hw
      rw [hprev] at hu'
      cases hu'
      exact ⟨hup.imp_right fun hu => ⟨t', ht', way'', hchain'', hu⟩, huw.2⟩
  · have hprev := ((hkeeps _ (hmem _ hu) _).1 hv).2
    rw [h.labeled.source_prev] at hprev
    cases hprev
  · have hprev := ((hkeeps _ (hmem _ hu) _).1 hv).2
    rw [((hkeeps _ (hmem _ hu') _).1 hv').2] at hprev
    exact (Option.some.inj hprev).symm

/-- No walk in the tree costs more than the cost found. -/
theorem walk_le (h : R.Found branches netRNodes source labels E)
    (hkeeps : KeepsRoute labels.prev source sinkPins netRNodes branches')
    (harb : IsArborescence branches' (fun v => v = source ∨ Kept labels.prev source sinkPins v) source)
    (hmem : ∀ v, v = source ∨ Kept labels.prev source sinkPins v → v ∈ netRNodes)
    {v : R.database.NodeId} {k : ℚ} (hwalk : LabelCorrecting.Walk branches' R.baseCost source v k) :
    (v = source ∨ Kept labels.prev source sinkPins v) ∧ k ≤ labels.cost v := by
  induction hwalk with
  | source => exact ⟨.inl rfl, le_of_eq h.labeled.source_cost.symm⟩
  | @step u v k _ hedge ih =>
    refine ⟨harb.closed ih.1 hedge, ?_⟩
    have hprev := ((hkeeps u (hmem u ih.1) v).1 hedge).2
    calc k + R.baseCost v ≤ labels.cost u + R.baseCost v := add_le_add_left ih.2 _
      _ ≤ labels.cost v := (h.labeled.edge u v hprev).2.2.1

/-- **The branches that are kept are a tree of cheapest paths.** -/
theorem minimumArborescence (h : R.Found branches netRNodes source labels E)
    (hkeeps : KeepsRoute labels.prev source sinkPins netRNodes branches')
    (hsource : source ∈ netRNodes)
    (hclosed : ∀ u v, u ∈ netRNodes → v ∈ branches u → v ∈ netRNodes)
    (hsinks : ∀ t ∈ sinkPins, ∃ way, LabelCorrecting.Chain labels.prev source t way) :
    MinimumArborescence (· ∈ netRNodes) R.baseCost source sinkPins branches branches' := by
  have hmem : ∀ v, v = source ∨ Kept labels.prev source sinkPins v → v ∈ netRNodes :=
    h.mem_of_kept hsource hclosed
  have harb := h.isArborescence hkeeps hmem
  refine ⟨fun u v huv => ?_, fun u u' v hu hu' => ?_, fun u hu => ?_, fun t ht => ?_,
    fun u v huv => ?_, fun v hv => ?_, fun t _ k k' hk hk' => ?_⟩
  · obtain ⟨-, hprev⟩ := (h.netEdge_iff hkeeps u v).1 huv
    exact ⟨huv.1, (h.labeled.edge u v hprev).2.1⟩
  · have hprev := ((h.netEdge_iff hkeeps u v).1 hu).2
    rw [((h.netEdge_iff hkeeps u' v).1 hu').2] at hprev
    exact (Option.some.inj hprev).symm
  · have hprev := ((h.netEdge_iff hkeeps u source).1 hu).2
    rw [h.labeled.source_prev] at hprev
    cases hprev
  · obtain ⟨way, hchain⟩ := hsinks t ht
    exact h.reaches hkeeps hchain fun x hx => ⟨t, ht, way, hchain, hx⟩
  · obtain ⟨⟨t, ht, way, hchain, hv⟩, -⟩ := (h.netEdge_iff hkeeps u v).1 huv
    have hkept : ∀ x ∈ way, Kept labels.prev source sinkPins x := fun x hx =>
      ⟨t, ht, way, hchain, hx⟩
    obtain ⟨way', hchain', -, hsub⟩ := hchain.of_mem hv
    exact ⟨h.reaches hkeeps hchain' fun x hx => hkept x (hsub hx), t, ht,
      h.reaches_sink hkeeps hchain hkept hv⟩
  · -- A cycle of edges is a cycle of parents, turned round.
    refine harb.irrefl v (TransGen.mono (fun x y hxy => ?_) v v (TransGen.swap v v hv))
    obtain ⟨⟨t, ht, way, hchain, hx⟩, hprev⟩ := (h.netEdge_iff hkeeps y x).1 hxy
    obtain ⟨-, y', hy', hup⟩ := hchain.of_mem_prev hx
    rw [hprev] at hy'
    cases hy'
    exact ⟨hup.imp_right fun hy => ⟨t, ht, way, hchain, hy⟩, hxy.2⟩
  · exact le_trans (h.walk_le hkeeps harb hmem hk).2 (h.labeled.cost_le h.queue hsource hclosed hk')

end Found

/-! ## The function -/

variable {n : R.database.NetId} {pins : NetPins R.database.NodeId} {s s' : SaveState R.database}
  {paths : List (List R.database.NodeId)}

/-- The climb from a node succeeds if a path below `INT32_MAX` leads to it. -/
theorem Found.climb_iff (h : R.Found branches netRNodes source labels E)
    (hsource : source ∈ netRNodes)
    (hclosed : ∀ u v, u ∈ netRNodes → v ∈ branches u → v ∈ netRNodes) (t : R.database.NodeId) :
    (∃ way, LabelCorrecting.climb labels.prev source (watchDogLimit + 1) t = some way) ↔
      ∃ k, LabelCorrecting.Walk branches R.baseCost source t k ∧ k < (intMax : ℚ) := by
  by_cases e : t = source
  · subst e
    refine iff_of_true ⟨[], LabelCorrecting.climb_eq_some.2 ⟨.source, Nat.zero_le _⟩⟩ ?_
    exact ⟨0, .source, Int.cast_pos.2 (by decide)⟩
  · rw [← h.labeled.reached_iff h.queue hsource hclosed e]
    constructor
    · rintro ⟨way, hway⟩
      cases (LabelCorrecting.climb_eq_some.1 hway).1 with
      | source => exact absurd rfl e
      | @step u _ _ _ hprev _ =>
        rw [hprev]
        exact Option.some_ne_none u
    · intro hprev
      obtain ⟨way, hway, -⟩ := h.labeled.climb_isSome h.queue h.card_le hprev
      exact ⟨way, hway⟩

/-- The branches after the function. -/
theorem keepsRoute_of_foldlM {route : List R.database.NodeId}
    (h : R.Found s.branches netRNodes source labels E) (hsource : source ∈ netRNodes)
    (hclosed : ∀ u v, u ∈ netRNodes → v ∈ s.branches u → v ∈ netRNodes)
    (hroute : R.inRoute s.nodeType labels.prev source sinkPins = some route)
    (hfold : netRNodes.foldlM (R.linkRoute labels.prev source route) (R.clearNet netRNodes s) =
      some s') : KeepsRoute labels.prev source sinkPins netRNodes s'.branches := by
  intro u hu v
  rw [R.foldlM_linkRoute_branches hfold, R.clearNet_branches, if_pos hu, R.mem_inRoute hroute]
  constructor
  · rintro (hv | ⟨-, -, hkept, hprev⟩)
    · exact absurd hv List.not_mem_nil
    · exact ⟨hkept, hprev⟩
  · rintro ⟨hkept, hprev⟩
    refine .inr ⟨h.mem_of_kept hsource hclosed v (.inr hkept), fun e => ?_, hkept, hprev⟩
    rw [e, h.labeled.source_prev] at hprev
    cases hprev

/-- **When the function works.** It cuts a tree of cheapest paths out of the paths of a net, if and
only if all sink pins are marked as such and are the ends of paths that cost less than
`INT32_MAX`. -/
theorem fixNetRoutes_iff (hpins : pins.Between (R.database.nets n) source sinkPins)
    (hunion : UnionOfPaths s.branches netRNodes source sinkPins paths)
    (hcost : ∀ r, 0 ≤ R.baseCost r)
    (hdog : R.findPrevs s.branches source netRNodes ≠ .stopped) :
    (∃ s', R.fixNetRoutes n pins netRNodes s = some s' ∧
      MinimumArborescence (· ∈ netRNodes) R.baseCost source sinkPins s.branches s'.branches) ↔
    ∀ t ∈ sinkPins, s.nodeType t = .pinfeedI ∧
      ∃ k, LabelCorrecting.Walk s.branches R.baseCost source t k ∧ k < (intMax : ℚ) := by
  have hsource := hunion.source_mem
  have hclosed := hunion.closed
  obtain ⟨labels, E, hdone, h⟩ := (R.findPrevs_spec hsource hclosed hcost).resolve_left hdog
  have heq : R.fixNetRoutes n pins netRNodes s =
      (R.inRoute s.nodeType labels.prev source sinkPins).bind fun route =>
        netRNodes.foldlM (R.linkRoute labels.prev source route) (R.clearNet netRNodes s) := by
    unfold fixNetRoutes
    rw [R.fixPins_eq hpins hsource, Option.bind_eq_bind, Option.bind_some]
    dsimp only
    rw [hdone]
    rfl
  have hiff : (∃ route, R.inRoute s.nodeType labels.prev source sinkPins = some route) ↔ _ :=
    R.inRoute_isSome
  simp only [h.climb_iff hsource hclosed] at hiff
  rw [← hiff, heq]
  constructor
  · rintro ⟨s', hs', -⟩
    obtain ⟨route, hroute, -⟩ := Option.bind_eq_some_iff.1 hs'
    exact ⟨route, hroute⟩
  · rintro ⟨route, hroute⟩
    have hprevs : ∀ r ∈ route, labels.prev r ≠ none := by
      intro r hr
      obtain ⟨t, -, way, hchain, hmem⟩ := (R.mem_inRoute hroute).1 hr
      obtain ⟨-, u, hu, -⟩ := hchain.of_mem_prev hmem
      rw [hu]
      exact Option.some_ne_none u
    obtain ⟨s', hs'⟩ := R.foldlM_linkRoute_isSome hprevs netRNodes (R.clearNet netRNodes s)
    refine ⟨s', by rw [hroute, Option.bind_some, hs'], ?_⟩
    refine h.minimumArborescence (keepsRoute_of_foldlM h hsource hclosed hroute hs') hsource hclosed
      fun t ht => ?_
    obtain ⟨way, hway⟩ := (R.inRoute_isSome.1 ⟨route, hroute⟩ t ht).2
    exact ⟨way, (LabelCorrecting.climb_eq_some.1 hway).1⟩

end Exact

/-- A fork whose nodes have base cost `1`. -/
theorem fixNetRoutes_iff_fork :
    (∃ s', (fork 1).fixNetRoutes 0 forkPins [0, 1, 2] (forkSaved 1) = some s' ∧
      MinimumArborescence (· ∈ ([0, 1, 2] : List (Fin 3))) (fork 1).baseCost 0 [1, 2]
        (forkSaved 1).branches s'.branches) ↔
    ∀ t ∈ ([1, 2] : List (Fin 3)), (forkSaved 1).nodeType t = .pinfeedI ∧
      ∃ k, LabelCorrecting.Walk (forkSaved 1).branches (fork 1).baseCost 0 t k ∧
        k < (intMax : ℚ) :=
  fixNetRoutes_iff (.inl ⟨rfl, rfl, rfl⟩) (forkSaved_unionOfPaths 1) (fun _ => zero_le_one)
    (LabelCorrecting.Outcome.ne_stopped (by decide +kernel))

/-! Two sink pins, one on the way to the other. The first of them is the last node of the graph: saving
the second connection resets its type. -/

abbrev bounceDatabase : Database ℚ :=
  { (fork 1).database with
    routeNodes := fun r =>
      { (fork 1).database.routeNodes r with
        isNodePinBounce := r.val = 2
        children := .setChildren (if r.val = 0 then [idx 2] else if r.val = 2 then [idx 1] else []) }
    indirectConnections := fun c =>
      { (fork 1).database.indirectConnections c with sink := if c.val = 0 then idx 2 else idx 1 }
    mem_indirectConns := by decide
    nodup_indirectConns := by decide
    source_eq := fun _ => rfl }

abbrev bounce : AStarRoute ℚ :=
  { fork 1 with
    database := bounceDatabase
    queue := scanQueue _ ℚ }

/-- The routes of both connections, between nodes that are the pins themselves. -/
def bounceSolution : Solution bounce.database where
  sourceToIntPath _ := [idx 0]
  intToSinkPath c := if c.val = 0 then [idx 2] else [idx 1]
  rnodes c := if c.val = 0 then [idx 2, idx 0] else [idx 1, idx 2, idx 0]
  directConnections _ := ⟨idx 0, idx 0, []⟩
  pins _ := ⟨some (idx 0), [idx 2, idx 1], none, []⟩

/-- **A sink pin that has lost its type.** After both connections were saved every leaf has the type of a
sink pin, but the pin that the route of the other one passes through has not, and the program stops. -/
theorem fixNetRoutes_stops_bounce :
    (∀ c, bounce.database.IsPath c (bounceSolution.rnodes c)) ∧
    ∃ s : NetSave bounce.database,
      (bounce.database.nets 0).indirectConns.foldlM (bounce.saveConnection 0 bounceSolution)
        ⟨⟨fun v => if v = 0 then .pinfeedO else .pinfeedI, fun _ => .init⟩, [], false⟩ = some s ∧
      s.hasMultiDriver = true ∧
      (∀ r ∈ s.netRNodes, s.branches r = [] → s.nodeType r = .pinfeedI) ∧
      (bounceSolution.pins 0).Between (bounce.database.nets 0) 0 [2, 1] ∧
      UnionOfPaths s.branches s.netRNodes 0 [2, 1] [[0, 2], [0, 2, 1]] ∧
      (∀ r, 0 ≤ bounce.baseCost r) ∧
      bounce.findPrevs s.branches 0 s.netRNodes ≠ .stopped ∧
      s.nodeType 2 = .wire ∧
      bounce.fixNetRoutes 0 (bounceSolution.pins 0) s.netRNodes s.toSaveState = none := by
  have hrun : ∃ s ∈ (bounce.database.nets 0).indirectConns.foldlM
      (bounce.saveConnection 0 bounceSolution)
      ⟨⟨fun v => if v = 0 then .pinfeedO else .pinfeedI, fun _ => .init⟩, [], false⟩,
      s.hasMultiDriver = true ∧
      (∀ r ∈ s.netRNodes, s.branches r = [] → s.nodeType r = .pinfeedI) ∧
      (∀ r : Fin 3, r ∈ s.netRNodes) ∧
      (∀ u v : Fin 3, v ∈ s.branches u ↔ (u, v) = (0, 2) ∨ (u, v) = (2, 1)) ∧
      (bounce.findPrevs s.branches 0 s.netRNodes).isStopped = false ∧ s.nodeType 2 = .wire ∧
      (bounce.fixNetRoutes 0 (bounceSolution.pins 0) s.netRNodes s.toSaveState).isNone := by
    decide +kernel
  obtain ⟨s, hs, hmulti, hleaves, hnodes, hedges, hdog, htype, hstops⟩ := hrun
  have hpaths : ∀ u v : Fin 3, ((u, v) = (0, 2) ∨ (u, v) = (2, 1)) ↔
      ∃ p ∈ [[0, 2], [0, 2, 1]], [u, v] <:+: p := by
    decide
  have hroutes : ∀ c : Fin 2, (bounceSolution.rnodes c).head? = some (bounce.database.sink c) ∧
      (bounceSolution.rnodes c).getLast? = some (bounce.database.source c) ∧
      (bounceSolution.rnodes c).Nodup ∧
      (bounceSolution.rnodes c).IsChain (fun v u => v ∈ bounce.database.children u) ∧
      ∀ v : Fin 3, bounce.database.InBox c v := by
    decide +kernel
  refine ⟨fun c => ?_, s, hs, hmulti, hleaves, .inl ⟨rfl, rfl, rfl⟩, ⟨List.cons_ne_nil _ _, by simp,
    fun r => ?_, fun u v _ => (hedges u v).trans (hpaths u v)⟩, fun _ => zero_le_one,
    LabelCorrecting.Outcome.ne_stopped hdog, htype, Option.isNone_iff_eq_none.1 hstops⟩
  · obtain ⟨hhead, hlast, hnodup, hchain, hbox⟩ := hroutes c
    exact ⟨hhead, hlast, hnodup, hchain, fun v _ => .inr (.inr (hbox v))⟩
  · exact iff_of_true (hnodes r)
      ((by decide : ∀ r : Fin 3, ∃ p ∈ [[0, 2], [0, 2, 1]], r ∈ p) r)

end AStarRoute

end Potter
