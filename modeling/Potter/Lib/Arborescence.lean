import Mathlib.Data.Fintype.EquivFin
import Mathlib.Data.List.Nodup
import Mathlib.Logic.Relation
import Mathlib.Order.WellFounded
import Potter.Lib.RoseTree

/-!
# Arborescences

A finite graph that is kept as a list of successors for every vertex, restricted to some vertices. It
is an arborescence when every vertex is reached from the root, no edge enters the root and no two
edges enter one vertex. Such a graph has no cycle (`IsArborescence.irrefl`), so it can be unfolded
into a tree (`IsArborescence.exists_unfolding`) in which every vertex stands exactly once
(`nodup_labels`, `mem_labels`).
-/

namespace Potter.Lib

open Relation

variable {V : Type}

structure IsArborescence (children : V → List V) (N : V → Prop) (root : V) : Prop where
  root_mem : N root
  closed : ∀ {u v}, N u → v ∈ children u → N v
  reach : ∀ {v}, N v → ReflTransGen (fun u w => N u ∧ w ∈ children u) root v
  root_not_child : ∀ {u}, N u → root ∉ children u
  parent_unique : ∀ {u u' v}, N u → N u' → v ∈ children u → v ∈ children u' → u = u'

/-- The trees of a graph: below every vertex stand the trees of its successors. -/
def Unfolding (children : V → List V) (N : V → Prop) (tree : V → RoseTree V) : Prop :=
  ∀ v, N v → tree v = .node v ((children v).map tree)

/-- Every part of the tree has the successors of its label below it, in order. -/
def RoseTree.Follows (children : V → List V) (t : RoseTree V) : Prop :=
  ∀ p s, t.get? p = some s → s.children.map label = children s.label

namespace IsArborescence

variable {children : V → List V} {N : V → Prop} {root : V}

/-- An edge between vertices of the graph, from its end to its start. -/
def Parent (children : V → List V) (N : V → Prop) (v u : V) : Prop := N u ∧ v ∈ children u

theorem parent_rightUnique (h : IsArborescence children N root) :
    Relator.RightUnique (Parent children N) := by
  intro v u u' hu hu'
  exact h.parent_unique hu.1 hu'.1 hu.2 hu'.2

/-- **There is no cycle**: a cycle through a vertex goes through its only parent, and so up to the
root. -/
theorem irrefl (h : IsArborescence children N root) (v : V) :
    ¬ TransGen (Parent children N) v v := by
  intro hv
  have hN : N v := by
    obtain ⟨u, -, hu⟩ := TransGen.tail'_iff.1 hv
    exact hu.1
  have hreach := h.reach hN
  clear hN
  induction hreach with
  | refl =>
    obtain ⟨u, hu, -⟩ := TransGen.head'_iff.1 hv
    exact h.root_not_child hu.1 hu.2
  | tail _ huv ih =>
    obtain ⟨u', hu', hrest⟩ := TransGen.head'_iff.1 hv
    cases h.parent_rightUnique hu' huv
    exact ih (TransGen.tail' hrest huv)

theorem wellFounded [Finite V] (h : IsArborescence children N root) :
    WellFounded (Parent children N) := by
  have : Std.Irrefl (TransGen (Parent children N)) := ⟨h.irrefl⟩
  have hwf := Finite.wellFounded_of_trans_of_irrefl (TransGen (Parent children N))
  exact Subrelation.wf TransGen.single hwf

open Classical in
theorem exists_unfolding [Finite V] (h : IsArborescence children N root) :
    ∃ tree, Unfolding children N tree := by
  let F (v : V) (below : ∀ w, Parent children N w v → RoseTree V) : RoseTree V :=
    if hv : N v then .node v ((children v).attach.map fun w => below w.1 ⟨hv, w.2⟩) else .node v []
  refine ⟨h.wellFounded.fix F, fun v hv => ?_⟩
  rw [h.wellFounded.fix_eq]
  show (if hv : N v then _ else _) = _
  rw [dif_pos hv]
  congr 1
  conv_rhs => rw [← List.attach_map_subtype_val (children v), List.map_map]
  rfl

variable {tree : V → RoseTree V}

theorem label_tree (htree : Unfolding children N tree) {v : V} (hv : N v) : (tree v).label = v := by
  rw [htree v hv, RoseTree.label_node]

theorem weight_tree (htree : Unfolding children N tree) (f : V → Nat) {v : V} (hv : N v) :
    (tree v).weight f = f v + ((children v).map fun w => (tree w).weight f).sum := by
  rw [htree v hv, RoseTree.weight_node, List.map_map]
  rfl

/-- The vertices of a tree are those its root leads to. -/
theorem mem_labels_tree (h : IsArborescence children N root) (htree : Unfolding children N tree)
    [Finite V] {v : V} (hv : N v) (w : V) :
    w ∈ (tree v).labels ↔ ReflTransGen (Parent children N) w v := by
  induction v using h.wellFounded.induction with
  | _ v ih =>
    rw [htree v hv, RoseTree.labels_node, List.mem_cons, List.mem_flatMap]
    constructor
    · rintro (rfl | ⟨t, ht, hw⟩)
      · exact .refl
      · obtain ⟨c, hc, rfl⟩ := List.mem_map.1 ht
        have hcv : Parent children N c v := ⟨hv, hc⟩
        exact .tail ((ih c hcv (h.closed hv hc)).1 hw) hcv
    · intro hw
      rcases ReflTransGen.cases_tail_iff _ _ _ |>.1 hw with rfl | ⟨c, hwc, hcv⟩
      · exact Or.inl rfl
      · refine Or.inr ⟨tree c, List.mem_map_of_mem hcv.2, ?_⟩
        exact (ih c hcv (h.closed hv hcv.2)).2 hwc

theorem reflTransGen_parent (h : IsArborescence children N root) {v : V} (hv : N v) :
    ReflTransGen (Parent children N) v root := by
  have hreach := h.reach hv
  clear hv
  induction hreach with
  | refl => exact .refl
  | tail _ huv ih => exact .head huv ih

/-- The tree of the root holds exactly the vertices of the graph. -/
theorem mem_labels [Finite V] (h : IsArborescence children N root)
    (htree : Unfolding children N tree) (v : V) : v ∈ (tree root).labels ↔ N v := by
  rw [h.mem_labels_tree htree h.root_mem]
  constructor
  · intro hv
    rcases ReflTransGen.cases_head hv with rfl | ⟨u, hvu, -⟩
    · exact h.root_mem
    · exact h.closed hvu.1 hvu.2
  · exact h.reflTransGen_parent

/-- Two successors of a vertex lead to different vertices: if they met, one would lie below the
other and the vertex below itself. -/
theorem disjoint_labels [Finite V] (h : IsArborescence children N root)
    (htree : Unfolding children N tree) {u c d : V} (hu : N u) (hc : c ∈ children u)
    (hd : d ∈ children u) (hcd : c ≠ d) : List.Disjoint (tree c).labels (tree d).labels := by
  intro x hxc hxd
  rw [h.mem_labels_tree htree (h.closed hu hc)] at hxc
  rw [h.mem_labels_tree htree (h.closed hu hd)] at hxd
  -- the same argument for either of the two being the lower one
  have key : ∀ {a b}, a ∈ children u → b ∈ children u → a ≠ b →
      ReflTransGen (Parent children N) a b → False := by
    intro a b ha hb hab hle
    rcases ReflTransGen.cases_head hle with rfl | ⟨u', hau, hub⟩
    · exact hab rfl
    · cases h.parent_unique hau.1 hu hau.2 ha
      exact h.irrefl u (TransGen.tail' hub ⟨hu, hb⟩)
  rcases ReflTransGen.total_of_right_unique h.parent_rightUnique hxc hxd with hle | hle
  · exact key hc hd hcd hle
  · exact key hd hc hcd.symm hle

theorem nodup_labels [Finite V] (h : IsArborescence children N root)
    (htree : Unfolding children N tree) (hnodup : ∀ v, (children v).Nodup) {v : V} (hv : N v) :
    (tree v).labels.Nodup := by
  induction v using h.wellFounded.induction with
  | _ v ih =>
    rw [htree v hv, RoseTree.labels_node, List.nodup_cons, List.nodup_flatMap]
    refine ⟨?_, ?_, ?_⟩
    · rw [List.mem_flatMap]
      rintro ⟨t, ht, hvt⟩
      obtain ⟨c, hc, rfl⟩ := List.mem_map.1 ht
      rw [h.mem_labels_tree htree (h.closed hv hc)] at hvt
      exact h.irrefl v (TransGen.tail' hvt ⟨hv, hc⟩)
    · intro t ht
      obtain ⟨c, hc, rfl⟩ := List.mem_map.1 ht
      exact ih c ⟨hv, hc⟩ (h.closed hv hc)
    · rw [List.pairwise_map]
      refine (hnodup v).imp_of_mem fun hc hd hcd => ?_
      exact h.disjoint_labels htree hv hc hd hcd

/-- A tree of the graph follows its edges. -/
theorem follows (h : IsArborescence children N root) (htree : Unfolding children N tree) {v : V}
    (hv : N v) : (tree v).Follows children := by
  intro p
  induction p generalizing v with
  | nil =>
    intro s hs
    rw [RoseTree.get?_nil, Option.some_inj] at hs
    subst hs
    rw [htree v hv, RoseTree.children_node, RoseTree.label_node, List.map_map]
    refine (List.map_congr_left fun w hw => ?_).trans (List.map_id _)
    exact label_tree htree (h.closed hv hw)
  | cons i p ih =>
    intro s hs
    rw [htree v hv, RoseTree.get?, List.getElem?_map, Option.bind_map] at hs
    obtain ⟨c, hc, hs⟩ := Option.bind_eq_some_iff.1 hs
    exact ih (h.closed hv (List.mem_of_getElem? hc)) s hs

end IsArborescence

end Potter.Lib
