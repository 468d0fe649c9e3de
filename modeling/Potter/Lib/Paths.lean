import Mathlib.Data.List.Chain
import Mathlib.Data.List.Infix
import Mathlib.Data.List.Nodup
import Mathlib.Logic.Relation

/-!
# Graphs given by paths

A graph that is the union of paths: its edges join the vertices that follow each other on one of them
(`PathEdge`). The vertices of a path are joined to its last one (`PathEdge.reaches`). If the paths use
no vertex twice, then no vertex has two predecessors (`PathEdge.unique`), the first vertex of a path
has none (`not_pathEdge_head`), and there is no cycle (`PathEdge.acyclic`).
-/

namespace Potter.Lib

open Relation

variable {V : Type} {u v : V} {p : List V} {ps : List (List V)}

/-- The vertices of a path, each with the one after it. -/
def hops : List V → List (V × Option V)
  | [] => []
  | v :: p => (v, p.head?) :: hops p

@[simp] theorem map_fst_hops (p : List V) : (hops p).map Prod.fst = p := by
  induction p with
  | nil => rfl
  | cons v p ih => rw [hops, List.map_cons, ih]

theorem map_fst_flatMap_hops (ps : List (List V)) : (ps.flatMap hops).map Prod.fst = ps.flatten := by
  simp only [List.map_flatMap, map_fst_hops, List.flatMap_id']

theorem mem_hops : (u, some v) ∈ hops p ↔ [u, v] <:+: p := by
  induction p with
  | nil => simp [hops]
  | cons w p ih =>
    rw [hops, List.mem_cons, ih, List.infix_cons_iff]
    refine or_congr_left ?_
    cases p <;> simp [List.cons_prefix_cons]

/-- What comes after a vertex in such a list. -/
def nexts [DecidableEq V] (es : List (V × Option V)) (u : V) : List V :=
  es.filterMap fun e => if e.1 = u then e.2 else none

theorem mem_nexts [DecidableEq V] {es : List (V × Option V)} : v ∈ nexts es u ↔ (u, some v) ∈ es := by
  unfold nexts
  rw [List.mem_filterMap]
  constructor
  · rintro ⟨⟨w, next⟩, he, hnext⟩
    obtain ⟨rfl, rfl⟩ := Option.ite_none_right_eq_some.1 hnext
    exact he
  · intro he
    exact ⟨_, he, if_pos rfl⟩

theorem nexts_concat [DecidableEq V] (es : List (V × Option V)) (w u : V) (next : Option V) :
    nexts (es ++ [(w, next)]) u = nexts es u ++ if w = u then next.toList else [] := by
  unfold nexts
  rw [List.filterMap_append]
  congr 1
  by_cases e : w = u
  · cases next <;> simp [e]
  · simp [e]

/-- A vertex of a path is followed by one, or is the last. -/
theorem exists_next_or_last (hu : u ∈ p) : (∃ v, [u, v] <:+: p) ∨ p.getLast? = some u := by
  obtain ⟨pre, post, rfl⟩ := List.append_of_mem hu
  cases post with
  | nil => exact .inr List.getLast?_concat
  | cons v post => exact .inl ⟨v, pre, post, by simp⟩

/-- Two vertices follow each other on one of the paths. -/
def PathEdge (ps : List (List V)) (u v : V) : Prop := ∃ p ∈ ps, [u, v] <:+: p

theorem PathEdge.mem (h : PathEdge ps u v) : u ∈ ps.flatten ∧ v ∈ ps.flatten := by
  obtain ⟨p, hp, hsub⟩ := h
  exact ⟨List.mem_flatten_of_mem hp (hsub.subset List.mem_cons_self),
    List.mem_flatten_of_mem hp (hsub.subset (List.mem_cons_of_mem u List.mem_cons_self))⟩

theorem mem_nexts_hops [DecidableEq V] : v ∈ nexts (ps.flatMap hops) u ↔ PathEdge ps u v := by
  simp only [mem_nexts, List.mem_flatMap, mem_hops, PathEdge]

theorem isChain_pathEdge (hp : p ∈ ps) : p.IsChain (PathEdge ps) := by
  suffices h : ∀ q, q <:+ p → q.IsChain (PathEdge ps) from h p (List.suffix_refl p)
  intro q hq
  induction q with
  | nil => exact List.isChain_nil
  | cons u q ih =>
    have htail := ih ((List.suffix_cons u q).trans hq)
    cases q with
    | nil => exact List.isChain_singleton u
    | cons v q =>
      refine List.isChain_cons_cons.2 ⟨⟨p, hp, ?_⟩, htail⟩
      exact (List.prefix_append [u, v] q).isInfix.trans hq.isInfix

/-- Every vertex of a path is joined to the last one. -/
theorem PathEdge.reaches (hp : p ∈ ps) (hu : u ∈ p) (hlast : p.getLast? = some v) :
    ReflTransGen (PathEdge ps) u v := by
  obtain ⟨pre, rest, rfl⟩ := List.append_of_mem hu
  have hchain := (isChain_pathEdge hp).right_of_append
  rw [List.getLast?_append_of_ne_nil _ (List.cons_ne_nil u rest)] at hlast
  refine List.relationReflTransGen_of_exists_isChain_cons rest hchain ?_
  exact Option.some.inj ((List.getLast?_eq_some_getLast (List.cons_ne_nil u rest)).symm.trans hlast)

/-! ## Paths that use no vertex twice -/

section Nodup

variable [DecidableEq V] (h : ps.flatten.Nodup)

omit h in
theorem idxOf_of_infix {l : List V} (hl : l.Nodup) (hsub : [u, v] <:+: l) :
    l.idxOf v = l.idxOf u + 1 := by
  obtain ⟨pre, post, rfl⟩ := hsub
  rw [List.append_assoc] at hl ⊢
  obtain ⟨-, hpair, hdisj⟩ := List.nodup_append'.1 hl
  have hu : u ∉ pre := fun hmem => hdisj hmem List.mem_cons_self
  have hv : v ∉ pre := fun hmem => hdisj hmem (List.mem_cons_of_mem u List.mem_cons_self)
  have hne : u ≠ v := fun e => (List.nodup_cons.1 hpair).1 (e ▸ List.mem_cons_self)
  rw [List.idxOf_append_of_notMem hu, List.idxOf_append_of_notMem hv]
  simp [hne]

include h

theorem PathEdge.idxOf (hedge : PathEdge ps u v) : ps.flatten.idxOf v = ps.flatten.idxOf u + 1 := by
  obtain ⟨p, hp, hsub⟩ := hedge
  exact idxOf_of_infix h (hsub.trans (List.infix_of_mem_flatten hp))

theorem PathEdge.unique {u' : V} (hu : PathEdge ps u v) (hu' : PathEdge ps u' v) : u = u' := by
  have hidx := hu.idxOf h
  rw [hu'.idxOf h] at hidx
  exact ((List.idxOf_inj hu'.mem.1).1 (Nat.succ.inj hidx)).symm

theorem not_pathEdge_head (hp : p ∈ ps) (hhead : p.head? = some v) : ¬PathEdge ps u v := by
  rintro ⟨q, hq, hsub⟩
  have hv : v ∈ q := hsub.subset (List.mem_cons_of_mem u List.mem_cons_self)
  obtain ⟨hnodup, hdisj⟩ := List.nodup_flatten.1 h
  obtain rfl : p = q := by
    by_contra hne
    have : Std.Symm (@List.Disjoint V) := ⟨fun _ _ => List.disjoint_symm⟩
    exact hdisj.forall hp hq hne (List.mem_of_mem_head? hhead) hv
  obtain ⟨rest, rfl⟩ := List.head?_eq_some_iff.1 hhead
  have hidx := idxOf_of_infix (hnodup _ hp) hsub
  rw [List.idxOf_cons_self] at hidx
  exact Nat.succ_ne_zero _ hidx.symm

theorem PathEdge.acyclic (v : V) : ¬TransGen (PathEdge ps) v v := by
  have hlt : ∀ {u v}, TransGen (PathEdge ps) u v → ps.flatten.idxOf u < ps.flatten.idxOf v := by
    intro u v huv
    induction huv with
    | single hedge =>
      rw [hedge.idxOf h]
      exact Nat.lt_succ_self _
    | tail _ hedge ih =>
      rw [hedge.idxOf h]
      exact Nat.lt_succ_of_lt ih
  exact fun hv => Nat.lt_irrefl _ (hlt hv)

end Nodup

end Potter.Lib
