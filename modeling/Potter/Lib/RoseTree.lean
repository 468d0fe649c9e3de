import Mathlib.Algebra.BigOperators.Group.List.Basic
import Mathlib.Algebra.GroupWithZero.Nat
import Mathlib.Data.List.Infix
import Mathlib.Data.List.Nodup

/-!
# Trees with lists of children

A tree, the part of it at an address (a list of child indices from the root), and the change of the
part at an address. Two addresses are apart when none leads through the other: changes at such
addresses commute (`modify_comm`) and do not see each other (`get?_modify_of_apart`).
-/

namespace Potter.Lib

inductive RoseTree (α : Type) where
  | node (label : α) (children : List (RoseTree α))

theorem modify_length_append {β : Type} (done : List β) (x : β) (rest : List β) (f : β → β) :
    (done ++ x :: rest).modify done.length f = done ++ f x :: rest := by
  induction done with
  | nil => rfl
  | cons y done ih => exact congrArg (y :: ·) ih

/-- Neither address leads through the other. -/
def Apart (p q : List Nat) : Prop := ¬ p <+: q ∧ ¬ q <+: p

theorem Apart.symm {p q : List Nat} (h : Apart p q) : Apart q p := ⟨h.2, h.1⟩

theorem not_apart_nil (q : List Nat) : ¬ Apart [] q := fun h => h.1 q.nil_prefix

theorem apart_cons_self {i : Nat} {p q : List Nat} : Apart (i :: p) (i :: q) ↔ Apart p q := by
  unfold Apart
  rw [List.prefix_cons_inj, List.prefix_cons_inj]

/-- An address stays apart when the other is continued. -/
theorem Apart.append {p q : List Nat} (h : Apart p q) (r : List Nat) : Apart p (q ++ r) := by
  refine ⟨fun hp => ?_, fun hq => h.2 ((List.prefix_append q r).trans hq)⟩
  rcases List.prefix_or_prefix_of_prefix hp (List.prefix_append q r) with hpq | hqp
  · exact h.1 hpq
  · exact h.2 hqp

theorem apart_append_singleton {p : List Nat} {i j : Nat} (h : i ≠ j) :
    Apart (p ++ [i]) (p ++ [j]) := by
  unfold Apart
  rw [List.prefix_append_right_inj, List.prefix_append_right_inj]
  simp [h, h.symm]

namespace RoseTree

variable {α : Type}

/-- Induction with the hypothesis for every child. -/
@[elab_as_elim, induction_eliminator]
theorem induct {motive : RoseTree α → Prop}
    (node : ∀ a ts, (∀ t ∈ ts, motive t) → motive (.node a ts)) (t : RoseTree α) : motive t := by
  refine @RoseTree.rec α motive (fun ts => ∀ t ∈ ts, motive t) node ?_ ?_ t
  · intro t ht
    cases ht
  · intro t ts ht hts s hs
    rcases List.mem_cons.1 hs with rfl | hs
    · exact ht
    · exact hts s hs

def label : RoseTree α → α
  | node a _ => a

def children : RoseTree α → List (RoseTree α)
  | node _ ts => ts

def setLabel (a : α) : RoseTree α → RoseTree α
  | node _ ts => node a ts

def setChildren (ts : List (RoseTree α)) : RoseTree α → RoseTree α
  | node a _ => node a ts

@[simp] theorem label_node (a : α) (ts : List (RoseTree α)) : (node a ts).label = a := rfl

@[simp] theorem children_node (a : α) (ts : List (RoseTree α)) : (node a ts).children = ts := rfl

@[simp] theorem setLabel_node (a b : α) (ts : List (RoseTree α)) :
    (node a ts).setLabel b = node b ts := rfl

@[simp] theorem setChildren_node (a : α) (ts us : List (RoseTree α)) :
    (node a ts).setChildren us = node a us := rfl

@[simp] theorem children_setChildren (t : RoseTree α) (ts : List (RoseTree α)) :
    (t.setChildren ts).children = ts := by
  cases t
  rfl

/-! ## What a tree holds -/

mutual

/-- The labels, each before those of its children. -/
def labels : RoseTree α → List α
  | node a ts => a :: labelsAll ts

def labelsAll : List (RoseTree α) → List α
  | [] => []
  | t :: ts => labels t ++ labelsAll ts

end

theorem labelsAll_eq (ts : List (RoseTree α)) : labelsAll ts = ts.flatMap labels := by
  induction ts with
  | nil => rfl
  | cons t ts ih => rw [labelsAll, ih, List.flatMap_cons]

theorem labels_node (a : α) (ts : List (RoseTree α)) :
    (node a ts).labels = a :: ts.flatMap labels := by
  rw [labels, labelsAll_eq]

theorem label_mem_labels (t : RoseTree α) : t.label ∈ t.labels := by
  cases t
  rw [labels_node]
  exact List.mem_cons_self

/-- The sum of a weight over all labels. -/
def weight (f : α → Nat) (t : RoseTree α) : Nat := (t.labels.map f).sum

theorem weight_node (f : α → Nat) (a : α) (ts : List (RoseTree α)) :
    (node a ts).weight f = f a + (ts.map (weight f)).sum := by
  unfold weight
  rw [labels_node, List.map_cons, List.sum_cons, List.map_flatMap]
  congr 1
  induction ts with
  | nil => rfl
  | cons t ts ih =>
    rw [List.flatMap_cons, List.sum_append, ih, List.map_cons, List.sum_cons]

theorem weight_one (t : RoseTree α) : t.weight (fun _ => 1) = t.labels.length := by
  unfold weight
  rw [List.map_const', List.sum_replicate_nat, Nat.mul_one]

mutual

/-- The tree with every label changed. -/
def map {β : Type} (f : α → β) : RoseTree α → RoseTree β
  | node a ts => node (f a) (mapAll f ts)

def mapAll {β : Type} (f : α → β) : List (RoseTree α) → List (RoseTree β)
  | [] => []
  | t :: ts => map f t :: mapAll f ts

end

theorem mapAll_eq {β : Type} (f : α → β) (ts : List (RoseTree α)) :
    mapAll f ts = ts.map (map f) := by
  induction ts with
  | nil => rfl
  | cons t ts ih => rw [mapAll, ih, List.map_cons]

theorem map_node {β : Type} (f : α → β) (a : α) (ts : List (RoseTree α)) :
    (node a ts).map f = node (f a) (ts.map (map f)) := by
  rw [map, mapAll_eq]

/-- Two changes agree on a tree when they agree on its labels. -/
theorem map_eq_map_iff {β : Type} {f g : α → β} {t : RoseTree α} :
    t.map f = t.map g ↔ ∀ a ∈ t.labels, f a = g a := by
  induction t with
  | node a ts ih =>
    rw [map_node, map_node, labels_node, List.forall_mem_cons, node.injEq, List.map_inj_left]
    refine and_congr_right fun _ => ?_
    constructor
    · intro h b hb
      obtain ⟨t, ht, hbt⟩ := List.mem_flatMap.1 hb
      exact (ih t ht).1 (h t ht) b hbt
    · intro h t ht
      exact (ih t ht).2 fun b hb => h b (List.mem_flatMap_of_mem ht hb)

theorem map_map {β γ : Type} (f : α → β) (g : β → γ) (t : RoseTree α) :
    (t.map f).map g = t.map fun a => g (f a) := by
  induction t with
  | node a ts ih =>
    rw [map_node, map_node, map_node, List.map_map]
    congr 1
    exact List.map_congr_left ih

/-! ## Parts of a tree -/

def get? : List Nat → RoseTree α → Option (RoseTree α)
  | [], t => some t
  | i :: p, node _ ts => ts[i]?.bind (get? p)

def modify : List Nat → (RoseTree α → RoseTree α) → RoseTree α → RoseTree α
  | [], f, t => f t
  | i :: p, f, node a ts => node a (ts.modify i (modify p f))

@[simp] theorem get?_nil (t : RoseTree α) : t.get? [] = some t := by
  cases t
  rfl

@[simp] theorem modify_nil (f : RoseTree α → RoseTree α) (t : RoseTree α) : t.modify [] f = f t := by
  cases t
  rfl

theorem get?_append (p q : List Nat) (t : RoseTree α) :
    t.get? (p ++ q) = (t.get? p).bind (get? q) := by
  induction p generalizing t with
  | nil => rw [List.nil_append, get?_nil, Option.bind_some]
  | cons i p ih =>
    obtain ⟨a, ts⟩ := t
    rw [List.cons_append, get?, get?, Option.bind_assoc]
    congr 1
    funext t
    exact ih t

theorem modify_append (p q : List Nat) (f : RoseTree α → RoseTree α) (t : RoseTree α) :
    t.modify (p ++ q) f = t.modify p (modify q f) := by
  induction p generalizing t with
  | nil => rw [List.nil_append, modify_nil]
  | cons i p ih =>
    obtain ⟨a, ts⟩ := t
    rw [List.cons_append, modify, modify]
    congr 2
    funext t
    exact ih t

theorem modify_modify (p : List Nat) (f g : RoseTree α → RoseTree α) (t : RoseTree α) :
    (t.modify p f).modify p g = t.modify p (fun s => g (f s)) := by
  induction p generalizing t with
  | nil => rw [modify_nil, modify_nil, modify_nil]
  | cons i p ih =>
    obtain ⟨a, ts⟩ := t
    rw [modify, modify, modify, List.modify_modify_eq]
    congr 2
    funext t
    exact ih t

/-- **Changes at addresses that are apart commute.** -/
theorem modify_comm {p q : List Nat} (h : Apart p q) (f g : RoseTree α → RoseTree α)
    (t : RoseTree α) : (t.modify p f).modify q g = (t.modify q g).modify p f := by
  induction p generalizing q t with
  | nil => exact absurd h (not_apart_nil q)
  | cons i p ih =>
    cases q with
    | nil => exact absurd h.symm (not_apart_nil _)
    | cons j q =>
      obtain ⟨a, ts⟩ := t
      rw [modify, modify, modify, modify]
      by_cases hij : i = j
      · subst hij
        rw [List.modify_modify_eq, List.modify_modify_eq]
        congr 2
        funext t
        exact ih (apart_cons_self.1 h) t
      · exact congrArg (node a) (List.modify_modify_ne _ _ _ hij)

theorem get?_modify_self (p : List Nat) (f : RoseTree α → RoseTree α) (t : RoseTree α) :
    (t.modify p f).get? p = (t.get? p).map f := by
  induction p generalizing t with
  | nil => rw [modify_nil, get?_nil, get?_nil, Option.map_some]
  | cons i p ih =>
    obtain ⟨a, ts⟩ := t
    rw [modify, get?, get?, List.getElem?_modify_eq, Option.map_bind, Option.map_eq_map,
      Option.bind_map]
    congr 1
    funext t
    exact ih t

/-- **A change is not seen at an address apart from its own.** -/
theorem get?_modify_of_apart {p q : List Nat} (h : Apart p q) (f : RoseTree α → RoseTree α)
    (t : RoseTree α) : (t.modify p f).get? q = t.get? q := by
  induction p generalizing q t with
  | nil => exact absurd h (not_apart_nil q)
  | cons i p ih =>
    cases q with
    | nil => exact absurd h.symm (not_apart_nil _)
    | cons j q =>
      obtain ⟨a, ts⟩ := t
      rw [modify, get?, get?]
      by_cases hij : i = j
      · subst hij
        rw [List.getElem?_modify_eq, Option.map_eq_map, Option.bind_map]
        congr 1
        funext t
        exact ih (apart_cons_self.1 h) t
      · rw [List.getElem?_modify_ne _ _ hij]

/-- Only what a change does to the part at its address matters. -/
theorem modify_congr {p : List Nat} {f g : RoseTree α → RoseTree α} {t s : RoseTree α}
    (h : t.get? p = some s) (hfg : f s = g s) : t.modify p f = t.modify p g := by
  induction p generalizing t with
  | nil =>
    rw [get?_nil, Option.some_inj] at h
    rw [modify_nil, modify_nil, h, hfg]
  | cons i p ih =>
    obtain ⟨a, ts⟩ := t
    rw [get?] at h
    obtain ⟨c, hc, hs⟩ := Option.bind_eq_some_iff.1 h
    rw [modify, modify]
    congr 1
    apply List.ext_getElem?
    intro j
    by_cases hj : i = j
    · subst hj
      rw [List.getElem?_modify_eq, List.getElem?_modify_eq, hc]
      exact congrArg some (ih hs)
    · rw [List.getElem?_modify_ne _ _ hj, List.getElem?_modify_ne _ _ hj]

/-! ## The children of a part -/

theorem get?_append_singleton {t s : RoseTree α} {p : List Nat} (h : t.get? p = some s) (i : Nat) :
    t.get? (p ++ [i]) = s.children[i]? := by
  obtain ⟨a, ts⟩ := s
  rw [get?_append, h, Option.bind_some, get?, children_node]
  cases ts[i]? with
  | none => rfl
  | some c => exact get?_nil c

/-- No address leads through a part without children. -/
theorem apart_of_children_eq_nil {t s : RoseTree α} {p q : List Nat} (h : t.get? p = some s)
    (hs : s.children = []) (hq : (t.get? q).isSome) (hqp : ¬ q <+: p) : Apart p q := by
  refine ⟨?_, hqp⟩
  rintro ⟨r, rfl⟩
  cases r with
  | nil => exact hqp (by rw [List.append_nil])
  | cons i r =>
    obtain ⟨a, ts⟩ := s
    rw [children_node] at hs
    subst hs
    rw [get?_append, h, Option.bind_some, get?, List.getElem?_nil] at hq
    cases hq

/-- A weight of the children of a part, read by their addresses. -/
theorem sum_get?_children {t s : RoseTree α} {p : List Nat} (h : t.get? p = some s)
    (f : RoseTree α → Nat) :
    ((List.range s.children.length).map fun i => ((t.get? (p ++ [i])).map f).getD 0).sum =
      (s.children.map f).sum := by
  congr 1
  apply List.ext_getElem
  · rw [List.length_map, List.length_map, List.length_range]
  · intro i hi _
    rw [List.length_map, List.length_range] at hi
    rw [List.getElem_map, List.getElem_map, List.getElem_range, get?_append_singleton h,
      List.getElem?_eq_getElem hi, Option.map_some, Option.getD_some]

/-- Exactly one child is on the way to an address behind its part. -/
theorem countP_children {t s : RoseTree α} {p q : List Nat} (h : t.get? p = some s)
    (hq : (t.get? q).isSome) (hpq : p <+: q) (hne : p ≠ q) :
    ((List.range s.children.length).countP fun i => p ++ [i] <+: q) = 1 := by
  obtain ⟨r, rfl⟩ := hpq
  cases r with
  | nil => exact absurd (List.append_nil p).symm hne
  | cons k r =>
    have hk : k < s.children.length := by
      rw [List.append_cons, get?_append, get?_append_singleton h] at hq
      by_contra hk
      rw [List.getElem?_eq_none (Nat.le_of_not_lt hk)] at hq
      cases hq
    have hiff (i : Nat) : p ++ [i] <+: p ++ k :: r ↔ i = k := by
      rw [List.prefix_append_right_inj, List.cons_prefix_cons]
      exact ⟨And.left, fun hi => ⟨hi, List.nil_prefix⟩⟩
    calc (List.range s.children.length).countP (fun i => p ++ [i] <+: p ++ k :: r)
        = (List.range s.children.length).count k := by
          refine List.countP_congr fun i _ => ?_
          rw [decide_eq_true_iff, hiff, beq_iff_eq]
      _ = 1 := List.count_eq_one_of_mem List.nodup_range (List.mem_range.2 hk)

/-- No child of a part beside the way to an address is on it. -/
theorem countP_children_eq_zero {p q : List Nat} (hpq : ¬ p <+: q) (n : Nat) :
    ((List.range n).countP fun i => p ++ [i] <+: q) = 0 := by
  rw [List.countP_eq_zero]
  intro i _ hi
  exact hpq ((List.prefix_append p [i]).trans (of_decide_eq_true hi))

theorem label_mem_labels_of_get? {t s : RoseTree α} {p : List Nat} (h : t.get? p = some s) :
    s.label ∈ t.labels := by
  induction p generalizing t with
  | nil =>
    rw [get?_nil, Option.some_inj] at h
    exact h ▸ label_mem_labels t
  | cons i p ih =>
    obtain ⟨a, ts⟩ := t
    obtain ⟨c, hc, hs⟩ := Option.bind_eq_some_iff.1 h
    rw [labels_node]
    exact List.mem_cons_of_mem a (List.mem_flatMap_of_mem (List.mem_of_getElem? hc) (ih hs))

/-- The edges of a tree, from a label to the label of a child, are of the relation. -/
def Linked (E : α → α → Prop) (t : RoseTree α) : Prop :=
  ∀ p s, t.get? p = some s → ∀ c ∈ s.children, E s.label c.label

theorem linked_node {E : α → α → Prop} {a : α} {ts : List (RoseTree α)} :
    (node a ts).Linked E ↔ ∀ t ∈ ts, E a t.label ∧ t.Linked E := by
  constructor
  · intro h t ht
    obtain ⟨i, hi⟩ := List.getElem?_of_mem ht
    refine ⟨h [] _ (get?_nil _) t ht, fun p s hs => h (i :: p) s ?_⟩
    rw [get?, hi, Option.bind_some, hs]
  · intro h p s hs c hc
    cases p with
    | nil =>
      rw [get?_nil, Option.some_inj] at hs
      subst hs
      exact (h c hc).1
    | cons i p =>
      obtain ⟨t, ht, hs⟩ := Option.bind_eq_some_iff.1 hs
      exact (h t (List.mem_of_getElem? ht)).2 p s hs c hc

/-! ## Changes at many addresses -/

section ModifyAll

variable {β : Type} (g : β → RoseTree α → RoseTree α)

/-- Change the part at every listed address, by what stands next to the address. -/
def modifyAll (q : List (List Nat × β)) (t : RoseTree α) : RoseTree α :=
  q.foldl (fun t x => t.modify x.1 (g x.2)) t

@[simp] theorem modifyAll_nil (t : RoseTree α) : modifyAll g [] t = t := rfl

theorem modifyAll_cons (x : List Nat × β) (q : List (List Nat × β)) (t : RoseTree α) :
    modifyAll g (x :: q) t = modifyAll g q (t.modify x.1 (g x.2)) := rfl

theorem modifyAll_append (q r : List (List Nat × β)) (t : RoseTree α) :
    modifyAll g (q ++ r) t = modifyAll g r (modifyAll g q t) :=
  List.foldl_append

theorem modifyAll_modify {q : List (List Nat × β)} {p : List Nat} (h : ∀ x ∈ q, Apart p x.1)
    (f : RoseTree α → RoseTree α) (t : RoseTree α) :
    modifyAll g q (t.modify p f) = (modifyAll g q t).modify p f := by
  induction q generalizing t with
  | nil => rfl
  | cons x q ih =>
    rw [modifyAll_cons, modifyAll_cons, modify_comm (h x List.mem_cons_self)]
    exact ih (fun y hy => h y (List.mem_cons_of_mem x hy)) _

/-- Changes of the children of one part are a change of that part. -/
theorem modifyAll_children (p : List Nat) (cs : List β) (h : β → RoseTree α)
    (rest : List (RoseTree α)) (t : RoseTree α) :
    modifyAll g (cs.zipIdx.map fun x => (p ++ [x.2], x.1))
        (t.modify p (setChildren (cs.map h ++ rest))) =
      t.modify p (setChildren (cs.map (fun c => g c (h c)) ++ rest)) := by
  -- the children before the index are changed already
  have key : ∀ (cs : List β) (done : List (RoseTree α)),
      modifyAll g ((cs.zipIdx done.length).map fun x => (p ++ [x.2], x.1))
          (t.modify p (setChildren (done ++ (cs.map h ++ rest)))) =
        t.modify p (setChildren (done ++ (cs.map (fun c => g c (h c)) ++ rest))) := by
    intro cs
    induction cs with
    | nil => intro done; rfl
    | cons c cs ih =>
      intro done
      have hstep := ih (done ++ [g c (h c)])
      rw [List.length_append, List.length_singleton, List.append_assoc, List.append_assoc] at hstep
      rw [List.zipIdx_cons, List.map_cons, modifyAll_cons, modify_append, modify_modify]
      refine Eq.trans ?_ hstep
      congr 2
      funext s
      obtain ⟨a, ts⟩ := s
      exact congrArg (node a) (modify_length_append done (h c) (cs.map h ++ rest) (g c))
  exact key cs []

end ModifyAll

end RoseTree

end Potter.Lib
