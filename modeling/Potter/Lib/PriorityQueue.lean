import Mathlib.Data.List.Perm.Basic
import Mathlib.Order.Basic
import Mathlib.Order.Lattice

/-!
# Priority queues with an unspecified tie order

A queue whose elements carry no key of their own: the comparison reads the keys from a function
given at every operation, as `std::priority_queue` does with a comparator that captures a table.
The contents are a list, whose order is the implementation's (the array of a binary heap, for
example). The laws say what every implementation keeps: nothing is lost or invented, the
operations read only the keys of queued elements, and on a queue built under one key function the
popped element has a smallest key. Which of several smallest elements comes first is left open.
-/

namespace Potter.Lib

/-- The contents a queue can have when all its operations used the keys `c`. -/
inductive BuiltQueue {V K : Type} (push : (V → K) → V → List V → List V)
    (pop : (V → K) → List V → Option (V × List V)) (c : V → K) : List V → Prop
  | nil : BuiltQueue push pop c []
  | push {q : List V} (v : V) : BuiltQueue push pop c q → BuiltQueue push pop c (push c v q)
  | pop {q q' : List V} {v : V} : BuiltQueue push pop c q → pop c q = some (v, q') →
      BuiltQueue push pop c q'

/-- An implementation of a priority queue over keys that live outside it. -/
structure PriorityQueue (V K : Type) [LT K] where
  push : (V → K) → V → List V → List V
  pop : (V → K) → List V → Option (V × List V)
  push_perm : ∀ (c : V → K) (v : V) (q : List V), (push c v q).Perm (v :: q)
  pop_none : ∀ {c : V → K} {q : List V}, pop c q = none ↔ q = []
  pop_perm : ∀ {c : V → K} {q q' : List V} {v : V}, pop c q = some (v, q') → q.Perm (v :: q')
  push_congr : ∀ {c d : V → K} {v : V} {q : List V}, (∀ u ∈ v :: q, c u = d u) →
    push c v q = push d v q
  pop_congr : ∀ {c d : V → K} {q : List V}, (∀ u ∈ q, c u = d u) → pop c q = pop d q
  pop_least : ∀ {c : V → K} {q q' : List V} {v : V}, BuiltQueue push pop c q →
    pop c q = some (v, q') → ∀ u ∈ q, ¬c u < c v

namespace PriorityQueue

variable {V K : Type} [LT K] (Q : PriorityQueue V K)

theorem mem_push {c : V → K} {v u : V} {q : List V} : u ∈ Q.push c v q ↔ u = v ∨ u ∈ q := by
  rw [(Q.push_perm c v q).mem_iff, List.mem_cons]

theorem length_push (c : V → K) (v : V) (q : List V) : (Q.push c v q).length = q.length + 1 := by
  rw [(Q.push_perm c v q).length_eq, List.length_cons]

theorem mem_of_pop {c : V → K} {q q' : List V} {v : V} (h : Q.pop c q = some (v, q')) : v ∈ q :=
  (Q.pop_perm h).mem_iff.2 List.mem_cons_self

theorem mem_of_pop_rest {c : V → K} {q q' : List V} {v u : V} (h : Q.pop c q = some (v, q'))
    (hu : u ∈ q') : u ∈ q :=
  (Q.pop_perm h).mem_iff.2 (List.mem_cons_of_mem v hu)

theorem length_pop {c : V → K} {q q' : List V} {v : V} (h : Q.pop c q = some (v, q')) :
    q.length = q'.length + 1 := by
  rw [(Q.pop_perm h).length_eq, List.length_cons]

end PriorityQueue

/-! ## A queue that scans for the first smallest element -/

section Scan

variable {V K : Type} [LinearOrder K]

/-- The first element with a smallest key, and the others in their order. -/
def popFirst (c : V → K) : List V → Option (V × List V)
  | [] => none
  | v :: q =>
    match popFirst c q with
    | none => some (v, q)
    | some (u, q') => if c u < c v then some (u, v :: q') else some (v, q)

theorem popFirst_none {c : V → K} {q : List V} : popFirst c q = none ↔ q = [] := by
  cases q with
  | nil => simp [popFirst]
  | cons v q =>
    simp only [popFirst, reduceCtorEq, iff_false]
    cases popFirst c q with
    | none => simp
    | some p => dsimp only; split <;> simp

/-- What comes out of a list: its head, or something smaller from behind it. -/
theorem popFirst_cons {c : V → K} {w v : V} {q q' : List V} (h : popFirst c (w :: q) = some (v, q')) :
    (v = w ∧ q' = q ∧ (q = [] ∨ ∃ u r, popFirst c q = some (u, r) ∧ ¬c u < c w)) ∨
      ∃ r, popFirst c q = some (v, r) ∧ c v < c w ∧ q' = w :: r := by
  simp only [popFirst] at h
  cases hp : popFirst c q with
  | none =>
    simp only [hp, Option.some.injEq, Prod.mk.injEq] at h
    exact .inl ⟨h.1.symm, h.2.symm, .inl (popFirst_none.1 hp)⟩
  | some p =>
    obtain ⟨u, r⟩ := p
    simp only [hp] at h
    split at h <;> rename_i hlt <;> simp only [Option.some.injEq, Prod.mk.injEq] at h
    · obtain ⟨rfl, rfl⟩ := h
      exact .inr ⟨r, rfl, hlt, rfl⟩
    · exact .inl ⟨h.1.symm, h.2.symm, .inr ⟨u, r, rfl, hlt⟩⟩

theorem popFirst_perm {c : V → K} : ∀ {q q' : List V} {v : V},
    popFirst c q = some (v, q') → q.Perm (v :: q')
  | [], _, _, h => by simp [popFirst] at h
  | w :: q, q', v, h => by
    rcases popFirst_cons h with ⟨rfl, rfl, -⟩ | ⟨r, hp, -, rfl⟩
    · exact List.Perm.refl _
    · exact ((popFirst_perm hp).cons w).trans (List.Perm.swap v w r)

theorem popFirst_congr {c d : V → K} : ∀ {q : List V}, (∀ u ∈ q, c u = d u) →
    popFirst c q = popFirst d q
  | [], _ => rfl
  | v :: q, h => by
    have hq : popFirst c q = popFirst d q :=
      popFirst_congr fun u hu => h u (List.mem_cons_of_mem v hu)
    simp only [popFirst, hq]
    cases hp : popFirst d q with
    | none => rfl
    | some p =>
      obtain ⟨u, r⟩ := p
      have hu : u ∈ q := (popFirst_perm hp).mem_iff.2 List.mem_cons_self
      dsimp only
      rw [h v List.mem_cons_self, h u (List.mem_cons_of_mem v hu)]

theorem popFirst_least {c : V → K} : ∀ {q q' : List V} {v : V},
    popFirst c q = some (v, q') → ∀ u ∈ q, ¬c u < c v
  | [], _, _, h => by simp [popFirst] at h
  | w :: q, q', v, h => by
    intro u hu
    rcases popFirst_cons h with ⟨rfl, -, rfl | ⟨x, r, hp, hx⟩⟩ | ⟨r, hp, hlt, -⟩
    · rw [List.mem_singleton.1 hu]
      exact lt_irrefl _
    · rcases List.mem_cons.1 hu with rfl | hu
      · exact lt_irrefl _
      · exact fun hlt => popFirst_least hp u hu (lt_of_lt_of_le hlt (not_lt.1 hx))
    · rcases List.mem_cons.1 hu with rfl | hu
      · exact lt_asymm hlt
      · exact popFirst_least hp u hu

/-- The scanning queue: new elements go to the end, the first smallest one comes out. -/
def scanQueue (V K : Type) [LinearOrder K] : PriorityQueue V K where
  push _ v q := q ++ [v]
  pop := popFirst
  push_perm _ v q := List.perm_append_singleton v q
  pop_none := popFirst_none
  pop_perm := popFirst_perm
  push_congr _ := rfl
  pop_congr := popFirst_congr
  pop_least _ h := popFirst_least h

end Scan

end Potter.Lib
