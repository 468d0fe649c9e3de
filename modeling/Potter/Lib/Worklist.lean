import Mathlib.Algebra.BigOperators.Group.List.Basic
import Mathlib.Algebra.GroupWithZero.Nat
import Mathlib.Logic.Relation

/-!
# First-in first-out worklists

A loop that takes the first item of a queue, does a step for it and queues the items the step asks
for at the back. The loop ends when every item is worth more than what its step queues; `run_total`
is the rule of total correctness that follows. `Reach` are the states the loop goes through, the item
that is next first in its queue; the same steps keep an invariant there (`Reach.invariant`).
-/

namespace Potter.Lib.Worklist

variable {S α : Type}

/-- No result when a step stops the program or the fuel runs out. -/
def run (step : S → α → Option (S × List α)) : Nat → S → List α → Option S
  | _, s, [] => some s
  | 0, _, _ :: _ => none
  | fuel + 1, s, a :: q => (step s a).bind fun r => run step fuel r.1 (q ++ r.2)

variable {step : S → α → Option (S × List α)}

/-- What every step keeps, the loop keeps. -/
theorem run_invariant (Inv : S → Prop)
    (hstep : ∀ {s a s' new}, Inv s → step s a = some (s', new) → Inv s') :
    ∀ {fuel : Nat} {s s' : S} {q : List α}, Inv s → run step fuel s q = some s' → Inv s' := by
  intro fuel
  induction fuel with
  | zero =>
    intro s s' q h hrun
    cases q with
    | nil =>
      cases hrun
      exact h
    | cons a q => cases hrun
  | succ fuel ih =>
    intro s s' q h hrun
    cases q with
    | nil =>
      cases hrun
      exact h
    | cons a q =>
      obtain ⟨⟨s₁, new⟩, hone, hrest⟩ := Option.bind_eq_some_iff.1 hrun
      exact ih (hstep h hone) hrest

/-- **An invariant of the loop holds at its end, and the end is reached**, if every step goes on,
keeps the invariant, and queues less than its item is worth. -/
theorem run_total (Inv : S → List α → Prop) (size : α → Nat)
    (hstep : ∀ {s a q}, Inv s (a :: q) → ∃ s' new, step s a = some (s', new) ∧
      Inv s' (q ++ new) ∧ (new.map size).sum < size a) :
    ∀ {fuel : Nat} {s : S} {q : List α}, Inv s q → (q.map size).sum ≤ fuel →
      ∃ s', run step fuel s q = some s' ∧ Inv s' [] := by
  intro fuel
  induction fuel with
  | zero =>
    intro s q h hfuel
    cases q with
    | nil => exact ⟨s, rfl, h⟩
    | cons a q =>
      obtain ⟨s', new, -, -, hlt⟩ := hstep h
      rw [List.map_cons, List.sum_cons] at hfuel
      omega
  | succ fuel ih =>
    intro s q h hfuel
    cases q with
    | nil => exact ⟨s, rfl, h⟩
    | cons a q =>
      obtain ⟨s', new, hrun, hinv, hlt⟩ := hstep h
      rw [List.map_cons, List.sum_cons] at hfuel
      have hle : ((q ++ new).map size).sum ≤ fuel := by
        rw [List.map_append, List.sum_append]
        omega
      obtain ⟨t, ht, hend⟩ := ih hinv hle
      refine ⟨t, ?_, hend⟩
      rw [run, hrun]
      exact ht

/-- Two loops that agree on the items they come to agree. -/
theorem run_congr {step' : S → α → Option (S × List α)} (Q : α → Prop)
    (hstep : ∀ s a, Q a → step s a = step' s a)
    (hnew : ∀ {s a s' new}, Q a → step s a = some (s', new) → ∀ b ∈ new, Q b) :
    ∀ {fuel : Nat} {s : S} {q : List α}, (∀ a ∈ q, Q a) → run step fuel s q = run step' fuel s q := by
  intro fuel
  induction fuel with
  | zero =>
    intro s q _
    cases q <;> rfl
  | succ fuel ih =>
    intro s q hq
    cases q with
    | nil => rfl
    | cons a q =>
      have ha := hq a List.mem_cons_self
      rw [run, run, ← hstep s a ha]
      refine Option.bind_congr fun r hr => ih fun b hb => ?_
      rcases List.mem_append.1 hb with hb | hb
      · exact hq b (List.mem_cons_of_mem a hb)
      · exact hnew ha hr b hb

/-- A result stays, with more fuel and for a step that returns more often. -/
theorem run_mono {step' : S → α → Option (S × List α)}
    (hstep : ∀ {s a r}, step s a = some r → step' s a = some r) :
    ∀ {fuel fuel' : Nat} {s s' : S} {q : List α}, fuel ≤ fuel' → run step fuel s q = some s' →
      run step' fuel' s q = some s' := by
  intro fuel
  induction fuel with
  | zero =>
    intro fuel' s s' q _ hrun
    cases q with
    | nil => cases fuel' <;> exact hrun
    | cons a q => cases hrun
  | succ fuel ih =>
    intro fuel' s s' q hle hrun
    obtain ⟨more, rfl⟩ := Nat.exists_eq_add_of_le' hle
    cases q with
    | nil => exact hrun
    | cons a q =>
      obtain ⟨r, hone, hrest⟩ := Option.bind_eq_some_iff.1 hrun
      exact Option.bind_eq_some_iff.2 ⟨r, hstep hone, ih (Nat.le_add_left fuel more) hrest⟩

/-- One round of the loop. -/
inductive Round (step : S → α → Option (S × List α)) : S × List α → S × List α → Prop
  | mk {s s' : S} {a : α} {q new : List α} (h : step s a = some (s', new)) :
    Round step (s, a :: q) (s', q ++ new)

/-- The loop comes from one state to another. -/
def Reach (step : S → α → Option (S × List α)) : S × List α → S × List α → Prop :=
  Relation.ReflTransGen (Round step)

/-- The result of the loop is the state it ends in. -/
theorem reach_of_run : ∀ {fuel : Nat} {s s' : S} {q : List α}, run step fuel s q = some s' →
    Reach step (s, q) (s', []) := by
  intro fuel
  induction fuel with
  | zero =>
    intro s s' q hrun
    cases q with
    | nil =>
      cases hrun
      exact .refl
    | cons a q => cases hrun
  | succ fuel ih =>
    intro s s' q hrun
    cases q with
    | nil =>
      cases hrun
      exact .refl
    | cons a q =>
      obtain ⟨⟨s₁, new⟩, hone, hrest⟩ := Option.bind_eq_some_iff.1 hrun
      exact .head (.mk hone) (ih hrest)

/-- What every step keeps holds in all states of the loop. -/
theorem Reach.invariant (Inv : S → List α → Prop)
    (hstep : ∀ {s a q}, Inv s (a :: q) → ∃ s' new, step s a = some (s', new) ∧ Inv s' (q ++ new))
    {c c' : S × List α} (h : Reach step c c') (hstart : Inv c.1 c.2) : Inv c'.1 c'.2 := by
  induction h with
  | refl => exact hstart
  | tail _ hround ih =>
    obtain ⟨hone⟩ := hround
    obtain ⟨s', new, hone', hinv⟩ := hstep ih
    cases hone.symm.trans hone'
    exact hinv

end Potter.Lib.Worklist
