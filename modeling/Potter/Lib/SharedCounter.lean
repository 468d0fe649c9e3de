import Mathlib.Algebra.BigOperators.Group.Finset.Basic
import Mathlib.Algebra.BigOperators.Group.Multiset.Basic
import Mathlib.Algebra.Order.BigOperators.Group.Finset
import Mathlib.Data.Fintype.Card
import Mathlib.Data.Nat.Nth
import Mathlib.Logic.Relation

/-!
# Workers that share a counter

Every worker takes the next ticket from a shared counter, handles it, and comes back for another; a
ticket that is past the last one makes the worker stop. Taking a ticket is one atomic turn, handling
it another, so between the two the other workers may take any number of turns.

What a run has done is known from the number `k` of tickets taken (`Dealt`): the first `k` tickets
are handled, held by a worker, or have stopped one. Once all workers have stopped, `k` no longer
depends on the run: it is the least number of tickets among which every worker finds one to stop at
(`Run.spec`). All runs end if there is such a number (`Dealt.acc`, `Run.exists_stopped`).

No order is assumed on the tickets, and a ticket may come twice; a counter that wraps around is an
instance.
-/

namespace Potter.Lib.SharedCounter

/-- Where a worker is in its loop. -/
inductive Phase (α : Type)
  | fetching
  | holding (ticket : α)
  | stopped

structure State (W α : Type) where
  next : α
  phase : W → Phase α
  handled : List α

section Definitions

variable {W α : Type}

def State.start (first : α) : State W α := ⟨first, fun _ => .fetching, []⟩

def State.AllStopped (s : State W α) : Prop := ∀ w, s.phase w = .stopped

variable [DecidableEq W] (succ : α → α) (past : α → Prop) [DecidablePred past]

/-- The next turn of a worker. -/
def turn (s : State W α) (w : W) : Option (State W α) :=
  match s.phase w with
  | .fetching =>
    some { s with next := succ s.next, phase := Function.update s.phase w (.holding s.next) }
  | .holding a =>
    if past a then some { s with phase := Function.update s.phase w .stopped }
    else some { s with
      phase := Function.update s.phase w .fetching
      handled := s.handled ++ [a] }
  | .stopped => none

/-- Worker `w` goes from one phase to another, and no other worker moves. -/
structure Moves (s s' : State W α) (w : W) (before after : Phase α) : Prop where
  before : s.phase w = before
  after : s'.phase = Function.update s.phase w after

/-- Some worker takes its turn. -/
def Step (s s' : State W α) : Prop := ∃ w, turn succ past s w = some s'

/-- The turns of all workers, in any order. -/
def Run : State W α → State W α → Prop := Relation.ReflTransGen (Step succ past)

/-- The tickets that do not stop a worker, among the first `k`. -/
def jobs (first : α) (k : Nat) : List α :=
  ((List.range k).map fun i => succ^[i] first).filter fun a => ¬ past a

/-- How many of the first `k` tickets stop a worker. -/
def ends (first : α) (k : Nat) : Nat := Nat.count (fun i => past (succ^[i] first)) k

/-- The ticket a worker is about to handle. -/
def Phase.pending : Phase α → Multiset α
  | .holding a => if past a then 0 else {a}
  | _ => 0

/-- A worker that has its last ticket counts one. -/
def Phase.over : Phase α → Nat
  | .fetching => 0
  | .holding a => if past a then 1 else 0
  | .stopped => 1

/-- What is left to do for a worker before it comes back to the counter or stops. -/
def Phase.busy : Phase α → Nat
  | .holding _ => 1
  | _ => 0

end Definitions

section Phases

variable {α : Type} {past : α → Prop} [DecidablePred past] {a : α}

@[simp] theorem pending_fetching : (Phase.fetching : Phase α).pending past = 0 := rfl

@[simp] theorem pending_stopped : (Phase.stopped : Phase α).pending past = 0 := rfl

theorem pending_of_past (h : past a) : (Phase.holding a).pending past = 0 := if_pos h

theorem pending_of_not_past (h : ¬ past a) : (Phase.holding a).pending past = {a} := if_neg h

@[simp] theorem over_fetching : (Phase.fetching : Phase α).over past = 0 := rfl

@[simp] theorem over_stopped : (Phase.stopped : Phase α).over past = 1 := rfl

theorem over_of_past (h : past a) : (Phase.holding a).over past = 1 := if_pos h

theorem over_of_not_past (h : ¬ past a) : (Phase.holding a).over past = 0 := if_neg h

theorem over_le_one (p : Phase α) : p.over past ≤ 1 := by
  cases p with
  | fetching => exact Nat.zero_le 1
  | holding a =>
    by_cases h : past a
    · rw [over_of_past h]
    · rw [over_of_not_past h]
      exact Nat.zero_le 1
  | stopped => exact le_rfl

end Phases

section Turns

variable {W α : Type} [DecidableEq W] {succ : α → α} {past : α → Prop} [DecidablePred past]
  {s s' : State W α} {w : W}

/-- What one turn can do: fetch a ticket, stop at it, or handle it. -/
theorem turn_cases (h : turn succ past s w = some s') :
    (Moves s s' w .fetching (.holding s.next) ∧ s'.next = succ s.next ∧ s'.handled = s.handled) ∨
    (∃ a, past a ∧ Moves s s' w (.holding a) .stopped ∧ s'.next = s.next ∧
      s'.handled = s.handled) ∨
    ∃ a, ¬ past a ∧ Moves s s' w (.holding a) .fetching ∧ s'.next = s.next ∧
      s'.handled = s.handled ++ [a] := by
  unfold turn at h
  split at h
  · next hphase =>
    cases h
    exact .inl ⟨⟨hphase, rfl⟩, rfl, rfl⟩
  · next a hphase =>
    split at h
    · next hpast =>
      cases h
      exact .inr (.inl ⟨a, hpast, ⟨hphase, rfl⟩, rfl, rfl⟩)
    · next hpast =>
      cases h
      exact .inr (.inr ⟨a, hpast, ⟨hphase, rfl⟩, rfl, rfl⟩)
  · cases h

/-- Only a stopped worker has no turn. -/
theorem exists_step (h : ¬ s.AllStopped) : ∃ s', Step succ past s s' := by
  obtain ⟨w, hw⟩ := not_forall.1 h
  suffices hsome : (turn succ past s w).isSome by
    obtain ⟨s', hturn⟩ := Option.isSome_iff_exists.1 hsome
    exact ⟨s', w, hturn⟩
  unfold turn
  split
  · rfl
  · split <;> rfl
  · next hphase => exact absurd hphase hw

/-- A sum over the workers when one of them moves. -/
theorem Moves.sum [Fintype W] {M : Type} [AddCommMonoid M] {p q : Phase α} (h : Moves s s' w p q)
    (f : Phase α → M) : ∑ x, f (s'.phase x) + f p = ∑ x, f (s.phase x) + f q := by
  rw [← Finset.add_sum_erase _ (fun x => f (s'.phase x)) (Finset.mem_univ w),
    ← Finset.add_sum_erase _ (fun x => f (s.phase x)) (Finset.mem_univ w), h.before, h.after,
    Function.update_self]
  have hrest : ∑ x ∈ Finset.univ.erase w, f (Function.update s.phase w q x) =
      ∑ x ∈ Finset.univ.erase w, f (s.phase x) := by
    refine Finset.sum_congr rfl fun x hx => ?_
    rw [Function.update_of_ne (Finset.ne_of_mem_erase hx)]
  rw [hrest, add_comm (f q), add_right_comm, add_comm _ (f p)]

end Turns

section Runs

variable {W α : Type} [Fintype W] (succ : α → α) (past : α → Prop) [DecidablePred past] (first : α)

/-- `k` tickets have been taken, each of them when some worker had not had its last. -/
structure Dealt (k : Nat) (s : State W α) : Prop where
  next : s.next = succ^[k] first
  jobs : (jobs succ past first k : Multiset α) =
    (s.handled : Multiset α) + ∑ w, (s.phase w).pending past
  ends : ends succ past first k = ∑ w, (s.phase w).over past
  needed : ∀ j < k, SharedCounter.ends succ past first j < Fintype.card W

variable {succ past first}

theorem jobs_succ (k : Nat) : (jobs succ past first (k + 1) : Multiset α) =
    (jobs succ past first k : Multiset α) + (Phase.holding (succ^[k] first)).pending past := by
  unfold jobs
  rw [List.range_succ, List.map_append, List.filter_append, ← Multiset.coe_add, List.map_singleton,
    List.filter_singleton]
  by_cases hpast : past (succ^[k] first)
  · rw [pending_of_past hpast]
    simp [hpast]
  · rw [pending_of_not_past hpast]
    simp [hpast]

theorem ends_succ (k : Nat) : ends succ past first (k + 1) =
    ends succ past first k + (Phase.holding (succ^[k] first)).over past := Nat.count_succ _ k

theorem dealt_start : Dealt succ past first 0 (State.start first : State W α) where
  next := rfl
  jobs := by simp [State.start, jobs]
  ends := by simp [State.start, ends]
  needed := fun j hj => absurd hj (Nat.not_lt_zero j)

/-- Not every worker has had its last ticket while one of them is fetching. -/
theorem sum_over_lt_card {s : State W α} {w : W} (hw : s.phase w = .fetching) :
    ∑ w, (s.phase w).over past < Fintype.card W := by
  have hlt : (s.phase w).over past < 1 := by
    rw [hw]
    exact Nat.zero_lt_one
  calc ∑ w, (s.phase w).over past
      < ∑ _w : W, 1 :=
        Finset.sum_lt_sum (fun x _ => over_le_one _) ⟨w, Finset.mem_univ w, hlt⟩
    _ = Fintype.card W := by rw [← Finset.card_eq_sum_ones, Finset.card_univ]

namespace Dealt

variable {k : Nat} {s s' : State W α} {w : W}

/-- No more tickets are taken than it takes to stop every worker. -/
theorem le_of_ends (h : Dealt succ past first k s) {K : Nat}
    (hK : SharedCounter.ends succ past first K = Fintype.card W) : k ≤ K := by
  by_contra hlt
  exact absurd hK (h.needed K (not_le.1 hlt)).ne

/-- When all workers have stopped, every ticket taken was handled or stopped one of them. -/
theorem of_allStopped (h : Dealt succ past first k s) (hstop : s.AllStopped) :
    SharedCounter.ends succ past first k = Fintype.card W ∧
      s.handled.Perm (SharedCounter.jobs succ past first k) := by
  have hends := h.ends
  have hjobs := h.jobs
  simp only [hstop _, over_stopped, pending_stopped, Finset.sum_const_zero, add_zero] at hends hjobs
  refine ⟨?_, (Multiset.coe_eq_coe.1 hjobs).symm⟩
  rw [hends, ← Finset.card_eq_sum_ones, Finset.card_univ]

variable [DecidableEq W]

theorem fetch (h : Dealt succ past first k s) (hmove : Moves s s' w .fetching (.holding s.next))
    (hnext : s'.next = succ s.next) (hhandled : s'.handled = s.handled) :
    Dealt succ past first (k + 1) s' where
  next := by rw [hnext, h.next, Function.iterate_succ_apply']
  jobs := by
    have hsum := hmove.sum (Phase.pending past)
    rw [pending_fetching, add_zero] at hsum
    rw [jobs_succ, h.jobs, hsum, hhandled, ← h.next, add_assoc]
  ends := by
    have hsum := hmove.sum (Phase.over past)
    rw [over_fetching, add_zero] at hsum
    rw [ends_succ, h.ends, hsum, ← h.next]
  needed j hj := by
    rcases Nat.lt_succ_iff_lt_or_eq.1 hj with hj | rfl
    · exact h.needed j hj
    · rw [h.ends]
      exact sum_over_lt_card hmove.before

theorem stop (h : Dealt succ past first k s) {a : α} (hpast : past a)
    (hmove : Moves s s' w (.holding a) .stopped) (hnext : s'.next = s.next)
    (hhandled : s'.handled = s.handled) : Dealt succ past first k s' where
  next := hnext.trans h.next
  jobs := by
    have hsum := hmove.sum (Phase.pending past)
    rw [pending_of_past hpast, pending_stopped, add_zero, add_zero] at hsum
    rw [h.jobs, hhandled, hsum]
  ends := by
    have hsum := hmove.sum (Phase.over past)
    rw [over_of_past hpast, over_stopped, Nat.add_right_cancel_iff] at hsum
    rw [h.ends, hsum]
  needed := h.needed

theorem handle (h : Dealt succ past first k s) {a : α} (hpast : ¬ past a)
    (hmove : Moves s s' w (.holding a) .fetching) (hnext : s'.next = s.next)
    (hhandled : s'.handled = s.handled ++ [a]) : Dealt succ past first k s' where
  next := hnext.trans h.next
  jobs := by
    have hsum := hmove.sum (Phase.pending past)
    rw [pending_of_not_past hpast, pending_fetching, add_zero] at hsum
    rw [h.jobs, hhandled, ← hsum, ← Multiset.coe_add, Multiset.coe_singleton, add_assoc,
      add_comm _ ({a} : Multiset α)]
  ends := by
    have hsum := hmove.sum (Phase.over past)
    rw [over_of_not_past hpast, over_fetching, add_zero, add_zero] at hsum
    rw [h.ends, hsum]
  needed := h.needed

/-- A worker takes a ticket, or is done with the one it has. -/
theorem turn (h : Dealt succ past first k s) (hturn : turn succ past s w = some s') :
    (Dealt succ past first (k + 1) s' ∧
      ∑ w, (s'.phase w).busy = ∑ w, (s.phase w).busy + 1) ∨
    (Dealt succ past first k s' ∧ ∑ w, (s'.phase w).busy + 1 = ∑ w, (s.phase w).busy) := by
  rcases turn_cases hturn with ⟨hmove, hnext, hhandled⟩ | ⟨a, hpast, hmove, hnext, hhandled⟩ |
    ⟨a, hpast, hmove, hnext, hhandled⟩
  · exact .inl ⟨h.fetch hmove hnext hhandled, hmove.sum Phase.busy⟩
  · exact .inr ⟨h.stop hpast hmove hnext hhandled, hmove.sum Phase.busy⟩
  · exact .inr ⟨h.handle hpast hmove hnext hhandled, hmove.sum Phase.busy⟩

theorem run (h : Dealt succ past first k s) (hrun : Run succ past s s') :
    ∃ k', Dealt succ past first k' s' := by
  induction hrun with
  | refl => exact ⟨k, h⟩
  | tail _ hstep ih =>
    obtain ⟨k', h'⟩ := ih
    obtain ⟨w, hturn⟩ := hstep
    rcases h'.turn hturn with ⟨h'', -⟩ | ⟨h'', -⟩
    · exact ⟨k' + 1, h''⟩
    · exact ⟨k', h''⟩

/-- Every turn leaves less to do, so every run ends. -/
theorem acc {K : Nat} (hK : SharedCounter.ends succ past first K = Fintype.card W)
    (h : Dealt succ past first k s) : Acc (fun s' s => Step succ past s s') s := by
  -- a ticket not yet taken is worth two turns: its fetch and what follows it
  generalize hn : 2 * (K - k) + ∑ w, (s.phase w).busy = n
  induction n using Nat.strongRecOn generalizing k s with
  | ind n ih =>
    refine ⟨_, fun s' hstep => ?_⟩
    obtain ⟨w, hturn⟩ := hstep
    rcases h.turn hturn with ⟨h', hbusy⟩ | ⟨h', hbusy⟩
    · have hle := h'.le_of_ends hK
      exact ih _ (by omega) h' rfl
    · exact ih _ (by omega) h' rfl

end Dealt

variable [DecidableEq W] {s : State W α}

/-- **Every run that ends has handled the same tickets**: those that do not stop a worker, among the
first so many that every worker finds one to stop at. -/
theorem Run.spec (hrun : Run succ past (State.start first) s) (hstop : s.AllStopped) :
    ∃ k, ends succ past first k = Fintype.card W ∧
      (∀ j < k, ends succ past first j < Fintype.card W) ∧
      s.handled.Perm (jobs succ past first k) := by
  obtain ⟨k, h⟩ := dealt_start.run hrun
  obtain ⟨hends, hperm⟩ := h.of_allStopped hstop
  exact ⟨k, hends, h.needed, hperm⟩

/-- **Every run can be continued until all workers have stopped.** -/
theorem Run.exists_stopped (hinf : Set.Infinite {i | past (succ^[i] first)})
    (hrun : Run succ past (State.start first) s) :
    ∃ s', Run succ past s s' ∧ s'.AllStopped := by
  have hK : ends succ past first (Nat.nth (fun i => past (succ^[i] first)) (Fintype.card W)) =
      Fintype.card W := Nat.count_nth_of_infinite hinf _
  obtain ⟨k, h⟩ := dealt_start.run hrun
  clear hrun
  induction h.acc hK generalizing k with
  | intro s _ ih =>
    by_cases hstop : s.AllStopped
    · exact ⟨s, .refl, hstop⟩
    · obtain ⟨s₁, hstep⟩ : ∃ s₁, Step succ past s s₁ := exists_step hstop
      obtain ⟨k₁, h₁⟩ := h.run (.single hstep)
      obtain ⟨s', hrun, hstop⟩ := ih s₁ hstep k₁ h₁
      exact ⟨s', .head hstep hrun, hstop⟩

end Runs

end Potter.Lib.SharedCounter
