import Mathlib.Data.Fintype.Card
import Mathlib.Data.List.Count
import Mathlib.Data.List.Nodup
import Mathlib.Logic.Function.Basic
import Mathlib.Tactic.Push

/-!
# Peeling a graph

Remove from a graph, round by round, the vertices all of whose successors were removed. Every vertex
has a counter for its successors that are left; when a vertex is removed, the counters of its
predecessors go down, and those that reach zero are removed in the next round. Some vertices are kept
in any case.

If predecessors and successors are listed equally often, the rounds end, remove every vertex at most
once, and remove exactly the least set of vertices that is closed under the rule (`peel_spec`).
-/

namespace Potter.Lib.Peeling

variable {V : Type} [DecidableEq V]

structure Counters (V : Type) where
  alive : V → Bool
  degree : V → Int

section Rounds

variable (preds : V → List V) (keep : V → Bool)

/-- One successor less for `p`; it is listed when that was the last one. -/
def countDown (s : Counters V × List V) (p : V) : Counters V × List V :=
  let degree := Function.update s.1.degree p (s.1.degree p - 1)
  (⟨s.1.alive, degree⟩, if degree p = 0 ∧ keep p = false then s.2 ++ [p] else s.2)

def remove (s : Counters V × List V) (v : V) : Counters V × List V :=
  (preds v).foldl (countDown keep) (⟨Function.update s.1.alive v false, s.1.degree⟩, s.2)

/-- The second component lists the vertices of the next round. -/
def round (c : Counters V) (vs : List V) : Counters V × List V :=
  vs.foldl (remove preds keep) (c, [])

/-- The rounds, until there is nothing left to remove. -/
def peel : Nat → Counters V → List V → Option (List (List V) × Counters V)
  | _, c, [] => some ([], c)
  | 0, _, _ :: _ => none
  | fuel + 1, c, v :: vs => do
    let (c', new) := round preds keep c (v :: vs)
    let (rounds, c'') ← peel fuel c' new
    some ((v :: vs) :: rounds, c'')

end Rounds

/-- The least set that holds every vertex of the graph, apart from the kept ones, whose successors
are all in it. -/
inductive Dead (succs : V → List V) (active keep : V → Bool) : V → Prop
  | intro {v : V} (hactive : active v = true) (hkeep : keep v = false)
      (hsuccs : ∀ w ∈ succs v, Dead succs active keep w) : Dead succs active keep v

/-! ## Counting down -/

section CountDown

variable {keep : V → Bool}

theorem countDown_eq (c : Counters V) (new : List V) (p : V) :
    countDown keep (c, new) p = (⟨c.alive, Function.update c.degree p (c.degree p - 1)⟩,
      if c.degree p = 1 ∧ keep p = false then new ++ [p] else new) := by
  unfold countDown
  dsimp only
  rw [Function.update_self]
  simp only [Int.sub_eq_zero]

/-- The counter of `v`, which is not kept, passes through zero while it goes down for `ps`. -/
def PassesZero (keep : V → Bool) (degree : V → Int) (ps : List V) (v : V) : Prop :=
  keep v = false ∧ 1 ≤ degree v ∧ degree v ≤ ps.count v

theorem passesZero_nil (degree : V → Int) (v : V) : ¬ PassesZero keep degree [] v := by
  rintro ⟨-, h₁, h₂⟩
  rw [List.count_nil] at h₂
  omega

theorem degree_cons (degree : V → Int) (p : V) (ps : List V) (v : V) :
    Function.update degree p (degree p - 1) v - (ps.count v : Int) =
      degree v - ((p :: ps).count v : Int) := by
  by_cases hv : v = p
  · subst hv
    rw [Function.update_self, List.count_cons_self]
    push_cast
    omega
  · rw [Function.update_of_ne hv, List.count_cons_of_ne (Ne.symm hv)]

/-- A counter passes through zero at the first step or later. -/
theorem passesZero_cons (degree : V → Int) (p : V) (ps : List V) (v : V) :
    PassesZero keep degree (p :: ps) v ↔ (v = p ∧ degree p = 1 ∧ keep p = false) ∨
      PassesZero keep (Function.update degree p (degree p - 1)) ps v := by
  unfold PassesZero
  by_cases hv : v = p
  · subst hv
    rw [Function.update_self, List.count_cons_self]
    push_cast
    constructor
    · rintro ⟨hk, h₁, h₂⟩
      by_cases hone : degree v = 1
      · exact .inl ⟨rfl, hone, hk⟩
      · exact .inr ⟨hk, by omega, by omega⟩
    · rintro (⟨-, hone, hk⟩ | ⟨hk, h₁, h₂⟩)
      · exact ⟨hk, by omega, by omega⟩
      · exact ⟨hk, by omega, by omega⟩
  · rw [Function.update_of_ne hv, List.count_cons_of_ne (Ne.symm hv)]
    simp only [hv, false_and, false_or]

/-- The counters go down as often as a vertex is listed, and a vertex is added when its counter
passes through zero. -/
theorem countDown_foldl : ∀ (ps : List V) (c : Counters V) (new : List V),
    ∃ added, ps.foldl (countDown keep) (c, new) =
        (⟨c.alive, fun v => c.degree v - ps.count v⟩, new ++ added) ∧ added.Nodup ∧
      ∀ v, v ∈ added ↔ PassesZero keep c.degree ps v := by
  intro ps
  induction ps with
  | nil =>
    intro c new
    refine ⟨[], ?_, List.nodup_nil, fun v => ?_⟩
    · simp
    · exact iff_of_false List.not_mem_nil (passesZero_nil c.degree v)
  | cons p ps ih =>
    intro c new
    obtain ⟨added, heq, hnodup, hmem⟩ := ih
      ⟨c.alive, Function.update c.degree p (c.degree p - 1)⟩
      (if c.degree p = 1 ∧ keep p = false then new ++ [p] else new)
    dsimp only at heq hmem
    simp only [degree_cons] at heq
    rw [List.foldl_cons, countDown_eq, heq]
    simp only [passesZero_cons]
    by_cases hp : c.degree p = 1 ∧ keep p = false
    · refine ⟨p :: added, ?_, ?_, fun v => ?_⟩
      · rw [if_pos hp, List.append_assoc, List.singleton_append]
      · -- the counter of `p` is at zero, and does not pass through it again
        refine List.nodup_cons.2 ⟨fun hagain => ?_, hnodup⟩
        have hpos := ((hmem p).1 hagain).2.1
        rw [Function.update_self] at hpos
        omega
      · rw [List.mem_cons, hmem, and_iff_left hp]
    · refine ⟨added, ?_, hnodup, fun v => ?_⟩
      · rw [if_neg hp]
      · rw [hmem, or_iff_right fun h => hp h.2]

end CountDown

/-! ## What the rounds preserve -/

section Invariant

variable {succs preds : V → List V} {active keep : V → Bool}

/-- The vertices `done` were removed, the vertices `todo` are listed. -/
structure Peeled (succs : V → List V) (active keep : V → Bool) (done todo : List V)
    (c : Counters V) : Prop where
  nodup : (done ++ todo).Nodup
  dead : ∀ v ∈ done ++ todo, Dead succs active keep v
  alive : ∀ v, c.alive v = true ↔ active v = true ∧ v ∉ done
  degree : ∀ v, c.degree v = ((succs v).countP (· ∉ done) : Nat)
  zero : ∀ v ∈ done ++ todo, c.degree v = 0
  complete : ∀ v, active v = true → keep v = false → c.degree v = 0 → v ∈ done ++ todo

theorem countP_not_mem_append {l done : List V} {v : V} (hv : v ∉ done) :
    l.countP (· ∉ done ++ [v]) + l.count v = l.countP (· ∉ done) := by
  induction l with
  | nil => rfl
  | cons w l ih =>
    by_cases hw : w = v
    · subst hw
      rw [List.countP_cons_of_neg, List.countP_cons_of_pos, List.count_cons_self, ← ih]
      · omega
      · exact decide_eq_true hv
      · simp
    · rw [List.count_cons_of_ne hw, List.countP_cons, List.countP_cons, ← ih]
      simp only [List.mem_append, List.mem_singleton, hw, or_false]
      omega

variable (hcount : ∀ v w, (preds w).count v = (succs v).count w)
  (hactive : ∀ v, succs v ≠ [] → active v = true)
include hcount hactive

omit hactive in
/-- The successors that are left once `v` is removed, too. -/
theorem Peeled.degree_remove {done todo : List V} {v : V} {c : Counters V}
    (h : Peeled succs active keep done (v :: todo) c) (u : V) :
    c.degree u - ((preds v).count u : Int) = ((succs u).countP (· ∉ done ++ [v]) : Nat) := by
  have hv : v ∉ done := fun hmem =>
    (List.nodup_append.1 h.nodup).2.2 v hmem v List.mem_cons_self rfl
  rw [h.degree, hcount, ← countP_not_mem_append hv]
  push_cast
  omega

omit hcount in
/-- A vertex whose last successors were removed follows them. -/
theorem Peeled.dead_of_zero {done todo : List V} {v u : V} {c : Counters V}
    (h : Peeled succs active keep done (v :: todo) c) (hkeep : keep u = false)
    (hpos : 1 ≤ c.degree u) (hzero : (succs u).countP (· ∉ done ++ [v]) = 0) :
    Dead succs active keep u := by
  have hne : succs u ≠ [] := by
    intro hnil
    have hdegree := h.degree u
    rw [hnil, List.countP_nil] at hdegree
    omega
  refine .intro (hactive u hne) hkeep fun w hw => ?_
  have hall := List.countP_eq_zero.1 hzero w hw
  rw [decide_eq_true_eq, not_not] at hall
  rcases List.mem_append.1 hall with hw | hw
  · exact h.dead w (List.mem_append_left _ hw)
  · rw [List.mem_singleton.1 hw]
    exact h.dead v (List.mem_append_right _ List.mem_cons_self)

/-- **Removing a listed vertex** lists exactly the vertices it was the last successor of. -/
theorem Peeled.remove {done todo new : List V} {v : V} {c : Counters V}
    (h : Peeled succs active keep done (v :: todo ++ new) c) :
    ∃ c' new', remove preds keep (c, new) v = (c', new') ∧
      Peeled succs active keep (done ++ [v]) (todo ++ new') c' := by
  obtain ⟨added, heq, hnodup, hmem⟩ := @countDown_foldl V _ keep (preds v)
    ⟨Function.update c.alive v false, c.degree⟩ new
  refine ⟨_, _, heq, ?_⟩
  dsimp only at hmem
  have hdegree := h.degree_remove hcount
  -- a vertex that is listed now had successors left before, and has none any more
  have hadded : ∀ u, u ∈ added → keep u = false ∧ 1 ≤ c.degree u ∧
      c.degree u - ((preds v).count u : Int) = 0 := by
    intro u hu
    obtain ⟨hk, h₁, h₂⟩ := (hmem u).1 hu
    have hnonneg := hdegree u
    exact ⟨hk, h₁, by omega⟩
  have hmem' : ∀ u, u ∈ (done ++ [v]) ++ (todo ++ (new ++ added)) ↔
      u ∈ done ++ (v :: todo ++ new) ∨ u ∈ added := by
    intro u
    simp only [List.mem_append, List.mem_cons]
    tauto
  refine ⟨?nodup, ?dead, ?alive, hdegree, ?zero, ?complete⟩
  case nodup =>
    have hperm : ((done ++ [v]) ++ (todo ++ (new ++ added))).Perm
        ((done ++ (v :: todo ++ new)) ++ added) := by
      simp
    rw [hperm.nodup_iff]
    refine List.nodup_append.2 ⟨h.nodup, hnodup, ?_⟩
    rintro u hu _ hu' rfl
    have hzero := h.zero u hu
    have hpos := (hadded u hu').2.1
    omega
  case dead =>
    intro u hu
    rcases (hmem' u).1 hu with hu | hu
    · exact h.dead u hu
    · obtain ⟨hkeep, hpos, hzero⟩ := hadded u hu
      rw [hdegree] at hzero
      exact h.dead_of_zero hactive hkeep hpos (Int.ofNat_eq_zero.1 hzero)
  case alive =>
    intro u
    dsimp only
    rw [List.mem_append, List.mem_singleton]
    by_cases hu : u = v
    · subst hu
      rw [Function.update_self]
      simp
    · rw [Function.update_of_ne hu, h.alive]
      simp [hu]
  case zero =>
    intro u hu
    dsimp only
    rcases (hmem' u).1 hu with hu | hu
    · have hzero := h.zero u hu
      have hnonneg := hdegree u
      omega
    · exact (hadded u hu).2.2
  case complete =>
    intro u hua huk hzero
    dsimp only at hzero
    rw [hmem']
    by_cases hold : c.degree u = 0
    · exact Or.inl (h.complete u hua huk hold)
    · have hnonneg := h.degree u
      exact Or.inr ((hmem u).2 ⟨huk, by omega, by omega⟩)

/-- A round removes all listed vertices. -/
theorem Peeled.round {done vs : List V} {c : Counters V}
    (h : Peeled succs active keep done vs c) :
    ∃ c' new, round preds keep c vs = (c', new) ∧
      Peeled succs active keep (done ++ vs) new c' := by
  have key : ∀ (vs done new : List V) (c : Counters V),
      Peeled succs active keep done (vs ++ new) c →
      ∃ c' new', vs.foldl (Peeling.remove preds keep) (c, new) = (c', new') ∧
        Peeled succs active keep (done ++ vs) new' c' := by
    intro vs
    induction vs with
    | nil =>
      intro done new c h
      refine ⟨c, new, rfl, ?_⟩
      rw [List.append_nil]
      exact h
    | cons v vs ih =>
      intro done new c h
      obtain ⟨c₁, new₁, hremove, h₁⟩ := Peeled.remove hcount hactive h
      obtain ⟨c₂, new₂, hfold, h₂⟩ := ih (done ++ [v]) new₁ c₁ h₁
      refine ⟨c₂, new₂, ?_, ?_⟩
      · rw [List.foldl_cons, hremove, hfold]
      · rw [List.append_assoc, List.singleton_append] at h₂
        exact h₂
  have hstart : Peeled succs active keep done (vs ++ []) c := by
    rw [List.append_nil]
    exact h
  exact key vs done [] c hstart

/-- Every round removes a vertex, so there are no more rounds than vertices. -/
theorem Peeled.peel [Fintype V] : ∀ {fuel : Nat} {done vs : List V} {c : Counters V},
    Peeled succs active keep done vs c → Fintype.card V ≤ fuel + done.length →
    ∃ rounds c', Peeling.peel preds keep fuel c vs = some (rounds, c') ∧
      Peeled succs active keep (done ++ rounds.flatten) [] c' := by
  intro fuel
  induction fuel with
  | zero =>
    intro done vs c h hfuel
    cases vs with
    | nil => exact ⟨[], c, rfl, by rw [List.flatten_nil, List.append_nil]; exact h⟩
    | cons v vs =>
      have hle := h.nodup.length_le_card
      rw [List.length_append, List.length_cons] at hle
      omega
  | succ fuel ih =>
    intro done vs c h hfuel
    cases vs with
    | nil => exact ⟨[], c, rfl, by rw [List.flatten_nil, List.append_nil]; exact h⟩
    | cons v vs =>
      obtain ⟨c₁, new, hround, h₁⟩ := Peeled.round hcount hactive h
      have hfuel' : Fintype.card V ≤ fuel + (done ++ v :: vs).length := by
        rw [List.length_append, List.length_cons]
        omega
      obtain ⟨rounds, c₂, hpeel, h₂⟩ := ih h₁ hfuel'
      refine ⟨(v :: vs) :: rounds, c₂, ?_, ?_⟩
      · rw [Peeling.peel, hround]
        dsimp only
        rw [hpeel, Option.bind_eq_bind, Option.bind_some]
      · rw [List.flatten_cons, ← List.append_assoc]
        exact h₂

omit hcount hactive in
/-- At the end nothing of the least set is left. -/
theorem Peeled.mem_done_iff {done : List V} {c : Counters V}
    (h : Peeled succs active keep done [] c) (v : V) : v ∈ done ↔ Dead succs active keep v := by
  constructor
  · intro hv
    exact h.dead v (List.mem_append_left _ hv)
  · intro hv
    induction hv with
    | @intro u hactive hkeep _ ih =>
      have hzero : c.degree u = 0 := by
        rw [h.degree, Int.ofNat_eq_zero, List.countP_eq_zero]
        intro w hw hnot
        exact of_decide_eq_true hnot (ih w hw)
      have hmem := h.complete u hactive hkeep hzero
      rw [List.append_nil] at hmem
      exact hmem

/-- **Peeling ends, removes no vertex twice, lets no counter fall below zero, and removes exactly the
least set.** -/
theorem peel_spec [Fintype V] {vs : List V} {c : Counters V}
    (h : Peeled succs active keep [] vs c) {fuel : Nat} (hfuel : Fintype.card V ≤ fuel) :
    ∃ rounds c', peel preds keep fuel c vs = some (rounds, c') ∧ rounds.flatten.Nodup ∧
      (∀ v, v ∈ rounds.flatten ↔ Dead succs active keep v) ∧
      (∀ v, c'.alive v = true ↔ active v = true ∧ ¬ Dead succs active keep v) ∧
      ∀ v, 0 ≤ c'.degree v := by
  obtain ⟨rounds, c', hpeel, hend⟩ := Peeled.peel hcount hactive h hfuel
  rw [List.nil_append] at hend
  refine ⟨rounds, c', hpeel, ?_, hend.mem_done_iff, fun v => ?_, fun v => ?_⟩
  · have hnodup := hend.nodup
    rw [List.append_nil] at hnodup
    exact hnodup
  · rw [hend.alive, hend.mem_done_iff]
  · rw [hend.degree]
    exact Int.natCast_nonneg _

end Invariant

end Potter.Lib.Peeling
