import Mathlib.Data.List.Sort
import Mathlib.Data.Multiset.Bind

/-!
# Sorting, colouring and dealing out

`Sorter` is an implementation of `std::sort`, which leaves the order of equal elements open.

`greedy` gives every element of a list, in turn, to the first class that holds nothing in conflict
with it, and opens a new class when there is none.

A list dealt out by a key, and the parts put together again, is a permutation of the list
(`deal_perm`).

`pickBest` scans a list for the best element.
-/

namespace Potter.Lib

/-! ## Sorting -/

/-- What a comparison passed to `std::sort` has to satisfy. -/
structure StrictWeakOrder {α : Type} (lt : α → α → Bool) : Prop where
  asymm : ∀ {a b}, lt a b → ¬lt b a
  trans : ∀ {a b c}, ¬lt a b → ¬lt b c → ¬lt a c

/-- An implementation of `std::sort`. -/
structure Sorter where
  sort : {α : Type} → (α → α → Bool) → List α → List α
  perm : ∀ {α : Type} (lt : α → α → Bool) (l : List α), (sort lt l).Perm l
  sorted : ∀ {α : Type} {lt : α → α → Bool} (l : List α), StrictWeakOrder lt →
    (sort lt l).Pairwise fun a b => ¬lt b a

/-- Insertion sort is one. -/
def insertionSorter : Sorter where
  sort lt l := l.insertionSort fun a b => ¬lt b a
  perm _ l := List.perm_insertionSort _ l
  sorted := by
    intro α lt l h
    have htotal : Std.Total fun a b => ¬lt b a :=
      ⟨fun a b => (em (lt b a)).elim (fun hb => .inr (h.asymm hb)) .inl⟩
    have htrans : IsTrans α fun a b => ¬lt b a := ⟨fun a b c hab hbc => h.trans hbc hab⟩
    exact List.pairwise_insertionSort _ l

/-! ## Greedy colouring -/

section Coloring

variable {α : Type} (conflict : α → α → Prop) [DecidableRel conflict]

/-- Give an element to the first class without a conflict. -/
def place (a : α) : List (List α) → List (List α)
  | [] => [[a]]
  | level :: levels =>
    if ∀ b ∈ level, ¬conflict a b then (level ++ [a]) :: levels else level :: place a levels

def greedy (l : List α) : List (List α) := l.foldl (fun levels a => place conflict a levels) []

variable {conflict}

theorem place_perm (a : α) (levels : List (List α)) :
    (place conflict a levels).flatten.Perm (a :: levels.flatten) := by
  induction levels with
  | nil => exact List.Perm.refl _
  | cons level levels ih =>
    unfold place
    split
    · rw [List.flatten_cons, List.flatten_cons, List.append_assoc]
      exact List.perm_middle
    · rw [List.flatten_cons, List.flatten_cons]
      exact (ih.append_left level).trans List.perm_middle

theorem place_pairwise (hsymm : ∀ {a b}, conflict a b → conflict b a) (a : α)
    {levels : List (List α)} (h : ∀ level ∈ levels, level.Pairwise fun a b => ¬conflict a b) :
    ∀ level ∈ place conflict a levels, level.Pairwise fun a b => ¬conflict a b := by
  induction levels with
  | nil =>
    intro level hlevel
    rw [List.mem_singleton.1 hlevel]
    exact List.pairwise_singleton _ _
  | cons level levels ih =>
    have hhead := h level List.mem_cons_self
    have htail := fun l hl => h l (List.mem_cons_of_mem level hl)
    unfold place
    split
    · rename_i hfree
      intro l hl
      rcases List.mem_cons.1 hl with rfl | hl
      · refine List.pairwise_append.2 ⟨hhead, List.pairwise_singleton _ _, ?_⟩
        intro b hb c hc hbc
        rw [List.mem_singleton.1 hc] at hbc
        exact hfree b hb (hsymm hbc)
      · exact htail l hl
    · intro l hl
      rcases List.mem_cons.1 hl with rfl | hl
      · exact hhead
      · exact ih htail l hl

/-- **Every element is in one class.** -/
theorem greedy_perm (l : List α) : (greedy conflict l).flatten.Perm l := by
  have hgen : ∀ levels : List (List α),
      (l.foldl (fun levels a => place conflict a levels) levels).flatten.Perm
        (levels.flatten ++ l) := by
    induction l with
    | nil => intro levels; rw [List.append_nil]; exact List.Perm.refl _
    | cons a l ih =>
      intro levels
      refine (ih (place conflict a levels)).trans ?_
      exact ((place_perm a levels).append_right l).trans List.perm_middle.symm
  exact hgen []

/-- **A class holds no conflict.** -/
theorem greedy_pairwise (hsymm : ∀ {a b}, conflict a b → conflict b a) (l : List α) :
    ∀ level ∈ greedy conflict l, level.Pairwise fun a b => ¬conflict a b := by
  have hgen : ∀ levels : List (List α), (∀ level ∈ levels, level.Pairwise fun a b => ¬conflict a b) →
      ∀ level ∈ l.foldl (fun levels a => place conflict a levels) levels,
        level.Pairwise fun a b => ¬conflict a b := by
    induction l with
    | nil => exact fun _ h => h
    | cons a l ih => exact fun levels h => ih _ (place_pairwise hsymm a h)
  exact hgen [] fun _ h => absurd h List.not_mem_nil

end Coloring

/-! ## Dealing out -/

section Deal

variable {α κ : Type} [DecidableEq κ]

/-- **Dealing a list out by a key loses nothing**, if every key has a part. -/
theorem deal_perm (key : α → κ) {keys : List κ} (hnodup : keys.Nodup) {l : List α}
    (h : ∀ a ∈ l, key a ∈ keys) : (keys.flatMap fun k => l.filter fun a => key a = k).Perm l := by
  induction keys generalizing l with
  | nil =>
    cases l with
    | nil => exact List.Perm.refl _
    | cons a l => exact absurd (h a List.mem_cons_self) List.not_mem_nil
  | cons k keys ih =>
    obtain ⟨hk, hkeys⟩ := List.nodup_cons.1 hnodup
    -- What the first part leaves is dealt out to the others.
    have hrest : (keys.flatMap fun k' => l.filter fun a => key a = k') =
        keys.flatMap fun k' => (l.filter fun a => ¬key a = k).filter fun a => key a = k' := by
      apply List.flatMap_congr
      intro k' hk'
      rw [List.filter_filter]
      apply List.filter_congr
      intro a _
      by_cases ha : key a = k'
      · have hne : ¬key a = k := fun h => hk (h ▸ ha ▸ hk')
        simp [ha, ha ▸ hne]
      · simp [ha]
    have hperm := ih hkeys (l := l.filter fun a => ¬key a = k) fun a ha => by
      obtain ⟨hal, hne⟩ := List.mem_filter.1 ha
      exact (List.mem_cons.1 (h a hal)).resolve_left (of_decide_eq_true hne)
    have hsplit := List.filter_append_perm (fun a => decide (key a = k)) l
    simp only [← decide_not] at hsplit
    rw [List.flatMap_cons, hrest]
    exact (hperm.append_left _).trans hsplit

/-- The order of two nested loops. -/
theorem flatMap_comm_perm {β γ : Type} (as : List α) (bs : List β) (f : α → β → List γ) :
    (as.flatMap fun a => bs.flatMap fun b => f a b).Perm
      (bs.flatMap fun b => as.flatMap fun a => f a b) := by
  have h := Multiset.bind_bind (as : Multiset α) (bs : Multiset β) (f := fun a b => (f a b : Multiset γ))
  simp only [Multiset.coe_bind] at h
  exact Multiset.coe_eq_coe.1 h

end Deal

/-! ## Picking the best -/

section Picking

variable {α κ : Type}

/-- Scan a list for the best value, from a start value on. An element is taken if it is better than
what was found before. -/
def pickBest (better : κ → κ → Bool) (value : α → κ) (start : κ) (l : List α) : Option α :=
  (l.foldl (fun best a => if better (value a) best.2 then (some a, value a) else best)
    ((none : Option α), start)).1

variable {better : κ → κ → Bool} {value : α → κ} {start : κ} {l : List α} {a : α}

theorem pickBest_foldl_mem (best : Option α × κ)
    (h : (l.foldl (fun best a => if better (value a) best.2 then (some a, value a) else best)
      best).1 = some a) : a ∈ l ∨ best.1 = some a := by
  induction l generalizing best with
  | nil => exact .inr h
  | cons b l ih =>
    rw [List.foldl_cons] at h
    rcases ih _ h with hmem | hbest
    · exact .inl (List.mem_cons_of_mem b hmem)
    · split at hbest
      · cases hbest
        exact .inl List.mem_cons_self
      · exact .inr hbest

theorem pickBest_mem (h : pickBest better value start l = some a) : a ∈ l :=
  (pickBest_foldl_mem _ h).resolve_right nofun

/-- What was found is not lost. -/
theorem pickBest_foldl_isSome (l : List α) (best : Option α × κ) (h : best.1.isSome) :
    (l.foldl (fun best a => if better (value a) best.2 then (some a, value a) else best)
      best).1.isSome := by
  induction l generalizing best with
  | nil => exact h
  | cons b l ih =>
    rw [List.foldl_cons]
    refine ih _ ?_
    split
    · rfl
    · exact h

/-- If every value is better than the start, something is found in every list that is not empty. -/
theorem pickBest_isSome_iff (hstart : ∀ a ∈ l, better (value a) start) :
    (pickBest better value start l).isSome ↔ l ≠ [] := by
  cases l with
  | nil => simp [pickBest]
  | cons b l =>
    refine iff_of_true ?_ (List.cons_ne_nil b l)
    unfold pickBest
    rw [List.foldl_cons, if_pos (hstart b List.mem_cons_self)]
    exact pickBest_foldl_isSome l _ rfl

end Picking

end Potter.Lib
