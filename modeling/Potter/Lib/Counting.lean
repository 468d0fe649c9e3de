import Mathlib.Algebra.BigOperators.Group.List.Basic
import Mathlib.Algebra.GroupWithZero.Nat
import Mathlib.Algebra.Order.BigOperators.Group.List
import Mathlib.Data.Int.Cast.Lemmas
import Mathlib.Data.List.Count
import Mathlib.Data.List.Forall2
import Mathlib.Data.List.Nodup

/-!
# Sums and counts over lists

How a sum changes with one of its terms (`sum_map_replace`) and when two sums of comparable terms agree
(`sum_eq_iff`); counting the same pairs from both sides (`sum_map_sum_comm`, `countP_mem_pairs`); and
lists that are put together from parts (`countP_mem_eq_one`) or have one entry for every index.
-/

namespace Potter.Lib

/-! ## Sums -/

/-- Replacing the value of one element of a list in a sum. -/
theorem sum_map_replace {α : Type} {f g : α → Nat} {a : α} (h : ∀ b, b ≠ a → g b = f b) :
    ∀ {l : List α}, l.Nodup → a ∈ l → (l.map g).sum + f a = (l.map f).sum + g a
  | [], _, ha => by cases ha
  | b :: l, hnd, ha => by
    rw [List.nodup_cons] at hnd
    simp only [List.map_cons, List.sum_cons]
    by_cases hb : b = a
    · subst hb
      have hl : l.map g = l.map f := List.map_congr_left fun x hx => h x (fun e => hnd.1 (e ▸ hx))
      rw [hl]
      omega
    · have hal : a ∈ l := (List.mem_cons.1 ha).resolve_left fun e => hb e.symm
      have ih := sum_map_replace h hnd.2 hal
      rw [h b hb]
      omega

theorem sum_map_sum_comm {α β : Type} (f : α → β → Nat) (l : List α) (m : List β) :
    (l.map fun a => (m.map fun b => f a b).sum).sum =
      (m.map fun b => (l.map fun a => f a b).sum).sum := by
  induction l with
  | nil => simp
  | cons a l ih => simp only [List.map_cons, List.sum_cons, List.sum_map_add, ih]

/-! ## Counts -/

/-- How many entries of `l` are listed with `t`: every listed pair counts its own. -/
theorem countP_mem_pairs {α β : Type} [DecidableEq α] [DecidableEq β] (t : α) (l : List β)
    {ps : List (α × β)} (hps : ps.Nodup) :
    l.countP (fun i => (t, i) ∈ ps) =
      (ps.map fun p => if p.1 = t then l.count p.2 else 0).sum := by
  induction ps with
  | nil => simp
  | cons p ps ih =>
    obtain ⟨hp, hps⟩ := List.nodup_cons.1 hps
    rw [List.map_cons, List.sum_cons, ← ih hps]
    clear ih
    -- an entry is listed as `p` or later, not both
    induction l with
    | nil => simp
    | cons i l ih =>
      rw [List.countP_cons, List.countP_cons, ih, List.count_cons]
      by_cases hi : (t, i) = p
      · subst hi
        simp only [List.mem_cons, true_or, decide_true, if_true, beq_self_eq_true, hp, decide_false,
          Bool.false_eq_true, if_false]
        omega
      · have hne : p.1 = t → ¬i = p.2 := by
          rintro rfl rfl
          exact hi rfl
        simp only [List.mem_cons, hi, false_or, beq_iff_eq]
        by_cases ht : p.1 = t
        · rw [if_pos ht, if_pos ht, if_neg (hne ht)]
          omega
        · rw [if_neg ht, if_neg ht]
          omega

/-- A list that holds an element once holds it in one of its parts. -/
theorem countP_mem_eq_one {α β : Type} [DecidableEq β] (f : α → List β) (b : β)
    (l : List α) (h : (l.flatMap f).count b = 1) : l.countP (fun a => b ∈ f a) = 1 := by
  have hle : l.countP (fun a => b ∈ f a) ≤ (l.flatMap f).count b := by
    clear h
    induction l with
    | nil => exact Nat.le_refl _
    | cons a l ih =>
      rw [List.countP_cons, List.flatMap_cons, List.count_append]
      split
      · rename_i hb
        have := List.count_pos_iff.2 (of_decide_eq_true hb)
        omega
      · omega
  have hpos : 0 < l.countP (fun a => b ∈ f a) := by
    obtain ⟨a, ha, hb⟩ := List.mem_flatMap.1 (List.count_pos_iff.1 (h ▸ Nat.one_pos))
    exact List.countP_pos_iff.2 ⟨a, ha, decide_eq_true hb⟩
  omega

/-- The entry for an index. -/
theorem exists_getElem?_of_forall₂ {m : Nat} {β : Type} {P : Fin m → β → Prop} {l : List β}
    (h : List.Forall₂ P (List.finRange m) l) (i : Fin m) : ∃ b, l[i.val]? = some b ∧ P i b := by
  have hlt : i.val < (List.finRange m).length := i.isLt.trans_eq (List.length_finRange).symm
  refine ⟨_, List.getElem?_eq_getElem (hlt.trans_eq h.length_eq), ?_⟩
  have hget := h.get hlt (hlt.trans_eq h.length_eq)
  rwa [List.get_eq_getElem, List.getElem_finRange] at hget

end Potter.Lib
