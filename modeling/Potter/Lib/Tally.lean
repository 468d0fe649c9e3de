import Mathlib.Data.List.AList
import Mathlib.Data.Fintype.Card
import Mathlib.Logic.Function.Basic
import Mathlib.Tactic.Ring

/-!
# Tallies: maps of counts that drop a key at zero

A tally is a finite map from keys to integers used as a multiset: a key is entered when its first
user comes and erased when its last one goes. `Tallies t f` says that `t` is the tally of the
counting function `f`: its entries are the positive values of `f`.

Several tallies over one set of keys are counted together by `usersOf`, the number of tallies that
hold a key: the second level of a two-level count.
-/

namespace Potter.Lib

/-- A map of counts. -/
abbrev Tally (α : Type) := AList fun _ : α => Int

namespace Tally

variable {α : Type} [DecidableEq α]

/-- The value of a key, zero for a key that has no entry. -/
def count (t : Tally α) (a : α) : Int := (t.lookup a).getD 0

/-- One more user of `a`, and whether it is the first. -/
def incr (t : Tally α) (a : α) : Tally α × Bool :=
  match t.lookup a with
  | none => (t.insert a 1, true)
  | some k => (t.insert a (k + 1), false)

/-- One user of `a` less, and whether the entry was erased. A missing entry is read as zero, and
only a count of exactly zero is erased. -/
def decr (t : Tally α) (a : α) : Tally α × Bool :=
  if t.count a - 1 = 0 then (t.erase a, true) else (t.insert a (t.count a - 1), false)

/-- `k` users more. -/
def incrTimes : Nat → Tally α → α → Tally α × Bool
  | 0, t, _ => (t, false)
  | k + 1, t, a =>
    let (t, newlyAdd) := t.incr a
    let (t, rest) := incrTimes k t a
    (t, newlyAdd || rest)

/-- `k` users less. -/
def decrTimes : Nat → Tally α → α → Tally α × Bool
  | 0, t, _ => (t, false)
  | k + 1, t, a =>
    let (t, isErased) := t.decr a
    let (t, rest) := decrTimes k t a
    (t, isErased || rest)

/-! ## One key

What the operations do to the entry of a key, whatever its value. A tally that is used as a multiset
has positive entries only, but nothing in the operations enforces that. -/

section Key

variable (t : Tally α) (a b : α)

theorem lookup_incr : (t.incr a).1.lookup b =
    if b = a then some (t.count a + 1) else t.lookup b := by
  unfold incr count
  by_cases hb : b = a
  · subst hb
    cases t.lookup b <;> simp
  · cases t.lookup a <;> simp [hb]

theorem incr_new : (t.incr a).2 = true ↔ t.lookup a = none := by
  unfold incr
  cases t.lookup a <;> simp

theorem count_incr : (t.incr a).1.count b = t.count b + if b = a then 1 else 0 := by
  simp only [count, lookup_incr]
  by_cases hb : b = a
  · subst hb
    simp
  · simp [hb]

theorem lookup_decr : (t.decr a).1.lookup b =
    if b = a then if t.count a = 1 then none else some (t.count a - 1) else t.lookup b := by
  unfold decr
  by_cases h1 : t.count a = 1
  · rw [if_pos (by omega), if_pos h1]
    by_cases hb : b = a
    · subst hb
      simp
    · simp [hb, AList.lookup_erase_ne hb]
  · rw [if_neg (by omega), if_neg h1]
    by_cases hb : b = a
    · subst hb
      simp
    · simp [hb]

/-- Counting down is subtraction, also below zero. -/
theorem count_decr : (t.decr a).1.count b = t.count b - if b = a then 1 else 0 := by
  simp only [count, lookup_decr]
  by_cases hb : b = a
  · subst hb
    by_cases h1 : (t.lookup b).getD 0 = 1 <;> simp [h1]
  · simp [hb]

theorem decr_erased : (t.decr a).2 = true ↔ t.count a = 1 := by
  unfold decr
  by_cases h1 : t.count a = 1
  · rw [if_pos (by omega)]
    simp [h1]
  · rw [if_neg (by omega)]
    simp [h1]

end Key

section Times

variable (a b : α)

theorem lookup_incrTimes : ∀ (k : Nat) (t : Tally α), (t.incrTimes k a).1.lookup b =
    if b = a ∧ 0 < k then some (t.count a + k) else t.lookup b
  | 0, t => by simp [incrTimes]
  | k + 1, t => by
    simp only [incrTimes]
    rw [lookup_incrTimes k, count_incr, lookup_incr]
    by_cases hb : b = a
    · rcases Nat.eq_zero_or_pos k with rfl | hk
      · simp [hb]
      · simp only [hb, hk, and_self, ↓reduceIte, Nat.zero_lt_succ]
        push_cast
        congr 1
        ring
    · simp [hb]

theorem incrTimes_new : ∀ (k : Nat) (t : Tally α),
    (t.incrTimes k a).2 = true ↔ t.lookup a = none ∧ 0 < k
  | 0, t => by simp [incrTimes]
  | k + 1, t => by
    simp only [incrTimes]
    rw [Bool.or_eq_true, incr_new, incrTimes_new k, lookup_incr]
    simp

theorem count_decrTimes : ∀ (k : Nat) (t : Tally α),
    (t.decrTimes k a).1.count b = t.count b - if b = a then (k : Int) else 0
  | 0, t => by simp [decrTimes]
  | k + 1, t => by
    simp only [decrTimes]
    rw [count_decrTimes k, count_decr]
    split <;> push_cast <;> ring

/-- Counting down to zero at most. -/
theorem lookup_decrTimes : ∀ (k : Nat) (t : Tally α), (k : Int) ≤ t.count a →
    (t.decrTimes k a).1.lookup b =
      if b = a ∧ 0 < k then if t.count a = k then none else some (t.count a - k) else t.lookup b
  | 0, t, _ => by simp [decrTimes]
  | k + 1, t, h => by
    have hcount : (t.decr a).1.count a = t.count a - 1 := by rw [count_decr, if_pos rfl]
    simp only [decrTimes]
    rw [lookup_decrTimes k _ (by rw [hcount]; omega), hcount, lookup_decr]
    by_cases hb : b = a
    · rcases Nat.eq_zero_or_pos k with rfl | hk
      · simp [hb]
      · simp only [hb, hk, and_self, ↓reduceIte, Nat.zero_lt_succ]
        push_cast
        by_cases e : t.count a = k + 1
        · rw [if_pos (by omega), if_pos e]
        · rw [if_neg (by omega), if_neg e]
          congr 1
          ring
    · simp [hb]

theorem decrTimes_erased : ∀ (k : Nat) (t : Tally α),
    (t.decrTimes k a).2 = true ↔ 1 ≤ t.count a ∧ t.count a ≤ k
  | 0, t => by
    simp only [decrTimes, Bool.false_eq_true, Nat.cast_zero, false_iff, not_and]
    omega
  | k + 1, t => by
    simp only [decrTimes]
    rw [Bool.or_eq_true, decr_erased, decrTimes_erased k, count_decr, if_pos rfl]
    push_cast
    omega

end Times

/-! ## Tallies as multisets -/

/-- The entries of `t` are the positive values of `f`. -/
def Tallies (t : Tally α) (f : α → Nat) : Prop :=
  ∀ a, t.lookup a = if f a = 0 then none else some (f a : Int)

theorem tallies_empty : Tallies (∅ : Tally α) fun _ => 0 := by
  intro a
  simp

theorem Tallies.count_eq {t : Tally α} {f : α → Nat} (h : Tallies t f) (a : α) :
    t.count a = f a := by
  unfold count
  rw [h a]
  by_cases h0 : f a = 0 <;> simp [h0]

theorem Tallies.pos {t : Tally α} {f : α → Nat} (h : Tallies t f) {a : α} {k : Int}
    (hk : t.lookup a = some k) : 0 < k := by
  rw [h a] at hk
  split at hk
  · cases hk
  · cases hk
    omega

theorem Tallies.eq_none_iff {t : Tally α} {f : α → Nat} (h : Tallies t f) {a : α} :
    t.lookup a = none ↔ f a = 0 := by
  rw [h a]
  by_cases h0 : f a = 0 <;> simp [h0]

theorem Tallies.incr {t : Tally α} {f : α → Nat} (h : Tallies t f) (a : α) :
    Tallies (t.incr a).1 (Function.update f a (f a + 1)) ∧
      ((t.incr a).2 = true ↔ f a = 0) := by
  refine ⟨fun b => ?_, by rw [incr_new, h.eq_none_iff]⟩
  rw [lookup_incr, h.count_eq]
  by_cases hb : b = a
  · subst hb
    rw [if_pos rfl, Function.update_self, if_neg (Nat.succ_ne_zero _)]
    rfl
  · rw [if_neg hb, Function.update_of_ne hb]
    exact h b

theorem Tallies.decr {t : Tally α} {f : α → Nat} (h : Tallies t f) {a : α} (ha : 0 < f a) :
    Tallies (t.decr a).1 (Function.update f a (f a - 1)) ∧
      ((t.decr a).2 = true ↔ f a = 1) := by
  refine ⟨fun b => ?_, by rw [decr_erased, h.count_eq]; omega⟩
  rw [lookup_decr, h.count_eq]
  by_cases hb : b = a
  · subst hb
    rw [if_pos rfl, Function.update_self]
    by_cases h1 : f b = 1
    · rw [if_pos (by omega), if_pos (by omega)]
    · rw [if_neg (by omega), if_neg (by omega)]
      congr 1
      omega
  · rw [if_neg hb, Function.update_of_ne hb]
    exact h b

theorem Tallies.incrTimes {a : α} {k : Nat} {t : Tally α} {f : α → Nat} (h : Tallies t f) :
    Tallies (t.incrTimes k a).1 (Function.update f a (f a + k)) ∧
      ((t.incrTimes k a).2 = true ↔ f a = 0 ∧ 0 < k) := by
  refine ⟨fun b => ?_, by rw [incrTimes_new, h.eq_none_iff]⟩
  rw [lookup_incrTimes, h.count_eq]
  by_cases hb : b = a
  · subst hb
    rcases Nat.eq_zero_or_pos k with rfl | hk
    · simpa using h b
    · rw [if_pos ⟨rfl, hk⟩, Function.update_self, if_neg (by omega)]
      rfl
  · rw [if_neg fun e => hb e.1, Function.update_of_ne hb]
    exact h b

theorem Tallies.decrTimes {a : α} {k : Nat} {t : Tally α} {f : α → Nat} (h : Tallies t f)
    (hk : k ≤ f a) : Tallies (t.decrTimes k a).1 (Function.update f a (f a - k)) ∧
      ((t.decrTimes k a).2 = true ↔ f a = k ∧ 0 < k) := by
  refine ⟨fun b => ?_, by rw [decrTimes_erased, h.count_eq]; omega⟩
  rw [lookup_decrTimes _ _ _ _ (by rw [h.count_eq]; omega), h.count_eq]
  by_cases hb : b = a
  · subst hb
    rw [Function.update_self]
    rcases Nat.eq_zero_or_pos k with rfl | hpos
    · simpa using h b
    · rw [if_pos ⟨rfl, hpos⟩]
      by_cases e : f b = k
      · rw [if_pos (by omega), if_pos (by omega)]
      · rw [if_neg (by omega), if_neg (by omega)]
        congr 1
        omega
  · rw [if_neg fun e => hb e.1, Function.update_of_ne hb]
    exact h b

/-- Enter every element of a list. -/
def incrAll (t : Tally α) (l : List α) : Tally α := l.foldl (fun t a => (t.incr a).1) t

theorem mem_incrAll {a : α} : ∀ {l : List α} {t : Tally α}, a ∈ t.incrAll l ↔ a ∈ t ∨ a ∈ l
  | [], t => by simp [Tally.incrAll]
  | b :: l, t => by
    have hincr : a ∈ (t.incr b).1 ↔ a = b ∨ a ∈ t := by
      unfold incr
      cases t.lookup b <;> exact AList.mem_insert t
    rw [Tally.incrAll, List.foldl_cons, ← Tally.incrAll, mem_incrAll, hincr, List.mem_cons]
    tauto

theorem Tallies.incrAll : ∀ {l : List α} {t : Tally α} {f : α → Nat}, Tallies t f →
    Tallies (t.incrAll l) fun a => f a + l.count a
  | [], t, f, h => by simpa [Tally.incrAll] using h
  | b :: l, t, f, h => by
    have ih := (h.incr b).1.incrAll (l := l)
    have e : (fun a => f a + (b :: l).count a) =
        fun a => Function.update f b (f b + 1) a + l.count a := by
      funext a
      by_cases ha : a = b
      · subst ha
        rw [Function.update_self, List.count_cons_self]
        omega
      · rw [Function.update_of_ne ha, List.count_cons_of_ne (Ne.symm ha)]
    rw [e]
    exact ih

/-! ## The entries of a tally -/

/-- The sum of the values a list of entries has for a key. -/
def entryCount : List (Sigma fun _ : α => Int) → α → Nat
  | [], _ => 0
  | e :: es, a => (if a = e.1 then e.2.toNat else 0) + entryCount es a

theorem entryCount_eq_zero {a : α} : ∀ {es : List (Sigma fun _ : α => Int)},
    a ∉ es.keys → entryCount es a = 0
  | [], _ => rfl
  | e :: es, h => by
    rw [List.keys_cons, List.mem_cons, not_or] at h
    simp only [entryCount, h.1, ↓reduceIte, Nat.zero_add]
    exact entryCount_eq_zero h.2

theorem entryCount_of_nodupKeys {a : α} : ∀ {es : List (Sigma fun _ : α => Int)},
    es.NodupKeys → entryCount es a = ((es.dlookup a).getD 0).toNat
  | [], _ => rfl
  | ⟨b, k⟩ :: es, h => by
    rw [List.nodupKeys_cons] at h
    by_cases hb : a = b
    · subst hb
      simp only [entryCount, ↓reduceIte, List.dlookup_cons_eq, Option.getD_some,
        entryCount_eq_zero h.1, Nat.add_zero]
    · simp only [entryCount, hb, ↓reduceIte, Nat.zero_add]
      have hl : List.dlookup a (⟨b, k⟩ :: es : List (Sigma fun _ : α => Int)) = es.dlookup a :=
        List.dlookup_cons_ne _ _ hb
      rw [hl]
      exact entryCount_of_nodupKeys h.2

/-- The entries of a tally are the counts it tallies. -/
theorem Tallies.entryCount {t : Tally α} {f : α → Nat} (h : Tallies t f) (a : α) :
    Tally.entryCount t.entries a = f a := by
  rw [entryCount_of_nodupKeys t.nodupKeys]
  have hl := h a
  unfold AList.lookup at hl
  rw [hl]
  by_cases h0 : f a = 0 <;> simp [h0]

end Tally

/-! ## How many tallies hold a key -/

section UsersOf

variable {N α : Type} [Fintype N]

/-- The number of the counting functions that are positive at `a`. -/
def usersOf (g : N → α → Nat) (a : α) : Nat := (Finset.univ.filter fun n => 0 < g n a).card

theorem usersOf_le_one {g : N → α → Nat} {a : α} (h : usersOf g a ≤ 1) {m n : N}
    (hm : 0 < g m a) (hn : 0 < g n a) : m = n :=
  Finset.card_le_one.1 h m (by simp [hm]) n (by simp [hn])

/-- Different functions that are positive at `a` are counted. -/
theorem countP_le_usersOf {g : N → α → Nat} {a : α} {l : List N} (h : l.Nodup) :
    l.countP (fun n => decide (0 < g n a)) ≤ usersOf g a := by
  rw [List.countP_eq_length_filter, usersOf]
  let s : Finset N := ⟨l.filter fun n => decide (0 < g n a), h.filter _⟩
  refine Finset.card_le_card (s := s) fun n hn => ?_
  have hmem : n ∈ l.filter fun n => decide (0 < g n a) := hn
  rw [List.mem_filter, decide_eq_true_eq] at hmem
  exact Finset.mem_filter.2 ⟨Finset.mem_univ n, hmem.2⟩

variable [DecidableEq N]

/-- Replacing one counting function moves the count by at most one. -/
theorem usersOf_update (g : N → α → Nat) (n : N) (f : α → Nat) (a : α) :
    (usersOf (Function.update g n f) a : Int) =
      usersOf g a + (if 0 < f a then 1 else 0) - (if 0 < g n a then 1 else 0) := by
  have hrest : (Finset.univ.filter fun m => 0 < Function.update g n f m a).erase n =
      (Finset.univ.filter fun m => 0 < g m a).erase n := by
    ext m
    simp only [Finset.mem_erase, Finset.mem_filter, Finset.mem_univ, true_and]
    refine and_congr_right fun hm => ?_
    rw [Function.update_of_ne hm]
  have hcard : ∀ s : Finset N, (s.card : Int) = (s.erase n).card + (if n ∈ s then 1 else 0) := by
    intro s
    by_cases hn : n ∈ s
    · rw [if_pos hn, ← Finset.card_erase_add_one hn]
      push_cast
      ring
    · rw [if_neg hn, Finset.erase_eq_of_notMem hn, add_zero]
  unfold usersOf
  rw [hcard (Finset.univ.filter fun m => 0 < Function.update g n f m a), hrest,
    hcard (Finset.univ.filter fun m => 0 < g m a)]
  simp only [Finset.mem_filter, Finset.mem_univ, true_and, Function.update_self]
  ring

end UsersOf

end Potter.Lib
