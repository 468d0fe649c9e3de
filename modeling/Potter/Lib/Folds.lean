import Mathlib.Logic.Function.Iterate
import Mathlib.Order.Bounds.Basic
import Mathlib.Tactic.Ring
import Potter.Lib.Interleaving

/-!
# Loops over lists

Facts about loops that are written as folds.

* Loops that leave a part of their state alone (`foldl_frame`), or that write one entry of a table in
  every step (`foldl_update_apply`, `foldl_entries`).
* Loops whose steps establish or clear a property: the last step that does either decides
  (`foldl_marked`, `exists_last_mark`). Steps that keep the state or establish it (`foldl_keep_or`).
* Loops that look for the least value (`isLeast_foldl`).
* Loops that can stop: which of them end (`foldlM_isSome_iff`, `exists_bind_iff`), and what they have
  collected then (`foldlM_marks`, `mem_of_mapM`).
-/

namespace Potter.Lib

/-! ## Parts of the state -/

theorem foldl_frame {S α B : Type} {f : S → α → S} {p : S → B} (h : ∀ s a, p (f s a) = p s)
    (l : List α) (s : S) : p (l.foldl f s) = p s := by
  induction l generalizing s with
  | nil => rfl
  | cons a l ih => rw [List.foldl_cons, ih, h]

/-- **Steps that write one entry of a table each.** An entry is written as often as it is listed. -/
theorem foldl_update_apply {V A : Type} [DecidableEq V] (f : A → A) (skip : V → Prop)
    [DecidablePred skip] (l : List V) (table : V → A) (r : V) :
    l.foldl (fun t v => if skip v then t else Function.update t v (f (t v))) table r =
      if skip r then table r else f^[l.count r] (table r) := by
  induction l generalizing table with
  | nil => simp
  | cons v l ih =>
    rw [List.foldl_cons, ih]
    by_cases e : v = r
    · subst e
      by_cases hv : skip v
      · simp only [hv, ↓reduceIte]
      · rw [if_neg hv, if_neg hv, if_neg hv, Function.update_self, List.count_cons_self,
          Function.iterate_succ_apply]
    · rw [List.count_cons_of_ne e]
      by_cases hv : skip v
      · rw [if_pos hv]
      · rw [if_neg hv, Function.update_of_ne (Ne.symm e)]

/-- Steps that add to what is read of an entry. -/
theorem foldl_entries {V A : Type} [DecidableEq V] (read : A → Int) {f : A → A} {d : Int}
    (hf : ∀ a, read (f a) = read a + d) (skip : V → Prop) [DecidablePred skip] (l : List V)
    (table : V → A) (r : V) :
    read (l.foldl (fun t v => if skip v then t else Function.update t v (f (t v))) table r) =
      read (table r) + if skip r then 0 else (l.count r : Int) * d := by
  have hiterate : ∀ (k : Nat) (a : A), read (f^[k] a) = read a + k * d := by
    intro k
    induction k with
    | zero => simp
    | succ k ih =>
      intro a
      rw [Function.iterate_succ_apply, ih, hf]
      push_cast
      ring
  rw [foldl_update_apply]
  split
  · rw [add_zero]
  · exact hiterate _ _

/-- Steps that establish something of the entry they write: it is so, or the entry was not written. -/
theorem foldl_update_cases {V A : Type} [DecidableEq V] {P : A → Prop} {f : A → A}
    (hf : ∀ a, P (f a)) (skip : V → Prop) [DecidablePred skip] (l : List V) (table : V → A) (r : V) :
    l.foldl (fun t v => if skip v then t else Function.update t v (f (t v))) table r = table r ∨
      P (l.foldl (fun t v => if skip v then t else Function.update t v (f (t v))) table r) := by
  rw [foldl_update_apply]
  split
  · exact .inl rfl
  · cases l.count r with
    | zero => exact .inl rfl
    | succ k =>
      rw [Function.iterate_succ_apply']
      exact .inr (hf _)

/-- Steps that keep what is read of an entry. -/
theorem foldl_update_read {V A B : Type} [DecidableEq V] (read : A → B) {f : A → A}
    (hf : ∀ a, read (f a) = read a) (skip : V → Prop) [DecidablePred skip] (l : List V)
    (table : V → A) (r : V) :
    read (l.foldl (fun t v => if skip v then t else Function.update t v (f (t v))) table r) =
      read (table r) := by
  rw [foldl_update_apply]
  split
  · rfl
  · generalize l.count r = k
    generalize table r = a
    induction k generalizing a with
    | zero => rfl
    | succ k ih => rw [Function.iterate_succ_apply, ih, hf]

/-! ## The last assignment decides -/

section Marks

variable {A S : Type} {f : S → A → S} {P : S → Prop} {mark clear : A → Prop}

/-- What holds after steps that either establish it, or clear it, or leave it. -/
theorem foldl_marked (hstep : ∀ s a, P (f s a) ↔ mark a ∨ (P s ∧ ¬clear a)) (l : List A) (s : S) :
    P (l.foldl f s) ↔
      (∃ pre a post, l = pre ++ a :: post ∧ mark a ∧ ∀ b ∈ post, ¬clear b) ∨
        (P s ∧ ∀ a ∈ l, ¬clear a) := by
  induction l generalizing s with
  | nil => simp
  | cons a l ih =>
    rw [List.foldl_cons, ih, hstep]
    constructor
    · rintro (⟨pre, b, post, rfl, hb, hpost⟩ | ⟨ha | ⟨hs, ha⟩, hl⟩)
      · exact .inl ⟨a :: pre, b, post, rfl, hb, hpost⟩
      · exact .inl ⟨[], a, l, rfl, ha, hl⟩
      · exact .inr ⟨hs, List.forall_mem_cons.2 ⟨ha, hl⟩⟩
    · rintro (⟨pre, b, post, e, hb, hpost⟩ | ⟨hs, hl⟩)
      · rcases List.cons_eq_append_iff.1 e with ⟨rfl, e⟩ | ⟨pre, rfl, rfl⟩
        · cases e
          exact .inr ⟨.inl hb, hpost⟩
        · exact .inl ⟨pre, b, post, rfl, hb, hpost⟩
      · obtain ⟨ha, hl⟩ := List.forall_mem_cons.1 hl
        exact .inr ⟨.inr ⟨hs, ha⟩, hl⟩

/-- The last of the steps that establish it. -/
theorem exists_last_mark (mark : A → Prop) {l : List A} (h : ∃ a ∈ l, mark a) :
    ∃ pre a post, l = pre ++ a :: post ∧ mark a ∧ ∀ b ∈ post, ¬mark b := by
  induction l with
  | nil =>
    obtain ⟨a, ha, -⟩ := h
    exact absurd ha List.not_mem_nil
  | cons b l ih =>
    by_cases hl : ∃ a ∈ l, mark a
    · obtain ⟨pre, a, post, rfl, ha, hpost⟩ := ih hl
      exact ⟨b :: pre, a, post, rfl, ha, hpost⟩
    · obtain ⟨a, ha, hmark⟩ := h
      rcases List.mem_cons.1 ha with rfl | ha
      · exact ⟨[], a, l, rfl, hmark, fun c hc hcm => hl ⟨c, hc, hcm⟩⟩
      · exact absurd ⟨a, ha, hmark⟩ hl

end Marks

/-- A fold whose steps keep the value or establish a property. -/
theorem foldl_keep_or {α β : Type} {f : β → α → β} {P : β → Prop} {l : List α}
    (h : ∀ b, ∀ a ∈ l, f b a = b ∨ P (f b a)) (b : β) : l.foldl f b = b ∨ P (l.foldl f b) := by
  induction l generalizing b with
  | nil => exact .inl rfl
  | cons a l ih =>
    have htail := ih (fun b a ha => h b a (List.mem_cons_of_mem _ ha)) (f b a)
    rw [List.foldl_cons]
    rcases htail with heq | hP
    · rw [heq]
      exact h b a List.mem_cons_self
    · exact .inr hP

/-! ## Least values -/

/-- The least of a start value and the values of a list. -/
theorem foldl_least {α β : Type} [LinearOrder α] (f : β → α) {l : List β} {m r : α}
    (h : l.foldl (fun m b => if f b < m then f b else m) m = r) :
    r ≤ m ∧ (∀ b ∈ l, r ≤ f b) ∧ (r = m ∨ ∃ b ∈ l, f b = r) := by
  induction l generalizing m with
  | nil => exact ⟨le_of_eq h.symm, fun _ hb => absurd hb List.not_mem_nil, .inl h.symm⟩
  | cons b l ih =>
    rw [List.foldl_cons] at h
    by_cases hb : f b < m
    · rw [if_pos hb] at h
      obtain ⟨hle, hall, hr⟩ := ih h
      refine ⟨hle.trans (le_of_lt hb), List.forall_mem_cons.2 ⟨hle, hall⟩, .inr ?_⟩
      rcases hr with hr | ⟨x, hx, hr⟩
      · exact ⟨b, List.mem_cons_self, hr.symm⟩
      · exact ⟨x, List.mem_cons_of_mem b hx, hr⟩
    · rw [if_neg hb] at h
      obtain ⟨hle, hall, hr⟩ := ih h
      refine ⟨hle, List.forall_mem_cons.2 ⟨hle.trans (not_lt.1 hb), hall⟩, hr.imp_right ?_⟩
      rintro ⟨x, hx, hr⟩
      exact ⟨x, List.mem_cons_of_mem b hx, hr⟩

/-- The start value does not matter if some value is no larger. -/
theorem isLeast_foldl {α β : Type} [LinearOrder α] (f : β → α) {l : List β} {m : α}
    (hm : ∃ b ∈ l, f b ≤ m) :
    IsLeast {x | ∃ b ∈ l, f b = x} (l.foldl (fun m b => if f b < m then f b else m) m) := by
  obtain ⟨-, hall, hr⟩ := foldl_least f (rfl : l.foldl _ m = _)
  refine ⟨?_, ?_⟩
  · rcases hr with hr | hr
    · obtain ⟨b, hb, hbm⟩ := hm
      exact ⟨b, hb, le_antisymm (hbm.trans (le_of_eq hr.symm)) (hall b hb)⟩
    · exact hr
  · rintro x ⟨b, hb, rfl⟩
    exact hall b hb

/-! ## Loops that can stop -/

theorem foldlM_isSome_iff {α S : Type} {step : S → α → Option S} {P : α → Prop}
    (h : ∀ s a, (∃ t, step s a = some t) ↔ P a) (l : List α) (s : S) :
    (∃ t, l.foldlM step s = some t) ↔ ∀ a ∈ l, P a := by
  have hrun : ∀ s, l.foldlM step s = runAll (fun a s => step s a) l s := by
    induction l with
    | nil => exact fun _ => rfl
    | cons a l ih =>
      intro s
      rw [List.foldlM_cons, runAll_cons]
      exact Option.bind_congr fun t _ => ih t
  rw [hrun]
  exact runAll_isSome_iff (I := fun _ => True) (fun _ _ _ _ _ _ => trivial) (fun a _ s _ => h s a)
    trivial

/-- A computation in two parts, the second of which is no obstacle or always one. -/
theorem exists_bind_iff {α β : Type} {o : Option α} {f : α → Option β} {Q : Prop}
    (h : ∀ a, (∃ b, f a = some b) ↔ Q) :
    (∃ b, o.bind f = some b) ↔ (∃ a, o = some a) ∧ Q := by
  cases o with
  | none => simp
  | some a => simp [h a]

/-- A loop that only sets marks has set those of its steps. -/
theorem foldlM_marks {V α : Type} {step : (V → Bool) → α → Option (V → Bool)} {Q : α → V → Prop}
    (hstep : ∀ {marks marks' a}, step marks a = some marks' → ∀ v,
      marks' v = true ↔ marks v = true ∨ Q a v) :
    ∀ {l : List α} {marks marks' : V → Bool}, l.foldlM step marks = some marks' → ∀ v,
      marks' v = true ↔ marks v = true ∨ ∃ a ∈ l, Q a v := by
  intro l
  induction l with
  | nil =>
    intro marks marks' h v
    cases h
    simp
  | cons a l ih =>
    intro marks marks' h v
    rw [List.foldlM_cons, Option.bind_eq_bind, Option.bind_eq_some_iff] at h
    obtain ⟨marks₁, h₁, h⟩ := h
    rw [ih h, hstep h₁]
    simp only [List.mem_cons, exists_eq_or_imp, or_assoc]

theorem mem_of_mapM {α β : Type} {f : α → Option β} : ∀ {l : List α} {ys : List β},
    l.mapM f = some ys → ∀ y, y ∈ ys ↔ ∃ x ∈ l, f x = some y := by
  intro l
  induction l with
  | nil =>
    intro ys h y
    rw [List.mapM_nil] at h
    cases h
    simp
  | cons x l ih =>
    intro ys h y
    rw [List.mapM_cons] at h
    obtain ⟨z, hz, h⟩ := Option.bind_eq_some_iff.1 h
    obtain ⟨zs, hzs, h⟩ := Option.bind_eq_some_iff.1 h
    cases h
    simp only [List.mem_cons, exists_eq_or_imp, hz, Option.some_inj, ih hzs, @eq_comm _ y]

end Potter.Lib
