import Mathlib.Data.List.Basic
import Mathlib.Data.List.Perm.Basic
import Mathlib.Data.Nat.ModEq
import Mathlib.Order.Basic

/-!
# Interleavings of threads

A thread is the list of the steps it takes. A schedule of several threads takes the next step of
some thread until all have finished (`Interleaving`). A step may stop the whole program, so steps
are partial functions on the state (`runAll`).

Two rules. What every step of every thread preserves holds after any schedule (`runAll_invariant`,
with `Interleaving.mem_iff` to find a step's thread). And if the steps of different threads commute,
any schedule ends as running the threads one after the other does (`Interleaving.runAll_eq`, and
`Interleaving.runAll_eq_of_invariant` if they commute in the states of an invariant only).

`strided` is the usual way to deal indices out to threads.
-/

namespace Potter.Lib

section Definitions

variable {α S : Type}

/-- Take the steps of a list in turn. -/
def runAll (step : α → S → Option S) : List α → S → Option S
  | [], s => some s
  | a :: as, s => (step a s).bind (runAll step as)

/-- The schedules of a list of threads. -/
inductive Interleaving : List (List α) → List α → Prop
  | done {threads : List (List α)} (h : ∀ t ∈ threads, t = []) : Interleaving threads []
  | step (pre post : List (List α)) {a : α} {rest sched : List α}
      (h : Interleaving (pre ++ rest :: post) sched) :
      Interleaving (pre ++ (a :: rest) :: post) (a :: sched)

/-- Two steps that end in the same state in either order. -/
def Commutes (step : α → S → Option S) (a b : α) : Prop :=
  ∀ s, (step a s).bind (step b) = (step b s).bind (step a)

end Definitions

section Run

variable {α S : Type} {step : α → S → Option S}

@[simp] theorem runAll_nil (s : S) : runAll step [] s = some s := rfl

theorem runAll_cons (a : α) (as : List α) (s : S) :
    runAll step (a :: as) s = (step a s).bind (runAll step as) := rfl

theorem runAll_append (as bs : List α) (s : S) :
    runAll step (as ++ bs) s = (runAll step as s).bind (runAll step bs) := by
  induction as generalizing s with
  | nil => rfl
  | cons a as ih =>
    rw [List.cons_append, runAll_cons, runAll_cons, Option.bind_assoc]
    congr 1
    funext t
    exact ih t

theorem runAll_map {β : Type} (g : β → α) (bs : List β) (s : S) :
    runAll step (bs.map g) s = runAll (fun b => step (g b)) bs s := by
  induction bs generalizing s with
  | nil => rfl
  | cons b bs ih =>
    rw [List.map_cons, runAll_cons, runAll_cons]
    exact Option.bind_congr fun t _ => ih t

/-- Lists of steps one after the other. -/
theorem runAll_flatten (threads : List (List α)) (s : S) :
    runAll step threads.flatten s = runAll (fun t => runAll step t) threads s := by
  induction threads generalizing s with
  | nil => rfl
  | cons t threads ih =>
    rw [List.flatten_cons, runAll_append, runAll_cons]
    exact Option.bind_congr fun u _ => ih u

/-- Runs of steps that agree on the steps taken. -/
theorem runAll_congr {step' : α → S → Option S} {as : List α}
    (h : ∀ a ∈ as, ∀ s, step a s = step' a s) (s : S) : runAll step as s = runAll step' as s := by
  induction as generalizing s with
  | nil => rfl
  | cons a as ih =>
    rw [runAll_cons, runAll_cons, h a List.mem_cons_self]
    exact Option.bind_congr fun t _ => ih (fun b hb => h b (List.mem_cons_of_mem a hb)) t

/-- A fold is a run of steps that always go on. -/
theorem runAll_some {f : S → α → S} (as : List α) (s : S) :
    runAll (fun a s => some (f s a)) as s = some (as.foldl f s) := by
  induction as generalizing s with
  | nil => rfl
  | cons a as ih => exact ih (f s a)

/-- What each step of the list preserves holds at its end. -/
theorem runAll_invariant {I : S → Prop} {as : List α}
    (hstep : ∀ a ∈ as, ∀ s t, I s → step a s = some t → I t) {s t : S} (hs : I s)
    (h : runAll step as s = some t) : I t := by
  induction as generalizing s with
  | nil =>
    cases h
    exact hs
  | cons a as ih =>
    rw [runAll_cons, Option.bind_eq_some_iff] at h
    obtain ⟨u, hu, h⟩ := h
    exact ih (fun b hb => hstep b (List.mem_cons_of_mem a hb))
      (hstep a List.mem_cons_self s u hs hu) h

/-- What holds depends on the steps taken, and a step may use how its state was reached. -/
theorem runAll_reached {I : List α → S → Prop} {as : List α} {s t : S}
    (hstep : ∀ pre a post u v, as = pre ++ a :: post → runAll step pre s = some u → I pre u →
      step a u = some v → I (pre ++ [a]) v) (hs : I [] s) (h : runAll step as s = some t) :
    I as t := by
  suffices hall : ∀ post pre u, as = pre ++ post → runAll step pre s = some u → I pre u →
      runAll step post u = some t → I as t from hall as [] s rfl rfl hs h
  intro post
  induction post with
  | nil =>
    intro pre u has _ hu hend
    cases hend
    rw [has, List.append_nil]
    exact hu
  | cons a post ih =>
    intro pre u has hpre hu hend
    obtain ⟨v, hv, hend⟩ := Option.bind_eq_some_iff.1 hend
    refine ih (pre ++ [a]) v (by simp [has]) ?_ (hstep pre a post u v has hpre hu hv) hend
    rw [runAll_append, hpre]
    simp [runAll_cons, hv]

/-- A run goes to its end exactly if every step can be taken, if that does not depend on the states of
an invariant. -/
theorem runAll_isSome_iff {I : S → Prop} {P : α → Prop} {as : List α}
    (hI : ∀ a ∈ as, ∀ s t, I s → step a s = some t → I t)
    (hP : ∀ a ∈ as, ∀ s, I s → ((∃ t, step a s = some t) ↔ P a)) {s : S} (hs : I s) :
    (∃ t, runAll step as s = some t) ↔ ∀ a ∈ as, P a := by
  induction as generalizing s with
  | nil => exact iff_of_true ⟨s, rfl⟩ fun _ ha => absurd ha List.not_mem_nil
  | cons a as ih =>
    have ha := List.mem_cons_self (a := a) (l := as)
    have hrest := fun {u} (hu : I u) => ih (fun b hb => hI b (List.mem_cons_of_mem a hb))
      (fun b hb => hP b (List.mem_cons_of_mem a hb)) hu
    rw [List.forall_mem_cons, ← hP a ha s hs]
    constructor
    · rintro ⟨t, h⟩
      obtain ⟨u, hu, h⟩ := Option.bind_eq_some_iff.1 h
      exact ⟨⟨u, hu⟩, (hrest (hI a ha s u hs hu)).1 ⟨t, h⟩⟩
    · rintro ⟨⟨u, hu⟩, hall⟩
      obtain ⟨t, h⟩ := (hrest (hI a ha s u hs hu)).2 hall
      exact ⟨t, Option.bind_eq_some_iff.2 ⟨u, hu, h⟩⟩

/-- A counter that no step takes back. -/
theorem runAll_mono {m : S → Int} (hmono : ∀ a s t, step a s = some t → m s ≤ m t) {as : List α}
    {s t : S} (h : runAll step as s = some t) : m s ≤ m t :=
  runAll_invariant (I := fun u => m s ≤ m u) (fun a _ u v hu hv => hu.trans (hmono a u v hv))
    (le_refl _) h

/-- What the steps preserve that do not move a counter holds at the end of a list of steps that did
not move it. -/
theorem runAll_monitored {m : S → Int} (hmono : ∀ a s t, step a s = some t → m s ≤ m t)
    {I : S → Prop} {as : List α}
    (hstep : ∀ a ∈ as, ∀ s t, I s → step a s = some t → m t = m s → I t) {s t : S} (hs : I s)
    (h : runAll step as s = some t) (hm : m t = m s) : I t := by
  induction as generalizing s with
  | nil =>
    cases h
    exact hs
  | cons a as ih =>
    rw [runAll_cons, Option.bind_eq_some_iff] at h
    obtain ⟨u, hu, h⟩ := h
    have hsu := hmono a s u hu
    have hut := runAll_mono hmono h
    refine ih (fun b hb => hstep b (List.mem_cons_of_mem a hb)) ?_ h (by omega)
    exact hstep a List.mem_cons_self s u hs hu (by omega)

/-- A step that commutes with all steps of a list can be taken before them. -/
theorem runAll_commute {a : α} {as : List α} (h : ∀ b ∈ as, Commutes step b a) (s : S) :
    (runAll step as s).bind (step a) = (step a s).bind (runAll step as) := by
  induction as generalizing s with
  | nil =>
    show step a s = (step a s).bind some
    cases step a s <;> rfl
  | cons b as ih =>
    calc (runAll step (b :: as) s).bind (step a)
        = (step b s).bind fun t => (runAll step as t).bind (step a) := by
          rw [runAll_cons, Option.bind_assoc]
      _ = (step b s).bind fun t => (step a t).bind (runAll step as) := by
          congr 1
          funext t
          exact ih (fun c hc => h c (List.mem_cons_of_mem b hc)) t
      _ = ((step b s).bind (step a)).bind (runAll step as) := by rw [Option.bind_assoc]
      _ = ((step a s).bind (step b)).bind (runAll step as) := by
          rw [h b List.mem_cons_self s]
      _ = (step a s).bind (runAll step (b :: as)) := by
          rw [Option.bind_assoc]
          rfl

end Run

/-! ## Steps with more than one outcome -/

/-- Take the steps of a list in turn, where a step may end in one of several states. -/
inductive Runs {α S : Type} (step : α → S → S → Prop) : List α → S → S → Prop
  | nil (s : S) : Runs step [] s s
  | cons {a : α} {as : List α} {s t u : S} : step a s t → Runs step as t u → Runs step (a :: as) s u

section Runs

variable {α S : Type} {step : α → S → S → Prop}

/-- What each step of the list preserves holds at its end. -/
theorem Runs.invariant {I : S → Prop} {as : List α} {s t : S} (h : Runs step as s t)
    (hstep : ∀ a ∈ as, ∀ s t, I s → step a s t → I t) (hs : I s) : I t := by
  induction h with
  | nil s => exact hs
  | @cons a as s t u ha _ ih =>
    exact ih (fun b hb => hstep b (List.mem_cons_of_mem a hb))
      (hstep a List.mem_cons_self s t hs ha)

theorem Runs.mono {step' : α → S → S → Prop} {as : List α} {s t : S} (h : Runs step as s t)
    (hstep : ∀ a s t, step a s t → step' a s t) : Runs step' as s t := by
  induction h with
  | nil s => exact .nil s
  | cons ha _ ih => exact .cons (hstep _ _ _ ha) ih

/-- A run of partial functions is one of their graphs. -/
theorem Runs.of_runAll {step : α → S → Option S} {as : List α} {s t : S}
    (h : runAll step as s = some t) : Runs (fun a s t => step a s = some t) as s t := by
  induction as generalizing s with
  | nil =>
    cases h
    exact .nil _
  | cons a as ih =>
    rw [runAll_cons, Option.bind_eq_some_iff] at h
    obtain ⟨u, hu, h⟩ := h
    exact .cons hu (ih h)

/-- Steps that are functions, in the states of an invariant, run as functions. -/
theorem Runs.iff_runAll {I : S → Prop} {f : α → S → Option S} {as : List α}
    (hstep : ∀ a ∈ as, ∀ s t, I s → (step a s t ↔ f a s = some t))
    (hI : ∀ a ∈ as, ∀ s t, I s → f a s = some t → I t) {s t : S} (hs : I s) :
    Runs step as s t ↔ runAll f as s = some t := by
  induction as generalizing s with
  | nil =>
    constructor
    · rintro ⟨⟩
      rfl
    · intro h
      cases h
      exact .nil _
  | cons a as ih =>
    have ha := List.mem_cons_self (a := a) (l := as)
    have hrest := fun {u} (hu : I u) => ih (fun b hb => hstep b (List.mem_cons_of_mem a hb))
      (fun b hb => hI b (List.mem_cons_of_mem a hb)) hu
    rw [runAll_cons, Option.bind_eq_some_iff]
    constructor
    · rintro ⟨⟩
      rename_i u hau hrun
      rw [hstep a ha s u hs] at hau
      exact ⟨u, hau, (hrest (hI a ha s u hs hau)).1 hrun⟩
    · rintro ⟨u, hau, hrun⟩
      exact .cons ((hstep a ha s u hs).2 hau) ((hrest (hI a ha s u hs hau)).2 hrun)

end Runs

section Schedules

variable {α S : Type} {step : α → S → Option S}

/-- A schedule takes the steps of all threads, each as often as its thread has it. -/
theorem Interleaving.perm {threads : List (List α)} {sched : List α}
    (h : Interleaving threads sched) : sched.Perm threads.flatten := by
  induction h with
  | done h =>
    rw [List.flatten_eq_nil_iff.2 h]
  | @step pre post a rest sched _ ih =>
    rw [List.flatten_append, List.flatten_cons] at ih ⊢
    exact (ih.cons a).trans List.perm_middle.symm

theorem Interleaving.mem_iff {threads : List (List α)} {sched : List α}
    (h : Interleaving threads sched) {a : α} : a ∈ sched ↔ ∃ t ∈ threads, a ∈ t := by
  rw [h.perm.mem_iff, List.mem_flatten]

/-- Running the threads one after the other is a schedule. -/
theorem Interleaving.flatten (threads : List (List α)) : Interleaving threads threads.flatten := by
  suffices h : ∀ (pre : List (List α)), (∀ t ∈ pre, t = []) →
      Interleaving (pre ++ threads) threads.flatten from h [] (by simp)
  induction threads with
  | nil =>
    intro pre hpre
    exact .done (by simpa using hpre)
  | cons t threads ih =>
    intro pre hpre
    induction t with
    | nil =>
      have := ih (pre ++ [[]]) (by simpa [or_imp, forall_and] using hpre)
      simpa using this
    | cons a t iht => exact .step pre threads iht

/-- **Schedules do not matter.** If steps of different threads commute, every schedule ends as the
threads one after the other. -/
theorem Interleaving.runAll_eq {threads : List (List α)} {sched : List α}
    (h : Interleaving threads sched)
    (hcomm : threads.Pairwise fun t u => ∀ a ∈ t, ∀ b ∈ u, Commutes step a b) (s : S) :
    runAll step sched s = runAll step threads.flatten s := by
  induction h generalizing s with
  | done h =>
    rw [List.flatten_eq_nil_iff.2 h]
  | @step pre post a rest sched _ ih =>
    rw [List.pairwise_append, List.pairwise_cons] at hcomm
    obtain ⟨hpre, ⟨hthread, hpost⟩, hcross⟩ := hcomm
    -- the remaining steps of the thread are steps it had before
    have hrest : (pre ++ rest :: post).Pairwise fun t u => ∀ a ∈ t, ∀ b ∈ u, Commutes step a b := by
      rw [List.pairwise_append, List.pairwise_cons]
      refine ⟨hpre, ⟨fun u hu b hb => hthread u hu b (List.mem_cons_of_mem a hb), hpost⟩, ?_⟩
      intro t ht u hu b hb c hc
      rcases List.mem_cons.1 hu with rfl | hu
      · exact hcross t ht _ List.mem_cons_self b hb c (List.mem_cons_of_mem a hc)
      · exact hcross t ht u (List.mem_cons_of_mem _ hu) b hb c hc
    have hbefore : ∀ b ∈ pre.flatten, Commutes step b a := by
      intro b hb
      obtain ⟨t, ht, hbt⟩ := List.mem_flatten.1 hb
      exact hcross t ht _ List.mem_cons_self b hbt a List.mem_cons_self
    calc runAll step (a :: sched) s
        = (step a s).bind (runAll step (pre ++ rest :: post).flatten) := by
          rw [runAll_cons]
          congr 1
          funext t
          exact ih hrest t
      _ = ((step a s).bind (runAll step pre.flatten)).bind
            (runAll step (rest ++ post.flatten)) := by
          rw [Option.bind_assoc]
          congr 1
          funext t
          rw [List.flatten_append, List.flatten_cons, runAll_append]
      _ = ((runAll step pre.flatten s).bind (step a)).bind
            (runAll step (rest ++ post.flatten)) := by
          rw [runAll_commute hbefore s]
      _ = runAll step (pre ++ (a :: rest) :: post).flatten s := by
          rw [List.flatten_append, List.flatten_cons, runAll_append, Option.bind_assoc]
          rfl

/-- Schedules do not matter, either, if steps of different threads commute in the states of an
invariant that every step keeps. -/
theorem Interleaving.runAll_eq_of_invariant {I : S → Prop} {threads : List (List α)}
    {sched : List α} (h : Interleaving threads sched)
    (hI : ∀ t ∈ threads, ∀ a ∈ t, ∀ s s', I s → step a s = some s' → I s')
    (hcomm : threads.Pairwise fun t u => ∀ a ∈ t, ∀ b ∈ u, ∀ s, I s →
      (step a s).bind (step b) = (step b s).bind (step a))
    {s : S} (hs : I s) : runAll step sched s = runAll step threads.flatten s := by
  classical
  -- a program that stops as soon as the invariant is broken, which never happens
  let guarded : α → S → Option S := fun a s => if I s then step a s else none
  have hrun : ∀ as : List α, (∀ a ∈ as, ∃ t ∈ threads, a ∈ t) → ∀ s, I s →
      runAll guarded as s = runAll step as s := by
    intro as
    induction as with
    | nil => exact fun _ _ _ => rfl
    | cons a as ih =>
      intro has s hs
      obtain ⟨t, ht, hat⟩ := has a List.mem_cons_self
      rw [runAll_cons, runAll_cons, show guarded a s = step a s from if_pos hs]
      exact Option.bind_congr fun s' hs' =>
        ih (fun b hb => has b (List.mem_cons_of_mem a hb)) s' (hI t ht a hat s s' hs hs')
  have hbind : ∀ t ∈ threads, ∀ a ∈ t, ∀ b s, I s →
      (guarded a s).bind (guarded b) = (step a s).bind (step b) := by
    intro t ht a ha b s hs
    rw [show guarded a s = step a s from if_pos hs]
    exact Option.bind_congr fun s' hs' => if_pos (hI t ht a ha s s' hs hs')
  have hcommutes : threads.Pairwise fun t u => ∀ a ∈ t, ∀ b ∈ u, Commutes guarded a b := by
    refine hcomm.imp_of_mem fun {t u} ht hu htu a ha b hb s => ?_
    by_cases hs : I s
    · rw [hbind t ht a ha b s hs, hbind u hu b hb a s hs, htu a ha b hb s hs]
    · rw [show guarded a s = none from if_neg hs, show guarded b s = none from if_neg hs]
      rfl
  rw [← hrun sched (fun a ha => h.mem_iff.1 ha) s hs,
    ← hrun threads.flatten (fun a ha => List.mem_flatten.1 ha) s hs]
  exact h.runAll_eq hcommutes s

end Schedules

/-! ## Strided work lists -/

/-- The indices below `bound` from `i` on, in steps of `step`, at most `fuel` of them. -/
def strided (bound step : Nat) : Nat → Nat → List (Fin bound)
  | 0, _ => []
  | fuel + 1, i => if h : i < bound then ⟨i, h⟩ :: strided bound step fuel (i + step) else []

theorem mod_of_mem_strided {bound step : Nat} : ∀ {fuel i : Nat} {x : Fin bound},
    x ∈ strided bound step fuel i → (x : Nat) % step = i % step
  | 0, _, _, h => by cases h
  | fuel + 1, i, x, h => by
    simp only [strided] at h
    split at h
    · rcases List.mem_cons.1 h with rfl | h
      · rfl
      · rw [mod_of_mem_strided h, Nat.add_mod_right]
    · cases h

/-- With fuel for every index below the bound, every index of the right remainder is listed. -/
theorem mem_strided {bound step : Nat} (hstep : 0 < step) : ∀ {fuel i : Nat} {x : Fin bound},
    i ≤ x → (x : Nat) % step = i % step → (x : Nat) < fuel + i → x ∈ strided bound step fuel i
  | 0, i, x, hle, _, hf => by omega
  | fuel + 1, i, x, hle, hmod, hf => by
    have hi : i < bound := lt_of_le_of_lt hle x.isLt
    simp only [strided, hi, ↓reduceDIte, List.mem_cons]
    by_cases hx : (x : Nat) = i
    · exact Or.inl (Fin.ext hx)
    · right
      have hnext : i + step ≤ x := by
        have hdvd : step ∣ (x : Nat) - i := (Nat.modEq_iff_dvd' hle).1 hmod.symm
        have := Nat.le_of_dvd (by omega) hdvd
        omega
      exact mem_strided hstep hnext (by rw [hmod, Nat.add_mod_right]) (by omega)

end Potter.Lib
