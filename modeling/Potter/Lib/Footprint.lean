import Potter.Lib.Interleaving
import Mathlib.Algebra.Order.Ring.Int

/-!
# Steps with a footprint

A state is read through its locations (`Memory`). A step is confined to a region when what it does
is fixed by the locations it may read, and it changes only the locations it may write. Besides, a
step may act on shared locations it does not read, through functions of a family that commutes
(`Effects`): adding to a counter, or writing one fixed value.

`Confined` is closed under sequencing, reading and loops, so a step's region is found from the
regions of its parts; a precondition says what a part may rely on. Steps confined to regions that do not meet commute (`Confined.commute`).
-/

namespace Potter.Lib

/-- A state as a family of locations: two states with the same contents are the same. -/
structure Memory (S L : Type) (Val : L → Type) where
  get : S → (l : L) → Val l
  ext : ∀ {s t : S}, (∀ l, get s l = get t l) → s = t

/-- Functions that commute with each other. -/
structure Effect (X : Type) where
  allowed : (X → X) → Prop
  id_mem : allowed id
  comp_mem : ∀ {f g}, allowed f → allowed g → allowed (g ∘ f)
  comm : ∀ {f g}, allowed f → allowed g → ∀ x, f (g x) = g (f x)

/-- No effect. -/
def Effect.none (X : Type) : Effect X where
  allowed f := f = id
  id_mem := rfl
  comp_mem hf hg := by
    subst hf hg
    rfl
  comm hf hg x := by
    subst hf hg
    rfl

/-- Adding to a number. -/
def Effect.adding : Effect Int where
  allowed f := ∃ k, f = fun x => x + k
  id_mem := ⟨0, by funext x; exact (add_zero x).symm⟩
  comp_mem := by
    rintro f g ⟨i, rfl⟩ ⟨j, rfl⟩
    exact ⟨i + j, by funext x; exact add_assoc x i j⟩
  comm := by
    rintro f g ⟨i, rfl⟩ ⟨j, rfl⟩ x
    exact add_right_comm x j i

/-- Writing one fixed value. -/
def Effect.writing {X : Type} (v : X) : Effect X where
  allowed f := f = id ∨ f = fun _ => v
  id_mem := Or.inl rfl
  comp_mem := by
    rintro f g (rfl | rfl) (rfl | rfl)
    · exact Or.inl rfl
    · exact Or.inr rfl
    · exact Or.inr rfl
    · exact Or.inr rfl
  comm := by
    rintro f g (rfl | rfl) (rfl | rfl) x <;> rfl

/-- The functions a step may apply to each location without reading it. -/
abbrev Effects {L : Type} (Val : L → Type) := (l : L) → Effect (Val l)

/-- The locations a step may read and those it may write. No step acts unseen on a location that
is read. -/
structure Region {L : Type} {Val : L → Type} (E : Effects Val) where
  reads : L → Prop
  writes : L → Prop
  reads_of_writes : ∀ {l}, writes l → reads l
  eq_id : ∀ {l}, reads l → ∀ {f}, (E l).allowed f → f = id

section Confined

variable {S L : Type} {Val : L → Type} (M : Memory S L Val) {E : Effects Val}

/-- Two states have the same contents at the locations of `A`. -/
def Memory.Agree (A : L → Prop) (s t : S) : Prop := ∀ l, A l → M.get s l = M.get t l

/-- Outside the locations written, `t` is `s` after the effect. -/
def Memory.Moved (ρ : Region E) (eff : (l : L) → Val l → Val l) (s t : S) : Prop :=
  ∀ l, ¬ ρ.writes l → M.get t l = eff l (M.get s l)

/-- Started in a state of `P`, the step `f` with a result stays in the region `ρ`. -/
def ConfinedVal {A : Type} (ρ : Region E) (P : S → Prop) (f : S → Option (A × S)) : Prop :=
  ∀ s a t, P s → f s = some (a, t) → ∃ eff : (l : L) → Val l → Val l,
    (∀ l, (E l).allowed (eff l)) ∧ M.Moved ρ eff s t ∧
      ∀ s', M.Agree ρ.reads s s' →
        ∃ t', f s' = some (a, t') ∧ M.Agree ρ.writes t t' ∧ M.Moved ρ eff s' t'

/-- Started in a state of `P`, the step `f` stays in the region `ρ`. -/
def Confined (ρ : Region E) (P : S → Prop) (f : S → Option S) : Prop :=
  ∀ s t, P s → f s = some t → ∃ eff : (l : L) → Val l → Val l,
    (∀ l, (E l).allowed (eff l)) ∧ M.Moved ρ eff s t ∧
      ∀ s', M.Agree ρ.reads s s' →
        ∃ t', f s' = some t' ∧ M.Agree ρ.writes t t' ∧ M.Moved ρ eff s' t'

variable {M}

theorem Memory.Agree.symm {A : L → Prop} {s t : S} (h : M.Agree A s t) : M.Agree A t s :=
  fun l hl => (h l hl).symm

/-- Runs from states that agree on what is read end in states that agree on it. -/
theorem Memory.Moved.agree {ρ : Region E} {eff : (l : L) → Val l → Val l} {s s' t t' : S}
    (hm : M.Moved ρ eff s t) (hm' : M.Moved ρ eff s' t') (hs : M.Agree ρ.reads s s')
    (hw : M.Agree ρ.writes t t') : M.Agree ρ.reads t t' := by
  intro l hl
  by_cases hlw : ρ.writes l
  · exact hw l hlw
  · rw [hm l hlw, hm' l hlw, hs l hl]

theorem Memory.Moved.comp {ρ : Region E} {eff eff' : (l : L) → Val l → Val l} {s t u : S}
    (h : M.Moved ρ eff s t) (h' : M.Moved ρ eff' t u) :
    M.Moved ρ (fun l => eff' l ∘ eff l) s u := by
  intro l hl
  rw [h' l hl, h l hl]
  rfl

/-- A location that is read but not written keeps its contents. -/
theorem Memory.Moved.get_eq {ρ σ : Region E} {eff : (l : L) → Val l → Val l} {s t : S}
    (h : M.Moved ρ eff s t) (heff : ∀ l, (E l).allowed (eff l)) {l : L} (hw : ¬ ρ.writes l)
    (hr : σ.reads l) : M.get t l = M.get s l := by
  rw [h l hw, σ.eq_id hr (heff l)]
  rfl

/-! ## How regions compose -/

section Rules

variable {A B : Type} {ρ : Region E} {P Q : S → Prop}

theorem Confined.mono {f : S → Option S} (h : Confined M ρ Q f) (hPQ : ∀ s, P s → Q s) :
    Confined M ρ P f :=
  fun s t hs ht => h s t (hPQ s hs) ht

theorem Confined.pure : Confined M ρ P some := by
  intro s t _ h
  cases h
  refine ⟨fun _ => id, fun l => (E l).id_mem, fun _ _ => rfl, fun s' hs => ?_⟩
  exact ⟨s', rfl, fun l hl => hs l (ρ.reads_of_writes hl), fun _ _ => rfl⟩

theorem Confined.bind {f g : S → Option S} (hf : Confined M ρ P f)
    (hQ : ∀ s t, P s → f s = some t → Q t) (hg : Confined M ρ Q g) :
    Confined M ρ P fun s => (f s).bind g := by
  intro s u hs h
  obtain ⟨t, ht, hu⟩ := Option.bind_eq_some_iff.1 h
  obtain ⟨e, he, hm, hdet⟩ := hf s t hs ht
  obtain ⟨e', he', hm', hdet'⟩ := hg t u (hQ s t hs ht) hu
  refine ⟨fun l => e' l ∘ e l, fun l => (E l).comp_mem (he l) (he' l), hm.comp hm', ?_⟩
  intro s' hagree
  obtain ⟨t', ht', hw, hmt⟩ := hdet s' hagree
  obtain ⟨u', hu', hw', hmu⟩ := hdet' t' (hm.agree hmt hagree hw)
  exact ⟨u', Option.bind_eq_some_iff.2 ⟨t', ht', hu'⟩, hw', hmt.comp hmu⟩

theorem Confined.bindVal {f : S → Option S} {g : S → Option (A × S)} (hf : Confined M ρ P f)
    (hQ : ∀ s t, P s → f s = some t → Q t) (hg : ConfinedVal M ρ Q g) :
    ConfinedVal M ρ P fun s => (f s).bind g := by
  intro s a u hs h
  obtain ⟨t, ht, hu⟩ := Option.bind_eq_some_iff.1 h
  obtain ⟨e, he, hm, hdet⟩ := hf s t hs ht
  obtain ⟨e', he', hm', hdet'⟩ := hg t a u (hQ s t hs ht) hu
  refine ⟨fun l => e' l ∘ e l, fun l => (E l).comp_mem (he l) (he' l), hm.comp hm', ?_⟩
  intro s' hagree
  obtain ⟨t', ht', hw, hmt⟩ := hdet s' hagree
  obtain ⟨u', hu', hw', hmu⟩ := hdet' t' (hm.agree hmt hagree hw)
  exact ⟨u', Option.bind_eq_some_iff.2 ⟨t', ht', hu'⟩, hw', hmt.comp hmu⟩

/-- A step whose continuation depends on its result. -/
theorem ConfinedVal.bindVal {f : S → Option (A × S)} {g : A → S → Option (B × S)}
    {Q : A → S → Prop} (hf : ConfinedVal M ρ P f)
    (hQ : ∀ s a t, P s → f s = some (a, t) → Q a t) (hg : ∀ a, ConfinedVal M ρ (Q a) (g a)) :
    ConfinedVal M ρ P fun s => (f s).bind fun p => g p.1 p.2 := by
  intro s b u hs h
  obtain ⟨⟨a, t⟩, ht, hu⟩ := Option.bind_eq_some_iff.1 h
  obtain ⟨e, he, hm, hdet⟩ := hf s a t hs ht
  obtain ⟨e', he', hm', hdet'⟩ := hg a t b u (hQ s a t hs ht) hu
  refine ⟨fun l => e' l ∘ e l, fun l => (E l).comp_mem (he l) (he' l), hm.comp hm', ?_⟩
  intro s' hagree
  obtain ⟨t', ht', hw, hmt⟩ := hdet s' hagree
  obtain ⟨u', hu', hw', hmu⟩ := hdet' t' (hm.agree hmt hagree hw)
  exact ⟨u', Option.bind_eq_some_iff.2 ⟨(a, t'), ht', hu'⟩, hw', hmt.comp hmu⟩

theorem ConfinedVal.bind {f : S → Option (A × S)} {g : A → S → Option S} {Q : A → S → Prop}
    (hf : ConfinedVal M ρ P f) (hQ : ∀ s a t, P s → f s = some (a, t) → Q a t)
    (hg : ∀ a, Confined M ρ (Q a) (g a)) :
    Confined M ρ P fun s => (f s).bind fun p => g p.1 p.2 := by
  intro s u hs h
  obtain ⟨⟨a, t⟩, ht, hu⟩ := Option.bind_eq_some_iff.1 h
  obtain ⟨e, he, hm, hdet⟩ := hf s a t hs ht
  obtain ⟨e', he', hm', hdet'⟩ := hg a t u (hQ s a t hs ht) hu
  refine ⟨fun l => e' l ∘ e l, fun l => (E l).comp_mem (he l) (he' l), hm.comp hm', ?_⟩
  intro s' hagree
  obtain ⟨t', ht', hw, hmt⟩ := hdet s' hagree
  obtain ⟨u', hu', hw', hmu⟩ := hdet' t' (hm.agree hmt hagree hw)
  exact ⟨u', Option.bind_eq_some_iff.2 ⟨(a, t'), ht', hu'⟩, hw', hmt.comp hmu⟩

/-- A confined step that also returns a fixed value. -/
theorem Confined.returning {f : S → Option S} (hf : Confined M ρ P f) (a : A) :
    ConfinedVal M ρ P fun s => (f s).map (Prod.mk a) := by
  intro s b t hs h
  obtain ⟨t, ht, heq⟩ := Option.map_eq_some_iff.1 h
  cases heq
  obtain ⟨e, he, hm, hdet⟩ := hf s t hs ht
  refine ⟨e, he, hm, fun s' hagree => ?_⟩
  obtain ⟨t', ht', hw, hmt⟩ := hdet s' hagree
  exact ⟨t', by simp only [ht', Option.map_some], hw, hmt⟩

/-- A step whose result only selects what is done at the end. -/
theorem ConfinedVal.map {f : S → Option (A × S)} {g : A → S → S} (hf : ConfinedVal M ρ P f)
    (hg : ∀ a, Confined M ρ (fun _ => True) fun s => some (g a s)) :
    Confined M ρ P fun s => (f s).map fun p => g p.1 p.2 := by
  have h := hf.bind (Q := fun _ _ => True) (fun _ _ _ _ _ => trivial) hg
  simpa only [Option.map_eq_bind, Function.comp_def] using h

/-- A step may depend on a value computed from what it reads. -/
theorem Confined.read {r : S → B} {F : B → S → Option S}
    (hr : ∀ s s', P s → M.Agree ρ.reads s s' → r s' = r s)
    (hF : ∀ b, Confined M ρ (fun s => P s ∧ r s = b) (F b)) :
    Confined M ρ P fun s => F (r s) s := by
  intro s t hs h
  obtain ⟨e, he, hm, hdet⟩ := hF (r s) s t ⟨hs, rfl⟩ h
  refine ⟨e, he, hm, fun s' hagree => ?_⟩
  dsimp only
  rw [hr s s' hs hagree]
  exact hdet s' hagree

/-- A total step whose effect on the locations it does not write is fixed. -/
theorem Confined.total {u : S → S} (eff : (l : L) → Val l → Val l)
    (heff : ∀ l, (E l).allowed (eff l)) (hm : ∀ s, M.Moved ρ eff s (u s))
    (hdet : ∀ s s', M.Agree ρ.reads s s' → M.Agree ρ.writes (u s) (u s')) :
    Confined M ρ P fun s => some (u s) := by
  intro s t _ h
  cases h
  exact ⟨eff, heff, hm s, fun s' hs => ⟨u s', rfl, hdet s s' hs, hm s'⟩⟩

theorem Confined.runAll {step : B → S → Option S} {bs : List B}
    (h : ∀ b ∈ bs, Confined M ρ (fun _ => True) (step b)) :
    Confined M ρ (fun _ => True) (runAll step bs) := by
  induction bs with
  | nil => exact Confined.pure
  | cons b bs ih =>
    exact (h b List.mem_cons_self).bind (fun _ _ _ _ => trivial)
      (ih fun c hc => h c (List.mem_cons_of_mem b hc))

end Rules

/-! ## Regions that do not meet -/

/-- No location written on one side is read on the other. -/
def Region.Apart (ρ σ : Region E) : Prop :=
  ∀ l, (ρ.writes l → ¬ σ.reads l) ∧ (σ.writes l → ¬ ρ.reads l)

theorem Region.Apart.symm {ρ σ : Region E} (h : ρ.Apart σ) : σ.Apart ρ := fun l => (h l).symm

section Apart

variable {ρ σ : Region E} {P Q : S → Prop} {f g : S → Option S}

/-- A step leaves alone what a step apart from it reads. -/
theorem Confined.agree_of_apart (hf : Confined M ρ P f) (hap : ρ.Apart σ) {s t : S} (hs : P s)
    (h : f s = some t) : M.Agree σ.reads s t := by
  obtain ⟨e, he, hm, -⟩ := hf s t hs h
  intro l hl
  exact (hm.get_eq he (fun hw => (hap l).1 hw hl) hl).symm

/-- If one order of two steps apart ends, so does the other, in the same state. -/
theorem Confined.swap (hf : Confined M ρ P f) (hg : Confined M σ Q g) (hap : ρ.Apart σ)
    {s t u : S} (hs : P s) (ht : f s = some t) (hQ : Q t) (hu : g t = some u) :
    ∃ t', g s = some t' ∧ f t' = some u := by
  obtain ⟨e, he, hm, hdet⟩ := hf s t hs ht
  obtain ⟨e', he', hm', hdet'⟩ := hg t u hQ hu
  obtain ⟨t', ht', hw', hmt'⟩ := hdet' s (hf.agree_of_apart hap hs ht).symm
  have hread : M.Agree ρ.reads s t' := by
    intro l hl
    exact (hmt'.get_eq he' (fun hw => (hap l).2 hw hl) hl).symm
  obtain ⟨u', hu', hw, hmu⟩ := hdet t' hread
  refine ⟨t', ht', ?_⟩
  rw [hu']
  congr 1
  refine M.ext fun l => ?_
  by_cases hlf : ρ.writes l
  · -- written by `f`, and kept by `g`, which comes after it in the first order
    have hlg : ¬ σ.writes l := fun hlg => (hap l).1 hlf (σ.reads_of_writes hlg)
    rw [← hw l hlf, hm'.get_eq he' hlg (ρ.reads_of_writes hlf)]
  · by_cases hlg : σ.writes l
    · rw [hmu.get_eq he hlf (σ.reads_of_writes hlg), hw' l hlg]
    · rw [hmu l hlf, hmt' l hlg, hm' l hlg, hm l hlf]
      exact (E l).comm (he l) (he' l) _

end Apart

/-- **Steps confined to regions that do not meet commute**, in a state that meets what both ask for,
if this is a matter of what they read. -/
theorem Confined.commute {ρ σ : Region E} {P Q : S → Prop} {f g : S → Option S}
    (hf : Confined M ρ P f) (hg : Confined M σ Q g) (hap : ρ.Apart σ)
    (hP : ∀ s t, M.Agree ρ.reads s t → P s → P t) (hQ : ∀ s t, M.Agree σ.reads s t → Q s → Q t)
    {s : S} (hs : P s) (hs' : Q s) : (f s).bind g = (g s).bind f := by
  have hdir : ∀ {ρ σ : Region E} {P Q : S → Prop} {f g : S → Option S}, Confined M ρ P f →
      Confined M σ Q g → ρ.Apart σ → (∀ s t, M.Agree σ.reads s t → Q s → Q t) → P s → Q s →
      ∀ u, (f s).bind g = some u → (g s).bind f = some u := by
    intro ρ σ P Q f g hf hg hap hQ hs hs' u h
    obtain ⟨t, ht, hu⟩ := Option.bind_eq_some_iff.1 h
    obtain ⟨t', ht', hu'⟩ := hf.swap hg hap hs ht (hQ s t (hf.agree_of_apart hap hs ht) hs') hu
    exact Option.bind_eq_some_iff.2 ⟨t', ht', hu'⟩
  exact Option.ext fun u => ⟨hdir hf hg hap hQ hs hs' u, hdir hg hf hap.symm hP hs' hs u⟩

end Confined

end Potter.Lib
