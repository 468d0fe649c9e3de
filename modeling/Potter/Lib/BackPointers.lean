import Mathlib.Algebra.BigOperators.Group.List.Basic
import Mathlib.Algebra.GroupWithZero.Nat
import Mathlib.Data.Fintype.Card
import Mathlib.Data.List.Chain
import Mathlib.Logic.Function.Basic
import Mathlib.Logic.Relation

/-!
# Searches with back pointers and no marks

A search that takes nodes from a queue, first in first out, and lets every node it queues point back
to the node it was met from. It does not mark what it has met, so a node is queued again whenever it
is met again, and its pointer is overwritten; so is that of the root.

A pointer is an edge whatever was overwritten (`Pointed`). A list of nodes read off the pointers is
therefore a path from the root, if it ends (`Pointed.path`). It ends exactly if no cycle of pointers
lies ahead (`trail_eq_none`, `exists_trail`), and that is so if the graph has no cycle there
(`Pointed.exists_trail`). The search itself ends on a finite graph without cycles (`run_total`, with
the size of `exists_size`).
-/

namespace Potter.Lib.BackPointers

/-! ## The loop -/

section Run

variable {S V R : Type}

/-- What the visit of a node leads to. -/
inductive Visit (S V R : Type)
  | stop (result : R)
  | next (s : S) (queued : List V)

/-- Visit the nodes of a queue until one of them ends the search. There is no result when the fuel
runs out, and `some none` when the queue does. -/
def run (visit : S → V → Visit S V R) : Nat → S → List V → Option (Option R)
  | _, _, [] => some none
  | 0, _, _ :: _ => none
  | fuel + 1, s, v :: q =>
    match visit s v with
    | .stop r => some (some r)
    | .next s' queued => run visit fuel s' (q ++ queued)

variable {visit : S → V → Visit S V R}

theorem run_mono {fuel : Nat} {s : S} {q : List V} {out : Option R}
    (h : run visit fuel s q = some out) {fuel' : Nat} (hle : fuel ≤ fuel') :
    run visit fuel' s q = some out := by
  induction fuel generalizing s q fuel' with
  | zero =>
    cases q with
    | nil => cases fuel' <;> exact h
    | cons v q => cases h
  | succ fuel ih =>
    obtain ⟨fuel', rfl⟩ := Nat.exists_eq_add_of_lt (Nat.lt_of_lt_of_le (Nat.lt_succ_self fuel) hle)
    cases q with
    | nil => exact h
    | cons v q =>
      rw [run] at h ⊢
      cases hvisit : visit s v with
      | stop r =>
        rw [hvisit] at h
        exact h
      | next s' queued =>
        rw [hvisit] at h
        exact ih h (Nat.le_add_right fuel fuel')

/-- How a search can end: a node stops it, the queue is empty, or the fuel has run out. -/
inductive Ends (visit : S → V → Visit S V R) (Inv : Nat → S → List V → Prop) (total : Nat) :
    Option (Option R) → Prop
  | stop {n s v q r} (hn : n < total) (h : Inv n s (v :: q)) (hstop : visit s v = .stop r) :
    Ends visit Inv total (some (some r))
  | empty {n s} (h : Inv n s []) : Ends visit Inv total (some none)
  | fuel {s q} (h : Inv total s q) : Ends visit Inv total none

/-- **A search keeps its invariant to its end.** The invariant may count the visits. -/
theorem ends_of_run {Inv : Nat → S → List V → Prop} {total : Nat}
    (hstep : ∀ {n s v q s' queued}, n < total → Inv n s (v :: q) → visit s v = .next s' queued →
      Inv (n + 1) s' (q ++ queued)) {fuel n : Nat} {s : S} {q : List V} (htotal : n + fuel = total)
    (h : Inv n s q) : Ends visit Inv total (run visit fuel s q) := by
  induction fuel generalizing n s q with
  | zero =>
    cases q with
    | nil => exact .empty h
    | cons v q =>
      rw [Nat.add_zero] at htotal
      rw [htotal] at h
      exact .fuel h
  | succ fuel ih =>
    have hn : n < total := by omega
    cases q with
    | nil => exact .empty h
    | cons v q =>
      rw [run]
      cases hvisit : visit s v with
      | stop r => exact .stop hn h hvisit
      | next s' queued => exact ih (by omega) (hstep hn h hvisit)

/-- A search that is stopped by a node has kept its invariant until then. -/
theorem run_stop (Inv : S → List V → Prop)
    (hstep : ∀ {s v q s' queued}, Inv s (v :: q) → visit s v = .next s' queued →
      Inv s' (q ++ queued))
    {fuel : Nat} {s : S} {q : List V} {r : R} (h : Inv s q)
    (hrun : run visit fuel s q = some (some r)) : ∃ s v q, Inv s (v :: q) ∧ visit s v = .stop r := by
  have hends : Ends visit (fun _ => Inv) fuel (run visit fuel s q) :=
    ends_of_run (fun _ h hnext => hstep h hnext) (Nat.zero_add fuel) h
  rw [hrun] at hends
  cases hends with
  | stop _ h hstop => exact ⟨_, _, _, h, hstop⟩

/-- **The search ends** if every node is worth more than what its visit queues. -/
theorem run_total (Inv : S → List V → Prop) (size : V → Nat)
    (hstep : ∀ {s v q s' queued}, Inv s (v :: q) → visit s v = .next s' queued →
      Inv s' (q ++ queued) ∧ (queued.map size).sum < size v)
    (hpos : ∀ v, 0 < size v) :
    ∀ {fuel : Nat} {s : S} {q : List V}, Inv s q → (q.map size).sum ≤ fuel →
      ∃ out, run visit fuel s q = some out := by
  intro fuel
  induction fuel with
  | zero =>
    intro s q h hfuel
    cases q with
    | nil => exact ⟨none, rfl⟩
    | cons v q =>
      have := hpos v
      rw [List.map_cons, List.sum_cons] at hfuel
      omega
  | succ fuel ih =>
    intro s q h hfuel
    cases q with
    | nil => exact ⟨none, rfl⟩
    | cons v q =>
      rw [run]
      cases hvisit : visit s v with
      | stop r => exact ⟨some r, rfl⟩
      | next s' queued =>
        obtain ⟨hinv, hlt⟩ := hstep h hvisit
        refine ih hinv ?_
        rw [List.map_cons, List.sum_cons] at hfuel
        rw [List.map_append, List.sum_append]
        omega

/-- On a finite graph without cycles every node can be given a size that exceeds those of its
children together. -/
theorem exists_size [Finite V] (children : V → List V)
    (hacyclic : ∀ v, ¬Relation.TransGen (fun u w => w ∈ children u) v v) :
    ∃ size : V → Nat, (∀ v, 0 < size v) ∧ ∀ v, ((children v).map size).sum < size v := by
  let below (w u : V) : Prop := Relation.TransGen (fun u w => w ∈ children u) u w
  have : IsTrans V below := ⟨fun _ _ _ h h' => h'.trans h⟩
  have : Std.Irrefl below := ⟨hacyclic⟩
  have hwf : WellFounded below := Finite.wellFounded_of_trans_of_irrefl below
  let size : V → Nat := hwf.fix fun u ih =>
    ((children u).attach.map fun c => ih c.1 (.single c.2)).sum + 1
  have hsize : ∀ v, size v = ((children v).map size).sum + 1 := by
    intro v
    show hwf.fix _ v = _
    rw [hwf.fix_eq]
    congr 2
    exact List.attach_map_val (l := children v) (f := size)
  refine ⟨size, fun v => ?_, fun v => ?_⟩
  · rw [hsize]
    exact Nat.succ_pos _
  · rw [hsize v]
    exact Nat.lt_succ_self _

end Run

/-! ## Following pointers -/

section Trail

variable {V : Type}

/-- The nodes from `v` on along the pointers, up to one that points nowhere; at most `fuel` of
them. -/
def trail (prev : V → Option V) : Nat → V → Option (List V)
  | 0, _ => none
  | fuel + 1, v =>
    match prev v with
    | none => some [v]
    | some u => (trail prev fuel u).map (v :: ·)

/-- `v` points to `u`. -/
def Link (prev : V → Option V) (v u : V) : Prop := prev v = some u

variable {prev : V → Option V} {fuel : Nat} {v : V} {p : List V}

theorem trail_none (h : prev v = none) : trail prev (fuel + 1) v = some [v] := by
  rw [trail, h]

theorem trail_some {u : V} (h : prev v = some u) :
    trail prev (fuel + 1) v = (trail prev fuel u).map (v :: ·) := by
  rw [trail, h]

theorem trail_mono (h : trail prev fuel v = some p) {fuel' : Nat} (hle : fuel ≤ fuel') :
    trail prev fuel' v = some p := by
  induction fuel generalizing v p fuel' with
  | zero => cases h
  | succ fuel ih =>
    obtain ⟨fuel', rfl⟩ := Nat.exists_eq_succ_of_ne_zero (Nat.ne_of_gt (Nat.lt_of_lt_of_le
      (Nat.succ_pos fuel) hle))
    cases hv : prev v with
    | none =>
      rw [trail_none hv] at h ⊢
      exact h
    | some u =>
      rw [trail_some hv] at h ⊢
      obtain ⟨q, hq, rfl⟩ := Option.map_eq_some_iff.1 h
      rw [ih hq (Nat.le_of_succ_le_succ hle), Option.map_some]

/-- What is read off the pointers. -/
theorem trail_chain (h : trail prev fuel v = some p) :
    p.head? = some v ∧ p.IsChain (Link prev) ∧ (∃ r, p.getLast? = some r ∧ prev r = none) ∧
      ∀ u ∈ p, Relation.ReflTransGen (Link prev) v u := by
  induction fuel generalizing v p with
  | zero => cases h
  | succ fuel ih =>
    cases hv : prev v with
    | none =>
      rw [trail_none hv] at h
      cases h
      refine ⟨rfl, List.isChain_singleton v, ⟨v, rfl, hv⟩, fun u hu => ?_⟩
      rw [List.mem_singleton.1 hu]
    | some u =>
      rw [trail_some hv] at h
      obtain ⟨q, hq, rfl⟩ := Option.map_eq_some_iff.1 h
      obtain ⟨hhead, hchain, ⟨r, hlast, hr⟩, hahead⟩ := ih hq
      obtain ⟨q, rfl⟩ := List.head?_eq_some_iff.1 hhead
      refine ⟨rfl, List.isChain_cons_cons.2 ⟨hv, hchain⟩, ⟨r, ?_, hr⟩, fun w hw => ?_⟩
      · rw [List.getLast?_cons_cons]
        exact hlast
      · rcases List.mem_cons.1 hw with rfl | hw
        · exact .refl
        · exact .head hv (hahead w hw)

/-- Every node of a trail is where a trail starts that is no longer. -/
theorem trail_of_mem (h : trail prev fuel v = some p) {u : V} (hu : u ∈ p) :
    ∃ q, trail prev fuel u = some q ∧ q.length ≤ p.length := by
  induction fuel generalizing v p with
  | zero => cases h
  | succ fuel ih =>
    cases hv : prev v with
    | none =>
      have hp := h
      rw [trail_none hv] at hp
      cases hp
      obtain rfl := List.mem_singleton.1 hu
      exact ⟨_, h, le_refl _⟩
    | some w =>
      have hp := h
      rw [trail_some hv] at hp
      obtain ⟨q, hq, rfl⟩ := Option.map_eq_some_iff.1 hp
      rcases List.mem_cons.1 hu with rfl | hu
      · exact ⟨_, h, le_refl _⟩
      · obtain ⟨q', hq', hle⟩ := ih hq hu
        exact ⟨q', trail_mono hq' (Nat.le_succ fuel), hle.trans (Nat.le_succ _)⟩

theorem trail_nodup (h : trail prev fuel v = some p) : p.Nodup := by
  induction fuel generalizing v p with
  | zero => cases h
  | succ fuel ih =>
    cases hv : prev v with
    | none =>
      rw [trail_none hv] at h
      cases h
      exact List.nodup_singleton v
    | some u =>
      have hp := h
      rw [trail_some hv] at hp
      obtain ⟨q, hq, rfl⟩ := Option.map_eq_some_iff.1 hp
      refine List.nodup_cons.2 ⟨fun hmem => ?_, ih hq⟩
      -- The trail from `v` would be a proper part of itself.
      obtain ⟨q', hq', hle⟩ := trail_of_mem hq hmem
      rw [trail_mono hq' (Nat.le_succ fuel)] at h
      cases h
      rw [List.length_cons] at hle
      omega

/-- A cycle lies ahead. -/
def Looping (prev : V → Option V) (v : V) : Prop :=
  ∃ u, Relation.ReflTransGen (Link prev) v u ∧ Relation.TransGen (Link prev) u u

theorem Looping.next (h : Looping prev v) : ∃ u, prev v = some u ∧ Looping prev u := by
  obtain ⟨w, hvw, hww⟩ := h
  rcases Relation.ReflTransGen.cases_head hvw with rfl | ⟨u, hvu, huw⟩
  · obtain ⟨u, hvu, huv⟩ := Relation.TransGen.head'_iff.1 hww
    exact ⟨u, hvu, v, huv, hww⟩
  · exact ⟨u, hvu, w, huw, hww⟩

/-- **With a cycle ahead there is no end.** -/
theorem trail_eq_none (h : Looping prev v) (fuel : Nat) : trail prev fuel v = none := by
  induction fuel generalizing v with
  | zero => rfl
  | succ fuel ih =>
    obtain ⟨u, hu, hloop⟩ := h.next
    rw [trail_some hu, ih hloop, Option.map_none]

/-- **Without one there is**, in a finite graph. -/
theorem exists_trail [Finite V] (h : ¬Looping prev v) : ∃ fuel p, trail prev fuel v = some p := by
  let ahead (u w : V) : Prop :=
    Relation.ReflTransGen (Link prev) v w ∧ Relation.TransGen (Link prev) w u
  have : IsTrans V ahead := ⟨fun _ _ _ h h' => ⟨h'.1, h'.2.trans h.2⟩⟩
  have : Std.Irrefl ahead := ⟨fun u hu => h ⟨u, hu⟩⟩
  have hwf : WellFounded ahead := Finite.wellFounded_of_trans_of_irrefl ahead
  have hall : ∀ u, Relation.ReflTransGen (Link prev) v u → ∃ fuel p, trail prev fuel u = some p := by
    intro u
    induction u using hwf.induction with
    | _ u ih =>
      intro hu
      cases hprev : prev u with
      | none => exact ⟨1, [u], trail_none hprev⟩
      | some w =>
        obtain ⟨fuel, p, hp⟩ := ih w ⟨hu, .single hprev⟩ (hu.tail hprev)
        exact ⟨fuel + 1, u :: p, by rw [trail_some hprev, hp, Option.map_some]⟩
  exact hall v .refl

end Trail

/-! ## The pointers of a search -/

section Pointed

variable {V : Type}

/-- Let some nodes point to `u`. -/
def pointAll [DecidableEq V] (prev : V → Option V) (u : V) (cs : List V) : V → Option V :=
  cs.foldl (fun prev c => Function.update prev c (some u)) prev

theorem pointAll_apply [DecidableEq V] (prev : V → Option V) (u : V) (cs : List V) (v : V) :
    pointAll prev u cs v = if v ∈ cs then some u else prev v := by
  induction cs generalizing prev with
  | nil => rfl
  | cons c cs ih =>
    rw [pointAll, List.foldl_cons, ← pointAll, ih]
    by_cases hc : v = c <;> by_cases hcs : v ∈ cs <;> simp [hc, hcs]

/-- The pointers run against the edges. What is queued, and what is pointed to, is reached from the
root, and points somewhere unless it is the root. -/
structure Pointed (E : V → V → Prop) (root : V) (prev : V → Option V) (q : List V) : Prop where
  edge : ∀ {v u}, prev v = some u → E u v
  reach : ∀ {v}, (v ∈ q ∨ ∃ w, prev w = some v) → Relation.ReflTransGen E root v
  points : ∀ {v}, (v ∈ q ∨ ∃ w, prev w = some v) → v = root ∨ ∃ u, prev v = some u

variable {E : V → V → Prop} {root : V} {prev : V → Option V} {q : List V} {v : V}

theorem pointed_start : Pointed E root (fun _ => none) [root] where
  edge h := by cases h
  reach := by
    rintro v (hv | ⟨w, hw⟩)
    · rw [List.mem_singleton.1 hv]
    · cases hw
  points := by
    rintro v (hv | ⟨w, hw⟩)
    · exact .inl (List.mem_singleton.1 hv)
    · cases hw

theorem Pointed.mono (h : Pointed E root prev q) {q' : List V} (hq : ∀ u ∈ q', u ∈ q) :
    Pointed E root prev q' where
  edge := h.edge
  reach hv := h.reach (hv.imp_left (hq _))
  points hv := h.points (hv.imp_left (hq _))

/-- **The visit of a node** keeps this, whatever the children pointed to before. -/
theorem Pointed.visit [DecidableEq V] {u : V} (h : Pointed E root prev (u :: q)) {cs : List V}
    (hcs : ∀ c ∈ cs, E u c) : Pointed E root (pointAll prev u cs) (u :: (q ++ cs)) := by
  have hu : Relation.ReflTransGen E root u := h.reach (.inl List.mem_cons_self)
  -- A known node was known before or is one of the children.
  have hknown : ∀ {v}, (v ∈ u :: (q ++ cs) ∨ ∃ w, pointAll prev u cs w = some v) →
      v ∈ cs ∨ v ∈ u :: q ∨ ∃ w, prev w = some v := by
    intro v hv
    simp only [pointAll_apply] at hv
    rcases hv with hv | ⟨w, hw⟩
    · rcases List.mem_cons.1 hv with rfl | hv
      · exact .inr (.inl List.mem_cons_self)
      · rcases List.mem_append.1 hv with hv | hv
        · exact .inr (.inl (List.mem_cons_of_mem u hv))
        · exact .inl hv
    · split at hw
      · cases hw
        exact .inr (.inl List.mem_cons_self)
      · exact .inr (.inr ⟨w, hw⟩)
  refine ⟨fun {v w} hv => ?_, fun {v} hv => ?_, fun {v} hv => ?_⟩
  · rw [pointAll_apply] at hv
    split at hv
    · rename_i hmem
      cases hv
      exact hcs v hmem
    · exact h.edge hv
  · rcases hknown hv with hv | hv
    · exact hu.tail (hcs v hv)
    · exact h.reach hv
  · simp only [pointAll_apply]
    rcases hknown hv with hv | hv
    · rw [if_pos hv]
      exact .inr ⟨u, rfl⟩
    · refine (h.points hv).imp_right fun ⟨w, hw⟩ => ?_
      split
      · exact ⟨u, rfl⟩
      · exact ⟨w, hw⟩

/-- **Where a search stops** that queues nodes along edges and lets them point back, and does nothing
else. -/
theorem pointed_of_run [DecidableEq V] {R : Type} {visit : (V → Option V) → V → Visit (V → Option V) V R}
    (hvisit : ∀ {prev v prev' cs}, visit prev v = .next prev' cs →
      prev' = pointAll prev v cs ∧ ∀ c ∈ cs, E v c) {fuel : Nat} {r : R}
    (hrun : run visit fuel (fun _ => none) [root] = some (some r)) :
    ∃ prev v q, Pointed E root prev (v :: q) ∧ visit prev v = .stop r := by
  refine run_stop (Pointed E root) (fun {prev v q prev' cs} h hnext => ?_) pointed_start hrun
  obtain ⟨rfl, hcs⟩ := hvisit hnext
  exact (h.visit hcs).mono fun u hu => List.mem_cons_of_mem v hu

/-- What is ahead of a queued node is queued or pointed to. -/
theorem known_of_link (hv : v ∈ q) {u : V}
    (hu : Relation.ReflTransGen (Link prev) v u) : u ∈ q ∨ ∃ w, prev w = some u := by
  rcases Relation.ReflTransGen.cases_tail hu with rfl | ⟨w, -, hw⟩
  · exact .inl hv
  · exact .inr ⟨w, hw⟩

/-- **What is read off the pointers is a path**, against the edges, to the root. -/
theorem Pointed.path (h : Pointed E root prev q) (hv : v ∈ q) {fuel : Nat} {p : List V}
    (hp : trail prev fuel v = some p) :
    p.head? = some v ∧ p.getLast? = some root ∧ p.Nodup ∧ (p.IsChain fun w u => E u w) ∧
      ∀ u ∈ p, Relation.ReflTransGen E root u := by
  obtain ⟨hhead, hchain, ⟨r, hlast, hr⟩, hahead⟩ := trail_chain hp
  have hknown : ∀ u ∈ p, u ∈ q ∨ ∃ w, prev w = some u := fun u hu => known_of_link hv (hahead u hu)
  have hroot : r = root := by
    rcases h.points (hknown r (List.mem_of_getLast? hlast)) with e | ⟨u, hu⟩
    · exact e
    · rw [hr] at hu
      cases hu
  rw [hroot] at hlast
  exact ⟨hhead, hlast, trail_nodup hp, hchain.imp fun _ _ hl => h.edge hl,
    fun u hu => h.reach (hknown u hu)⟩

/-- **It can be read off** if no node between the root and `v` lies on a cycle. -/
theorem Pointed.exists_trail [Finite V] (h : Pointed E root prev q) (hv : v ∈ q)
    (hacyclic : ∀ u, Relation.ReflTransGen E root u → Relation.ReflTransGen E u v →
      ¬Relation.TransGen E u u) : ∃ fuel p, trail prev fuel v = some p := by
  refine BackPointers.exists_trail ?_
  rintro ⟨u, hvu, hcycle⟩
  refine hacyclic u (h.reach (known_of_link hv hvu)) ?_ ?_
  · refine Relation.reflTransGen_swap.1 (Relation.ReflTransGen.mono ?_ _ _ hvu)
    exact fun _ _ hl => h.edge hl
  · refine Relation.transGen_swap.1 (Relation.TransGen.mono ?_ _ _ hcycle)
    exact fun _ _ hl => h.edge hl

end Pointed

end Potter.Lib.BackPointers
