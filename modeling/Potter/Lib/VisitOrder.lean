import Mathlib.Data.List.Shortlex
import Potter.Lib.BackPointers

/-!
# The order of a search without marks

A search that takes nodes from a queue, first in first out, and queues all children of a node it
visits comes to a node once for every walk from the root. A walk is named by its address, the indices
of the children it takes. Addresses are visited in shortlex order, the shorter ones first and those of
one length by their first difference (`Ordered`).

So whether a search comes to the goal before it gives up (`Met`) and what it visits before (`Ahead`)
can be said by the addresses alone, and also where the nodes point to in the end (`run_spec`).
-/

namespace Potter.Lib.BackPointers

variable {V : Type} (children : V → List V)

/-! ## Addresses -/

/-- The node at an address. -/
def nodeAt : V → List Nat → Option V
  | v, [] => some v
  | v, i :: addr => (children v)[i]?.bind fun c => nodeAt c addr

/-- The order in which addresses are visited. -/
def Earlier : List Nat → List Nat → Prop := List.Shortlex (· < ·)

variable {children} {root goal : V}

theorem nodeAt_append (a b : List Nat) (v : V) :
    nodeAt children v (a ++ b) = (nodeAt children v a).bind fun u => nodeAt children u b := by
  induction a generalizing v with
  | nil => rfl
  | cons i a ih =>
    rw [List.cons_append, nodeAt, nodeAt, Option.bind_assoc]
    exact Option.bind_congr fun c _ => ih c

theorem Earlier.asymm {a b : List Nat} (h : Earlier a b) : ¬Earlier b a :=
  Std.Asymm.asymm (r := List.Shortlex (· < · : Nat → Nat → Prop)) a b h

theorem Earlier.append {a b : List Nat} (h : Earlier a b) (c : List Nat) : Earlier a (b ++ c) :=
  List.Shortlex.append_right c h

theorem earlier_append_singleton (a : List Nat) (i : Nat) : Earlier a (a ++ [i]) := by
  refine List.Shortlex.of_length_lt ?_
  rw [List.length_append]
  exact Nat.lt_succ_self _

/-- Addresses of one parent. -/
theorem earlier_of_lt (a : List Nat) {i j : Nat} (h : i < j) : Earlier (a ++ [i]) (a ++ [j]) :=
  List.Shortlex.append_left ((List.shortlex_singleton_iff i j).2 h) a

/-- Addresses of different parents are visited in the order of the parents. -/
theorem Earlier.concat {a b : List Nat} (h : Earlier a b) (i j : Nat) :
    Earlier (a ++ [i]) (b ++ [j]) := by
  rcases List.shortlex_def.1 h with hlt | ⟨heq, hlex⟩
  · refine List.Shortlex.of_length_lt ?_
    rw [List.length_append, List.length_append]
    exact Nat.add_lt_add_right hlt 1
  · have hsame : (a ++ [i]).length = (b ++ [j]).length := by
      rw [List.length_append, List.length_append, heq]
      rfl
    refine List.Shortlex.of_lex hsame ?_
    clear hsame h
    induction hlex with
    | nil => cases heq
    | cons _ ih => exact .cons (ih (Nat.succ.inj heq))
    | rel hlt => exact .rel hlt

/-! ## What is met -/

variable (children) in
/-- The goal is one of the first nodes that a search visits: to one of its addresses at most `limit`
are earlier. -/
def Met (root goal : V) (limit : Nat) : Prop :=
  ∃ addr, nodeAt children root addr = some goal ∧
    ∃ earlier : List (List Nat), earlier.length ≤ limit ∧
      ∀ a, (nodeAt children root a).isSome → Earlier a addr → a ∈ earlier

variable (children) in
/-- The address is visited before the goal. -/
def Ahead (root goal : V) (addr : List Nat) : Prop :=
  ∀ a, nodeAt children root a = some goal → Earlier addr a

variable (children) in
/-- Of the addresses in question, the last whose node has `v` as a child is one of `u`. -/
def LastFrom (root : V) (P : List Nat → Prop) (v u : V) : Prop :=
  ∃ addr, P addr ∧ nodeAt children root addr = some u ∧ v ∈ children u ∧
    ∀ b w, P b → nodeAt children root b = some w → v ∈ children w → b = addr ∨ Earlier b addr

theorem LastFrom.congr {P Q : List Nat → Prop}
    (h : ∀ a, (nodeAt children root a).isSome → (P a ↔ Q a)) {v u : V} :
    LastFrom children root P v u ↔ LastFrom children root Q v u := by
  refine exists_congr fun addr => ?_
  constructor
  · rintro ⟨hP, hu, hv, hlast⟩
    refine ⟨(h addr (Option.isSome_of_eq_some hu)).1 hP, hu, hv, fun b w hb hw => hlast b w ?_ hw⟩
    exact (h b (Option.isSome_of_eq_some hw)).2 hb
  · rintro ⟨hQ, hu, hv, hlast⟩
    refine ⟨(h addr (Option.isSome_of_eq_some hu)).2 hQ, hu, hv, fun b w hb hw => hlast b w ?_ hw⟩
    exact (h b (Option.isSome_of_eq_some hw)).1 hb

/-! ## The order -/

/-- The addresses of a search: those that were visited, then those that are queued, in order. Every
other address lies behind a queued one. -/
structure Ordered (children : V → List V) (root : V) (visited queued : List (List Nat)) : Prop where
  sorted : (visited ++ queued).Pairwise Earlier
  parent : ∀ a ∈ queued, a = [] ∨ ∃ b ∈ visited, ∃ i, a = b ++ [i]
  covers : ∀ a, (nodeAt children root a).isSome → a ∈ visited ∨ ∃ b ∈ queued, b <+: a

theorem ordered_start : Ordered children root [] [[]] where
  sorted := List.pairwise_singleton _ _
  parent _ ha := .inl (List.mem_singleton.1 ha)
  covers _ _ := .inr ⟨[], List.mem_singleton_self _, List.nil_prefix⟩

section Ordered

variable {visited queued : List (List Nat)} {addr : List Nat}

/-- The queued addresses come after the visited ones. -/
theorem Ordered.earlier (h : Ordered children root visited queued) {a b : List Nat}
    (ha : a ∈ visited) (hb : b ∈ queued) : Earlier a b :=
  (List.pairwise_append.1 h.sorted).2.2 a ha b hb

/-- **What comes before the next address was visited.** -/
theorem Ordered.mem_visited (h : Ordered children root visited (addr :: queued)) {a : List Nat}
    (ha : (nodeAt children root a).isSome) (hlt : Earlier a addr) : a ∈ visited := by
  refine (h.covers a ha).resolve_right ?_
  rintro ⟨b, hb, c, rfl⟩
  rcases List.mem_cons.1 hb with rfl | hb
  · -- an address is no longer than what it is a part of
    rcases List.shortlex_def.1 hlt with hlt | ⟨heq, -⟩
    · rw [List.length_append] at hlt
      omega
    · rw [List.length_append, Nat.add_eq_left, List.length_eq_zero_iff] at heq
      rw [heq, List.append_nil] at hlt
      exact hlt.asymm hlt
  · have hnext := (List.pairwise_cons.1 (List.pairwise_append.1 h.sorted).2.1).1 b hb
    exact (hnext.append c).asymm hlt

/-- **The visit of a node** at the next address. -/
theorem Ordered.visit {v : V} (h : Ordered children root visited (addr :: queued))
    (hv : nodeAt children root addr = some v) :
    Ordered children root (visited ++ [addr])
      (queued ++ (List.range (children v).length).map fun i => addr ++ [i]) := by
  obtain ⟨hvisited, hqueued, hcross⟩ := List.pairwise_append.1 h.sorted
  obtain ⟨hnext, hqueued⟩ := List.pairwise_cons.1 hqueued
  -- what is queued now comes after all that is known
  have hnew : ∀ a ∈ visited ++ addr :: queued, ∀ i, Earlier a (addr ++ [i]) := by
    intro a ha i
    rcases List.mem_append.1 ha with ha | ha
    · exact (hcross a ha addr List.mem_cons_self).append [i]
    · rcases List.mem_cons.1 ha with rfl | ha
      · exact earlier_append_singleton a i
      · rcases h.parent a (List.mem_cons_of_mem addr ha) with rfl | ⟨b, hb, j, rfl⟩
        · exact absurd (hnext [] ha) List.not_shortlex_nil_right
        · exact (hcross b hb addr List.mem_cons_self).concat j i
  refine ⟨?sorted, ?parent, ?covers⟩
  case sorted =>
    have hold : (visited ++ [addr] ++ queued).Pairwise Earlier := by
      rw [List.append_assoc]
      exact h.sorted
    rw [← List.append_assoc]
    refine List.pairwise_append.2 ⟨hold, ?_, fun a ha b hb => ?_⟩
    · rw [List.pairwise_map]
      exact List.pairwise_lt_range.imp fun hlt => earlier_of_lt addr hlt
    · obtain ⟨i, -, rfl⟩ := List.mem_map.1 hb
      rw [List.append_assoc] at ha
      exact hnew a ha i
  case parent =>
    intro a ha
    rcases List.mem_append.1 ha with ha | ha
    · refine (h.parent a (List.mem_cons_of_mem addr ha)).imp_right ?_
      rintro ⟨b, hb, i, rfl⟩
      exact ⟨b, List.mem_append_left _ hb, i, rfl⟩
    · obtain ⟨i, -, rfl⟩ := List.mem_map.1 ha
      exact .inr ⟨addr, List.mem_append_right _ (List.mem_singleton_self _), i, rfl⟩
  case covers =>
    intro a ha
    rcases h.covers a ha with hmem | ⟨b, hb, hprefix⟩
    · exact .inl (List.mem_append_left _ hmem)
    rcases List.mem_cons.1 hb with rfl | hb
    · obtain ⟨c, rfl⟩ := hprefix
      cases c with
      | nil =>
        rw [List.append_nil]
        exact .inl (List.mem_append_right _ (List.mem_singleton_self _))
      | cons i c =>
        rw [nodeAt_append, hv, Option.bind_some, nodeAt] at ha
        have hi : i < (children v).length := by
          by_contra hi
          rw [List.getElem?_eq_none (Nat.le_of_not_lt hi)] at ha
          cases ha
        refine .inr ⟨b ++ [i], List.mem_append_right _ (List.mem_map.2 ⟨i, List.mem_range.2 hi, rfl⟩),
          c, ?_⟩
        rw [List.append_assoc]
        rfl
    · exact .inr ⟨b, List.mem_append_left _ hb, hprefix⟩

/-- If the goal was not visited, everything that was visited is ahead of it. -/
theorem Ordered.ahead (h : Ordered children root visited queued)
    (hgoal : ∀ a ∈ visited, nodeAt children root a ≠ some goal) {a : List Nat} (ha : a ∈ visited) :
    Ahead children root goal a := by
  intro g hg
  rcases h.covers g (Option.isSome_of_eq_some hg) with hmem | ⟨b, hb, c, rfl⟩
  · exact absurd hg (hgoal g hmem)
  · exact (h.earlier ha hb).append c

/-- When the goal is next, what was visited is what is ahead of it. -/
theorem Ordered.mem_iff_ahead (h : Ordered children root visited (addr :: queued))
    (hgoal : ∀ a ∈ visited, nodeAt children root a ≠ some goal)
    (haddr : nodeAt children root addr = some goal) {a : List Nat}
    (ha : (nodeAt children root a).isSome) : a ∈ visited ↔ Ahead children root goal a :=
  ⟨h.ahead hgoal, fun hahead => h.mem_visited ha (hahead addr haddr)⟩

theorem Ordered.nodup (h : Ordered children root visited queued) : visited.Nodup :=
  (List.pairwise_append.1 h.sorted).1.imp fun hlt e => by
    subst e
    exact hlt.asymm hlt

/-- A goal that is met within the limit is visited within the limit. -/
theorem Ordered.not_met (h : Ordered children root visited queued)
    (hgoal : ∀ a ∈ visited, nodeAt children root a ≠ some goal)
    (hvalid : ∀ a ∈ visited, (nodeAt children root a).isSome) {limit : Nat}
    (hlimit : limit < visited.length) : ¬Met children root goal limit := by
  rintro ⟨g, hg, earlier, hle, hearlier⟩
  have hsubset : visited ⊆ earlier := fun a ha => hearlier a (hvalid a ha) (h.ahead hgoal ha g hg)
  have := (List.subperm_of_subset h.nodup hsubset).length_le
  omega

end Ordered

/-! ## The pointers of a search -/

/-- A search that has not come to the goal: the nodes of the queue stand at the queued addresses, and
a node points to where it was met last. -/
structure Searching (children : V → List V) (root goal : V) (visited queued : List (List Nat))
    (prev : V → Option V) (queue : List V) : Prop where
  ordered : Ordered children root visited queued
  valid : ∀ a ∈ visited, (nodeAt children root a).isSome
  unmet : ∀ a ∈ visited, nodeAt children root a ≠ some goal
  nodes : List.Forall₂ (fun a v => nodeAt children root a = some v) queued queue
  points : ∀ v u, prev v = some u ↔ LastFrom children root (· ∈ visited) v u

theorem searching_start : Searching children root goal [] [[]] (fun _ => none) [root] where
  ordered := ordered_start
  valid _ ha := absurd ha List.not_mem_nil
  unmet _ ha := absurd ha List.not_mem_nil
  nodes := .cons rfl .nil
  points _ _ := ⟨fun h => (by cases h), fun ⟨_, ha, _⟩ => absurd ha List.not_mem_nil⟩

section Visit

variable [DecidableEq V] {visited queued : List (List Nat)} {addr : List Nat} {prev : V → Option V}
  {v : V}

/-- The children of a node that is visited now were met last from it. -/
theorem lastFrom_visit (h : Ordered children root visited (addr :: queued))
    (hv : nodeAt children root addr = some v)
    (hpoints : ∀ w u, prev w = some u ↔ LastFrom children root (· ∈ visited) w u) (w u : V) :
    pointAll prev v (children v) w = some u ↔
      LastFrom children root (· ∈ visited ++ [addr]) w u := by
  have hearlier : ∀ b ∈ visited, Earlier b addr := fun b hb => h.earlier hb List.mem_cons_self
  rw [pointAll_apply]
  split
  · rename_i hw
    constructor
    · intro hu
      cases hu
      refine ⟨addr, List.mem_append_right _ (List.mem_singleton_self _), hv, hw, fun b _ hb _ _ => ?_⟩
      rcases List.mem_append.1 hb with hb | hb
      · exact .inr (hearlier b hb)
      · exact .inl (List.mem_singleton.1 hb)
    · rintro ⟨a, ha, hu, -, hlast⟩
      -- the last one is `addr`: it is a candidate itself, and the others are earlier
      have haddr : addr = a := by
        rcases hlast addr v (List.mem_append_right _ (List.mem_singleton_self _)) hv hw with e | hlt
        · exact e
        · rcases List.mem_append.1 ha with ha | ha
          · exact absurd hlt (hearlier a ha).asymm
          · exact (List.mem_singleton.1 ha).symm
      rw [haddr, hu] at hv
      exact hv.symm
  · rename_i hw
    rw [hpoints]
    refine exists_congr fun a => ?_
    -- `addr` is not a candidate
    have hskip : ∀ b u, nodeAt children root b = some u → w ∈ children u →
        (b ∈ visited ++ [addr] ↔ b ∈ visited) := by
      intro b u hu hwu
      rw [List.mem_append, List.mem_singleton]
      refine ⟨fun hb => hb.resolve_right ?_, .inl⟩
      rintro rfl
      rw [hv] at hu
      cases hu
      exact hw hwu
    constructor
    · rintro ⟨ha, hu, hwu, hlast⟩
      exact ⟨(hskip a u hu hwu).2 ha, hu, hwu,
        fun b x hb hx hwx => hlast b x ((hskip b x hx hwx).1 hb) hx hwx⟩
    · rintro ⟨ha, hu, hwu, hlast⟩
      exact ⟨(hskip a u hu hwu).1 ha, hu, hwu,
        fun b x hb hx hwx => hlast b x ((hskip b x hx hwx).2 hb) hx hwx⟩

/-- **The visit of a node** other than the goal. -/
theorem Searching.visit {queue : List V}
    (h : Searching children root goal visited queued prev (v :: queue)) (hne : v ≠ goal) :
    ∃ addr queued', queued = addr :: queued' ∧
      Searching children root goal (visited ++ [addr])
        (queued' ++ (List.range (children v).length).map fun i => addr ++ [i])
        (pointAll prev v (children v)) (queue ++ children v) := by
  obtain ⟨addr, queued', hv, hqueue, rfl⟩ := List.forall₂_cons_right_iff.1 h.nodes
  have hall : ∀ {P : List Nat → Prop}, (∀ a ∈ visited, P a) → P addr → ∀ a ∈ visited ++ [addr], P a := by
    intro P hvisited haddr a ha
    rcases List.mem_append.1 ha with ha | ha
    · exact hvisited a ha
    · rw [List.mem_singleton.1 ha]
      exact haddr
  refine ⟨addr, queued', rfl, h.ordered.visit hv, hall h.valid (Option.isSome_of_eq_some hv),
    hall h.unmet ?_, List.rel_append hqueue ?_, lastFrom_visit h.ordered hv h.points⟩
  · rw [hv]
    exact fun e => hne (Option.some_inj.1 e)
  · rw [List.forall₂_map_left_iff, List.forall₂_iff_get]
    refine ⟨List.length_range, fun i hi hi' => ?_⟩
    rw [nodeAt_append, hv, Option.bind_some, nodeAt, List.get_eq_getElem, List.get_eq_getElem,
      List.getElem_range, List.getElem?_eq_getElem hi', Option.bind_some, nodeAt]

/-- **The outcome of a search** that stops at the goal, and queues all children of any other node and
lets them point back. It comes to the goal if the goal is among the first nodes it visits, and then
every node points to where it was met last before the goal. -/
theorem run_spec {visit : (V → Option V) → V → Visit (V → Option V) V (V → Option V)}
    (hgoal : ∀ prev, visit prev goal = .stop prev)
    (hother : ∀ prev {v}, v ≠ goal →
      visit prev v = .next (pointAll prev v (children v)) (children v)) (limit : Nat) :
    (∃ prev, run visit (limit + 1) (fun _ => none) [root] = some (some prev) ∧
        Met children root goal limit ∧
        ∀ v u, prev v = some u ↔ LastFrom children root (Ahead children root goal) v u) ∨
      (run visit (limit + 1) (fun _ => none) [root]).join = none ∧
        ¬Met children root goal limit := by
  let Inv (n : Nat) (prev : V → Option V) (q : List V) : Prop :=
    ∃ visited queued, visited.length = n ∧ Searching children root goal visited queued prev q
  have hends : Ends visit Inv (limit + 1) (run visit (limit + 1) (fun _ => none) [root]) := by
    refine ends_of_run ?_ (Nat.zero_add _) ⟨[], [[]], rfl, searching_start⟩
    rintro n prev v q prev' cs - ⟨visited, queued, hlength, h⟩ hnext
    have hne : v ≠ goal := by
      rintro rfl
      rw [hgoal] at hnext
      cases hnext
    rw [hother prev hne] at hnext
    cases hnext
    obtain ⟨addr, queued', -, h'⟩ := h.visit hne
    refine ⟨_, _, ?_, h'⟩
    rw [List.length_append, hlength, List.length_singleton]
  generalize run visit (limit + 1) (fun _ => none) [root] = out at hends ⊢
  cases hends with
  | @stop n prev v q r hn h hstop =>
    obtain ⟨visited, queued, hlength, h⟩ := h
    have hv : v = goal := by
      by_contra hne
      rw [hother prev hne] at hstop
      cases hstop
    subst hv
    rw [hgoal] at hstop
    cases hstop
    obtain ⟨addr, queued', hv, -, rfl⟩ := List.forall₂_cons_right_iff.1 h.nodes
    refine .inl ⟨prev, rfl, ⟨addr, hv, visited, by omega, fun a ha => h.ordered.mem_visited ha⟩,
      fun w u => (h.points w u).trans (LastFrom.congr fun a ha => ?_)⟩
    exact h.ordered.mem_iff_ahead h.unmet hv ha
  | @empty n prev h =>
    obtain ⟨visited, queued, -, h⟩ := h
    obtain rfl : queued = [] := List.forall₂_nil_right_iff.1 h.nodes
    refine .inr ⟨rfl, ?_⟩
    rintro ⟨g, hg, -⟩
    rcases h.ordered.covers g (Option.isSome_of_eq_some hg) with hmem | ⟨b, hb, -⟩
    · exact h.unmet g hmem hg
    · exact absurd hb List.not_mem_nil
  | @fuel prev q h =>
    obtain ⟨visited, queued, hlength, h⟩ := h
    exact .inr ⟨rfl, h.ordered.not_met h.unmet h.valid (by omega)⟩

end Visit

end Potter.Lib.BackPointers
