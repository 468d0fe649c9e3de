import Mathlib.Data.List.Nodup
import Mathlib.Data.List.Range

/-!
# Items that name their owner, owners that list their items

Two tables that only grow. An item names its owner by the owner's index, and an owner lists its items
by theirs (`Filed`). An owner is appended without items, and an item is appended under the owner that
was appended last. What an item has to do with its owner is a parameter; it must not get lost when
the owner changes.
-/

namespace Potter.Lib

/-! ## Growing tables -/

theorem getElem?_of_prefix {α : Type} {l l' : List α} (h : l <+: l') {i : Nat} {x : α}
    (hx : l[i]? = some x) : l'[i]? = some x := by
  obtain ⟨rest, rfl⟩ := h
  rwa [List.getElem?_append_left (List.getElem?_eq_some_iff.1 hx).1]

/-- A table that is numbered by its own indices. -/
theorem getElem?_of_map_eq_range {α : Type} {f : α → Nat} {l : List α}
    (h : l.map f = List.range l.length) {i : Nat} {x : α} (hx : l[i]? = some x) : f x = i := by
  have hi : (l.map f)[i]? = some (f x) := by rw [List.getElem?_map, hx, Option.map_some]
  rw [h, List.getElem?_range (List.getElem?_eq_some_iff.1 hx).1] at hi
  exact (Option.some.inj hi).symm

/-! ## Items and owners -/

variable {I O : Type}

/-- Every owner lists the items that name it, in increasing order, and every item fits an owner. -/
structure Filed (owner : I → Nat) (listed : O → List Nat) (Fits : O → I → Prop) (items : List I)
    (owners : List O) : Prop where
  listed_eq : ∀ {n o}, owners[n]? = some o →
    listed o = (List.range items.length).filter fun i => (items[i]?).map owner = some n
  fits : ∀ x ∈ items, ∃ o, owners[owner x]? = some o ∧ Fits o x

namespace Filed

variable {owner : I → Nat} {listed : O → List Nat} {Fits : O → I → Prop} {items : List I}
  {owners : List O} {o o' : O}

theorem nil : Filed owner listed Fits [] [] where
  listed_eq h := by cases h
  fits _ hx := absurd hx List.not_mem_nil

theorem owner_lt (h : Filed owner listed Fits items owners) {x : I} (hx : x ∈ items) :
    owner x < owners.length := by
  obtain ⟨o, ho, -⟩ := h.fits x hx
  exact (List.getElem?_eq_some_iff.1 ho).1

/-- The items an owner lists. -/
theorem mem_iff (h : Filed owner listed Fits items owners) {n : Nat} (hn : owners[n]? = some o)
    {i : Nat} : i ∈ listed o ↔ ∃ x, items[i]? = some x ∧ owner x = n := by
  rw [h.listed_eq hn, List.mem_filter, decide_eq_true_iff, Option.map_eq_some_iff, List.mem_range]
  refine and_iff_right_of_imp ?_
  rintro ⟨x, hx, -⟩
  exact (List.getElem?_eq_some_iff.1 hx).1

theorem nodup (h : Filed owner listed Fits items owners) (ho : o ∈ owners) : (listed o).Nodup := by
  obtain ⟨n, hn⟩ := List.mem_iff_getElem?.1 ho
  rw [h.listed_eq hn]
  exact List.nodup_range.filter _

theorem addOwner (h : Filed owner listed Fits items owners) (ho : listed o = []) :
    Filed owner listed Fits items (owners ++ [o]) where
  listed_eq {n o₁} hn := by
    rcases Nat.lt_or_ge n owners.length with hlt | hge
    · rw [List.getElem?_append_left hlt] at hn
      exact h.listed_eq hn
    · rw [List.getElem?_append_right hge, List.getElem?_singleton] at hn
      split at hn
      · cases hn
        rw [ho, eq_comm, List.filter_eq_nil_iff]
        intro i _ hi
        obtain ⟨x, hx, hxn⟩ := Option.map_eq_some_iff.1 (of_decide_eq_true hi)
        have := h.owner_lt (List.mem_of_getElem? hx)
        omega
      · cases hn
  fits x hx := by
    obtain ⟨o, ho, hfit⟩ := h.fits x hx
    exact ⟨o, by rwa [List.getElem?_append_left (h.owner_lt hx)], hfit⟩

/-- An entry of a list whose last element was replaced. -/
theorem getElem?_setLast {n : Nat} {o₁ : O} (h : (owners ++ [o'])[n]? = some o₁) :
    (n < owners.length ∧ (owners ++ [o])[n]? = some o₁) ∨
      (n = owners.length ∧ o₁ = o' ∧ (owners ++ [o])[n]? = some o) := by
  rcases Nat.lt_or_ge n owners.length with hlt | hge
  · left
    rw [List.getElem?_append_left hlt] at h ⊢
    exact ⟨hlt, h⟩
  · right
    rw [List.getElem?_append_right hge, List.getElem?_singleton] at h ⊢
    split at h
    · cases h
      exact ⟨by omega, rfl, if_pos ‹_›⟩
    · cases h

theorem fits_setLast {x : I} (hfit : ∀ x, Fits o x → Fits o' x)
    (h : ∃ o₁, (owners ++ [o])[owner x]? = some o₁ ∧ Fits o₁ x) :
    ∃ o₁, (owners ++ [o'])[owner x]? = some o₁ ∧ Fits o₁ x := by
  obtain ⟨o₁, ho₁, hx⟩ := h
  rcases getElem?_setLast (o := o') ho₁ with ⟨-, hn⟩ | ⟨-, rfl, hn⟩
  · exact ⟨o₁, hn, hx⟩
  · exact ⟨o', hn, hfit x hx⟩

/-- The last owner may change if it keeps its list and what fits it. -/
theorem setLast (h : Filed owner listed Fits items (owners ++ [o])) (ho : listed o' = listed o)
    (hfit : ∀ x, Fits o x → Fits o' x) : Filed owner listed Fits items (owners ++ [o']) where
  listed_eq {n o₁} hn := by
    rcases getElem?_setLast (o := o) hn with ⟨-, hold⟩ | ⟨-, rfl, hold⟩
    · exact h.listed_eq hold
    · rw [ho]
      exact h.listed_eq hold
  fits x hx := fits_setLast hfit (h.fits x hx)

/-- An item is appended, and the last owner lists it. -/
theorem addItem (h : Filed owner listed Fits items (owners ++ [o])) {x : I}
    (hx : owner x = owners.length) (ho : listed o' = listed o ++ [items.length])
    (hfit : ∀ x, Fits o x → Fits o' x) (hfits : Fits o' x) :
    Filed owner listed Fits (items ++ [x]) (owners ++ [o']) where
  listed_eq {n o₁} hn := by
    have hold : ((List.range items.length).filter fun i => ((items ++ [x])[i]?).map owner = some n) =
        (List.range items.length).filter fun i => (items[i]?).map owner = some n := by
      refine List.filter_congr fun i hi => ?_
      rw [List.getElem?_append_left (List.mem_range.1 hi)]
    have hnew : ([items.length].filter fun i => ((items ++ [x])[i]?).map owner = some n) =
        if n = owners.length then [items.length] else [] := by
      rw [List.filter_singleton, List.getElem?_append_right (Nat.le_refl _), Nat.sub_self]
      simp [hx, eq_comm]
    rw [List.length_append, List.length_singleton, List.range_succ, List.filter_append, hold, hnew]
    rcases getElem?_setLast (o := o) hn with ⟨hlt, hentry⟩ | ⟨heq, rfl, hentry⟩
    · rw [if_neg (Nat.ne_of_lt hlt), List.append_nil]
      exact h.listed_eq hentry
    · rw [if_pos heq, ho, h.listed_eq hentry]
  fits y hy := by
    rcases List.mem_append.1 hy with hy | hy
    · exact fits_setLast hfit (h.fits y hy)
    · rw [List.mem_singleton.1 hy, hx]
      exact ⟨o', List.getElem?_concat_length, hfits⟩

end Filed

end Potter.Lib
