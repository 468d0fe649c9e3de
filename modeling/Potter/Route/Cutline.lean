import Potter.Lib.Folds
import Potter.Utils.Geo

/-!
# Cut lines

The search for a cut line that is shared by the two trees of the scheduler. Along an axis, a table
says for every position how much weight starts at or before it, another how much ends after it. The
position that balances the two best is taken, among those that leave some weight on either side.

`scanCuts_spec` is all that is known of a position found: it is not an end of the table, one item
lies before it and one after it.
-/

namespace Potter

open Lib

inductive Axis
  | x
  | y
deriving DecidableEq, Repr

/-- The extent of a box along an axis. -/
def BoxT.along (b : BoxT) : Axis → IntervalT
  | .x => b.x
  | .y => b.y

/-- Replace the extent of a box along an axis. -/
def BoxT.setAlong (b : BoxT) (i : IntervalT) : Axis → BoxT
  | .x => ⟨i, b.y⟩
  | .y => ⟨b.x, i⟩

namespace BoxT

theorem contains_iff {b c : BoxT} :
    b.Contains c ↔ ∀ axis, (b.along axis).Contains (c.along axis) := by
  constructor
  · intro h axis
    cases axis with
    | x => exact h.1
    | y => exact h.2
  · exact fun h => ⟨h .x, h .y⟩

theorem low_le_high {b : BoxT} (h : b.IsValid) (axis : Axis) :
    (b.along axis).low ≤ (b.along axis).high := by
  cases axis with
  | x => exact h.1
  | y => exact h.2

theorem along_setAlong (b : BoxT) (i : IntervalT) (axis other : Axis) :
    (b.setAlong i axis).along other = if other = axis then i else b.along other := by
  cases axis <;> cases other <;> rfl

theorem contains_setAlong {b : BoxT} {i : IntervalT} {axis : Axis} (h : (b.along axis).Contains i) :
    b.Contains (b.setAlong i axis) := by
  rw [contains_iff]
  intro other
  rw [along_setAlong]
  split
  · rename_i heq
    rw [heq]
    exact h
  · exact .refl _

theorem setAlong_contains_iff {b c : BoxT} {i : IntervalT} {axis : Axis}
    (h : (b.along axis).Contains i) :
    (b.setAlong i axis).Contains c ↔ b.Contains c ∧ i.Contains (c.along axis) := by
  constructor
  · intro hc
    have haxis := contains_iff.1 hc axis
    rw [along_setAlong, if_pos rfl] at haxis
    exact ⟨(contains_setAlong h).trans hc, haxis⟩
  · rintro ⟨hc, hi⟩
    rw [contains_iff] at *
    intro other
    rw [along_setAlong]
    split
    · rename_i heq
      rw [heq]
      exact hi
    · exact hc other

/-- The two sides of a cut line meet in the line. -/
theorem not_hasStrictIntersectWith_setAlong (b : BoxT) (axis : Axis) (low pos high : Int) :
    ¬(b.setAlong ⟨low, pos⟩ axis).HasStrictIntersectWith (b.setAlong ⟨pos, high⟩ axis) := by
  unfold HasStrictIntersectWith IsStrictValid IntervalT.IsStrictValid intersectWith
    IntervalT.intersectWith
  cases axis with
  | x =>
    dsimp only [setAlong]
    omega
  | y =>
    dsimp only [setAlong]
    omega

theorem has_setAlong_iff {b : BoxT} {axis : Axis} {mid : Int} (hlow : (b.along axis).low ≤ mid)
    (hhigh : mid ≤ (b.along axis).high) (px py : Int) :
    (b.setAlong ⟨(b.along axis).low, mid⟩ axis).Has px py ∨
      (b.setAlong ⟨mid, (b.along axis).high⟩ axis).Has px py ↔ b.Has px py := by
  unfold Has
  cases axis with
  | x =>
    dsimp only [setAlong, along] at *
    omega
  | y =>
    dsimp only [setAlong, along] at *
    omega

/-- The pieces make up the box and meet in their borders. -/
structure TiledBy (b : BoxT) (pieces : List BoxT) : Prop where
  cover : ∀ px py, (∃ piece ∈ pieces, piece.Has px py) ↔ b.Has px py
  apart : pieces.Pairwise fun piece piece' => ¬piece.HasStrictIntersectWith piece'

theorem tiledBy_singleton (b : BoxT) : b.TiledBy [b] where
  cover px py := by simp only [List.mem_singleton, exists_eq_left]
  apart := List.pairwise_singleton _ _

/-- Cut the first piece in two. -/
theorem TiledBy.cut {b piece : BoxT} {pieces : List BoxT} (h : b.TiledBy (piece :: pieces))
    {axis : Axis} {mid : Int} (hlow : (piece.along axis).low ≤ mid)
    (hhigh : mid ≤ (piece.along axis).high) :
    b.TiledBy (pieces ++ [piece.setAlong ⟨(piece.along axis).low, mid⟩ axis,
      piece.setAlong ⟨mid, (piece.along axis).high⟩ axis]) where
  cover px py := by
    have hcover := h.cover px py
    simp only [List.mem_cons, exists_eq_or_imp] at hcover
    rw [← hcover, ← has_setAlong_iff hlow hhigh]
    simp only [List.mem_append, List.mem_cons, List.not_mem_nil, or_false]
    constructor
    · rintro ⟨q, hq | rfl | rfl, hhas⟩
      · exact .inr ⟨q, hq, hhas⟩
      · exact .inl (.inl hhas)
      · exact .inl (.inr hhas)
    · rintro ((hhas | hhas) | ⟨q, hq, hhas⟩)
      · exact ⟨_, .inr (.inl rfl), hhas⟩
      · exact ⟨_, .inr (.inr rfl), hhas⟩
      · exact ⟨q, .inl hq, hhas⟩
  apart := by
    obtain ⟨hfirst, hrest⟩ := List.pairwise_cons.1 h.apart
    refine List.pairwise_append.2 ⟨hrest, ?_, ?_⟩
    · exact List.pairwise_pair.2 (not_hasStrictIntersectWith_setAlong _ _ _ _ _)
    · -- A half meets another piece only where the piece it is cut from does.
      have hhalf : ∀ i : IntervalT, (piece.along axis).Contains i → ∀ q ∈ pieces,
          ¬q.HasStrictIntersectWith (piece.setAlong i axis) := by
        intro i hi q hq hmeet
        exact hfirst q hq (hmeet.symm.mono (contains_setAlong hi) (.refl _))
      intro q hq r hr
      rcases List.mem_cons.1 hr with rfl | hr
      · exact hhalf ⟨_, mid⟩ ⟨le_refl _, hhigh⟩ q hq
      · rw [List.mem_singleton.1 hr]
        exact hhalf ⟨mid, _⟩ ⟨hlow, le_refl _⟩ q hq

/-- The least box that holds some boxes. -/
def hullOf (boxes : List BoxT) : BoxT :=
  boxes.foldl (fun b c => ⟨⟨min b.x.low c.lx, max b.x.high c.hx⟩, ⟨min b.y.low c.ly, max b.y.high c.hy⟩⟩)
    .empty

theorem hullOf_along (boxes : List BoxT) (axis : Axis) :
    (hullOf boxes).along axis =
      ⟨boxes.foldl (fun m c => if (c.along axis).low < m then (c.along axis).low else m) intMax,
        boxes.foldl (fun m c => if (c.along axis).high > m then (c.along axis).high else m) intMin⟩ := by
  have hgen : ∀ b : BoxT,
      (boxes.foldl (fun b c => (⟨⟨min b.x.low c.lx, max b.x.high c.hx⟩,
          ⟨min b.y.low c.ly, max b.y.high c.hy⟩⟩ : BoxT)) b).along axis =
        ⟨boxes.foldl (fun m c => if (c.along axis).low < m then (c.along axis).low else m)
            (b.along axis).low,
          boxes.foldl (fun m c => if (c.along axis).high > m then (c.along axis).high else m)
            (b.along axis).high⟩ := by
    induction boxes with
    | nil => exact fun b => rfl
    | cons c boxes ih =>
      intro b
      have hlow : ∀ v w : Int, min v w = if w < v then w else v := by
        intro v w
        rw [min_comm, min_def_lt]
      rw [List.foldl_cons, ih]
      cases axis with
      | x =>
        dsimp only [along]
        rw [hlow, max_def_lt]
        rfl
      | y =>
        dsimp only [along]
        rw [hlow, max_def_lt]
        rfl
  refine (hgen .empty).trans ?_
  cases axis <;> rfl

/-- Every side of the hull is a side of one of the boxes. -/
theorem hullOf_sides {boxes : List BoxT} (hne : boxes ≠ []) (hrange : ∀ c ∈ boxes, ∀ axis,
      (c.along axis).low ≤ intMax ∧ intMin ≤ (c.along axis).high) (axis : Axis) :
    IsLeast {v | ∃ c ∈ boxes, (c.along axis).low = v} ((hullOf boxes).along axis).low ∧
      IsGreatest {v | ∃ c ∈ boxes, (c.along axis).high = v} ((hullOf boxes).along axis).high := by
  obtain ⟨c, hc⟩ := List.exists_mem_of_ne_nil _ hne
  rw [hullOf_along]
  exact ⟨isLeast_foldl (fun c : BoxT => (c.along axis).low) ⟨c, hc, (hrange c hc axis).1⟩,
    isLeast_foldl (α := Intᵒᵈ) (fun c : BoxT => (c.along axis).high) ⟨c, hc, (hrange c hc axis).2⟩⟩

theorem along_unionWith (b c : BoxT) (axis : Axis) :
    (b.unionWith c).along axis = (b.along axis).unionWith (c.along axis) := by
  cases axis <;> rfl

theorem along_update_corners (b c : BoxT) (axis : Axis) :
    ((b.update c.lx c.ly).update c.hx c.hy).along axis =
      ((b.along axis).update (c.along axis).low).update (c.along axis).high := by
  cases axis <;> rfl

end BoxT

/-- Something to be cut: it counts as before the cuts from `start` on, and as after the cuts below
`stop`. -/
structure CutItem where
  start : Int
  stop : Int
  weight : Int

/-- A table with, at every position, the weight of the items that count there. -/
def total (counts : CutItem → Int → Bool) (size : Nat) (items : List CutItem) : List Int :=
  items.foldl (fun t i => t.zipIdx.map fun p => if counts i p.2 then p.1 + i.weight else p.1)
    (List.replicate size 0)

/-- The tables `xTotalBefore` and `yTotalBefore`. -/
def totalBefore : Nat → List CutItem → List Int := total fun i pos => i.start ≤ pos

/-- The tables `xTotalAfter` and `yTotalAfter`. -/
def totalAfter : Nat → List CutItem → List Int := total fun i pos => pos < i.stop

/-- The best cut found so far. -/
structure BestCut (K : Type) where
  bestScore : K
  bestPos : Int
  bestAxis : Axis

section Scan

variable {K : Type} [Arith K]

/-- No cut has been found. -/
def BestCut.init : BestCut K := ⟨(intMax : Int), intMax, .x⟩

/-- Look at one position. A cut with nothing on one side is passed over. -/
def BestCut.consider (score : Int → Int → K) (axis : Axis) (low maxBefore maxAfter : Int)
    (best : BestCut K) (cut : (Int × Int) × Nat) : BestCut K :=
  if cut.1.1 = maxBefore ∨ cut.1.2 = maxAfter then best
  else if score cut.1.1 cut.1.2 < best.bestScore then
    ⟨score cut.1.1 cut.1.2, low + cut.2, axis⟩
  else best

/-- Look at all positions along an axis. `size` is the number of columns or rows of the box; the
tables have one entry less, and the program reads the last entry and the first one before the loop.
-/
def scanCuts (score : Int → Int → K) (axis : Axis) (low size : Int) (items : List CutItem)
    (best : BestCut K) : Option (BestCut K) :=
  let before := totalBefore (size - 1).toNat items
  let after := totalAfter (size - 1).toNat items
  before[(size - 2).toNat]?.bind fun maxBefore =>
    after[0]?.bind fun maxAfter =>
      some ((before.zip after).zipIdx.foldl
        (BestCut.consider score axis low maxBefore maxAfter) best)

end Scan

/-! ## The tables -/

section Totals

/-- The weight of the items that count at a position. -/
def weightAt (counts : CutItem → Int → Bool) (items : List CutItem) (pos : Int) : Int :=
  ((items.filter (counts · pos)).map CutItem.weight).sum

theorem total_getElem? (counts : CutItem → Int → Bool) (size : Nat) (items : List CutItem)
    (pos : Nat) :
    (total counts size items)[pos]? =
      if pos < size then some (weightAt counts items pos) else none := by
  have hgen : ∀ t : List Int,
      (items.foldl (fun t i => t.zipIdx.map fun p => if counts i p.2 then p.1 + i.weight else p.1)
        t)[pos]? = t[pos]?.map (· + weightAt counts items pos) := by
    induction items with
    | nil =>
      intro t
      show t[pos]? = t[pos]?.map (· + 0)
      simp only [add_zero, Option.map_id_fun', id]
    | cons i items ih =>
      intro t
      rw [List.foldl_cons, ih, List.getElem?_map, List.getElem?_zipIdx, Option.map_map, Option.map_map]
      congr 1
      funext n
      simp only [Function.comp_apply, weightAt, List.filter_cons, Nat.zero_add]
      split
      · rw [List.map_cons, List.sum_cons, add_assoc]
      · rfl
  rw [total, hgen, List.getElem?_replicate]
  split
  · rw [Option.map_some, zero_add]
  · rfl

/-- Where the weights at two positions differ, some item counts at one of them only. -/
theorem exists_of_weightAt_ne {counts : CutItem → Int → Bool} {items : List CutItem}
    {pos pos' : Int} (h : weightAt counts items pos ≠ weightAt counts items pos') :
    ∃ i ∈ items, counts i pos ≠ counts i pos' := by
  by_contra hnone
  apply h
  unfold weightAt
  congr 2
  apply List.filter_congr
  intro i hi
  by_contra hne
  exact hnone ⟨i, hi, hne⟩

end Totals

/-! ## The scan -/

section Spec

variable {K : Type} [Arith K] {score : Int → Int → K} {axis : Axis} {low size : Int}
  {items : List CutItem} {best : BestCut K}

/-- A cut with an item on either side: one that stops at or before it, one that starts after it. -/
structure IsCut (low size : Int) (items : List CutItem) (pos : Int) : Prop where
  low_lt : low < pos
  lt_high : pos < low + size - 2
  before : ∃ i ∈ items, i.stop ≤ pos - low
  after : ∃ i ∈ items, pos - low < i.start

/-- With two columns or more the tables can be read. -/
theorem scanCuts_isSome (hsize : 2 ≤ size) (best : BestCut K) :
    ∃ best', scanCuts score axis low size items best = some best' := by
  unfold scanCuts
  simp only [totalBefore, totalAfter, total_getElem?]
  rw [if_pos (by omega), if_pos (by omega)]
  exact ⟨_, rfl⟩

/-- **What is found is a cut**, unless the scan keeps what it started with. -/
theorem scanCuts_spec {best' : BestCut K} (h : scanCuts score axis low size items best = some best') :
    best' = best ∨ best'.bestAxis = axis ∧ IsCut low size items best'.bestPos := by
  unfold scanCuts at h
  simp only [totalBefore, totalAfter, total_getElem?] at h
  split at h
  case isFalse => cases h
  rename_i hlast
  split at h
  case isFalse => cases h
  cases h
  refine foldl_keep_or (P := fun b => b.bestAxis = axis ∧ IsCut low size items b.bestPos) ?_ best
  rintro b ⟨⟨before, after⟩, pos⟩ hcut
  -- The entry of the tables that the position belongs to.
  obtain ⟨hbefore, hafter⟩ := List.getElem?_zip_eq_some.1
    (List.mem_zipIdx_iff_getElem?.1 hcut)
  dsimp only at hbefore hafter
  rw [total_getElem?] at hbefore hafter
  split at hbefore
  case isFalse => cases hbefore
  rename_i hpos
  rw [if_pos hpos] at hafter
  obtain rfl := Option.some.inj hbefore
  obtain rfl := Option.some.inj hafter
  unfold BestCut.consider
  split
  case isTrue => exact .inl rfl
  rename_i hne
  rw [not_or] at hne
  dsimp only at hne
  split
  case isFalse => exact .inl rfl
  refine .inr ⟨rfl, ?_⟩
  have hzero : pos ≠ 0 := fun h0 => hne.2 (by rw [h0])
  have hend : pos ≠ (size - 2).toNat := fun h0 => hne.1 (by rw [h0])
  obtain ⟨i, hi, hstop⟩ := exists_of_weightAt_ne hne.2
  obtain ⟨j, hj, hstart⟩ := exists_of_weightAt_ne hne.1
  rw [ne_eq, decide_eq_decide] at hstop hstart
  refine ⟨?_, ?_, ⟨i, hi, ?_⟩, ⟨j, hj, ?_⟩⟩
  all_goals (dsimp only; omega)

end Spec

end Potter
