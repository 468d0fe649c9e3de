import Mathlib.Order.Bounds.Basic
import Potter.Utils.Arith

/-!
# Intervals and boxes

The closed integer intervals and boxes of `utils/geo.h`. A default box is the empty one, from
`INT_MAX` down to `INT_MIN`. Two boxes intersect strictly when their intersection has a positive
extent in both directions; a point strictly inside both is then found by no argument about borders,
which is what the router's accessibility test asks for.
-/

namespace Potter

structure IntervalT where
  low : Int
  high : Int
deriving DecidableEq, Repr

namespace IntervalT

/-- The default interval. -/
def empty : IntervalT := ⟨intMax, intMin⟩

def IsValid (i : IntervalT) : Prop := i.low ≤ i.high

def IsStrictValid (i : IntervalT) : Prop := i.low < i.high

instance (i : IntervalT) : Decidable i.IsValid := inferInstanceAs (Decidable (_ ≤ _))

instance (i : IntervalT) : Decidable i.IsStrictValid := inferInstanceAs (Decidable (_ < _))

def range (i : IntervalT) : Int := i.high - i.low

/-- Grow the interval to hold a value. -/
def update (i : IntervalT) (newVal : Int) : IntervalT :=
  ⟨if newVal < i.low then newVal else i.low, if newVal > i.high then newVal else i.high⟩

def unionWith (i rhs : IntervalT) : IntervalT :=
  if ¬ i.IsValid then rhs
  else if ¬ rhs.IsValid then i
  else ⟨min i.low rhs.low, max i.high rhs.high⟩

def intersectWith (i rhs : IntervalT) : IntervalT := ⟨max i.low rhs.low, min i.high rhs.high⟩

/-- All of `j` lies in `i`. -/
def Contains (i j : IntervalT) : Prop := i.low ≤ j.low ∧ j.high ≤ i.high

/-- The value lies inside the interval and not on its ends. -/
def Inside (i : IntervalT) (val : Int) : Prop := i.low < val ∧ val < i.high

/-- Far enough from the limits of `int` for the length to be computed. -/
def InRange (i : IntervalT) : Prop := -1 ≤ i.low ∧ i.high ≤ intMax - 2

instance (i j : IntervalT) : Decidable (i.Contains j) := inferInstanceAs (Decidable (_ ∧ _))

instance (i : IntervalT) (val : Int) : Decidable (i.Inside val) := inferInstanceAs (Decidable (_ ∧ _))

theorem Contains.refl (i : IntervalT) : i.Contains i := ⟨le_refl _, le_refl _⟩

theorem Contains.trans {i j k : IntervalT} (h : i.Contains j) (h' : j.Contains k) : i.Contains k :=
  ⟨h.1.trans h'.1, h'.2.trans h.2⟩

theorem Contains.inside {i j : IntervalT} (h : i.Contains j) {v : Int} (hv : j.Inside v) :
    i.Inside v :=
  ⟨lt_of_le_of_lt h.1 hv.1, lt_of_lt_of_le hv.2 h.2⟩

theorem update_low (i : IntervalT) (v : Int) : (i.update v).low = min v i.low := by
  unfold update
  dsimp only
  split <;> omega

theorem update_high (i : IntervalT) (v : Int) : (i.update v).high = max v i.high := by
  unfold update
  dsimp only
  split <;> omega

theorem contains_update (i : IntervalT) (v : Int) : (i.update v).Contains i := by
  unfold Contains
  rw [update_low, update_high]
  omega

theorem inRange_empty : empty.InRange := by
  unfold InRange empty intMax intMin
  decide

theorem InRange.update {i j : IntervalT} (hi : i.InRange) (hj : j.InRange) (hv : j.IsValid) :
    ((i.update j.low).update j.high).InRange := by
  unfold InRange IsValid at *
  rw [update_low, update_high, update_low, update_high]
  omega

theorem InRange.unionWith {i j : IntervalT} (hi : i.InRange) (hj : j.InRange) :
    (i.unionWith j).InRange := by
  unfold IntervalT.unionWith
  split
  · exact hj
  · split
    · exact hi
    · exact ⟨le_min hi.1 hj.1, max_le hi.2 hj.2⟩

theorem contains_unionWith_left {i : IntervalT} (hi : i.IsValid) (j : IntervalT) :
    (i.unionWith j).Contains i := by
  unfold unionWith
  rw [if_neg (not_not.2 hi)]
  split
  · exact Contains.refl i
  · exact ⟨min_le_left _ _, le_max_left _ _⟩

theorem contains_unionWith_right (i : IntervalT) {j : IntervalT} (hj : j.IsValid) :
    (i.unionWith j).Contains j := by
  unfold unionWith
  rw [if_neg (not_not.2 hj)]
  split
  · exact Contains.refl j
  · exact ⟨min_le_right _ _, le_max_right _ _⟩

theorem isValid_unionWith (i : IntervalT) {j : IntervalT} (hj : j.IsValid) :
    (i.unionWith j).IsValid :=
  have h := contains_unionWith_right i hj
  h.1.trans (le_trans hj h.2)

/-- A value inside two intervals makes them intersect strictly. -/
theorem isStrictValid_of_inside {i j : IntervalT} {v : Int} (hi : i.Inside v) (hj : j.Inside v) :
    (i.intersectWith j).IsStrictValid := by
  unfold IsStrictValid intersectWith Inside at *
  dsimp only
  omega

end IntervalT

/-- A box, the product of two intervals. -/
structure BoxT where
  x : IntervalT
  y : IntervalT
deriving DecidableEq, Repr

namespace BoxT

def lx (b : BoxT) : Int := b.x.low
def ly (b : BoxT) : Int := b.y.low
def hx (b : BoxT) : Int := b.x.high
def hy (b : BoxT) : Int := b.y.high

/-- The default box. -/
def empty : BoxT := ⟨.empty, .empty⟩

/-- The arguments are in the order of the source: the lower corner, then the upper one. -/
def set (lx ly hx hy : Int) : BoxT := ⟨⟨lx, hx⟩, ⟨ly, hy⟩⟩

/-- The half perimeter. -/
def hp (b : BoxT) : Int := b.x.range + b.y.range

def update (b : BoxT) (xVal yVal : Int) : BoxT := ⟨b.x.update xVal, b.y.update yVal⟩

def unionWith (b rhs : BoxT) : BoxT := ⟨b.x.unionWith rhs.x, b.y.unionWith rhs.y⟩

def intersectWith (b rhs : BoxT) : BoxT := ⟨b.x.intersectWith rhs.x, b.y.intersectWith rhs.y⟩

def IsValid (b : BoxT) : Prop := b.x.IsValid ∧ b.y.IsValid

def IsStrictValid (b : BoxT) : Prop := b.x.IsStrictValid ∧ b.y.IsStrictValid

def HasStrictIntersectWith (b rhs : BoxT) : Prop := (b.intersectWith rhs).IsStrictValid

def Contains (b c : BoxT) : Prop := b.x.Contains c.x ∧ b.y.Contains c.y

/-- The point lies inside the box and not on its border. -/
def Inside (b : BoxT) (px py : Int) : Prop := b.x.Inside px ∧ b.y.Inside py

/-- The point lies in the box, perhaps on its border. -/
def Has (b : BoxT) (px py : Int) : Prop := (b.x.low ≤ px ∧ px ≤ b.x.high) ∧ b.y.low ≤ py ∧ py ≤ b.y.high

instance (b : BoxT) : Decidable b.IsValid := inferInstanceAs (Decidable (_ ∧ _))

instance (b : BoxT) : Decidable b.IsStrictValid := inferInstanceAs (Decidable (_ ∧ _))

instance (b c : BoxT) : Decidable (b.HasStrictIntersectWith c) :=
  inferInstanceAs (Decidable (BoxT.IsStrictValid _))

instance (b c : BoxT) : Decidable (b.Contains c) := inferInstanceAs (Decidable (_ ∧ _))

instance (b : BoxT) (px py : Int) : Decidable (b.Inside px py) := inferInstanceAs (Decidable (_ ∧ _))

instance (b : BoxT) (px py : Int) : Decidable (b.Has px py) := inferInstanceAs (Decidable (_ ∧ _))

theorem Contains.refl (b : BoxT) : b.Contains b := ⟨.refl _, .refl _⟩

theorem Contains.trans {b c d : BoxT} (h : b.Contains c) (h' : c.Contains d) : b.Contains d :=
  ⟨h.1.trans h'.1, h.2.trans h'.2⟩

theorem Contains.inside {b c : BoxT} (h : b.Contains c) {px py : Int} (hp : c.Inside px py) :
    b.Inside px py :=
  ⟨h.1.inside hp.1, h.2.inside hp.2⟩

theorem contains_update (b : BoxT) (px py : Int) : (b.update px py).Contains b :=
  ⟨b.x.contains_update px, b.y.contains_update py⟩

/-- Growing a box to the two corners of another makes it hold that box. -/
theorem contains_update_corners (b c : BoxT) :
    ((b.update c.lx c.ly).update c.hx c.hy).Contains c := by
  unfold Contains IntervalT.Contains update
  dsimp only
  simp only [IntervalT.update_low, IntervalT.update_high, lx, ly, hx, hy]
  omega

theorem contains_unionWith_left {b : BoxT} (hb : b.IsValid) (c : BoxT) :
    (b.unionWith c).Contains b :=
  ⟨IntervalT.contains_unionWith_left hb.1 _, IntervalT.contains_unionWith_left hb.2 _⟩

theorem contains_unionWith_right (b : BoxT) {c : BoxT} (hc : c.IsValid) :
    (b.unionWith c).Contains c :=
  ⟨IntervalT.contains_unionWith_right _ hc.1, IntervalT.contains_unionWith_right _ hc.2⟩

theorem isValid_unionWith (b : BoxT) {c : BoxT} (hc : c.IsValid) : (b.unionWith c).IsValid :=
  ⟨IntervalT.isValid_unionWith _ hc.1, IntervalT.isValid_unionWith _ hc.2⟩

theorem isValid_of_inside {b : BoxT} {px py : Int} (h : b.Inside px py) : b.IsValid :=
  ⟨le_of_lt (h.1.1.trans h.1.2), le_of_lt (h.2.1.trans h.2.2)⟩

theorem HasStrictIntersectWith.symm {b c : BoxT} (h : b.HasStrictIntersectWith c) :
    c.HasStrictIntersectWith b := by
  unfold HasStrictIntersectWith IsStrictValid IntervalT.IsStrictValid intersectWith
    IntervalT.intersectWith at *
  dsimp only at *
  omega

/-- Larger boxes intersect strictly if smaller ones do. -/
theorem HasStrictIntersectWith.mono {b b' c c' : BoxT} (hb : b'.Contains b) (hc : c'.Contains c)
    (h : b.HasStrictIntersectWith c) : b'.HasStrictIntersectWith c' := by
  unfold HasStrictIntersectWith IsStrictValid IntervalT.IsStrictValid intersectWith
    IntervalT.intersectWith Contains IntervalT.Contains at *
  dsimp only at *
  omega

/-- **A point inside two boxes makes them intersect strictly.** -/
theorem hasStrictIntersectWith_of_inside {b c : BoxT} {px py : Int} (hb : b.Inside px py)
    (hc : c.Inside px py) : b.HasStrictIntersectWith c :=
  ⟨IntervalT.isStrictValid_of_inside hb.1 hc.1, IntervalT.isStrictValid_of_inside hb.2 hc.2⟩

end BoxT

end Potter
