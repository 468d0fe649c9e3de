import Mathlib.Algebra.Order.Ring.Rat
import Mathlib.Tactic.Ring

/-!
# Machine arithmetic

Costs are computed in `float` and `double`. They live in any type with the operations the code uses
(`Arith`), rational numbers among them, and most of what is proved about the router depends on no law
of that arithmetic. `toFloat` is the rounding to single precision where a value is stored in, or
computed in, a `float`. Where exact arithmetic matters, the laws are those of `ExactArith`.

`int` is a bounded integer; where the code relies on its limits, or overflows, the result is reduced
to the range by `toInt32`.
-/

namespace Potter

/-- The operations on `float` and `double` that the router uses. No laws. -/
class Arith (K : Type) extends Add K, Sub K, Mul K, Div K, IntCast K, LT K, LE K where
  toFloat : K → K
  fabs : K → K
  exp : K → K
  atan2 : K → K → K
  decLt : DecidableLT K
  decLe : DecidableLE K

instance Arith.decidableLT {K : Type} [Arith K] : DecidableLT K := Arith.decLt

instance Arith.decidableLE {K : Type} [Arith K] : DecidableLE K := Arith.decLe

/-- Exact arithmetic. The exponential, which has no exact value, is its first order approximation,
and the angle of a point is a fraction that orders directions as the angle does. -/
instance : Arith ℚ where
  toFloat := id
  fabs := abs
  exp x := 1 + x
  atan2 y x := if y < 0 then x / (|x| + |y|) - 1 else 1 - x / (|x| + |y|)
  decLt := inferInstance
  decLe := inferInstance

/-- Arithmetic without rounding, by the laws that costs depend on. Every ordered field has them. -/
class ExactArith (K : Type) [Arith K] : Prop where
  toFloat_eq : ∀ x : K, Arith.toFloat x = x
  one_mul : ∀ x : K, ((1 : Int) : K) * x = x
  le_trans : ∀ x y z : K, x ≤ y → y ≤ z → x ≤ z
  le_add : ∀ x y : K, ((0 : Int) : K) ≤ y → x ≤ x + y
  intCast_nonneg : ∀ z : Int, 0 ≤ z → ((0 : Int) : K) ≤ (z : K)
  mul_nonneg : ∀ x y : K, ((0 : Int) : K) ≤ x → ((0 : Int) : K) ≤ y → ((0 : Int) : K) ≤ x * y
  div_nonneg : ∀ x y : K, ((0 : Int) : K) ≤ x → ((0 : Int) : K) ≤ y → ((0 : Int) : K) ≤ x / y
  fabs_nonneg : ∀ x : K, ((0 : Int) : K) ≤ Arith.fabs x
  exp_nonneg : ∀ x : K, ((0 : Int) : K) ≤ x → ((0 : Int) : K) ≤ Arith.exp x

namespace ExactArith

variable {K : Type} [Arith K] [ExactArith K]

theorem add_nonneg {x y : K} (hx : ((0 : Int) : K) ≤ x) (hy : ((0 : Int) : K) ≤ y) :
    ((0 : Int) : K) ≤ x + y :=
  le_trans _ _ _ hx (le_add x y hy)

theorem one_nonneg : ((0 : Int) : K) ≤ ((1 : Int) : K) := intCast_nonneg 1 (by decide)

end ExactArith

instance : ExactArith ℚ where
  toFloat_eq _ := rfl
  one_mul x := by rw [Int.cast_one, one_mul]
  le_trans _ _ _ := le_trans
  le_add x y hy := by
    rw [Int.cast_zero] at hy
    exact le_add_of_nonneg_right hy
  intCast_nonneg z hz := by exact_mod_cast hz
  mul_nonneg x y hx hy := by
    rw [Int.cast_zero] at hx hy ⊢
    exact mul_nonneg hx hy
  div_nonneg x y hx hy := by
    rw [Int.cast_zero] at hx hy ⊢
    exact div_nonneg hx hy
  fabs_nonneg x := by
    rw [Int.cast_zero]
    exact abs_nonneg x
  exp_nonneg x hx := by
    rw [Int.cast_zero] at hx ⊢
    exact add_nonneg zero_le_one hx

/-- The index `i`, in a design that is written out. -/
def idx {n : Nat} (i : Nat) : Fin (n + 1) := Fin.ofNat (n + 1) i

/-- `INT_MAX`. -/
def intMax : Int := 2147483647

/-- `INT_MIN`. -/
def intMin : Int := -2147483648

/-- The value of an `int` computation that does not overflow. -/
def IsInt32 (z : Int) : Prop := intMin ≤ z ∧ z ≤ intMax

instance decidableIsInt32 (z : Int) : Decidable (IsInt32 z) := inferInstanceAs (Decidable (_ ∧ _))

/-- The value of a 32 bit `int` computation, which wraps around. -/
def toInt32 (z : Int) : Int := Int.bmod z 4294967296

theorem toInt32_of_range {z : Int} (hl : intMin ≤ z) (hh : z ≤ intMax) : toInt32 z = z := by
  unfold toInt32 intMin intMax at *
  rw [Int.bmod_eq_of_le] <;> omega

theorem toInt32_le {z : Int} (h : 0 ≤ z) : toInt32 z ≤ z := by
  unfold toInt32
  rw [Int.bmod_def]
  split <;> omega

/-- Division that rounds to zero stays between bounds of the quotient. -/
theorem tdiv_mem {sum count low high : Int} (hcount : 0 < count) (hlow : low * count ≤ sum)
    (hhigh : sum ≤ high * count) : low ≤ sum.tdiv count ∧ sum.tdiv count ≤ high := by
  have hne : count ≠ 0 := ne_of_gt hcount
  constructor
  · have h := Int.tdiv_le_tdiv hcount hlow
    rw [Int.mul_tdiv_cancel low hne] at h
    exact h
  · have h := Int.tdiv_le_tdiv hcount hhigh
    rw [Int.mul_tdiv_cancel high hne] at h
    exact h

/-- The value of an `int` that is stored in a `short`. -/
def toInt16 (z : Int) : Int := Int.bmod z 65536

theorem toInt16_of_range {z : Int} (hl : -32768 ≤ z) (hh : z ≤ 32767) : toInt16 z = z := by
  unfold toInt16
  rw [Int.bmod_eq_of_le] <;> omega

end Potter
