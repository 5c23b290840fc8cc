import Mathlib.Data.Rat.Cast.Order
import Mathlib.Algebra.Order.Field.Rat

/-!
# Doubles read as exact numbers

A double is an exact rational, an infinity or `nan`. Finite arithmetic does not
round; division by zero, the infinities and comparisons with `nan` follow IEEE 754.
The sign of a zero is not kept.
-/
namespace SickPool.Library

inductive Double where
  | num (q : ℚ)
  | posInf
  | negInf
  | nan
  deriving DecidableEq

namespace Double

instance (n : Nat) : OfNat Double n := ⟨num n⟩

/-- Infinity with the sign of `q`; there is none for 0. -/
def infOf (q : ℚ) : Double := if 0 < q then posInf else if q < 0 then negInf else nan

def neg : Double → Double
  | num q => num (-q)
  | posInf => negInf
  | negInf => posInf
  | nan => nan

def add : Double → Double → Double
  | num a, num b => num (a + b)
  | nan, _ | _, nan | posInf, negInf | negInf, posInf => nan
  | posInf, _ | _, posInf => posInf
  | negInf, _ | _, negInf => negInf

def mul : Double → Double → Double
  | num a, num b => num (a * b)
  | nan, _ | _, nan => nan
  | num q, posInf | posInf, num q => infOf q
  | num q, negInf | negInf, num q => infOf (-q)
  | posInf, posInf | negInf, negInf => posInf
  | posInf, negInf | negInf, posInf => negInf

def div : Double → Double → Double
  | num a, num b => if b = 0 then infOf a else num (a / b)
  | nan, _ | _, nan => nan
  | num _, _ => num 0
  | posInf, num b => if b < 0 then negInf else posInf
  | negInf, num b => if b < 0 then posInf else negInf
  | _, _ => nan

def abs : Double → Double
  | num q => num |q|
  | posInf | negInf => posInf
  | nan => nan

instance : Neg Double := ⟨neg⟩
instance : Add Double := ⟨add⟩
instance : Sub Double := ⟨fun a b => a + -b⟩
instance : Mul Double := ⟨mul⟩
instance : Div Double := ⟨div⟩

theorem add_def (a b : Double) : a + b = add a b := rfl

/-- Addition without rounding is associative also on the infinities and `nan`. -/
instance : AddCommMonoid Double where
  add_assoc a b c := by
    rcases a with a | _ | _ | _ <;> rcases b with b | _ | _ | _ <;>
      rcases c with c | _ | _ | _ <;> simp only [add_def, add, add_assoc]
  zero_add a := by
    rcases a with a | _ | _ | _ <;> simp only [add_def, add]
    exact congrArg num (by simp)
  add_zero a := by
    rcases a with a | _ | _ | _ <;> simp only [add_def, add]
    exact congrArg num (by simp)
  add_comm a b := by
    rcases a with a | _ | _ | _ <;> rcases b with b | _ | _ | _ <;>
      simp only [add_def, add, add_comm]
  zero := (0 : Double)
  nsmul := nsmulRec

/-- `a < b`; false when either is `nan`. -/
def lt : Double → Double → Bool
  | num a, num b => decide (a < b)
  | nan, _ | _, nan => false
  | negInf, negInf | posInf, _ | num _, negInf => false
  | negInf, _ | num _, posInf => true

/-- `a <= b`; false when either is `nan`. -/
def le : Double → Double → Bool
  | num a, num b => decide (a ≤ b)
  | nan, _ | _, nan => false
  | negInf, _ | _, posInf => true
  | _, _ => false

instance : LT Double := ⟨fun a b => lt a b = true⟩
instance : LE Double := ⟨fun a b => le a b = true⟩

instance (a b : Double) : Decidable (a < b) := inferInstanceAs (Decidable (lt a b = true))
instance (a b : Double) : Decidable (a ≤ b) := inferInstanceAs (Decidable (le a b = true))

@[simp] theorem num_lt_num (a b : ℚ) : (num a : Double) < num b ↔ a < b := by
  change decide (a < b) = true ↔ _
  exact decide_eq_true_iff

@[simp] theorem num_le_num (a b : ℚ) : (num a : Double) ≤ num b ↔ a ≤ b := by
  change decide (a ≤ b) = true ↔ _
  exact decide_eq_true_iff

@[simp] theorem num_le_posInf (a : ℚ) : (num a : Double) ≤ posInf := rfl

theorem zero_eq_num : (0 : Double) = num 0 := congrArg num Nat.cast_zero

theorem one_eq_num : (1 : Double) = num 1 := congrArg num Nat.cast_one

theorem num_mul_num (a b : ℚ) : (num a : Double) * num b = num (a * b) := rfl

theorem num_add_num (a b : ℚ) : (num a : Double) + num b = num (a + b) := rfl

theorem num_sub_num (a b : ℚ) : (num a : Double) - num b = num (a - b) := by
  rw [sub_eq_add_neg]
  rfl

/-- What takes a sum to a bound that it would pass takes it no further than that. -/
theorem not_add_sub_lt {a b c : Double} (h : c < a + b) : ¬ a + (c - a) < c := by
  rcases a with a | _ | _ | _ <;> rcases c with c | _ | _ | _
  · rw [num_sub_num, num_add_num, num_lt_num]
    simp
  · rcases b with b | _ | _ | _ <;> exact absurd h Bool.false_ne_true
  all_goals exact Bool.false_ne_true

theorem num_div_num (a b : ℚ) : (num a : Double) / num b = if b = 0 then infOf a else num (a / b) :=
  rfl

end Double
end SickPool.Library
