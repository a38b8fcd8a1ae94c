import Mathlib.Algebra.Order.Field.Basic
import Mathlib.Algebra.Order.Ring.Rat
import Mathlib.Tactic

/-!
# Exact arithmetic with infinities

The numbers of an ordered field, two infinities, and what an operation gives that has no
result. The rules are those of floating point without rounding and with one zero, which
counts as positive: an infinity absorbs what is added to it, a finite number divided by an
infinity is zero, and the operations that have no limit (`∞ - ∞`, `0 * ∞`, `∞ / ∞`, `0 / 0`)
are undefined. Undefined values are not comparable with anything.
-/

/-- A number, an infinity or an undefined value. -/
inductive Extended (K : Type)
  | finite (x : K)
  /-- Negative or positive infinity. -/
  | infinite (negative : Bool)
  | undefined
  deriving DecidableEq, Repr

namespace Extended

variable {K : Type}

/-- Positive infinity. -/
def infinity : Extended K := infinite false

/-! ## Sums -/

section Sums

variable [Field K]

instance : Zero (Extended K) := ⟨finite 0⟩
instance : One (Extended K) := ⟨finite 1⟩
instance : OfNat (Extended K) 2 := ⟨finite (2 : ℕ)⟩
instance : IntCast (Extended K) := ⟨fun n => finite n⟩

instance : Neg (Extended K) where
  neg
    | finite x => finite (-x)
    | infinite negative => infinite (!negative)
    | undefined => undefined

instance : Add (Extended K) where
  add
    | finite x, finite y => finite (x + y)
    | finite _, infinite negative => infinite negative
    | infinite negative, finite _ => infinite negative
    | infinite a, infinite b => if a = b then infinite a else undefined
    | undefined, _ => undefined
    | _, undefined => undefined

instance : Sub (Extended K) := ⟨fun a b => a + -b⟩

variable (x y : K)

theorem zero_eq : (0 : Extended K) = finite 0 := rfl
theorem one_eq : (1 : Extended K) = finite 1 := rfl
theorem two_eq : (2 : Extended K) = finite 2 := congrArg finite Nat.cast_two

@[simp] theorem neg_finite : -finite x = finite (-x) := rfl
@[simp] theorem finite_add : finite x + finite y = finite (x + y) := rfl

@[simp] theorem finite_sub : finite x - finite y = finite (x - y) :=
  congrArg finite (sub_eq_add_neg x y).symm

end Sums

/-! ## Order -/

section Order

variable [LinearOrder K]

instance : LT (Extended K) where
  lt
    | finite x, finite y => x < y
    | finite _, infinite negative => negative = false
    | infinite negative, finite _ => negative = true
    | infinite a, infinite b => a = true ∧ b = false
    | undefined, _ => False
    | _, undefined => False

instance : LE (Extended K) where
  le
    | finite x, finite y => x ≤ y
    | finite _, infinite negative => negative = false
    | infinite negative, finite _ => negative = true
    | infinite a, infinite b => a = true ∨ b = false
    | undefined, _ => False
    | _, undefined => False

instance : DecidableLT (Extended K)
  | finite x, finite y => inferInstanceAs (Decidable (x < y))
  | finite _, infinite negative => inferInstanceAs (Decidable (negative = false))
  | infinite negative, finite _ => inferInstanceAs (Decidable (negative = true))
  | infinite a, infinite b => inferInstanceAs (Decidable (a = true ∧ b = false))
  | undefined, _ => inferInstanceAs (Decidable False)
  | finite _, undefined => inferInstanceAs (Decidable False)
  | infinite _, undefined => inferInstanceAs (Decidable False)

instance : DecidableLE (Extended K)
  | finite x, finite y => inferInstanceAs (Decidable (x ≤ y))
  | finite _, infinite negative => inferInstanceAs (Decidable (negative = false))
  | infinite negative, finite _ => inferInstanceAs (Decidable (negative = true))
  | infinite a, infinite b => inferInstanceAs (Decidable (a = true ∨ b = false))
  | undefined, _ => inferInstanceAs (Decidable False)
  | finite _, undefined => inferInstanceAs (Decidable False)
  | infinite _, undefined => inferInstanceAs (Decidable False)

variable (x y : K)

@[simp] theorem finite_lt : finite x < finite y ↔ x < y := Iff.rfl
@[simp] theorem finite_le : finite x ≤ finite y ↔ x ≤ y := Iff.rfl
@[simp] theorem not_infinity_lt : ¬ infinity < finite x := Bool.false_ne_true
@[simp] theorem finite_le_infinity : finite x ≤ infinity := rfl

end Order

/-! ## Products -/

section Products

variable [Field K] [LinearOrder K]

/-- The product of an infinity and a number. -/
def scale (negative : Bool) (x : K) : Extended K :=
  if x = 0 then undefined else infinite (xor negative (decide (x < 0)))

instance : Mul (Extended K) where
  mul
    | finite x, finite y => finite (x * y)
    | finite x, infinite negative => scale negative x
    | infinite negative, finite x => scale negative x
    | infinite a, infinite b => infinite (xor a b)
    | undefined, _ => undefined
    | _, undefined => undefined

instance : Div (Extended K) where
  div
    | finite x, finite y =>
      if y = 0 then (if x = 0 then undefined else infinite (decide (x < 0))) else finite (x / y)
    | finite _, infinite _ => finite 0
    | infinite negative, finite x => infinite (xor negative (decide (x < 0)))
    | infinite _, infinite _ => undefined
    | undefined, _ => undefined
    | _, undefined => undefined

variable (x y : K)

@[simp] theorem finite_mul : finite x * finite y = finite (x * y) := rfl

variable {y} in
theorem finite_div (hy : y ≠ 0) : finite x / finite y = finite (x / y) := if_neg hy

@[simp] theorem finite_div_infinity : finite x / infinity = finite 0 := rfl

@[simp] theorem not_finite_lt_neg_infinity : ¬ finite x < -infinity := Bool.true_eq_false.mp

variable {x}

theorem infinity_mul (hx : 0 < x) : infinity * finite x = infinity := by
  show scale false x = _
  unfold scale infinity
  rw [if_neg hx.ne', decide_eq_false hx.asymm]
  rfl

theorem infinity_div (hx : 0 < x) : infinity / finite x = infinity := by
  show infinite (xor false (decide (x < 0))) = _
  rw [decide_eq_false hx.asymm]
  rfl

end Products

end Extended
