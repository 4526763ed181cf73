import ExprMachine.Value.Order
import Mathlib.Tactic.SplitIfs

/-!
# Numbers in comparisons

Values of three kinds are numbers. Which of them a value is (`Value.number?`) decides how it
compares, and its kind does not matter beyond that: an integer is only what it denotes,
with a sign or without one (`Value.compareSigns_eq`), and beside a double it takes part as
the double nearest to it.

So all orders among numbers are one (`Value.compare_of_number`), and this order decides
which of them are equal (`Value.equals_of_number`).
-/

namespace ExprMachine

/-- A number as it takes part in a comparison. -/
inductive Number where
  /-- An integer, by what it denotes. -/
  | integer (i : Int)
  /-- A double. -/
  | double (d : Double)
  deriving DecidableEq, Repr

namespace Number

/-- The double nearest to a number. -/
def toDouble : Number → Double
  | .integer i => Double.ofInt i
  | .double d => d

/-- The order of two numbers, or nothing if one of them is NaN. -/
def compare : Number → Number → Option Ordering
  | .integer a, .integer b => some (Ord.compare a b)
  | a, b => a.toDouble.compare b.toDouble

end Number

namespace Value

/-- The number that a value is, if it is one. -/
def number? : Value → Option Number
  | .int i => some (.integer i.toInt)
  | .uint u => some (.integer u.toNat)
  | .double d => some (.double d)
  | _ => none

/-! ## Integers of both kinds -/

/-- Integers with a sign are ordered by what they denote. -/
theorem compare_toInt (a b : Int64) : Ord.compare a b = Ord.compare a.toInt b.toInt := by
  simp only [Ord.compare, compareOfLessAndEq, Int64.lt_iff_toInt_lt, ← Int64.toInt_inj]

/-- Integers without a sign are ordered by what they denote. -/
theorem compare_toNat (a b : UInt64) :
    Ord.compare a b = Ord.compare (a.toNat : Int) (b.toNat : Int) := by
  simp only [Ord.compare, compareOfLessAndEq, UInt64.lt_iff_toNat_lt, ← UInt64.toNat_inj,
    Int.ofNat_lt, Int.ofNat_inj]

/-- An integer that is not negative denotes the same without a sign. -/
theorem toNat_toUInt64 {a : Int64} (ha : 0 ≤ a.toInt) : (a.toUInt64.toNat : Int) = a.toInt := by
  rw [Int64.toNat_toUInt64_of_le (Int64.le_iff_toInt_le.2 ha)]
  exact Int.toNat_of_nonneg ha

/-- An integer with a sign and one without are ordered by what they denote. -/
theorem compareSigns_eq (a : Int64) (b : UInt64) :
    compareSigns a b = Ord.compare a.toInt (b.toNat : Int) := by
  rw [compareSigns]
  split_ifs with hsign
  · have ha : a.toInt < 0 := Int64.lt_iff_toInt_lt.1 hsign
    exact (Int.compare_eq_lt.2 (by omega)).symm
  · -- The conversion keeps what is denoted, as the sign has been looked at first.
    have ha : 0 ≤ a.toInt := Int.not_lt.1 fun h => hsign (Int64.lt_iff_toInt_lt.2 h)
    rw [compare_toNat, toNat_toUInt64 ha]

/-! ## Numbers of all kinds -/

variable {a b : Value} {x y : Number}

/-- Numbers have the order of what they are, whatever their kinds. -/
theorem compare_of_number (hx : a.number? = some x) (hy : b.number? = some y) :
    a.compare b = x.compare y := by
  cases a with
  | int i =>
    cases hx
    cases b with
    | int j =>
      cases hy
      exact congrArg some (compare_toInt i j)
    | uint u =>
      cases hy
      exact congrArg some (compareSigns_eq i u)
    | double d =>
      cases hy
      rfl
    | _ => cases hy
  | uint u =>
    cases hx
    cases b with
    | int i =>
      cases hy
      have hswap : (compareSigns i u).swap = Ord.compare (u.toNat : Int) i.toInt := by
        rw [compareSigns_eq]
        exact Std.OrientedCmp.eq_swap.symm
      exact congrArg some hswap
    | uint w =>
      cases hy
      exact congrArg some (compare_toNat u w)
    | double d =>
      cases hy
      rfl
    | _ => cases hy
  | double d =>
    cases hx
    cases b <;> cases hy <;> rfl
  | _ => cases hx

/-- Numbers are equal in the language if their order says so. -/
theorem equals_of_number (hx : a.number? = some x) (hy : b.number? = some y) :
    a.equals b = (x.compare y == some .eq) := by
  rw [← compare_of_number hx hy]
  cases a <;> cases hx <;> cases b <;> cases hy <;> rfl

end Value

end ExprMachine
