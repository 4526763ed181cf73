/-!
# Integers read from text

An integer of 64 bits is written as an optional sign and one or more decimal
digits. The digits are taken from the left, and the first fault met is the one
reported: a character that is not a digit, or a number grown too large. The
sign `-` belongs to the signed integers only.
-/

namespace ExprMachine.Text

/-- Why a text is not read as an integer. -/
inductive IntegerFault where
  /-- There is nothing to read. -/
  | empty
  /-- A character is not a digit, or no digit follows the sign. -/
  | invalidDigit
  /-- The number is larger than the largest one of its kind. -/
  | tooLarge
  /-- The number is smaller than the smallest one of its kind. -/
  | tooSmall
  deriving DecidableEq, Repr

/-- The wording of a fault. -/
def IntegerFault.text : IntegerFault → String
  | .empty => "cannot parse integer from empty string"
  | .invalidDigit => "invalid digit found in string"
  | .tooLarge => "number too large to fit in target type"
  | .tooSmall => "number too small to fit in target type"

/-- Goes on reading digits after those of `value`, as long as the number stays
    within `limit`; beyond it, the fault is `beyond`. -/
def readDigits (limit : Nat) (beyond : IntegerFault) (value : Nat) :
    List Char → Except IntegerFault Nat
  | [] => .ok value
  | c :: rest =>
    if !c.isDigit then .error .invalidDigit
    else
      let next := 10 * value + (c.toNat - 48)
      if limit < next then .error beyond else readDigits limit beyond next rest

/-- Reads at least one digit. -/
def readNumber (limit : Nat) (beyond : IntegerFault) (cs : List Char) :
    Except IntegerFault Nat :=
  if cs.isEmpty then .error .invalidDigit else readDigits limit beyond 0 cs

/-- The signed integer of 64 bits written by a text. -/
def readInt (s : String) : Except IntegerFault Int64 :=
  match s.toList with
  | [] => .error .empty
  | '-' :: cs =>
    (readNumber Int64.minValue.toInt.natAbs .tooSmall cs).map fun n : Nat => Int64.ofInt (-n)
  | '+' :: cs =>
    (readNumber Int64.maxValue.toInt.natAbs .tooLarge cs).map fun n : Nat => Int64.ofInt n
  | cs =>
    (readNumber Int64.maxValue.toInt.natAbs .tooLarge cs).map fun n : Nat => Int64.ofInt n

/-- The unsigned integer of 64 bits written by a text. -/
def readUInt (s : String) : Except IntegerFault UInt64 :=
  match s.toList with
  | [] => .error .empty
  | '+' :: cs => (readNumber (UInt64.size - 1) .tooLarge cs).map UInt64.ofNat
  | cs => (readNumber (UInt64.size - 1) .tooLarge cs).map UInt64.ofNat

end ExprMachine.Text
