/-!
# Doubles

A *double* is a binary floating point number of 64 bits, kept as its bits: a
sign, an exponent field of eleven bits and a fraction field of 52 bits. A
finite double stands for the exact value `±m * 2^q`, where the *significand*
`m` and the *exponent* `q` are read off the two fields.

* Doubles are ordered by their *rank*, the signed magnitude of their bits: two
  doubles that are not NaN compare as their ranks do, and the two zeros have
  one rank (`Double.compare`).
* A fraction of natural numbers is rounded to the nearest double, ties going
  to the even significand (`Double.nearest`). Integers become doubles in this
  way, and so do decimals.
* Addition, subtraction, multiplication and division are those of the
  standard arithmetic of binary floating point numbers, rounded to nearest.
-/

namespace ExprMachine

/-- A binary floating point number of 64 bits. -/
structure Double where
  /-- The sign, the exponent field and the fraction field. -/
  bits : UInt64
  deriving DecidableEq, Repr, Inhabited

namespace Double

/-! ## The fields -/

/-- The sign, the highest of the 64 bits. -/
def signBit : Nat := 0x8000000000000000

/-- The lowest bit of the exponent field, above the 52 bits of the fraction. It
    is also the leading bit of the significands of normal numbers. -/
def leadingBit : Nat := 0x10000000000000

/-- The bits without the sign. -/
def magnitude (d : Double) : Nat := d.bits.toNat % signBit

/-- Whether the sign bit is set. -/
def isNegative (d : Double) : Bool := decide (signBit ≤ d.bits.toNat)

/-- The magnitude of the infinities: every larger one is a NaN. -/
def infinityMagnitude : Nat := 2047 * leadingBit

/-- Whether the double is not a number. -/
def isNaN (d : Double) : Bool := decide (infinityMagnitude < d.magnitude)

/-- Whether the double is a number other than the infinities. -/
def isFinite (d : Double) : Bool := decide (d.magnitude < infinityMagnitude)

/-- The exponent field. -/
def exponentField (d : Double) : Nat := d.magnitude / leadingBit

/-- The fraction field. -/
def fractionField (d : Double) : Nat := d.magnitude % leadingBit

/-- The significand `m` of the value `±m * 2^q` of a finite double: normal
    numbers have a leading bit that is not stored. -/
def significand (d : Double) : Nat :=
  if d.exponentField = 0 then d.fractionField else leadingBit + d.fractionField

/-- The exponent `q` of the value `±m * 2^q` of a finite double. -/
def exponent (d : Double) : Int :=
  if d.exponentField = 0 then -1074 else (d.exponentField : Int) - 1075

/-- The double of a sign and a magnitude without a sign. -/
def ofMagnitude (negative : Bool) (magnitude : Nat) : Double :=
  ⟨UInt64.ofNat (if negative then signBit + magnitude else magnitude)⟩

/-! ## Order -/

/-- The signed magnitude, which orders the doubles that are not NaN. -/
def rank (d : Double) : Int :=
  if d.isNegative then -(d.magnitude : Int) else d.magnitude

/-- The order of two doubles, or nothing if one of them is NaN. -/
def compare (a b : Double) : Option Ordering :=
  if a.isNaN || b.isNaN then none else some (Ord.compare a.rank b.rank)

/-- Whether a double is less than another, and neither is a NaN. -/
def isLess (a b : Double) : Bool := a.compare b == some .lt

/-- Whether a double is at most another, and neither is a NaN. -/
def isAtMost (a b : Double) : Bool := a.compare b == some .lt || a.compare b == some .eq

/-! ## Rounding -/

/-- The exponent of the leading bit of `num / den`: the largest `e` with
    `2^e ≤ num / den`. -/
def leadingExponent (num den : Nat) : Int :=
  let e : Int := (num.log2 : Int) - den.log2
  if den <<< e.toNat ≤ num <<< (-e).toNat then e else e - 1

/-- The integer nearest to `num / den`, an exact half going to the even one. -/
def roundQuotient (num den : Nat) : Nat :=
  let quotient := num / den
  match Ord.compare (2 * (num % den)) den with
  | .lt => quotient
  | .gt => quotient + 1
  | .eq => if quotient % 2 = 0 then quotient else quotient + 1

/-- The double nearest to the fraction `num / den` with the given sign, ties
    going to the even significand. The quotient by the step of the doubles
    around the value, rounded, is the significand; added to the exponent field
    shifted into place it carries into the next exponent by itself. A value
    beyond the largest double becomes an infinity. -/
def nearest (negative : Bool) (num den : Nat) : Double :=
  if num = 0 then ofMagnitude negative 0
  else
    let step : Int := max (leadingExponent num den - 52) (-1074)
    let rounded := roundQuotient (num <<< (-step).toNat) (den <<< step.toNat)
    ofMagnitude negative (min ((step + 1074).toNat * leadingBit + rounded) infinityMagnitude)

/-- The double nearest to an integer. -/
def ofInt (i : Int) : Double := nearest (decide (i < 0)) i.natAbs 1

/-- A finite double without the part after the point. -/
def truncate (d : Double) : Int :=
  let whole := (d.significand <<< d.exponent.toNat) >>> (-d.exponent).toNat
  if d.isNegative then -(whole : Int) else whole

/-! ## Arithmetic -/

/-- The number as the machine's floating point unit holds it. -/
def toFloat (d : Double) : Float := Float.ofBits d.bits

/-- The bits of a number of the machine's floating point unit. -/
def ofFloat (f : Float) : Double := ⟨f.toBits⟩

instance : Add Double := ⟨fun a b => ofFloat (a.toFloat + b.toFloat)⟩

instance : Sub Double := ⟨fun a b => ofFloat (a.toFloat - b.toFloat)⟩

instance : Mul Double := ⟨fun a b => ofFloat (a.toFloat * b.toFloat)⟩

instance : Div Double := ⟨fun a b => ofFloat (a.toFloat / b.toFloat)⟩

/-- Negation flips the sign bit. -/
instance : Neg Double := ⟨fun d => ⟨d.bits ^^^ 0x8000000000000000⟩⟩

/-- The positive infinity. -/
def infinity : Double := ⟨0x7ff0000000000000⟩

/-- The NaN that has no sign and no payload. -/
def nan : Double := ⟨0x7ff8000000000000⟩

end Double

end ExprMachine
