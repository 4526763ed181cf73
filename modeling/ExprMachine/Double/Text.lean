import ExprMachine.Double.Shortest

/-!
# The text of a double

A double is written with its shortest decimal, in one of two *styles*. The
style fixes which numbers are written positionally, by the exponent of their
leading digit, and whether a whole number keeps a point and a zero; all other
numbers are written with one digit before the point and an exponent after `e`.

Read as text, a double is an optional sign followed by digits, a point and
more digits, at least one of them, and an optional exponent; or by one of the
words `inf`, `infinity` and `nan`, in letters of either case. The value is
rounded to the nearest double.
-/

namespace ExprMachine

namespace Double

/-! ## Writing -/

/-- What is left open by the digits of a number when it is written. -/
structure Style where
  /-- Whether a number is written positionally, by the exponent of its leading
      digit. -/
  positional : Int → Bool
  /-- Whether a whole number written positionally ends in a point and a zero. -/
  wholePoint : Bool

/-- The style in which values are shown: positional from `0.0001` up to below
    `10^16`, and never mistaken for an integer. -/
def Style.shown : Style where
  positional e := decide (-4 ≤ e) && decide (e < 16)
  wholePoint := true

/-- The style in which numbers are turned into strings: always positional. -/
def Style.plain : Style where
  positional _ := true
  wholePoint := false

/-- The digits with the point in its place. -/
def layoutPositional (style : Style) (digits : List Char) (exponent : Int) : List Char :=
  let point : Int := digits.length + exponent
  if 0 ≤ exponent then
    digits ++ List.replicate exponent.toNat '0' ++ (if style.wholePoint then ['.', '0'] else [])
  else if 0 < point then
    digits.take point.toNat ++ '.' :: digits.drop point.toNat
  else '0' :: '.' :: List.replicate (-point).toNat '0' ++ digits

/-- One digit before the point, and the exponent after `e`. -/
def layoutScientific (digits : List Char) (leading : Int) : List Char :=
  let fraction := digits.drop 1
  digits.take 1 ++ (if fraction.isEmpty then [] else '.' :: fraction) ++
    'e' :: (toString leading).toList

/-- The digits of a decimal in a style. -/
def layout (style : Style) (d : Decimal) : List Char :=
  let digits := Nat.toDigits 10 d.digits
  let leading : Int := digits.length + d.exponent - 1
  if d.digits = 0 || style.positional leading then layoutPositional style digits d.exponent
  else layoutScientific digits leading

/-- The text of a double in a style. -/
def text (style : Style) (d : Double) : String :=
  if d.isNaN then "NaN"
  else
    let unsigned := if d.isFinite then layout style d.shortest else ['i', 'n', 'f']
    String.ofList (if d.isNegative then '-' :: unsigned else unsigned)

/-! ## Reading -/

/-- Why a text is not read as a double. -/
inductive ReadFault where
  /-- There is nothing to read. -/
  | empty
  /-- The text does not have the form of a number. -/
  | malformed
  deriving DecidableEq, Repr

/-- The wording of a fault. -/
def ReadFault.text : ReadFault → String
  | .empty => "cannot parse float from empty string"
  | .malformed => "invalid float literal"

/-- The number written by a list of decimal digits. -/
def digitsValue (digits : List Char) : Nat :=
  digits.foldl (fun n c => 10 * n + (c.toNat - 48)) 0

/-- The exponent after the digits: nothing, or `e`, an optional sign and
    digits. -/
def readExponent? : List Char → Option Int
  | [] => some 0
  | c :: rest =>
    if c = 'e' ∨ c = 'E' then
      let (negative, digits) := match rest with
        | '-' :: digits => (true, digits)
        | '+' :: digits => (false, digits)
        | digits => (false, digits)
      if digits.isEmpty || !digits.all Char.isDigit then none
      else some (if negative then -(digitsValue digits : Int) else digitsValue digits)
    else none

/-- A number without a sign: digits, a point and digits, at least one of them,
    and an optional exponent. -/
def readDecimal? (cs : List Char) : Option Decimal :=
  let whole := cs.takeWhile Char.isDigit
  let (fraction, tail) := match cs.dropWhile Char.isDigit with
    | '.' :: rest => (rest.takeWhile Char.isDigit, rest.dropWhile Char.isDigit)
    | rest => ([], rest)
  if whole.isEmpty && fraction.isEmpty then none
  else do
    let e ← readExponent? tail
    pure ⟨digitsValue (whole ++ fraction), e - fraction.length⟩

/-- The double nearest to a decimal. A decimal beyond the range of the doubles
    by its number of digits alone is not expanded. -/
def ofDecimal (negative : Bool) (d : Decimal) : Double :=
  let leading : Int := (Nat.toDigits 10 d.digits).length + d.exponent
  if d.digits = 0 || decide (leading < -400) then ofMagnitude negative 0
  else if 400 < leading then ofMagnitude negative infinityMagnitude
  else nearest negative (d.digits * Nat.pow 10 d.exponent.toNat) (Nat.pow 10 (-d.exponent).toNat)

/-- The double that a word stands for. -/
def ofWord? (negative : Bool) (cs : List Char) : Option Double :=
  let word := String.ofList (cs.map Char.toLower)
  if word = "inf" ∨ word = "infinity" then some (ofMagnitude negative infinityMagnitude)
  else if word = "nan" then some nan
  else none

/-- The double written by a text. -/
def ofText (s : String) : Except ReadFault Double :=
  match s.toList with
  | [] => .error .empty
  | c :: rest =>
    let unsigned := if c = '-' ∨ c = '+' then rest else c :: rest
    let negative := decide (c = '-')
    match readDecimal? unsigned with
    | some d => .ok (ofDecimal negative d)
    | none =>
      match ofWord? negative unsigned with
      | some d => .ok d
      | none => .error .malformed

end Double

end ExprMachine
