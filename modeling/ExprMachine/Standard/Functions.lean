import ExprMachine.Standard.Operand
import ExprMachine.Text.Utf8

/-!
# Standard functions

* `size` counts the characters of a string, the bytes of a byte sequence, the
  items of a list and the entries of a map.
* `int`, `uint` and `double` convert numbers and read them from strings. A
  double is truncated toward zero, and a number that the kind does not have is
  an overflow. Whether a double is one of those is decided before it is
  truncated, by comparing it with doubles that are powers of two.
* `string` writes numbers and booleans, and reads byte sequences as text.
* `contains`, `startsWith` and `endsWith` look for a string in another.
-/

namespace ExprMachine.Standard

/-- A handler for one argument. -/
def onArgument (compute : Value → Span → Except EvalError Value) : FunctionHandler :=
  fun args span =>
    match args with
    | v :: _ => compute v span
    | [] => mismatch span

/-- A handler for an argument that is already of the kind of the result. -/
def unchanged : FunctionHandler := onArgument fun v _ => .ok v

/-- The function `size`. -/
def size : FunctionDescriptor where
  name := "size"
  overloads := [
    ([.string], onArgument fun v span => do
      let s ← stringOf span v
      pure (.int (Int64.ofNat s.length))),
    ([.bytes], onArgument fun v span => do
      let bs ← bytesOf span v
      pure (.int (Int64.ofNat bs.length))),
    ([.list], onArgument fun v span => do
      let items ← listOf span v
      pure (.int (Int64.ofNat items.length))),
    ([.map], onArgument fun v span => do
      let entries ← mapOf span v
      pure (.int (Int64.ofNat entries.length)))]

/-- The double `-2^63`, which is the least signed integer. -/
def intLower : Double := ⟨0xc3e0000000000000⟩

/-- The double `2^63`, which is the least one beyond the signed integers. -/
def intUpper : Double := ⟨0x43e0000000000000⟩

/-- The double `-1`. A greater one is truncated to zero at least. -/
def uintLower : Double := ⟨0xbff0000000000000⟩

/-- The double `2^64`, which is the least one beyond the unsigned integers. -/
def uintUpper : Double := ⟨0x43f0000000000000⟩

/-- The function `int`. -/
def toInt : FunctionDescriptor where
  name := "int"
  overloads := [
    ([.int], unchanged),
    ([.uint], onArgument fun v span => do
      let u ← uintOf span v
      intResult span "uint to int conversion" u),
    ([.double], onArgument fun v span => do
      let d ← doubleOf span v
      if d.isFinite && intLower.isAtMost d && d.isLess intUpper then
        pure (.int (Int64.ofIntClamp d.truncate))
      else overflow span "double to int conversion"),
    ([.string], onArgument fun v span => do
      let s ← stringOf span v
      match Text.readInt s with
      | .ok i => pure (.int i)
      | .error fault => throw ⟨span, .invalidArgument (.notInt s fault)⟩)]

/-- The function `uint`. -/
def toUInt : FunctionDescriptor where
  name := "uint"
  overloads := [
    ([.uint], unchanged),
    ([.int], onArgument fun v span => do
      let i ← intOf span v
      uintResult span "int to uint conversion" i),
    ([.double], onArgument fun v span => do
      let d ← doubleOf span v
      if d.isFinite && uintLower.isLess d && d.isLess uintUpper then
        pure (.uint (UInt64.ofNatClamp d.truncate.toNat))
      else overflow span "double to uint conversion"),
    ([.string], onArgument fun v span => do
      let s ← stringOf span v
      match Text.readUInt s with
      | .ok u => pure (.uint u)
      | .error fault => throw ⟨span, .invalidArgument (.notUInt s fault)⟩)]

/-- The function `double`. -/
def toDouble : FunctionDescriptor where
  name := "double"
  overloads := [
    ([.double], unchanged),
    ([.int], onArgument fun v span => do
      let i ← intOf span v
      pure (.double (Double.ofInt i))),
    ([.uint], onArgument fun v span => do
      let u ← uintOf span v
      pure (.double (Double.ofInt u))),
    ([.string], onArgument fun v span => do
      let s ← stringOf span v
      match Double.ofText s with
      | .ok d => pure (.double d)
      | .error fault => throw ⟨span, .invalidArgument (.notDouble s fault)⟩)]

/-- The function `string`. -/
def toText : FunctionDescriptor where
  name := "string"
  overloads := [
    ([.string], unchanged),
    ([.int], onArgument fun v span => do
      let i ← intOf span v
      pure (.string (toString i))),
    ([.uint], onArgument fun v span => do
      let u ← uintOf span v
      pure (.string (toString u))),
    ([.double], onArgument fun v span => do
      let d ← doubleOf span v
      pure (.string (d.text .plain))),
    ([.bool], onArgument fun v span => do
      let b ← boolOf span v
      pure (.string (if b then "true" else "false"))),
    ([.bytes], onArgument fun v span => do
      let bs ← bytesOf span v
      match Text.decodeUtf8? bs with
      | some s => pure (.string s)
      | none => throw ⟨span, .invalidArgument .notUtf8⟩)]

/-- Whether the second text stands anywhere in the first. -/
def hasInfix : List Char → List Char → Bool
  | [], part => part.isEmpty
  | c :: rest, part => part.isPrefixOf (c :: rest) || hasInfix rest part

/-- A function that asks about a string in another. -/
def stringPredicate (name : String) (test : List Char → List Char → Bool) :
    FunctionDescriptor where
  name := name
  overloads := [([.string, .string], fun args span =>
    match args with
    | v :: w :: _ => do
      let s ← stringOf span v
      let part ← stringOf span w
      pure (.bool (test s.toList part.toList))
    | _ => mismatch span)]

/-- The standard functions. -/
def functions : List Descriptor :=
  [.function size, .function toInt, .function toUInt, .function toDouble, .function toText,
    .function (stringPredicate "contains" hasInfix),
    .function (stringPredicate "startsWith" fun s part => part.isPrefixOf s),
    .function (stringPredicate "endsWith" fun s part => part.isSuffixOf s)]

end ExprMachine.Standard
