import ExprMachine.Registry.Descriptor

/-!
# Operands of standard handlers

A handler is called with values of the kinds that it is registered for. What it
does with others is not left open: reading an operand of another kind fails as
a defect.
-/

namespace ExprMachine.Standard

/-- The failure of a handler called with values of kinds that it is not meant
    for. -/
def mismatch {α : Type} (span : Span) : Except EvalError α := .error ⟨span, .defect .operandKinds⟩

/-- The failure of an operation whose result does not fit. -/
def overflow {α : Type} (span : Span) (operation : String) : Except EvalError α :=
  .error ⟨span, .overflow operation⟩

/-- Reads a boolean. -/
def boolOf (span : Span) : Value → Except EvalError Bool
  | .bool b => .ok b
  | _ => mismatch span

/-- Reads a signed integer as the integer that it denotes. -/
def intOf (span : Span) : Value → Except EvalError Int
  | .int i => .ok i.toInt
  | _ => mismatch span

/-- Reads an unsigned integer as the integer that it denotes. -/
def uintOf (span : Span) : Value → Except EvalError Int
  | .uint u => .ok u.toNat
  | _ => mismatch span

/-- Reads a double. -/
def doubleOf (span : Span) : Value → Except EvalError Double
  | .double d => .ok d
  | _ => mismatch span

/-- Reads a string. -/
def stringOf (span : Span) : Value → Except EvalError String
  | .string s => .ok s
  | _ => mismatch span

/-- Reads a byte sequence. -/
def bytesOf (span : Span) : Value → Except EvalError (List UInt8)
  | .bytes bs => .ok bs
  | _ => mismatch span

/-- Reads a list. -/
def listOf (span : Span) : Value → Except EvalError (List Value)
  | .list items => .ok items
  | _ => mismatch span

/-- Reads a map. -/
def mapOf (span : Span) : Value → Except EvalError (Entries MapKey Value)
  | .map entries => .ok entries
  | _ => mismatch span

/-- Whether an integer is one of the signed integers of 64 bits. -/
def fitsInt (i : Int) : Bool :=
  decide (Int64.minValue.toInt ≤ i) && decide (i ≤ Int64.maxValue.toInt)

/-- Whether an integer is one of the unsigned integers of 64 bits. -/
def fitsUInt (i : Int) : Bool := decide (0 ≤ i) && decide (i < UInt64.size)

/-- An exact result as a signed integer, or an overflow of the operation. -/
def intResult (span : Span) (operation : String) (i : Int) : Except EvalError Value :=
  if fitsInt i then .ok (.int (Int64.ofInt i)) else overflow span operation

/-- An exact result as an unsigned integer, or an overflow of the operation. -/
def uintResult (span : Span) (operation : String) (i : Int) : Except EvalError Value :=
  if fitsUInt i then .ok (.uint (UInt64.ofNat i.toNat)) else overflow span operation

end ExprMachine.Standard
