import ExprMachine.Operator
import ExprMachine.Program
import ExprMachine.Value.Text

/-!
# Listings

A program is listed with one line for each record: its offset, in at least four
digits, then the opcode and the operands in the order of the slots. Registers
are led by `r` and offsets by `@`; references to the pools are shown by what
they refer to, or with a question mark if they are out of range. A record that
cannot be decoded is listed with the reason.
-/

namespace ExprMachine.Program

/-- A number with zeros before it, to have at least four digits. -/
def paddedOffset (n : Nat) : String :=
  let digits := Nat.toDigits 10 n
  String.ofList (List.replicate (4 - digits.length) '0' ++ digits)

/-- A reference out of range. -/
def unresolved (lead : String) (n : UInt32) : String := lead ++ toString n.toNat ++ "(?)"

/-- The text of an operand; unused slots have none. -/
def operandText (p : Program) (operand : Operand) (n : UInt32) : Option String :=
  match operand with
  | .unused => none
  | .register => some ("r" ++ toString n.toNat)
  | .target => some ("@" ++ toString n.toNat)
  | .count => some (toString n.toNat)
  | .constant => some <|
    match p.constants[n.toNat]? with
    | some v => "#" ++ toString n.toNat ++ "(" ++ v.text ++ ")"
    | none => unresolved "#" n
  | .string => some <|
    match p.string? n with
    | some s => Text.quote s
    | none => unresolved "$" n
  | .operator => some <|
    match BinaryOperator.ofIndex? n.toNat with
    | some op => op.symbol
    | none => unresolved "op" n
  | .role => some <|
    match ConditionRole.ofTag? n with
    | some .conditional => "cond"
    | some .predicate => "predicate"
    | some .filter => "filter"
    | none => unresolved "role" n
  | .messageFields => some <|
    match p.messageFields[n.toNat]? with
    | some names => "[" ++ String.intercalate ", " names ++ "]"
    | none => unresolved "fields" n

/-- The text of a record. -/
def recordText (p : Program) (i : Instruction) : String :=
  String.intercalate " "
    (i.opcode.mnemonic :: i.operands.filterMap fun (_, operand, n) => p.operandText operand n)

/-- The line of the record at an offset. -/
def lineAt (p : Program) (offset : Nat) : String :=
  let content := match p.fetch offset with
    | .ok i => p.recordText i
    | .error e => "<invalid: " ++ e.message ++ ">"
  paddedOffset offset ++ "  " ++ content ++ "\n"

/-- The listing of a program. -/
def listing (p : Program) : String := String.join (p.offsets.map p.lineAt)

end ExprMachine.Program
