import ExprMachine.Program

/-!
# Assembly

Code is generated with operands that are natural numbers and becomes a program
when all of them are known. A record holds words of 32 bits: where an operand,
a span or the number of registers does not fit, there is no program, and the
error says what has grown too large.
-/

namespace ExprMachine

/-- Why an expression has no program. -/
inductive CompileError where
  /-- A form of expression for which there is no code. Every form of `Expr` has
      code; a host with further forms reports them in this way. -/
  | unsupported (span : Span) (form : String)
  /-- A number does not fit in a word. -/
  | tooLarge (span : Span) (what : String)
  deriving DecidableEq, Repr

namespace CompileError

/-- The span that the error is attributed to. -/
def span : CompileError → Span
  | .unsupported s _ => s
  | .tooLarge s _ => s

/-- The wording of the error. -/
def message : CompileError → String
  | .unsupported s form => s.text ++ ": unsupported expression node '" ++ form ++ "'"
  | .tooLarge s what => s.text ++ ": program too large: " ++ what ++ " exceeds u32 range"

end CompileError

/-- A record with operands of any size. -/
structure Line where
  /-- What the record does. -/
  opcode : Opcode
  /-- The register written or tested. -/
  dst : Nat
  /-- The first operand. -/
  op1 : Nat
  /-- The second operand. -/
  op2 : Nat
  /-- The third operand. -/
  op3 : Nat
  /-- The entry of the pool of spans. -/
  span : Nat
  deriving DecidableEq, Repr

/-- What has grown too large if an operand does not fit in a word. -/
def Operand.extent : Operand → String
  | .unused | .register => "register count"
  | .constant => "constant pool"
  | .string => "string pool"
  | .target => "instruction offset"
  | .operator | .role | .count => "element count"
  | .messageFields => "message field table"

/-- The number of words that there are. -/
def wordLimit : Nat := UInt32.size

namespace Line

/-- The operands, in the order of the slots. -/
def slots (l : Line) : List Nat := [l.dst, l.op1, l.op2, l.op3]

/-- Whether all parts of the line fit in words. -/
def fits (l : Line) : Bool := (l.span :: l.slots).all fun n => decide (n < wordLimit)

/-- What does not fit in a line that does not. -/
def excess (l : Line) : String :=
  match (l.opcode.layout.zip l.slots).find? fun o => decide (wordLimit ≤ o.2) with
  | some (operand, _) => operand.extent
  | none => "span pool"

/-- The record of a line whose parts fit in words. -/
def toInstruction (l : Line) : Instruction where
  opcode := l.opcode
  dst := UInt32.ofNat l.dst
  op1 := UInt32.ofNat l.op1
  op2 := UInt32.ofNat l.op2
  op3 := UInt32.ofNat l.op3
  span := UInt32.ofNat l.span

end Line

/-- All that a program is made of. -/
structure Assembly where
  /-- The records. -/
  lines : List Line
  /-- The constants. -/
  constants : List Value
  /-- The names. -/
  strings : List String
  /-- The spans. -/
  spans : List Span
  /-- The number of registers. -/
  registers : Nat
  /-- The field names of the messages built. -/
  messageFields : List (List String)

namespace Assembly

/-- Whether all parts of the program fit in words. -/
def fits (a : Assembly) : Bool := decide (a.registers < wordLimit) && a.lines.all Line.fits

/-- The program of an assembly whose parts fit in words. -/
def toProgram (a : Assembly) : Program where
  code := (a.lines.flatMap fun l => l.toInstruction.encode).toArray
  constants := a.constants.toArray
  strings := a.strings.toArray
  spans := a.spans.toArray
  registers := UInt32.ofNat a.registers
  messageFields := a.messageFields.toArray

/-- The error of an assembly with a part that does not fit, attributed to the
    span of the first record at fault, or else to that of the whole. -/
def excess (a : Assembly) (whole : Span) : CompileError :=
  match a.lines.find? fun l => !l.fits with
  | some l => .tooLarge (a.spans[l.span]?.getD whole) l.excess
  | none => .tooLarge whole Operand.register.extent

/-- The program of an assembly. -/
def assemble (a : Assembly) (whole : Span) : Except CompileError Program :=
  if a.fits then .ok a.toProgram else .error (a.excess whole)

end Assembly

end ExprMachine
