import ExprMachine.Operator
import ExprMachine.Program.Layout

/-!
# The guards of conditional jumps

A conditional jump on a value that is not a boolean falls through, and it is left
to another record to reject the value. There are two such records. Before the
jump, it may be a check of the register; or the jump may skip the right operand
of `&&` or `||`, and then the record before its target applies that operator with
its result in the register. The records are found by their places alone.
-/

namespace ExprMachine.Program.Layout

variable (l : Layout)

/-- Whether a record checks that a register holds a boolean. -/
def checks (i : Instruction) (register : UInt32) : Bool :=
  i.opcode = .condCheck && i.op1 = register

/-- Whether a record applies `&&` or `||`, with the result in a register. -/
def joins (i : Instruction) (register : UInt32) : Bool :=
  i.opcode = .binaryOp && i.dst = register &&
    (BinaryOperator.ofIndex? i.op2.toNat).any BinaryOperator.isShortCircuit

/-- Whether the conditional jump at a position is guarded. -/
def isGuarded (index : Nat) (jump : Instruction) : Bool :=
  (l.before? index).any (checks · jump.dst) ||
    ((l.indexOf? jump.op1.toNat).bind l.before?).any (joins · jump.dst)

/-- The conditional jumps that are not guarded. -/
def guardFaults : List Fault :=
  l.records.zipIdx.flatMap fun ((offset, i), index) =>
    faultIf (i.opcode.isConditionalJump && !l.isGuarded index i) (.unguardedJump offset)

end ExprMachine.Program.Layout
