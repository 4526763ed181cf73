import ExprMachine.Operator
import ExprMachine.Program.Fault

/-!
# The references of programs

Every slot of a record has to hold what the layout of its opcode asks for: a
register that the program has, an entry of a pool, the index of an operator, the
tag of a role, or zero. Some records read a *run* of consecutive registers; the
whole run has to lie in the program's registers. Jump targets belong to the
layout of the program.
-/

namespace ExprMachine.Program

variable (p : Program)

/-- The fault of an index that a pool does not have. -/
def indexFaults (offset : Nat) (pool : Pool) (index : UInt32) : List Fault :=
  faultIf (p.poolSize pool ≤ index.toNat) (.indexRange offset pool index (p.poolSize pool))

/-- The faults of a slot. -/
def slotFaults (offset slot : Nat) (operand : Operand) (n : UInt32) : List Fault :=
  match operand with
  | .unused => faultIf (n ≠ 0) (.unusedSlot offset slot)
  | .register =>
    faultIf (p.registers ≤ n) (.registerRange offset n.toNat p.registers.toNat)
  | .constant => p.indexFaults offset .constants n
  | .string => p.indexFaults offset .strings n
  | .messageFields => p.indexFaults offset .messageFields n
  | .operator => faultIf (BinaryOperator.ofIndex? n.toNat).isNone (.operatorIndex offset n)
  | .role => faultIf (ConditionRole.ofTag? n).isNone (.conditionRole offset n)
  | .target | .count => []

/-- The run of registers that a record reads: the first one and their number. -/
def registerRun? (i : Instruction) : Option (Nat × Nat) :=
  match i.opcode with
  | .call => some (i.op2.toNat, i.op3.toNat)
  | .makeList => some (i.op1.toNat, i.op2.toNat)
  | .makeMap => some (i.op1.toNat, 2 * i.op2.toNat)
  | .makeMessage => p.messageFields[i.op2.toNat]?.map fun names => (i.op1.toNat, names.length)
  | _ => none

/-- The fault of a run that goes beyond the registers: its last one. -/
def runFaults (offset : Nat) (i : Instruction) : List Fault :=
  match p.registerRun? i with
  | some (first, count) =>
    faultIf (0 < count && p.registers.toNat < first + count)
      (.registerRange offset (first + count - 1) p.registers.toNat)
  | none => []

/-- The faults of the references of a record. -/
def referenceFaults (offset : Nat) (i : Instruction) : List Fault :=
  (i.operands.flatMap fun (slot, operand, n) => p.slotFaults offset slot operand n) ++
  p.indexFaults offset .spans i.span ++ p.runFaults offset i

end ExprMachine.Program
