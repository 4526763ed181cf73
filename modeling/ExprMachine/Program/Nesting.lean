import ExprMachine.Program.Layout

/-!
# The nesting of scopes

The records that enter and leave scopes have to be paired in the order in which
they stand, whatever the jumps between them.
-/

namespace ExprMachine.Program

/-- The faults of the scopes of some records, of which `depth` have been entered
    before. -/
def nestingFaults (depth : Nat) : List (Nat × Instruction) → List Fault
  | [] => faultIf (0 < depth) (.unclosedScopes depth)
  | (offset, i) :: rest =>
    match i.opcode, depth with
    | .scopePush, _ => nestingFaults (depth + 1) rest
    | .scopePop, 0 => .unbalancedPop offset :: nestingFaults 0 rest
    | .scopePop, depth + 1 => nestingFaults depth rest
    | _, _ => nestingFaults depth rest

end ExprMachine.Program
