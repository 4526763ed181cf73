import ExprMachine.Program.Guard
import ExprMachine.Program.Nesting
import ExprMachine.Program.Reference
import ExprMachine.Program.Size

/-!
# Verification

All faults of a program, in the order of the checks: its size, its layout, and,
if it is readable, the references of its records, the guards of its conditional
jumps and the nesting of its scopes. A program is *sound* if it has none.
-/

namespace ExprMachine.Program

variable (p : Program)

/-- The faults of the records of a readable program. -/
def recordFaults : List Fault :=
  (p.layout.records.flatMap fun (offset, i) => p.referenceFaults offset i) ++
  p.layout.guardFaults ++ nestingFaults 0 p.layout.records

/-- All faults of a program. -/
def faults : List Fault :=
  p.sizeFaults ++ p.layoutFaults ++ if p.layout.readable then p.recordFaults else []

/-- Whether a program has no faults. -/
def isSound : Bool := p.faults.isEmpty

end ExprMachine.Program
