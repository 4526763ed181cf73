import ExprMachine.Program.Fault

/-!
# The size of programs

The numbers of registers, of records and of the entries of the pools are
limited. Nothing else about a program has to be sound for its size to be checked.
-/

namespace ExprMachine.Program

variable (p : Program)

/-- The limits that a program exceeds. -/
def sizeFaults : List Fault :=
  faultIf (maxRegisters < p.registers.toNat) (.tooManyRegisters p.registers.toNat) ++
  faultIf (maxLength < p.length) (.tooLong p.length) ++
  Pool.all.flatMap fun pool =>
    faultIf (maxPoolSize < p.poolSize pool) (.poolTooLarge pool (p.poolSize pool))

end ExprMachine.Program
