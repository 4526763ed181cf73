import ExprMachine.Machine

/-!
# Appending in place

A simpler machine for the same programs. It has no lists under construction: a
record that appends to a list replaces the list in its register by the longer one
at once, and a record that moves or returns a register takes what is in it. All
other records are performed as by the machine.

It copies a list for every item that is appended, which is what lists under
construction are there to avoid.
-/

namespace ExprMachine

/-- Replaces the list in a register by the list with a further item. -/
def Exec.appendInPlace (span : Span) (r : UInt32) (v : Value) : Exec Unit := do
  match ← read span r with
  | .list items => write span r (.list (items ++ [v]))
  | other => defect span (.appendKind r other.kind)

/-- The records that have to do with lists under construction. -/
def Opcode.handlesLists : Opcode → Bool
  | .listAppend | .move | .return => true
  | _ => false

namespace Machine

open Exec

variable (m : Machine)

/-- Performs a record without lists under construction. -/
def performInPlace (i : Instruction) (span : Span) : Exec (Option Value) := do
  match i.opcode with
  | .listAppend => do
    let v ← read span i.op1
    appendInPlace span i.dst v
    return none
  | .move => do
    let v ← read span i.op1
    write span i.dst v
    return none
  | .return => do
    return some (← read span i.op1)
  | _ => m.perform i span

/-- The step of the machine that appends in place. -/
def stepInPlace : Exec (Option Value) := do
  let pc := (← get).pc
  if m.program.code.size ≤ pc then defect Span.none (.noReturn pc)
  match m.program.fetch pc with
  | .error reason => defect Span.none (.undecodable pc reason)
  | .ok i => do
    modify fun s => { s with pc := pc + stride }
    m.performInPlace i (m.program.span i.span)

/-- Takes steps, at most `fuel` of them, until the execution ends. -/
def runInPlace : Nat → State → Option (EStateM.Result EvalError State Value)
  | 0, _ => none
  | fuel + 1, s =>
    match m.stepInPlace s with
    | .ok none s' => runInPlace fuel s'
    | .ok (some v) s' => some (.ok v s')
    | .error e s' => some (.error e s')

/-- Executes a program, appending in place, if that ends within a number of
    steps. -/
def executeInPlace (fuel : Nat) (env : Environment) : Option Execution :=
  (m.runInPlace fuel (m.start env)).map Execution.ofResult

/-- The other records are performed as by the machine. -/
theorem performInPlace_eq {i : Instruction} (h : i.opcode.handlesLists = false) (span : Span) :
    m.performInPlace i span = m.perform i span := by
  obtain ⟨opcode, dst, a, b, c, k⟩ := i
  cases opcode <;> first | rfl | cases h

end Machine

end ExprMachine
