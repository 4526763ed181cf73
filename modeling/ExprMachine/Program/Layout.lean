import ExprMachine.Program.Fault

/-!
# The layout of programs

A program is *readable* if its words are whole records and all of them can be
decoded. Only then is it asked where its records lead: the last one has to
return, and every jump has to lead to the beginning of a record.
-/

namespace ExprMachine.Program

/-- The offsets of the whole records. -/
def wholeOffsets (p : Program) : List Nat := (List.range p.length).map (stride * ·)

/-- The records of a program, so far as they can be read. -/
structure Layout where
  /-- The records that can be decoded, with their offsets. -/
  records : List (Nat × Instruction)
  /-- Whether these are all the words of the program. -/
  readable : Bool

namespace Layout

variable (l : Layout)

/-- The position of the record at an offset, if one begins there. -/
def indexOf? (offset : Nat) : Option Nat :=
  if offset % stride = 0 ∧ offset / stride < l.records.length then some (offset / stride) else none

/-- The record at a position. -/
def record? (index : Nat) : Option Instruction := l.records[index]?.map Prod.snd

/-- The record before a position. -/
def before? : Nat → Option Instruction
  | 0 => none
  | index + 1 => l.record? index

/-- The fault of a layout whose last record does not return. -/
def endFaults : List Fault :=
  faultIf (l.records.getLast?.map (fun r => r.2.opcode) != some .return) .missingReturn

/-- The targets of a record at which no record begins. -/
def targetFaults (offset : Nat) (i : Instruction) : List Fault :=
  i.operands.flatMap fun (_, operand, n) =>
    faultIf (operand = .target && (l.indexOf? n.toNat).isNone) (.jumpTarget offset n)

/-- The faults of a layout that is readable. -/
def flowFaults : List Fault :=
  l.endFaults ++ l.records.flatMap fun (offset, i) => l.targetFaults offset i

end Layout

variable (p : Program)

/-- The layout of a program. -/
def layout : Layout where
  records := p.wholeOffsets.filterMap fun offset =>
    match p.fetch offset with
    | .ok i => some (offset, i)
    | .error _ => none
  readable := p.code.size % stride = 0 && p.wholeOffsets.all fun offset => (p.fetch offset).isOk

/-- What keeps a program from being readable. -/
def readFaults : List Fault :=
  faultIf (p.code.size % stride ≠ 0) (.partialRecord p.code.size) ++
  p.wholeOffsets.filterMap fun offset =>
    match p.fetch offset with
    | .ok _ => none
    | .error reason => some (.undecodable offset reason)

/-- The faults of the layout of a program. -/
def layoutFaults : List Fault :=
  p.readFaults ++ if p.layout.readable then p.layout.flowFaults else []

end ExprMachine.Program
