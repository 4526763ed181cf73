import ExprMachine.Instruction
import ExprMachine.Span
import ExprMachine.Value

/-!
# Programs

A *program* is the flat array of the words of its records, together with the
pools that the records refer to: constants, strings, spans, and for each place
where a message is built the list of its field names. It also says how many
registers it needs. Nothing in the type says that the words are records or that
the references are in range: programs may come from anywhere, and reading them
answers with an error where they are not what they should be.
-/

namespace ExprMachine

/-- An executable program. -/
structure Program where
  /-- The words of the records. -/
  code : Array UInt32 := #[]
  /-- The pool of constants. -/
  constants : Array Value := #[]
  /-- The pool of names: of variables, fields, functions and types. -/
  strings : Array String := #[]
  /-- The pool of spans. -/
  spans : Array Span := #[]
  /-- The number of registers needed. -/
  registers : UInt32 := 0
  /-- The field names of the messages built. -/
  messageFields : Array (List String) := #[]

namespace Program

/-- The number of whole records. -/
def length (p : Program) : Nat := p.code.size / stride

/-- Whether there are no words at all. -/
def isEmpty (p : Program) : Bool := p.code.isEmpty

/-- The record at an offset. -/
def fetch (p : Program) (offset : Nat) : Except DecodeError Instruction :=
  if offset % stride ≠ 0 then .error (.misaligned offset)
  else Instruction.decode (p.code.extract offset (offset + stride)).toList offset

/-- The offsets at which records begin, the last of which may be cut short. -/
def offsets (p : Program) : List Nat :=
  (List.range ((p.code.size + (stride - 1)) / stride)).map (stride * ·)

/-- All records with their offsets, or the first error in their order. -/
def decodeAll (p : Program) : Except DecodeError (List (Nat × Instruction)) :=
  p.offsets.mapM fun offset => (p.fetch offset).map fun i => (offset, i)

/-- The span of an index of the pool; an index out of range has none. -/
def span (p : Program) (index : UInt32) : Span := p.spans[index.toNat]?.getD Span.none

/-- The string of an index of the pool. -/
def string? (p : Program) (index : UInt32) : Option String := p.strings[index.toNat]?

end Program

end ExprMachine
