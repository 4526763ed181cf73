import ExprMachine.Environment
import ExprMachine.Host
import ExprMachine.Program

/-!
# The state of an execution

A register machine executes a program. Beside the register file it keeps two
side tables, both by the number of a register:

* the *iterators*, with the items that are still to come;
* the *pending* lists, which are being built by appending. A list under
  construction is not in its register: it is put together when the register is
  moved or returned, and dropped when the register is written.

It also counts the scopes that the program has entered and not left, and it
keeps whether all functions called so far are idempotent. All of this stands in
the *store*, which outlasts the execution: the next one finds it as the last one
has left it, and begins by resetting it.
-/

namespace ExprMachine

/-- What a machine keeps, from the start of an execution to that of the next.
    The defaults are those of a machine that has not executed anything. -/
structure Store where
  /-- The registers. One that has not been written holds nothing. -/
  registers : Array (Option Value) := #[]
  /-- The items that are still to come from the iterators. -/
  iterators : Entries UInt32 (List Value) := []
  /-- The lists under construction, the item appended last first. -/
  pending : Entries UInt32 (List Value) := []
  /-- Whether all functions called so far are idempotent. -/
  idempotent : Bool := true
  /-- The number of scopes entered by the program and not left. -/
  openScopes : Nat := 0

namespace Store

/-- Registers up to a number: those behind it are dropped, and those that are
    missing are added without a value. -/
def resize (registers : Array (Option Value)) (count : Nat) : Array (Option Value) :=
  registers.take count ++ Array.replicate (count - registers.size) none

/-- Makes a store ready for a program. -/
def reset (s : Store) (p : Program) : Store :=
  -- The registers are all dropped first, so that none of them keeps its value.
  let dropped := resize s.registers 0
  { s with
    registers := resize dropped p.registers.toNat
    iterators := []
    pending := []
    idempotent := true
    openScopes := 0 }

theorem resize_zero (registers : Array (Option Value)) : resize registers 0 = #[] := by
  simp [resize]

/-- What a store holds after a reset is decided by the program alone. -/
theorem reset_eq (s : Store) (p : Program) :
    s.reset p = { registers := Array.replicate p.registers.toNat none } := by
  rw [reset, resize_zero]
  simp [resize]

end Store

/-- A machine with its program, in the surroundings that it is executed in. -/
structure Machine extends Host where
  /-- The program. -/
  program : Program
  /-- The store, as the executions so far have left it. -/
  store : Store := {}

/-- The machine of a program on a host, before it has executed anything. -/
abbrev Host.machine (h : Host) (p : Program) : Machine := { toHost := h, program := p }

/-- The state of an execution. -/
structure State extends Store where
  /-- The offset of the next record. -/
  pc : Nat
  /-- The variables. -/
  env : Environment

namespace State

/-- The state before the first record of a program, on a machine that has not
    executed anything. -/
def start (p : Program) (env : Environment) : State where
  pc := 0
  registers := Array.replicate p.registers.toNat none
  env := env

/-- The value of a register, if it has been written. -/
def read? (s : State) (r : UInt32) : Option Value := (s.registers[r.toNat]?).join

end State

/-- A computation on the state of an execution, which may fail. -/
abbrev Exec := EStateM EvalError State

namespace Exec

variable {α : Type}

/-- Fails. -/
def fail (span : Span) (cause : EvalError.Cause) : Exec α := throw ⟨span, cause⟩

/-- Fails by a defect of the program. -/
def defect (span : Span) (d : Defect) : Exec α := fail span (.defect d)

/-- Goes on with a result, or fails with its error. -/
def ofResult : Except EvalError α → Exec α
  | .ok a => pure a
  | .error e => throw e

/-- Goes on with a value, or fails by a defect if there is none. -/
def ofOption (span : Span) (d : Defect) : Option α → Exec α
  | some a => pure a
  | none => defect span d

/-- Reads a register. -/
def read (span : Span) (r : UInt32) : Exec Value := do
  ofOption span (.unwrittenRegister r) ((← get).read? r)

/-- Reads consecutive registers, from the number `first` on. -/
def readRun (span : Span) (first : Nat) : Nat → Exec (List Value)
  | 0 => pure []
  | n + 1 => do
    if UInt32.size ≤ first then defect span .registerRun
    let v ← read span (UInt32.ofNat first)
    let vs ← readRun span (first + 1) n
    pure (v :: vs)

/-- Writes a register. A list under construction in it is dropped. -/
def write (span : Span) (r : UInt32) (v : Value) : Exec Unit := do
  modify fun s => { s with pending := s.pending.erase r }
  if r.toNat < (← get).registers.size then
    modify fun s => { s with registers := s.registers.setIfInBounds r.toNat (some v) }
  else defect span (.registerRange r)

/-- Takes the value of a register: the list under construction in it, which is
    then finished, or else the value written last. -/
def take (span : Span) (r : UInt32) : Exec Value := do
  match (← get).pending.get? r with
  | some items => do
    modify fun s => { s with pending := s.pending.erase r }
    pure (.list items.reverse)
  | none => read span r

/-- Appends to the list under construction in a register. The first time, it
    is the list that the register holds. -/
def append (span : Span) (r : UInt32) (v : Value) : Exec Unit := do
  match (← get).pending.get? r with
  | some items => modify fun s => { s with pending := s.pending.insert r (v :: items) }
  | none =>
    match ← read span r with
    | .list items => modify fun s => { s with pending := s.pending.insert r (v :: items.reverse) }
    | other => defect span (.appendKind r other.kind)

/-- Goes on at an offset. -/
def jump (target : UInt32) : Exec Unit := modify fun s => { s with pc := target.toNat }

end Exec

end ExprMachine
