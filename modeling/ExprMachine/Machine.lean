import ExprMachine.Machine.State
import ExprMachine.Value.Access

/-!
# The machine

A step fetches the record at the program counter, moves the counter past it and
performs it. An execution resets the store, whatever the executions before it
have left there, and takes steps until one returns a value or fails. It then
leaves the scopes that the program has entered and not left, however it has
ended. The rest of the store stays as it is, until the next execution.

A program of any origin may run forever. `Machine.run` takes a bound on the
number of steps and gives nothing if the execution has not ended within it.
-/

namespace ExprMachine

namespace Machine

open Exec

variable (m : Machine)

/-- The string that a record refers to. -/
def stringOperand (span : Span) (index : UInt32) : Exec String :=
  ofOption span (.stringIndex index) (m.program.string? index)

/-- Calls a function. Only a call that succeeds is counted. -/
def callFunction (span : Span) (name : String) (args : List Value) : Exec Value := do
  let (v, idempotent) ← ofResult (m.registry.call name args span)
  modify fun s => { s with idempotent := s.idempotent && idempotent }
  pure v

/-- Fails unless a value is a boolean. -/
def checkCondition (span : Span) (v : Value) (role : UInt32) : Exec Unit :=
  match v with
  | .bool _ => pure ()
  | other =>
    match ConditionRole.ofTag? role with
    | some role => fail span (Value.conditionCause role other.kind)
    | none => defect span (.conditionRole role)

/-- Gives the next item of an iterator to a register, or goes on elsewhere. -/
def nextItem (span : Span) (dst iterator exit : UInt32) : Exec Unit := do
  match (← get).iterators.get? iterator with
  | none => defect span (.notIterator iterator)
  | some [] => jump exit
  | some (item :: rest) => do
    modify fun s => { s with iterators := s.iterators.insert iterator rest }
    write span dst item

/-- Builds a message of fields in consecutive registers. -/
def buildMessage (span : Span) (first fields typeName : UInt32) : Exec Value := do
  let names ← ofOption span .messageFieldsIndex m.program.messageFields[fields.toNat]?
  let name ← m.stringOperand span typeName
  if UInt32.size ≤ names.length then defect span .messageFieldsCount
  let values ← readRun span first.toNat names.length
  ofResult (m.construct name (names.zip values) span)

/-- Performs a record. The result is the value returned, if the record ends the
    execution. -/
def perform (i : Instruction) (span : Span) : Exec (Option Value) := do
  match i.opcode with
  | .loadConst => do
    let v ← ofOption span .constantIndex m.program.constants[i.op1.toNat]?
    write span i.dst v
  | .loadVar => do
    let name ← m.stringOperand span i.op1
    match (← get).env.get? name with
    | some v => write span i.dst v
    | none => fail span (.noSuchVariable name)
  | .loadTrue => write span i.dst (.bool true)
  | .loadFalse => write span i.dst (.bool false)
  | .loadNull => write span i.dst .null
  | .negate => do
    let v ← read span i.op1
    write span i.dst (← ofResult (m.registry.applyUnary .negate v span))
  | .not => do
    match ← read span i.op1 with
    | .bool b => write span i.dst (.bool !b)
    | v => write span i.dst (← ofResult (m.registry.applyUnary .not v span))
  | .binaryOp => do
    let left ← read span i.op1
    let right ← read span i.op3
    write span i.dst (← ofResult (m.registry.applyBinary i.op2.toNat left right span))
  | .jumpIfFalse => do
    if (← read span i.dst).asBool? = some false then jump i.op1
  | .jumpIfTrue => do
    if (← read span i.dst).asBool? = some true then jump i.op1
  | .jump => jump i.op1
  | .condCheck => do
    checkCondition span (← read span i.op1) i.op2
  | .memberAccess => do
    let field ← m.stringOperand span i.op2
    let v ← read span i.op1
    write span i.dst (← ofResult (v.select field span))
  | .index => do
    let v ← read span i.op1
    let index ← read span i.op2
    write span i.dst (← ofResult (v.item index span))
  | .hasField => do
    let field ← m.stringOperand span i.op2
    let v ← read span i.op1
    write span i.dst (.bool (← ofResult (v.hasField field span)))
  | .call => do
    let name ← m.stringOperand span i.op1
    let args ← readRun span i.op2.toNat i.op3.toNat
    write span i.dst (← m.callFunction span name args)
  | .makeList => do
    let items ← readRun span i.op1.toNat i.op2.toNat
    write span i.dst (.list items)
  | .makeMap => do
    if UInt32.size ≤ 2 * i.op2.toNat then defect span .mapEntryCount
    let run ← readRun span i.op1.toNat (2 * i.op2.toNat)
    write span i.dst (.map (← ofResult (Value.addEntries [] span run)))
  | .makeMessage => do
    write span i.dst (← m.buildMessage span i.op1 i.op2 i.op3)
  | .iterInit => do
    let items ← ofResult ((← read span i.op1).items span)
    modify fun s => { s with iterators := s.iterators.insert i.dst items }
  | .iterNext => nextItem span i.dst i.op1 i.op2
  | .scopePush => modify fun s => { s with env := s.env.push, openScopes := s.openScopes + 1 }
  | .scopePop => do
    if (← get).openScopes = 0 then defect span .scopeUnderflow
    modify fun s => { s with env := s.env.pop, openScopes := s.openScopes - 1 }
  | .bindVar => do
    let name ← m.stringOperand span i.op1
    let v ← read span i.op2
    modify fun s => { s with env := s.env.bind name v }
  | .listAppend => do
    let v ← read span i.op1
    append span i.dst v
  | .intIncrement => do
    match ← read span i.dst with
    | .int n =>
      if n.toInt < Int64.maxValue.toInt then write span i.dst (.int (Int64.ofInt (n.toInt + 1)))
      else fail span (.overflow "int increment")
    | other => defect span (.incrementKind other.kind)
  | .move => do
    let v ← take span i.op1
    write span i.dst v
  | .return => do
    return some (← take span i.op1)
  return none

/-- Performs the record at the program counter. -/
def step : Exec (Option Value) := do
  let pc := (← get).pc
  if m.program.code.size ≤ pc then defect Span.none (.noReturn pc)
  match m.program.fetch pc with
  | .error reason => defect Span.none (.undecodable pc reason)
  | .ok i => do
    modify fun s => { s with pc := pc + stride }
    m.perform i (m.program.span i.span)

/-- The state before the first record, when the store has been reset. -/
def start (env : Environment) : State :=
  { m.store.reset m.program with pc := 0, env := env }

/-- Every machine starts as one does that has not executed anything. -/
theorem start_eq (env : Environment) : m.start env = State.start m.program env := by
  rw [start, Store.reset_eq]
  rfl

/-- Takes steps from a state until the execution ends, with a value or an error
    and the last state; at most `fuel` of them. -/
def run : Nat → State → Option (EStateM.Result EvalError State Value)
  | 0, _ => none
  | fuel + 1, s =>
    match m.step s with
    | .ok none s' => run fuel s'
    | .ok (some v) s' => some (.ok v s')
    | .error e s' => some (.error e s')

end Machine

/-- What is left after an execution. -/
structure Execution where
  /-- The value, or the error. -/
  result : Except EvalError Value
  /-- Whether only idempotent functions have been called. -/
  idempotent : Bool
  /-- The variables afterwards. -/
  env : Environment

/-- What is left after an execution that has ended in a state, once the scopes
    that the program has entered are left. -/
def Execution.ofResult (r : EStateM.Result EvalError State Value) : Execution :=
  match r with
  | .ok v s => ⟨.ok v, s.idempotent, s.env.popMany s.openScopes⟩
  | .error e s => ⟨.error e, s.idempotent, s.env.popMany s.openScopes⟩

/-- Executes a program with the variables of an environment, if that ends within
    a number of steps. -/
def Machine.execute (m : Machine) (fuel : Nat) (env : Environment) : Option Execution :=
  (m.run fuel (m.start env)).map Execution.ofResult

/-- The store that an execution leaves which has ended in a state: no scope is
    open any more. -/
def Store.ofResult : EStateM.Result EvalError State Value → Store
  | .ok _ s => { s.toStore with openScopes := 0 }
  | .error _ s => { s.toStore with openScopes := 0 }

/-- The machine after an execution, if that ends within a number of steps. -/
def Machine.after (m : Machine) (fuel : Nat) (env : Environment) : Option Machine :=
  (m.run fuel (m.start env)).map fun r => { m with store := Store.ofResult r }

/-- Whether the last execution has called only idempotent functions. -/
def Machine.isIdempotent (m : Machine) : Bool := m.store.idempotent

end ExprMachine
