import ExprMachine.Code.Build
import ExprMachine.Comprehension

/-!
# The code of an expression

The code of an expression leaves its value in a fresh register. The code of the
parts comes first, from the left to the right, then the record that combines
them. Arguments, items and entries are moved into consecutive registers before
they are combined.

The right operand of `&&` and `||` is jumped over once the left one decides:

    MOVE           acc, left
    JUMP_IF_FALSE  acc, @done        (JUMP_IF_TRUE for ||)
    <right>
    BINARY_OP      acc, acc, op, right
    done:

A comprehension is a loop in a scope of its own. Its result is built up in
`acc`, and the loop ends when the items are exhausted or the result is decided:

            ITER_INIT   it, target
            <start>     acc
            SCOPE_PUSH
    head:   ITER_NEXT   item, it, @end
            BIND_VAR    x, item
            <body>      back to head, or to end once decided
    end:    SCOPE_POP
            MOVE        result, acc

Every conditional jump on a value that the expression supplies follows a check
that the value is a boolean.
-/

namespace ExprMachine

/-- A body of a comprehension: its code and its span. -/
structure Body where
  /-- Builds the code of the body. -/
  build : Build Nat
  /-- The span of the body. -/
  span : Span

namespace Lowering

open Build

/-! ## Combining parts -/

/-- Loads a literal. -/
def literal (l : Literal) (s : Span) : Build Nat := do
  let dst ← fresh
  match l with
  | .null => emit .loadNull dst 0 0 0 s
  | .bool true => emit .loadTrue dst 0 0 0 s
  | .bool false => emit .loadFalse dst 0 0 0 s
  | l => do
    let i ← constant l.value
    emit .loadConst dst i 0 0 s
  pure dst

/-- Moves registers into the consecutive ones from `base` on. -/
def moveAll (base : Nat) (s : Span) : List Nat → Build Unit
  | [] => pure ()
  | src :: rest => do
    emit .move base src 0 0 s
    moveAll (base + 1) s rest

/-- Moves registers into fresh consecutive ones and yields the first. -/
def consecutive (regs : List Nat) (s : Span) : Build Nat := do
  let base ← block regs.length
  moveAll base s regs
  pure base

/-- Builds a list or a map of `count` items or entries. -/
def aggregate (opcode : Opcode) (regs : List Nat) (count : Nat) (s : Span) : Build Nat := do
  let base ← consecutive regs s
  let dst ← fresh
  emit opcode dst base count 0 s
  pure dst

/-- Builds a message of the given fields. -/
def message (typeName : String) (names : List String) (regs : List Nat) (s : Span) :
    Build Nat := do
  let base ← consecutive regs s
  let layout ← fields names
  let name ← string typeName
  let dst ← fresh
  emit .makeMessage dst base layout name s
  pure dst

/-- Calls a function. -/
def call (function : String) (regs : List Nat) (s : Span) : Build Nat := do
  let base ← consecutive regs s
  let name ← string function
  let dst ← fresh
  emit .call dst name base regs.length s
  pure dst

/-- Selects a field, or tests for its presence. -/
def select (opcode : Opcode) (operand : Build Nat) (field : String) (s : Span) : Build Nat := do
  let src ← operand
  let name ← string field
  let dst ← fresh
  emit opcode dst src name 0 s
  pure dst

/-- The record of a unary operator. -/
def unaryOpcode : UnaryOperator → Opcode
  | .negate => .negate
  | .not => .not

/-- The operators that need not evaluate their right operand. -/
def shortCircuit (op : BinaryOperator) (left right : Build Nat) (s : Span) : Build Nat := do
  let lhs ← left
  let acc ← fresh
  emit .move acc lhs 0 0 s
  let skip := if op = .logicalAnd then Opcode.jumpIfFalse else Opcode.jumpIfTrue
  jumpOver skip acc s do
    let rhs ← right
    emit .binaryOp acc acc op.index rhs s
  pure acc

/-- The operators that evaluate both operands. -/
def strict (op : BinaryOperator) (left right : Build Nat) (s : Span) : Build Nat := do
  let lhs ← left
  let rhs ← right
  let dst ← fresh
  emit .binaryOp dst lhs op.index rhs s
  pure dst

/-- A choice: the jump over the first branch ends at the second one, and the
    jump at the end of the first branch ends after it. -/
def choose (condition : Body) (whenTrue whenFalse : Build Nat) (s : Span) : Build Nat := do
  let test ← condition.build
  emit .condCheck 0 test ConditionRole.conditional.tag.toNat 0 condition.span
  let toSecond ← reserve s
  let result ← fresh
  let (_, first) ← aside do
    let v ← whenTrue
    emit .move result v 0 0 s
  let toEnd ← reserve s
  let secondAt ← here
  let (_, second) ← aside do
    let v ← whenFalse
    emit .move result v 0 0 s
  let endAt ← here
  place (⟨.jumpIfFalse, test, secondAt, 0, 0, toSecond⟩ ::
    first ++ ⟨.jump, 0, endAt, 0, 0, toEnd⟩ :: second)
  pure result

/-! ## Comprehensions -/

/-- A body with a check that its value is a boolean. -/
def guarded (body : Body) (role : ConditionRole) : Build Nat := do
  let v ← body.build
  emit .condCheck 0 v role.tag.toNat 0 body.span
  pure v

/-- Loads the result of a comprehension over no items. -/
def start {β : Type} (form : Comprehension β) (acc : Nat) (s : Span) : Build Unit :=
  match form with
  | .all _ => emit .loadTrue acc 0 0 0 s
  | .exists _ | .existsOne _ => emit .loadFalse acc 0 0 0 s
  | .filter _ | .transform _ | .filterTransform _ _ => emit .makeList acc acc 0 0 s

/-- The code for one item: it goes back to `head`, or ends the loop by going
    past its own end. -/
def loopBody (form : Comprehension Body) (acc item head : Nat) (s : Span) : Build Unit :=
  match form with
  | .all p => do
    let v ← guarded p .predicate
    emit .jumpIfTrue v head 0 0 s
    emit .loadFalse acc 0 0 0 s
    jumpOver .jump 0 s (pure ())
  | .exists p => do
    let v ← guarded p .predicate
    emit .jumpIfFalse v head 0 0 s
    emit .loadTrue acc 0 0 0 s
    jumpOver .jump 0 s (pure ())
  | .existsOne p => do
    let v ← guarded p .predicate
    emit .jumpIfFalse v head 0 0 s
    emit .condCheck 0 acc ConditionRole.predicate.tag.toNat 0 s
    jumpOver .jumpIfTrue acc s do
      emit .loadTrue acc 0 0 0 s
      emit .jump 0 head 0 0 s
    emit .loadFalse acc 0 0 0 s
  | .filter p => do
    let v ← guarded p .filter
    emit .jumpIfFalse v head 0 0 s
    emit .listAppend acc item 0 0 s
    emit .jump 0 head 0 0 s
  | .transform b => do
    let v ← b.build
    emit .listAppend acc v 0 0 s
    emit .jump 0 head 0 0 s
  | .filterTransform p b => do
    let test ← guarded p .filter
    emit .jumpIfFalse test head 0 0 s
    let v ← b.build
    emit .listAppend acc v 0 0 s
    emit .jump 0 head 0 0 s

/-- A comprehension over the items of `target`, bound to `x` one by one. -/
def comprehension (target : Build Nat) (x : String) (form : Comprehension Body) (s : Span) :
    Build Nat := do
  let source ← target
  let iterator ← fresh
  emit .iterInit iterator source 0 0 s
  let acc ← fresh
  start form acc s
  emit .scopePush 0 0 0 0 s
  let head ← here
  let item ← fresh
  skipping (fun exit i => ⟨.iterNext, item, iterator, exit, 0, i⟩) s do
    let name ← string x
    emit .bindVar 0 name item 0 s
    loopBody form acc item head s
  emit .scopePop 0 0 0 0 s
  let result ← fresh
  emit .move result acc 0 0 s
  pure result

end Lowering

open Lowering Build in
mutual

/-- Builds the code of an expression and yields the register of its value. With
    `macros` off, comprehensions and presence tests are calls of functions like
    any other. -/
def Expr.lower (macros : Bool) : Expr → Build Nat
  | .literal l s => literal l s
  | .ident name s => do
    let i ← string name
    let dst ← fresh
    emit .loadVar dst i 0 0 s
    pure dst
  | .list items s => do
    let regs ← lowerAll macros items
    aggregate .makeList regs regs.length s
  | .map entries s => do
    let regs ← lowerEntries macros entries
    aggregate .makeMap regs entries.length s
  | .message typeName fields s => do
    let regs ← lowerFields macros fields
    message typeName (fields.map Prod.fst) regs s
  | .unary op operand s => do
    let src ← operand.lower macros
    let dst ← fresh
    emit (unaryOpcode op) dst src 0 0 s
    pure dst
  | .binary op left right s =>
    if op.isShortCircuit then shortCircuit op (left.lower macros) (right.lower macros) s
    else strict op (left.lower macros) (right.lower macros) s
  | .conditional condition whenTrue whenFalse s =>
    choose ⟨condition.lower macros, condition.span⟩ (whenTrue.lower macros)
      (whenFalse.lower macros) s
  | .member operand field s => select .memberAccess (operand.lower macros) field s
  | .index operand position s => do
    let src ← operand.lower macros
    let key ← position.lower macros
    let dst ← fresh
    emit .index dst src key 0 s
    pure dst
  | .call function args s =>
    match if macros then presenceTest? function (lowerSelections macros args) else none with
    | some (operand, field) => select .hasField operand field s
    | none => do
      let regs ← lowerAll macros args
      call function regs s
  | .method target function args s =>
    match if macros then Comprehension.ofCall? function args.head? (lowerBodies macros args).tail
      else none with
    | some (x, form) => comprehension (target.lower macros) x form s
    | none => do
      let first ← target.lower macros
      let rest ← lowerAll macros args
      call function (first :: rest) s
  | .paren inner _ => inner.lower macros

/-- Builds the code of expressions one after another. -/
def lowerAll (macros : Bool) : List Expr → Build (List Nat)
  | [] => pure []
  | e :: rest => do
    let r ← e.lower macros
    let rs ← lowerAll macros rest
    pure (r :: rs)

/-- Builds the code of keys and values in turn. -/
def lowerEntries (macros : Bool) : List (Expr × Expr) → Build (List Nat)
  | [] => pure []
  | (key, value) :: rest => do
    let k ← key.lower macros
    let v ← value.lower macros
    let rs ← lowerEntries macros rest
    pure (k :: v :: rs)

/-- Builds the code of the values of fields one after another. -/
def lowerFields (macros : Bool) : List (String × Expr) → Build (List Nat)
  | [] => pure []
  | (_, value) :: rest => do
    let r ← value.lower macros
    let rs ← lowerFields macros rest
    pure (r :: rs)

/-- The code of expressions, each by itself, as bodies of a comprehension. -/
def lowerBodies (macros : Bool) : List Expr → List Body
  | [] => []
  | e :: rest => ⟨e.lower macros, e.span⟩ :: lowerBodies macros rest

/-- The selections of fields that expressions are, with the code of their
    operands. -/
def lowerSelections (macros : Bool) : List Expr → List (Option (Build Nat × String))
  | [] => []
  | e :: rest => e.lowerSelection macros :: lowerSelections macros rest

/-- The selection of a field that an expression is, under parentheses, with the
    code of its operand. -/
def Expr.lowerSelection (macros : Bool) : Expr → Option (Build Nat × String)
  | .paren inner _ => inner.lowerSelection macros
  | .member operand field _ => some (operand.lower macros, field)
  | _ => none

end

/-- How expressions are compiled. -/
structure CompileOptions where
  /-- Whether comprehensions and presence tests have their own code. -/
  macros : Bool := true
  deriving DecidableEq, Repr

/-- Builds the code of an expression with the record that ends it. -/
def Expr.lowerWhole (macros : Bool) (e : Expr) : Build Unit := do
  let result ← e.lower macros
  Build.emit .return 0 result 0 0 e.span

/-- All that the program of an expression is made of. -/
def Expr.assembly (macros : Bool) (e : Expr) : Assembly :=
  let piece := e.lowerWhole macros {}
  { lines := piece.lines
    constants := piece.draft.constants
    strings := piece.draft.strings
    spans := piece.draft.spans
    registers := piece.draft.registers
    messageFields := piece.draft.messageFields }

/-- The program of an expression. -/
def compile (options : CompileOptions) (e : Expr) : Except CompileError Program :=
  (e.assembly options.macros).assemble e.span

end ExprMachine
