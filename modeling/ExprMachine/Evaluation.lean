import ExprMachine.Comprehension
import ExprMachine.Environment
import ExprMachine.Host
import ExprMachine.Opcode
import ExprMachine.Value.Access

/-!
# The value of an expression

The meaning of an expression, by recursion on its tree and without any program:
what it evaluates to with the variables of an environment (`Expr.eval`).

* Parts are evaluated from the left to the right, and the first error is the
  result.
* `&&` gives its left operand if that is false, and `||` if it is true; otherwise
  the right operand is evaluated too and the operator is applied to both.
* A choice evaluates one of its branches.
* A comprehension evaluates its bodies for the items of its target one by one,
  each time with its variable bound in a scope inside the environment, and no
  further than it takes to decide the result.

Beside the result, an evaluation tells whether all functions that have returned
are idempotent. The environment is only read.
-/

namespace ExprMachine

/-- An evaluation, which may fail. Its state is whether all functions that have
    returned so far are idempotent. -/
abbrev Evaluation := EStateM EvalError Bool

/-- A body of a comprehension: what it evaluates to in an environment, and its
    span. -/
structure Clause where
  /-- Evaluates the body. -/
  eval : Environment → Evaluation Value
  /-- The span of the body. -/
  span : Span

namespace Evaluation

variable {α : Type}

/-- Fails. -/
def fail (span : Span) (cause : EvalError.Cause) : Evaluation α := throw ⟨span, cause⟩

/-- Goes on with a result, or fails with its error. -/
def ofResult : Except EvalError α → Evaluation α
  | .ok a => pure a
  | .error e => throw e

/-- Calls a function. -/
def call (h : Host) (function : String) (args : List Value) (span : Span) : Evaluation Value := do
  let (v, idempotent) ← ofResult (h.registry.call function args span)
  modify fun all => all && idempotent
  pure v

/-- The boolean that a value has to be in some role. -/
def condition (role : ConditionRole) (span : Span) : Value → Evaluation Bool
  | .bool b => pure b
  | v => fail span (Value.conditionCause role v.kind)

/-- The result of a unary operator. -/
def unary (h : Host) (op : UnaryOperator) (v : Value) (span : Span) : Evaluation Value :=
  match op, v with
  | .not, .bool b => pure (.bool !b)
  | op, v => ofResult (h.registry.applyUnary op v span)

/-- The value of the left operand with which `&&` or `||` is decided. -/
def deciding (op : BinaryOperator) : Option Bool :=
  match op with
  | .logicalAnd => some false
  | .logicalOr => some true
  | _ => none

/-- The result of a binary operator. The right operand is evaluated unless the
    left one decides. -/
def binary (h : Host) (op : BinaryOperator) (left right : Evaluation Value) (span : Span) :
    Evaluation Value := do
  let l ← left
  if l.asBool?.any fun b => deciding op = some b then pure l
  else do
    let r ← right
    ofResult (h.registry.applyBinary op.index l r span)

/-! ## Comprehensions -/

/-- Whether all items pass a test. The first one that does not decides. -/
def allOf (test : Value → Evaluation Bool) : List Value → Evaluation Bool
  | [] => pure true
  | v :: rest => do
    if ← test v then allOf test rest else pure false

/-- Whether some item passes a test. The first one that does decides. -/
def someOf (test : Value → Evaluation Bool) : List Value → Evaluation Bool
  | [] => pure false
  | v :: rest => do
    if ← test v then pure true else someOf test rest

/-- Whether exactly one item passes a test, counting one already `found`. The
    second one that does decides. -/
def oneOf (test : Value → Evaluation Bool) (found : Bool) : List Value → Evaluation Bool
  | [] => pure found
  | v :: rest => do
    if ← test v then
      if found then pure false else oneOf test true rest
    else oneOf test found rest

/-- The results for the items that have one. -/
def collect (f : Value → Evaluation (Option Value)) : List Value → Evaluation (List Value)
  | [] => pure []
  | v :: rest => do
    let r ← f v
    let rs ← collect f rest
    pure (r.toList ++ rs)

/-- The result of a form of comprehension over some items, bound to `x` one by
    one. -/
def comprehend (env : Environment) (x : String) (form : Comprehension Clause)
    (items : List Value) : Evaluation Value :=
  let value (c : Clause) (item : Value) : Evaluation Value := c.eval (env.push.bind x item)
  let test (role : ConditionRole) (c : Clause) (item : Value) : Evaluation Bool := do
    condition role c.span (← value c item)
  match form with
  | .all p => do return .bool (← allOf (test .predicate p) items)
  | .exists p => do return .bool (← someOf (test .predicate p) items)
  | .existsOne p => do return .bool (← oneOf (test .predicate p) false items)
  | .filter p => do
    let kept ← collect (fun item => do return if ← test .filter p item then some item else none)
      items
    return .list kept
  | .transform b => do return .list (← collect (fun item => do return some (← value b item)) items)
  | .filterTransform p b => do
    let results ← collect (fun item => do
      if ← test .filter p item then return some (← value b item) else return none) items
    return .list results

end Evaluation

/-! ## Expressions -/

open Evaluation in
mutual

/-- Evaluates an expression with the variables of an environment. With `macros`
    off, comprehensions and presence tests are calls of functions like any
    other. -/
def Expr.eval (h : Host) (macros : Bool) : Expr → Environment → Evaluation Value
  | .literal l _, _ => pure l.value
  | .ident name s, env =>
    match env.get? name with
    | some v => pure v
    | none => fail s (.noSuchVariable name)
  | .list items _, env => do return .list (← evalAll h macros items env)
  | .map entries s, env => do
    let parts ← evalEntries h macros entries env
    return .map (← ofResult (Value.addEntries [] s parts))
  | .message typeName fields s, env => do
    let values ← evalFields h macros fields env
    ofResult (h.construct typeName ((fields.map Prod.fst).zip values) s)
  | .unary op operand s, env => do unary h op (← operand.eval h macros env) s
  | .binary op left right s, env =>
    binary h op (left.eval h macros env) (right.eval h macros env) s
  | .conditional c whenTrue whenFalse _, env => do
    if ← condition .conditional c.span (← c.eval h macros env) then whenTrue.eval h macros env
    else whenFalse.eval h macros env
  | .member operand field s, env => do
    ofResult ((← operand.eval h macros env).select field s)
  | .index operand position s, env => do
    let v ← operand.eval h macros env
    let i ← position.eval h macros env
    ofResult (v.item i s)
  | .call function args s, env =>
    match if macros then presenceTest? function (selections h macros args) else none with
    | some (operand, field) => do return .bool (← ofResult ((← operand env).hasField field s))
    | none => do call h function (← evalAll h macros args env) s
  | .method target function args s, env =>
    match if macros then Comprehension.ofCall? function args.head? (clauses h macros args).tail
      else none with
    | some (x, form) => do
      let items ← ofResult ((← target.eval h macros env).items s)
      comprehend env x form items
    | none => do
      let first ← target.eval h macros env
      let rest ← evalAll h macros args env
      call h function (first :: rest) s
  | .paren inner _, env => inner.eval h macros env

/-- Evaluates expressions one after another. -/
def evalAll (h : Host) (macros : Bool) : List Expr → Environment → Evaluation (List Value)
  | [], _ => pure []
  | e :: rest, env => do
    let v ← e.eval h macros env
    let vs ← evalAll h macros rest env
    pure (v :: vs)

/-- Evaluates keys and values in turn. -/
def evalEntries (h : Host) (macros : Bool) :
    List (Expr × Expr) → Environment → Evaluation (List Value)
  | [], _ => pure []
  | (key, value) :: rest, env => do
    let k ← key.eval h macros env
    let v ← value.eval h macros env
    let vs ← evalEntries h macros rest env
    pure (k :: v :: vs)

/-- Evaluates the values of fields one after another. -/
def evalFields (h : Host) (macros : Bool) :
    List (String × Expr) → Environment → Evaluation (List Value)
  | [], _ => pure []
  | (_, value) :: rest, env => do
    let v ← value.eval h macros env
    let vs ← evalFields h macros rest env
    pure (v :: vs)

/-- Expressions as bodies of a comprehension. -/
def clauses (h : Host) (macros : Bool) : List Expr → List Clause
  | [] => []
  | e :: rest => ⟨e.eval h macros, e.span⟩ :: clauses h macros rest

/-- The selections of fields that expressions are, with what their operands
    evaluate to. -/
def selections (h : Host) (macros : Bool) :
    List Expr → List (Option ((Environment → Evaluation Value) × String))
  | [] => []
  | e :: rest => e.selection h macros :: selections h macros rest

/-- The selection of a field that an expression is, under parentheses, with what
    its operand evaluates to. -/
def Expr.selection (h : Host) (macros : Bool) :
    Expr → Option ((Environment → Evaluation Value) × String)
  | .paren inner _ => inner.selection h macros
  | .member operand field _ => some (operand.eval h macros, field)
  | _ => none

end

end ExprMachine
