import ExprMachine.Standard.Operand
import ExprMachine.Value.Order

/-!
# Standard operators

* `+`, `-`, `*`, `/` and `%` act on two integers of one kind and give the exact
  result or fail; division truncates toward zero, and the remainder has the
  sign of the dividend. All but `%` act on two doubles. `+` also joins strings,
  byte sequences and lists.
* The orders act on two values of one ordered kind and on two numbers of any
  kinds. Beside a NaN they are false.
* `==` and `!=` act on all values.
* `in` asks for an equal item of a list, or for a key of a map.
* `&&` and `||` act on booleans, `!` on a boolean, `-` on an int or a double.
-/

namespace ExprMachine.Standard

/-! ## Arithmetic -/

/-- A handler for two integers of a kind. -/
def onIntegers (read : Span → Value → Except EvalError Int)
    (compute : Span → Int → Int → Except EvalError Value) : BinaryHandler :=
  fun l r span => do
    let a ← read span l
    let b ← read span r
    compute span a b

/-- A handler for two doubles. -/
def onDoubles (compute : Double → Double → Double) : BinaryHandler :=
  fun l r span => do
    let a ← doubleOf span l
    let b ← doubleOf span r
    pure (.double (compute a b))

/-- The quotient truncated toward zero, if the divisor is not zero. -/
def quotient (result : Span → String → Int → Except EvalError Value) (operation : String)
    (span : Span) (a b : Int) : Except EvalError Value :=
  if b = 0 then .error ⟨span, .divisionByZero⟩ else result span operation (a.tdiv b)

/-- The remainder of the truncated quotient, if there is one that fits. -/
def remainder (result : Span → String → Int → Except EvalError Value) (operation : String)
    (span : Span) (a b : Int) : Except EvalError Value :=
  if b = 0 then .error ⟨span, .modulusByZero⟩
  else do
    let _ ← result span operation (a.tdiv b)
    result span operation (a.tmod b)

/-- The operator `+`. -/
def add : BinaryDescriptor where
  operator := .add
  overloads := [
    ((.int, .int), onIntegers intOf fun span a b => intResult span "int addition" (a + b)),
    ((.uint, .uint), onIntegers uintOf fun span a b => uintResult span "uint addition" (a + b)),
    ((.double, .double), onDoubles (· + ·)),
    ((.string, .string), fun l r span => do
      let a ← stringOf span l
      let b ← stringOf span r
      pure (.string (a ++ b))),
    ((.bytes, .bytes), fun l r span => do
      let a ← bytesOf span l
      let b ← bytesOf span r
      pure (.bytes (a ++ b))),
    ((.list, .list), fun l r span => do
      let a ← listOf span l
      let b ← listOf span r
      pure (.list (a ++ b)))]

/-- The operator `-` with two operands. -/
def subtract : BinaryDescriptor where
  operator := .subtract
  overloads := [
    ((.int, .int), onIntegers intOf fun span a b => intResult span "int subtraction" (a - b)),
    ((.uint, .uint), onIntegers uintOf fun span a b => uintResult span "uint subtraction" (a - b)),
    ((.double, .double), onDoubles (· - ·))]

/-- The operator `*`. -/
def multiply : BinaryDescriptor where
  operator := .multiply
  overloads := [
    ((.int, .int), onIntegers intOf fun span a b => intResult span "int multiplication" (a * b)),
    ((.uint, .uint),
      onIntegers uintOf fun span a b => uintResult span "uint multiplication" (a * b)),
    ((.double, .double), onDoubles (· * ·))]

/-- The operator `/`. A double divided by zero is an infinity or a NaN. -/
def divide : BinaryDescriptor where
  operator := .divide
  overloads := [
    ((.int, .int), onIntegers intOf (quotient intResult "int division")),
    ((.uint, .uint), onIntegers uintOf (quotient uintResult "uint division")),
    ((.double, .double), onDoubles (· / ·))]

/-- The operator `%`. -/
def modulo : BinaryDescriptor where
  operator := .modulo
  overloads := [
    ((.int, .int), onIntegers intOf (remainder intResult "int modulus")),
    ((.uint, .uint), onIntegers uintOf (remainder uintResult "uint modulus"))]

/-! ## Order and equality -/

/-- The pairs of kinds that are ordered. -/
def orderedPairs : List (Kind × Kind) :=
  [(.bool, .bool), (.int, .int), (.uint, .uint), (.double, .double), (.string, .string),
    (.bytes, .bytes), (.int, .uint), (.uint, .int), (.int, .double), (.double, .int),
    (.uint, .double), (.double, .uint)]

/-- An operator that accepts some of the outcomes of a comparison. -/
def ordering (op : BinaryOperator) (accept : Ordering → Bool) : BinaryDescriptor where
  operator := op
  overloads := orderedPairs.map fun kinds =>
    (kinds, fun l r _ => .ok (.bool (((l.compare r).map accept).getD false)))

/-- All pairs of kinds. -/
def allPairs : List (Kind × Kind) :=
  Kind.all.flatMap fun l => Kind.all.map fun r => (l, r)

/-- An operator that asks whether two values are equal, or whether they are
    not. -/
def equality (op : BinaryOperator) (whenEqual : Bool) : BinaryDescriptor where
  operator := op
  overloads := allPairs.map fun kinds =>
    (kinds, fun l r _ => .ok (.bool (l.equals r == whenEqual)))

/-- Whether a map has a key, or the same integer of the other kind. -/
def hasKey (entries : Entries MapKey Value) (key : Value) : Bool :=
  match MapKey.ofValue? key with
  | some k => (MapKey.lookup? entries k).isSome
  | none => false

/-- Whether an item of a list equals a value. -/
def inList : BinaryHandler := fun item list span => do
  let items ← listOf span list
  pure (.bool (items.any fun v => v.equals item))

/-- Whether a value is a key of a map. -/
def inMap : BinaryHandler := fun key map span => do
  let entries ← mapOf span map
  pure (.bool (hasKey entries key))

/-- The operator `in`. -/
def membership : BinaryDescriptor where
  operator := .within
  overloads :=
    (Kind.all.map fun k => ((k, Kind.list), inList)) ++
      [((.int, .map), inMap), ((.uint, .map), inMap), ((.string, .map), inMap)]

/-! ## Logic -/

/-- An operator on two booleans. -/
def logical (op : BinaryOperator) (compute : Bool → Bool → Bool) : BinaryDescriptor where
  operator := op
  overloads := [((.bool, .bool), fun l r span => do
    let a ← boolOf span l
    let b ← boolOf span r
    pure (.bool (compute a b)))]

/-- The operator `-` with one operand. -/
def negate : UnaryDescriptor where
  operator := .negate
  overloads := [
    (.int, fun v span => do
      let i ← intOf span v
      intResult span "int negation" (-i)),
    (.double, fun v span => do
      let d ← doubleOf span v
      pure (.double (-d)))]

/-- The operator `!`. -/
def not : UnaryDescriptor where
  operator := .not
  overloads := [(.bool, fun v span => do
    let b ← boolOf span v
    pure (.bool !b))]

/-- The standard operators. -/
def operators : List Descriptor :=
  [.binary add, .binary subtract, .binary multiply, .binary divide, .binary modulo,
    .binary (ordering .less (· == .lt)), .binary (ordering .lessEquals (· != .gt)),
    .binary (ordering .greater (· == .gt)), .binary (ordering .greaterEquals (· != .lt)),
    .binary (equality .equals true), .binary (equality .notEquals false), .binary membership,
    .binary (logical .logicalAnd (· && ·)), .binary (logical .logicalOr (· || ·)),
    .unary negate, .unary not]

end ExprMachine.Standard
