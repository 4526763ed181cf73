import ExprMachine.Registry.Table

/-!
# The registry of operations

All that an expression can call: functions by name and signature, operators by
symbol and kinds. A registry is put together from descriptors by a
`RegistryBuilder` and does not change afterwards.

* Registering a descriptor adds all of its overloads or none of them: it fails
  on the first one whose key is taken already, by an earlier descriptor or by an
  earlier overload of the same one. So no registration replaces another.
* A call is resolved by the exact kinds of the values at hand. There are no
  conversions.
* Where no overload is found, the error names those that there are, in
  alphabetical order.
-/

namespace ExprMachine

/-! ## Building -/

/-- The overloads registered so far. -/
structure RegistryBuilder where
  /-- The overloads of the functions, by name and by the key of their signature. -/
  functions : Entries String (Entries String FunctionOverload) := []
  /-- The overloads of the binary operators, by operator and by kinds. -/
  binary : Entries BinaryOperator (Entries (Kind × Kind) BinaryHandler) := []
  /-- The overloads of the unary operators, by operator and by kind. -/
  unary : Entries UnaryOperator (Entries Kind UnaryHandler) := []

namespace RegistryBuilder

/-- Nothing is registered. -/
def empty : RegistryBuilder := {}

/-- The overloads of a descriptor with their keys. -/
def keyedOverloads (d : FunctionDescriptor) : List (String × FunctionOverload) :=
  d.overloads.map fun (signature, handler) =>
    (signatureKey signature, ⟨d.name, signature, d.idempotent, handler⟩)

/-- Registers a function. -/
def addFunction (b : RegistryBuilder) (d : FunctionDescriptor) :
    Except RegistryError RegistryBuilder :=
  if d.name = "" then .error .emptyFunctionName
  else match ((b.functions.get? d.name).getD []).extend (keyedOverloads d) with
    | .ok overloads => .ok { b with functions := b.functions.insert d.name overloads }
    | .error (_, o) => .error (.duplicateFunction d.name o.signature)

/-- Registers a binary operator. -/
def addBinary (b : RegistryBuilder) (d : BinaryDescriptor) :
    Except RegistryError RegistryBuilder :=
  match ((b.binary.get? d.operator).getD []).extend d.overloads with
  | .ok overloads => .ok { b with binary := b.binary.insert d.operator overloads }
  | .error ((left, right), _) => .error (.duplicateBinary d.operator left right)

/-- Registers a unary operator. -/
def addUnary (b : RegistryBuilder) (d : UnaryDescriptor) :
    Except RegistryError RegistryBuilder :=
  match ((b.unary.get? d.operator).getD []).extend d.overloads with
  | .ok overloads => .ok { b with unary := b.unary.insert d.operator overloads }
  | .error (operand, _) => .error (.duplicateUnary d.operator operand)

/-- Registers a descriptor. -/
def add (b : RegistryBuilder) : Descriptor → Except RegistryError RegistryBuilder
  | .function d => b.addFunction d
  | .binary d => b.addBinary d
  | .unary d => b.addUnary d

/-- Registers a descriptor if that is possible, and goes on without it if not. -/
def addOrSkip (b : RegistryBuilder) (d : Descriptor) : RegistryBuilder :=
  match b.add d with
  | .ok b' => b'
  | .error _ => b

/-- Registers descriptors one after another, up to the first failure. -/
def addAll (b : RegistryBuilder) (ds : List Descriptor) : Except RegistryError RegistryBuilder :=
  ds.foldlM add b

end RegistryBuilder

/-! ## Looking up and calling -/

/-- All operations, with the flat table of the binary operators. -/
structure Registry extends RegistryBuilder where
  /-- The handlers of the binary operators. -/
  table : BinaryTable
  /-- The table holds the registered overloads. -/
  table_eq : table = BinaryTable.ofOverloads binary

/-- The registry of what has been registered. -/
def RegistryBuilder.build (b : RegistryBuilder) : Registry where
  toRegistryBuilder := b
  table := BinaryTable.ofOverloads b.binary
  table_eq := rfl

/-- The texts in alphabetical order. -/
def sortedTexts (texts : List String) : List String :=
  texts.mergeSort fun a b => decide (a ≤ b)

namespace Registry

variable (r : Registry)

/-- Whether a function of this name has been registered. -/
def hasFunction (name : String) : Bool := r.functions.contains name

/-- The overloads of a function as they are listed, in alphabetical order. -/
def signatures (name : String) : List String :=
  sortedTexts (((r.functions.get? name).getD []).map fun o => o.2.describe)

/-- The overload of a function for exactly these kinds. -/
def resolve (name : String) (kinds : List Kind) (span : Span) :
    Except EvalError FunctionOverload :=
  match r.functions.get? name with
  | none => .error ⟨span, .noSuchFunction name⟩
  | some overloads =>
    match overloads.get? (signatureKey kinds) with
    | some o => .ok o
    | none => .error ⟨span, .noSuchOverload name (describeKinds kinds) (r.signatures name)⟩

/-- Calls a function. Beside the result stands whether the function is
    idempotent. -/
def call (name : String) (args : List Value) (span : Span) : Except EvalError (Value × Bool) := do
  let o ← r.resolve name (args.map Value.kind) span
  let v ← o.handler args span
  pure (v, o.idempotent)

/-- The overloads of a binary operator as they are listed, in alphabetical
    order. -/
def binarySignatures (op : BinaryOperator) : List String :=
  sortedTexts (((r.binary.get? op).getD []).map fun o =>
    o.1.1.name ++ " " ++ op.symbol ++ " " ++ o.1.2.name)

/-- The error of a binary operator, given by its index, without an overload for
    two kinds. -/
def binaryMiss (op : Nat) (left right : Kind) (span : Span) : EvalError :=
  match BinaryOperator.ofIndex? op with
  | none => ⟨span, .defect (.operatorIndex op)⟩
  | some o =>
    ⟨span, .noSuchOverload o.symbol (describeKinds [left, right]) (r.binarySignatures o)⟩

/-- Applies a binary operator, given by its index. -/
def applyBinary (op : Nat) (left right : Value) (span : Span) : Except EvalError Value :=
  match r.table.get? op left.kind right.kind with
  | some handler => handler left right span
  | none => .error (r.binaryMiss op left.kind right.kind span)

/-- The overloads of a unary operator as they are listed, in alphabetical
    order. -/
def unarySignatures (op : UnaryOperator) : List String :=
  sortedTexts (((r.unary.get? op).getD []).map fun o => op.symbol ++ o.1.name)

/-- Applies a unary operator. -/
def applyUnary (op : UnaryOperator) (operand : Value) (span : Span) : Except EvalError Value :=
  match ((r.unary.get? op).getD []).get? operand.kind with
  | some handler => handler operand span
  | none => .error ⟨span, .noSuchOverload op.symbol operand.kind.name (r.unarySignatures op)⟩

end Registry

end ExprMachine
