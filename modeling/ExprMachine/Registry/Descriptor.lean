import ExprMachine.EvalError
import ExprMachine.Operator
import ExprMachine.Value

/-!
# Descriptors

What a library or an extension of the language offers: a function by its name,
or an operator, each with its *overloads*. An overload is a *handler* for values
of certain kinds, in their order.

A function is declared *idempotent* if a call with the same arguments always
gives the same result; a program that has called another one must not have its
result kept. This is a declaration for hosts and no more: it is carried along to
the flag of an execution, and nothing follows from it here. For a handler is a
function of the arguments and the span, and always gives the same result for the
same of them. Clocks and sources of random numbers, which are declared not
idempotent, read something beside these, which is outside this model.
-/

namespace ExprMachine

/-- What an overload of a function does with the arguments, the target of a
    call first, and with the span of the call. It depends on nothing else. -/
abbrev FunctionHandler := List Value → Span → Except EvalError Value

/-- What an overload of a binary operator does with its operands. -/
abbrev BinaryHandler := Value → Value → Span → Except EvalError Value

/-- What an overload of a unary operator does with its operand. -/
abbrev UnaryHandler := Value → Span → Except EvalError Value

/-- A function with its overloads. -/
structure FunctionDescriptor where
  /-- The name as it is written in expressions. -/
  name : String
  /-- Whether it is declared that a call with the same arguments always gives the
      same result. -/
  idempotent : Bool := true
  /-- The handlers, each with the kinds of the arguments that it takes. -/
  overloads : List (List Kind × FunctionHandler)

/-- A binary operator with some of its overloads. -/
structure BinaryDescriptor where
  /-- The operator. -/
  operator : BinaryOperator
  /-- The handlers, each with the kinds of the operands that it takes. -/
  overloads : List ((Kind × Kind) × BinaryHandler)

/-- A unary operator with some of its overloads. -/
structure UnaryDescriptor where
  /-- The operator. -/
  operator : UnaryOperator
  /-- The handlers, each with the kind of the operand that it takes. -/
  overloads : List (Kind × UnaryHandler)

/-- A descriptor of any sort. -/
inductive Descriptor where
  /-- A function. -/
  | function (d : FunctionDescriptor)
  /-- A binary operator. -/
  | binary (d : BinaryDescriptor)
  /-- A unary operator. -/
  | unary (d : UnaryDescriptor)

/-- An overload of a function, as it is registered. -/
structure FunctionOverload where
  /-- The name of the function. -/
  name : String
  /-- The kinds of the arguments. -/
  signature : List Kind
  /-- Whether the function is declared idempotent. -/
  idempotent : Bool
  /-- What a call does. -/
  handler : FunctionHandler

/-- The overload as it is listed: the name, and the kinds in parentheses. -/
def FunctionOverload.describe (o : FunctionOverload) : String :=
  o.name ++ "(" ++ describeKinds o.signature ++ ")"

/-- Why a descriptor is not registered. -/
inductive RegistryError where
  /-- A function has no name. -/
  | emptyFunctionName
  /-- The function has an overload for these kinds already. -/
  | duplicateFunction (name : String) (signature : List Kind)
  /-- The operator has an overload for these kinds already. -/
  | duplicateBinary (op : BinaryOperator) (left right : Kind)
  /-- The operator has an overload for this kind already. -/
  | duplicateUnary (op : UnaryOperator) (operand : Kind)
  deriving DecidableEq, Repr

/-- The wording of a registration error. -/
def RegistryError.message : RegistryError → String
  | .emptyFunctionName => "function name must not be empty"
  | .duplicateFunction name signature =>
    "duplicate overload " ++ name ++ "(" ++ describeKinds signature ++ ")"
  | .duplicateBinary op left right =>
    "duplicate binary overload " ++ left.name ++ " " ++ op.symbol ++ " " ++ right.name
  | .duplicateUnary op operand => "duplicate unary overload " ++ op.symbol ++ operand.name

end ExprMachine
