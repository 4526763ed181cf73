import ExprMachine.Double.Text
import ExprMachine.Instruction
import ExprMachine.Span
import ExprMachine.Text.Integer
import ExprMachine.Text.Quoted

/-!
# Errors of evaluation

An evaluation that fails gives the *cause* of the failure and the span of the
construct that it is attributed to. Most causes lie in the expression or in its
input: a name that is not known, kinds that no overload accepts, an overflow.
The causes `EvalError.Cause.defect` are of another sort: they are met only by
programs that no compiler has written, or by handlers called with values of
kinds that they are not registered for.

The wording of every cause is fixed by `EvalError.message`.
-/

namespace ExprMachine

/-- What is wrong with a program that cannot go on, or with a handler's call. -/
inductive Defect where
  /-- Execution has left the records at this offset. -/
  | noReturn (offset : Nat)
  /-- The record at this offset cannot be decoded. -/
  | undecodable (offset : Nat) (reason : DecodeError)
  /-- No constant has this index. -/
  | constantIndex
  /-- No string has this index. -/
  | stringIndex (index : UInt32)
  /-- No list of message fields has this index. -/
  | messageFieldsIndex
  /-- A message has more fields than a record can count. -/
  | messageFieldsCount
  /-- The register has not been written. -/
  | unwrittenRegister (register : UInt32)
  /-- There is no such register. -/
  | registerRange (register : UInt32)
  /-- A run of registers goes beyond the last number. -/
  | registerRun
  /-- A map has more entries than a record can count. -/
  | mapEntryCount
  /-- The register does not name an iterator. -/
  | notIterator (register : UInt32)
  /-- A scope is left that the program has not entered. -/
  | scopeUnderflow
  /-- One is added to a value that is not an integer. -/
  | incrementKind (found : Kind)
  /-- A value is appended to one that is not a list. -/
  | appendKind (register : UInt32) (found : Kind)
  /-- No condition role has this tag. -/
  | conditionRole (tag : UInt32)
  /-- No binary operator has this index. -/
  | operatorIndex (index : Nat)
  /-- A handler is called with values of kinds that it is not meant for. -/
  | operandKinds
  deriving DecidableEq, Repr

/-- The wording of a defect. -/
def Defect.text : Defect → String
  | .noReturn offset => "program ended without RETURN at offset " ++ toString offset
  | .undecodable offset reason => "offset " ++ toString offset ++ ": " ++ reason.message
  | .constantIndex => "constant index out of range"
  | .stringIndex index => "string index " ++ toString index.toNat ++ " out of range"
  | .messageFieldsIndex => "message field table index out of range"
  | .messageFieldsCount => "message field count out of range"
  | .unwrittenRegister r => "register r" ++ toString r.toNat ++ " read before write"
  | .registerRange r => "register r" ++ toString r.toNat ++ " out of range"
  | .registerRun => "register run out of range"
  | .mapEntryCount => "map entry count out of range"
  | .notIterator r => "r" ++ toString r.toNat ++ " is not an iterator"
  | .scopeUnderflow => "SCOPE_POP without SCOPE_PUSH"
  | .incrementKind found => "INT_INC on " ++ found.name
  | .appendKind r found => "LIST_APPEND target r" ++ toString r.toNat ++ " holds " ++ found.name
  | .conditionRole tag => "unknown condition role " ++ toString tag.toNat
  | .operatorIndex index => "invalid binary operator index " ++ toString index
  | .operandKinds => "handler invoked with unregistered operand kinds"

/-- What is wrong with the use of `has` or of a comprehension. -/
inductive Misuse where
  /-- A predicate is not a boolean. -/
  | predicate (found : Kind)
  /-- A filter is not a boolean. -/
  | filter (found : Kind)
  /-- The presence of a field is asked of a value that has none. -/
  | presence (found : Kind)
  /-- A comprehension ranges over a value that has no items. -/
  | target (found : Kind)
  deriving DecidableEq, Repr

/-- The wording of a misuse. -/
def Misuse.text : Misuse → String
  | .predicate found => "predicate must evaluate to bool, found " ++ found.name
  | .filter found => "filter must evaluate to bool, found " ++ found.name
  | .presence found => "has() requires a map or message, found " ++ found.name
  | .target found => "comprehension target must be a list or map, found " ++ found.name

/-- Why a function rejects an argument of a kind that it accepts. -/
inductive ArgumentFault where
  /-- The text is not that of a signed integer. -/
  | notInt (s : String) (fault : Text.IntegerFault)
  /-- The text is not that of an unsigned integer. -/
  | notUInt (s : String) (fault : Text.IntegerFault)
  /-- The text is not that of a double. -/
  | notDouble (s : String) (fault : Double.ReadFault)
  /-- The bytes are not text. -/
  | notUtf8
  /-- A reason given by a handler. -/
  | other (reason : String)
  deriving DecidableEq, Repr

/-- The wording of a rejection. -/
def ArgumentFault.text : ArgumentFault → String
  | .notInt s fault => "cannot convert " ++ Text.quote s ++ " to int: " ++ fault.text
  | .notUInt s fault => "cannot convert " ++ Text.quote s ++ " to uint: " ++ fault.text
  | .notDouble s fault => "cannot convert " ++ Text.quote s ++ " to double: " ++ fault.text
  | .notUtf8 => "bytes are not valid UTF-8"
  | .other reason => reason

/-- Why a field of a message is rejected. -/
inductive FieldFault where
  /-- The type does not declare the field. -/
  | undeclared (field : String)
  /-- The field has been given already. -/
  | repeated (field : String)
  deriving DecidableEq, Repr

/-- The wording of a rejection. -/
def FieldFault.text : FieldFault → String
  | .undeclared field => "no field named '" ++ field ++ "'"
  | .repeated field => "field '" ++ field ++ "' set more than once"

/-- The causes of failures. -/
inductive EvalError.Cause where
  /-- No variable has this name. -/
  | noSuchVariable (name : String)
  /-- No function has this name. -/
  | noSuchFunction (name : String)
  /-- No overload of a function or operator accepts values of these kinds. -/
  | noSuchOverload (name : String) (kinds : String) (available : List String)
  /-- A map or message has no such key, or a list no such position. -/
  | noSuchKey (key : String)
  /-- No message type has this name. -/
  | noSuchType (typeName : String)
  /-- The condition of a choice is not a boolean. -/
  | conditionKind (found : Kind)
  /-- A value of this kind is used as the key of a map. -/
  | mapKeyKind (found : Kind)
  /-- A value of the first kind is indexed with one of the second. -/
  | indexKind (operand index : Kind)
  /-- A field is selected from a value of a kind that has none. -/
  | memberKind (operand : Kind) (field : String)
  /-- An integer is divided by zero. -/
  | divisionByZero
  /-- A remainder by zero is taken. -/
  | modulusByZero
  /-- The result of an operation does not fit its kind. -/
  | overflow (operation : String)
  /-- A message cannot be built. -/
  | messageConstruction (typeName : String) (fault : FieldFault)
  /-- A function rejects an argument. -/
  | invalidArgument (fault : ArgumentFault)
  /-- The use of `has` or of a comprehension is wrong. -/
  | misuse (fault : Misuse)
  /-- The program or the call of a handler is not as it should be. -/
  | defect (defect : Defect)
  deriving DecidableEq, Repr

/-- A failed evaluation. -/
structure EvalError where
  /-- The span of the construct that failed. -/
  span : Span
  /-- Why it failed. -/
  cause : EvalError.Cause
  deriving DecidableEq, Repr

namespace EvalError

/-- The wording of a cause. -/
def Cause.text : Cause → String
  | .noSuchVariable name => "no such variable '" ++ name ++ "'"
  | .noSuchFunction name => "no such function '" ++ name ++ "'"
  | .noSuchOverload name kinds available =>
    "no matching overload for '" ++ name ++ "(" ++ kinds ++ ")'; available: [" ++
      String.intercalate "; " available ++ "]"
  | .noSuchKey key => "no such key: " ++ key
  | .noSuchType typeName => "unknown or disallowed type '" ++ typeName ++ "'"
  | .conditionKind found => "condition must be bool, found " ++ found.name
  | .mapKeyKind found => "map keys must be int, uint or string, found " ++ found.name
  | .indexKind operand index => "cannot index " ++ operand.name ++ " with " ++ index.name
  | .memberKind operand field => "cannot select field '" ++ field ++ "' from " ++ operand.name
  | .divisionByZero => "division by zero"
  | .modulusByZero => "modulus by zero"
  | .overflow operation => operation ++ " overflow"
  | .messageConstruction typeName fault =>
    "failed to construct '" ++ typeName ++ "': " ++ fault.text
  | .invalidArgument fault => "invalid argument: " ++ fault.text
  | .misuse fault => "invalid macro call: " ++ fault.text
  | .defect d => "internal error: " ++ d.text

/-- The wording of an error: its span, then its cause. -/
def message (e : EvalError) : String := e.span.text ++ ": " ++ e.cause.text

end EvalError

end ExprMachine
