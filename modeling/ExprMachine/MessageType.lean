import ExprMachine.EvalError
import ExprMachine.Text.Lowercase
import ExprMachine.Value

/-!
# Message types

The messages that expressions may build. A `TypeCatalog` lists the allowed
types with their declared fields. A type may be known by *aliases*, which are
matched without regard to case and come before the names of the types
themselves; a catalog may demand that a type that has been given an alias is
only named by one.
-/

namespace ExprMachine

/-- A message type. -/
structure MessageType where
  /-- The full name. -/
  name : String
  /-- The declared fields. -/
  fields : List String
  deriving DecidableEq, Repr

/-- Whether a type declares a field. -/
def MessageType.hasField (t : MessageType) (field : String) : Bool := t.fields.contains field

/-- The allowed types and their aliases. -/
structure TypeCatalog where
  /-- The types, by name. -/
  types : Entries String MessageType := []
  /-- The names that the aliases, in lower case, stand for. -/
  aliases : Entries String String := []
  /-- The names that have been given an alias. -/
  aliased : List String := []
  /-- Whether such names are hidden. -/
  enforced : Bool := false

namespace TypeCatalog

/-- Allows a type. -/
def allow (c : TypeCatalog) (name : String) (fields : List String) : TypeCatalog :=
  { c with types := c.types.insert name ⟨name, fields⟩ }

/-- Gives a name an alias. -/
def addAlias (c : TypeCatalog) (name canonical : String) : TypeCatalog :=
  { c with
    aliases := c.aliases.insert (Text.lowercase name) canonical
    aliased := canonical :: c.aliased }

/-- Hides the names that have an alias, or shows them again. -/
def enforceAliases (c : TypeCatalog) (enforced : Bool) : TypeCatalog :=
  { c with enforced := enforced }

/-- The type that a name stands for. -/
def resolve (c : TypeCatalog) (name : String) : Option MessageType :=
  match c.aliases.get? (Text.lowercase name) with
  | some canonical => c.types.get? canonical
  | none => if c.enforced && c.aliased.contains name then none else c.types.get? name

/-- The fields of a message, with those of `given` after those of `built`, or the
    first one at fault. -/
def addFields (t : MessageType) (built : Entries String Value) :
    List (String × Value) → Except FieldFault (Entries String Value)
  | [] => .ok built
  | (field, v) :: rest =>
    if !t.hasField field then .error (.undeclared field)
    else if built.contains field then .error (.repeated field)
    else addFields t (built.insert field v) rest

/-- Builds a message of a type from its fields in order. -/
def construct (c : TypeCatalog) (typeName : String) (fields : List (String × Value))
    (span : Span) : Except EvalError Value :=
  match c.resolve typeName with
  | none => .error ⟨span, .noSuchType typeName⟩
  | some t =>
    match addFields t [] fields with
    | .ok built => .ok (.message t.name built)
    | .error fault => .error ⟨span, .messageConstruction t.name fault⟩

end TypeCatalog

end ExprMachine
