import ExprMachine.MessageType
import ExprMachine.Registry

/-!
# Hosts

What surrounds an evaluation and does not change in it: the operations that can
be called and the messages that can be built.
-/

namespace ExprMachine

/-- The surroundings of an evaluation. -/
structure Host where
  /-- The operations that can be called. -/
  registry : Registry
  /-- The messages that can be built, if any. -/
  types : Option TypeCatalog := none

/-- Builds a message. Without a catalog, no type is known. -/
def Host.construct (h : Host) (typeName : String) (fields : List (String × Value)) (span : Span) :
    Except EvalError Value :=
  match h.types with
  | some types => types.construct typeName fields span
  | none => .error ⟨span, .noSuchType typeName⟩

end ExprMachine
