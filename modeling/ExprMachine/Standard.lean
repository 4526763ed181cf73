import ExprMachine.Registry
import ExprMachine.Standard.Functions
import ExprMachine.Standard.Operators

/-!
# The standard registry

The operators and functions that every host can expect. They are registered
like those of any other library.
-/

namespace ExprMachine.Standard

/-- The standard operators and functions. -/
def descriptors : List Descriptor := operators ++ functions

/-- The registry of the standard operators and functions. -/
def registry : Registry :=
  (descriptors.foldl RegistryBuilder.addOrSkip RegistryBuilder.empty).build

end ExprMachine.Standard
