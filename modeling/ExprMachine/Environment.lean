import ExprMachine.Entries
import ExprMachine.Value

/-!
# Environments

The variables that an expression sees, in nested *scopes*. A variable is sought
in the innermost scope first; a binding in an inner scope shadows those outside
and never changes them. The outermost scope, the *root*, is always there: leaving
a scope leaves an inner one, if there is any.
-/

namespace ExprMachine

/-- The bindings of one scope. -/
abbrev Scope := Entries String Value

/-- Nested scopes of variables. -/
structure Environment where
  /-- The outermost scope. -/
  root : Scope := []
  /-- The scopes inside it, the innermost first. -/
  inner : List Scope := []

namespace Environment

/-- The number of scopes. -/
def depth (env : Environment) : Nat := env.inner.length + 1

/-- The innermost binding of a variable. -/
def get? (env : Environment) (name : String) : Option Value :=
  (env.inner.findSome? fun scope => scope.get? name).or (env.root.get? name)

/-- Enters a scope. -/
def push (env : Environment) : Environment := { env with inner := [] :: env.inner }

/-- Leaves the innermost scope, unless it is the root. -/
def pop (env : Environment) : Environment := { env with inner := env.inner.tail }

/-- Leaves a number of scopes. -/
def popMany (env : Environment) : Nat → Environment
  | 0 => env
  | n + 1 => env.pop.popMany n

/-- Binds a variable in the innermost scope. -/
def bind (env : Environment) (name : String) (v : Value) : Environment :=
  match env.inner with
  | [] => { env with root := env.root.insert name v }
  | scope :: rest => { env with inner := scope.insert name v :: rest }

/-- Binds a variable in the root. -/
def bindRoot (env : Environment) (name : String) (v : Value) : Environment :=
  { env with root := env.root.insert name v }

/-- The environment of one scope with the given variables. -/
def ofVariables (bindings : List (String × Value)) : Environment where
  root := Entries.ofPairs bindings

/-- Leaving the scope just entered restores the environment. -/
theorem pop_push (env : Environment) : env.push.pop = env := rfl

/-- A binding in an inner scope is lost with the scope. -/
theorem pop_bind_push (env : Environment) (name : String) (v : Value) :
    (env.push.bind name v).pop = env := rfl

end Environment

end ExprMachine
