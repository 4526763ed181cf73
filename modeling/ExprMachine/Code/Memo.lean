import ExprMachine.Code.Lowering

/-!
# Compiling the same expression again

A `Compiler` remembers the last expression that it has compiled, with its
program. Expressions and programs are *shared* objects here: each has an
identity beside its content. The program is returned again only if the very
object is compiled again, not one of equal content; anything else gives a
program of a new identity.
-/

namespace ExprMachine

/-- An object with an identity. -/
structure Shared (α : Type) where
  /-- The identity. Objects of one identity have one content. -/
  id : Nat
  /-- The content. -/
  content : α

/-- A compiler with the program that it has compiled last. -/
structure Compiler where
  /-- How expressions are compiled. -/
  options : CompileOptions := {}
  /-- The identity of the expression compiled last, and its program. -/
  memo : Option (Nat × Shared Program) := none
  /-- The identity of the next program. -/
  nextId : Nat := 0

namespace Compiler

/-- Compiles an expression, unless it is the one compiled last. -/
def compile (c : Compiler) (e : Shared Expr) : Except CompileError (Shared Program × Compiler) :=
  match c.memo with
  | some (id, program) => if id = e.id then .ok (program, c) else compileAnew
  | none => compileAnew
where
  /-- Compiles an expression and remembers its program. -/
  compileAnew : Except CompileError (Shared Program × Compiler) := do
    let p ← ExprMachine.compile c.options e.content
    let program : Shared Program := ⟨c.nextId, p⟩
    pure (program, { c with memo := some (e.id, program), nextId := c.nextId + 1 })

end Compiler

end ExprMachine
