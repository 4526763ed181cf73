import ExprMachine.Proofs.Concatenation
import ExprMachine.Proofs.Sizes

/-!
# Operators and the registry

What an operator gives is left to the registry, whatever has been registered: the program of an
operator on variables gives what the registry gives for their values, at the span of the operator
(`Expr.gives_binary`, `Expr.gives_unary`).

There is one exception. A boolean is negated without asking the registry. With the standard
operator `!` this makes no difference (`Expr.gives_not_of_extends`), and in general it makes none
if and only if the registry negates the boolean too.
-/

namespace ExprMachine

namespace Evaluation

variable {h : Host} {v : Value} {span : Span}

/-- Only `&&` and `||` are decided by their left operands. -/
theorem deciding_eq_none {op : BinaryOperator} (hop : ¬ op.isShortCircuit) :
    deciding op = none := by
  cases op <;> first | rfl | exact absurd rfl hop

/-- A unary operator is left to the registry, if only that negates booleans. -/
theorem unary_eq_applyUnary {op : UnaryOperator}
    (hnegates : op = .not → ∀ b, v = .bool b → h.registry.applyUnary .not v span = .ok (.bool !b)) :
    unary h op v span = ofResult (h.registry.applyUnary op v span) := by
  unfold unary
  split
  · rename_i b
    rw [hnegates rfl b rfl]
    rfl
  · rfl

end Evaluation

open Evaluation

namespace Expr

variable {h : Host} {env : Environment} {x y : String} {v w : Value}

/-- An operator that evaluates both operands gives what the registry gives for them. -/
theorem gives_binary (hx : env.get? x = some v) (hy : env.get? y = some w) {op : BinaryOperator}
    (hop : ¬ op.isShortCircuit) (sx sy s : Span) :
    (Expr.binary op (.ident x sx) (.ident y sy) s).Gives h env
      (h.registry.applyBinary op.index v w s) := by
  have hundecided : (v.asBool?.any fun b => deciding op = some b) = false := by
    simp [deciding_eq_none hop]
  refine gives_of_eval (by simp [nodes]) ?_
  simp only [Expr.eval, hx, hy, Evaluation.binary, pure_bind, hundecided]
  rfl

theorem gives_unary (hx : env.get? x = some v) {op : UnaryOperator} (sx s : Span)
    (hnegates : op = .not → ∀ b, v = .bool b → h.registry.applyUnary .not v s = .ok (.bool !b)) :
    (Expr.unary op (.ident x sx) s).Gives h env (h.registry.applyUnary op v s) := by
  refine gives_of_eval (by simp [nodes]) ?_
  simp only [Expr.eval, hx, pure_bind, unary_eq_applyUnary hnegates]

theorem gives_not_bool {b : Bool} (hx : env.get? x = some (.bool b)) (sx s : Span) :
    (Expr.unary .not (.ident x sx) s).Gives h env (.ok (.bool !b)) := by
  refine gives_of_eval (by simp [nodes]) ?_
  simp only [Expr.eval, hx, pure_bind]
  rfl

/-- With the standard operator `!`, negation might as well be left to the registry. -/
theorem gives_not_of_extends (hext : h.registry.Extends Standard.registry)
    (hx : env.get? x = some v) (sx s : Span) :
    (Expr.unary .not (.ident x sx) s).Gives h env (h.registry.applyUnary .not v s) := by
  refine gives_unary hx sx s fun _ b hv => ?_
  subst hv
  have hnot : .unary Standard.not ∈ Standard.descriptors := List.mem_of_getElem? (i := 15) rfl
  exact hext.applyUnary hnot (.bool b) List.mem_cons_self s

/-- Whatever is registered, the operators on variables that evaluate all operands give what the
    registry gives for the values of the variables; except that the negation of a boolean is
    given in any case, which is what the registry gives if and only if its own operator negates
    the boolean. -/
theorem gives_operators (h : Host) (hx : env.get? x = some v) (hy : env.get? y = some w)
    (sx sy s : Span) :
    (∀ op : BinaryOperator, ¬ op.isShortCircuit →
      (Expr.binary op (.ident x sx) (.ident y sy) s).Gives h env
        (h.registry.applyBinary op.index v w s)) ∧
    (Expr.unary .negate (.ident x sx) s).Gives h env (h.registry.applyUnary .negate v s) ∧
    (∀ b, v = .bool b → (Expr.unary .not (.ident x sx) s).Gives h env (.ok (.bool !b))) ∧
    ((Expr.unary .not (.ident x sx) s).Gives h env (h.registry.applyUnary .not v s) ↔
      ∀ b, v = .bool b → h.registry.applyUnary .not v s = .ok (.bool !b)) := by
  refine ⟨fun op hop => gives_binary hx hy hop sx sy s, gives_unary hx sx s nofun, ?_, ?_, ?_⟩
  · rintro b rfl
    exact gives_not_bool hx sx s
  · rintro hgives b rfl
    exact hgives.eq (gives_not_bool hx sx s)
  · exact fun hnegates => gives_unary hx sx s fun _ => hnegates

/-- An operator `!` that doubles the texts of strings and of booleans. -/
def doubling : UnaryDescriptor where
  operator := .not
  overloads :=
    let double : UnaryHandler := fun v _ => .ok (.string (v.text ++ v.text))
    [(.string, double), (.bool, double)]

/-- A host with this operator and no other. -/
def doublingHost : Host where
  registry := (RegistryBuilder.empty.addOrSkip (.unary doubling)).build

/-- The variables `b`, a boolean, and `t`, a text. -/
def boolAndText : Environment := .ofVariables [("b", .bool true), ("t", .string "t")]

/-- The registry is asked to negate a text, and not asked to negate a boolean. -/
theorem gives_operators_doubling :
    boolAndText.get? "t" = some (.string "t") ∧ boolAndText.get? "b" = some (.bool true) ∧
      (Expr.unary .not (.ident "t" ⟨1, 2⟩) ⟨0, 2⟩).Gives doublingHost boolAndText
        (.ok (.string "\"t\"\"t\"")) := by
  have ht : boolAndText.get? "t" = some (.string "t") := rfl
  have hb : boolAndText.get? "b" = some (.bool true) := rfl
  obtain ⟨-, -, -, hnot⟩ := gives_operators doublingHost ht hb ⟨1, 2⟩ ⟨1, 2⟩ ⟨0, 2⟩
  exact ⟨ht, hb, hnot.2 nofun⟩

/-- Without any operators, the negation of a boolean is given nevertheless. -/
theorem not_gives_applyUnary :
    ¬ (Expr.unary .not (.ident "b" ⟨1, 2⟩) ⟨0, 2⟩).Gives ⟨RegistryBuilder.empty.build, none⟩
      boolAndText (RegistryBuilder.empty.build.applyUnary .not (.bool true) ⟨0, 2⟩) := by
  intro hgives
  have hb : boolAndText.get? "b" = some (.bool true) := rfl
  cases hgives.eq (gives_not_bool hb ⟨1, 2⟩ ⟨0, 2⟩)

end Expr

end ExprMachine
