import ExprMachine.Proofs.Subexpressions

/-!
# The nodes of expressions

The nodes of an expression are met from the left to the right, each after those
that it is made of (`Expr.nodes`). This is the order in which the code of an
expression is built, whether a call is one of a function, a presence test or a
comprehension. The nodes that such a call has no code for, the selection that is
tested and the variable that is bound, have neither constants nor field names
(`Expr.gather_presence`, `Expr.gather_loop`).
-/

namespace ExprMachine

mutual

/-- The nodes of an expression, from the left to the right, each after the nodes
    that it is made of. -/
def Expr.nodes : Expr → List Expr
  | .literal l s => [.literal l s]
  | .list items s => nodesOfEach items ++ [.list items s]
  | .map entries s => nodesOfEntries entries ++ [.map entries s]
  | .message typeName fields s => nodesOfFields fields ++ [.message typeName fields s]
  | .unary op operand s => operand.nodes ++ [.unary op operand s]
  | .binary op left right s => left.nodes ++ right.nodes ++ [.binary op left right s]
  | .conditional c whenTrue whenFalse s =>
    c.nodes ++ whenTrue.nodes ++ whenFalse.nodes ++ [.conditional c whenTrue whenFalse s]
  | .member operand field s => operand.nodes ++ [.member operand field s]
  | .index operand position s => operand.nodes ++ position.nodes ++ [.index operand position s]
  | .ident name s => [.ident name s]
  | .call function args s => nodesOfEach args ++ [.call function args s]
  | .method target function args s =>
    target.nodes ++ nodesOfEach args ++ [.method target function args s]
  | .paren inner s => inner.nodes ++ [.paren inner s]

/-- The nodes of the expressions of a list. -/
def nodesOfEach : List Expr → List Expr
  | [] => []
  | e :: rest => e.nodes ++ nodesOfEach rest

/-- The nodes of keys and values. -/
def nodesOfEntries : List (Expr × Expr) → List Expr
  | [] => []
  | (key, value) :: rest => key.nodes ++ value.nodes ++ nodesOfEntries rest

/-- The nodes of the values of fields. -/
def nodesOfFields : List (String × Expr) → List Expr
  | [] => []
  | (_, value) :: rest => value.nodes ++ nodesOfFields rest

end

/-- The nodes of several expressions are those of each, one after the other. -/
theorem nodesOfEach_eq (es : List Expr) : nodesOfEach es = es.flatMap Expr.nodes := by
  induction es with
  | nil => rfl
  | cons e rest ih => rw [nodesOfEach, ih, List.flatMap_cons]

/-- Of an entry, the nodes of the key come before those of the value. -/
theorem nodesOfEntries_eq (entries : List (Expr × Expr)) :
    nodesOfEntries entries = (entries.flatMap fun p => [p.1, p.2]).flatMap Expr.nodes := by
  induction entries with
  | nil => rfl
  | cons p rest ih => simp [nodesOfEntries, ih]

theorem nodesOfFields_eq (fields : List (String × Expr)) :
    nodesOfFields fields = (fields.map Prod.snd).flatMap Expr.nodes := by
  induction fields with
  | nil => rfl
  | cons p rest ih => simp [nodesOfFields, ih]

namespace Expr

/-- The expressions that an expression is made of, as they are written. -/
@[simp] def children : Expr → List Expr
  | .call _ args _ => args
  | e => e.parts

/-- An expression is met after the nodes of what it is made of. -/
theorem nodes_eq (e : Expr) : e.nodes = e.children.flatMap nodes ++ [e] := by
  cases e <;>
    simp [nodes, children, parts, nodesOfEach_eq, nodesOfEntries_eq, nodesOfFields_eq]

variable {α : Type}

/-- What is found at the nodes of an expression, in their order. -/
def gather (g : Expr → Option α) (e : Expr) : List α := e.nodes.filterMap g

variable (g : Expr → Option α)

/-- What is found at the expression itself comes last. -/
theorem gather_eq (e : Expr) : e.gather g = e.children.flatMap (gather g) ++ (g e).toList := by
  have hlast : [e].filterMap g = (g e).toList := by cases h : g e <;> simp [h]
  rw [gather, nodes_eq, List.filterMap_append, List.filterMap_flatMap, hlast]
  rfl

/-! ## Calls told by their shape -/

section

variable {macros : Bool} {function : String} {args : List Expr}

/-- A presence test has one argument, which selects a field. -/
theorem args_of_presence? {operand : Expr} {field : String}
    (h : presence? macros function args = some (operand, field)) :
    ∃ a, args = [a] ∧ a.selected? = some (operand, field) := by
  obtain ⟨a, ha, hselected⟩ := selected?_of_presence? h
  rw [presence?, Option.ite_none_right_eq_some] at h
  rcases args with _ | ⟨b, _ | ⟨c, rest⟩⟩
  · cases ha
  · obtain rfl := List.mem_singleton.1 ha
    exact ⟨a, rfl, hselected⟩
  · simp [presenceTest?] at h

/-- The arguments of a comprehension are a variable and the bodies of the form. -/
theorem args_of_loop? {x : String} {form : Comprehension Expr}
    (h : loop? macros function args = some (x, form)) :
    ∃ a, args = a :: form.bodies ∧ a.asIdent? = some x := by
  rw [loop?, Option.ite_none_right_eq_some, Comprehension.ofCall?] at h
  obtain ⟨-, h⟩ := h
  split at h
  · rename_i y f hident hform
    cases h
    cases args with
    | nil => cases hident
    | cons a rest => exact ⟨a, by rw [Comprehension.bodies_of_ofBodies? hform]; rfl, hident⟩
  · cases h

end

/-- Nothing is found at the nodes that calls told by their shape have no code for. -/
structure Passes : Prop where
  paren : ∀ inner s, g (.paren inner s) = none
  ident : ∀ name s, g (.ident name s) = none
  member : ∀ operand field s, g (.member operand field s) = none
  call : ∀ function args s, g (.call function args s) = none
  method : ∀ target function args s, g (.method target function args s) = none

variable {g} (hg : Passes g) {macros : Bool} {function : String} {args : List Expr}

include hg

theorem gather_paren (inner : Expr) (s : Span) : (paren inner s).gather g = inner.gather g := by
  rw [gather_eq, hg.paren]
  simp [children, parts]

/-- Nothing is found in a variable, with or without parentheses. -/
theorem gather_of_asIdent? {e : Expr} {x : String} (h : e.asIdent? = some x) :
    e.gather g = [] := by
  unfold asIdent? at h
  fun_induction unparen e with
  | case1 inner s ih => rw [gather_paren hg, ih h]
  | case2 e =>
    split at h
    · rw [gather_eq, hg.ident]
      rfl
    · cases h

/-- What is found in a selection is found in the operand that it selects from. -/
theorem gather_of_selected? {e operand : Expr} {field : String}
    (h : e.selected? = some (operand, field)) : e.gather g = operand.gather g := by
  fun_induction selected? e with
  | case1 inner s ih => rw [gather_paren hg, ih h]
  | case2 operand field s =>
    cases h
    rw [gather_eq, hg.member]
    simp [children, parts]
  | case3 => cases h

/-- What is found in a presence test is found in the operand that is selected from. -/
theorem gather_presence {operand : Expr} {field : String} (s : Span)
    (h : presence? macros function args = some (operand, field)) :
    (call function args s).gather g = operand.gather g := by
  obtain ⟨a, rfl, hselected⟩ := args_of_presence? h
  rw [gather_eq, hg.call, ← gather_of_selected? hg hselected]
  simp [children]

/-- What is found in a comprehension is found in its target and then in its bodies. -/
theorem gather_loop {x : String} {form : Comprehension Expr} (target : Expr) (s : Span)
    (h : loop? macros function args = some (x, form)) :
    (method target function args s).gather g =
      target.gather g ++ form.bodies.flatMap (gather g) := by
  obtain ⟨a, rfl, hident⟩ := args_of_loop? h
  rw [gather_eq, hg.method]
  simp [children, parts, gather_of_asIdent? hg hident]

end Expr

end ExprMachine
