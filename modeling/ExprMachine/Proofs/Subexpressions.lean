import Mathlib.Tactic.SplitIfs
import ExprMachine.Code.Lowering
import ExprMachine.Evaluation

/-!
# The parts of expressions

The code and the value of an expression are made of those of its parts, and the
recursions through lists of parts carry nothing else. Entries and fields are
lowered and evaluated as the list of their expressions (`lowerEntries_eq`,
`evalFields_eq`), and whether a call is a presence test or a comprehension is
told from its arguments as they stand (`Expr.presence?`, `Expr.loop?`), before
anything is made of them.

`Expr.induct` is the induction over expressions that goes with this view.
-/

namespace ExprMachine

/-- The code of expressions has the laws of a state. -/
instance : LawfulMonad Build := LawfulMonad.mk' Build
  (fun x => by
    funext d
    show Piece.mk _ ((x d).lines ++ []) _ = x d
    rw [List.append_nil]
    rfl)
  (fun _ _ => rfl)
  (fun x f g => by
    funext d
    show Piece.mk _ ((x d).lines ++ (f _ _).lines ++ (g _ _).lines) _ = Piece.mk _ (_ ++ (_ ++ _)) _
    rw [List.append_assoc]
    rfl)

/-! ## Calls told by their shape -/

namespace Comprehension

variable {β : Type}

/-- The bodies of a form, in the order in which they are written. -/
def bodies : Comprehension β → List β
  | .all p | .exists p | .existsOne p | .filter p | .transform p => [p]
  | .filterTransform p b => [p, b]

/-- What is made of a form is made of each of its bodies. -/
theorem bodies_map {γ : Type} (f : β → γ) (form : Comprehension β) :
    (form.map f).bodies = form.bodies.map f := by
  cases form <;> rfl

/-- A body of what is made of a form is made of one of its bodies. -/
theorem mem_bodies_map {γ : Type} {f : β → γ} {form : Comprehension β} {c : γ}
    (h : c ∈ (form.map f).bodies) : ∃ b ∈ form.bodies, c = f b := by
  rw [bodies_map] at h
  obtain ⟨b, hb, rfl⟩ := List.mem_map.1 h
  exact ⟨b, hb, rfl⟩

/-- A form read from bodies has these bodies. -/
theorem bodies_of_ofBodies? {function : String} {bs : List β} {form : Comprehension β}
    (h : ofBodies? function bs = some form) : form.bodies = bs := by
  match bs with
  | [] => cases h
  | [b] =>
    simp only [ofBodies?] at h
    split_ifs at h <;> cases h <;> rfl
  | [p, b] =>
    simp only [ofBodies?] at h
    split_ifs at h
    cases h
    rfl
  | _ :: _ :: _ :: _ => cases h

end Comprehension

namespace Expr

/-- The operand and the field of the selection that an expression is, under
    parentheses. -/
def selected? : Expr → Option (Expr × String)
  | .paren inner _ => inner.selected?
  | .member operand field _ => some (operand, field)
  | _ => none

variable (macros : Bool)

/-- The operand and the field of the presence test that a call is, if it is one. -/
def presence? (function : String) (args : List Expr) : Option (Expr × String) :=
  if macros then presenceTest? function (args.map selected?) else none

/-- The variable and the form of the comprehension that a call with a target is,
    if it is one. -/
def loop? (function : String) (args : List Expr) : Option (String × Comprehension Expr) :=
  if macros then Comprehension.ofCall? function args.head? args.tail else none

variable {macros} {function : String} {args : List Expr}

/-- The operand of a presence test is what its argument selects from. -/
theorem selected?_of_presence? {operand : Expr} {field : String}
    (h : presence? macros function args = some (operand, field)) :
    ∃ a ∈ args, a.selected? = some (operand, field) := by
  unfold presence? presenceTest? at h
  rw [Option.ite_none_right_eq_some] at h
  replace h := h.2
  match args with
  | [] => cases h
  | [a] =>
    refine ⟨a, List.mem_singleton_self a, ?_⟩
    cases ha : a.selected? with
    | none => simp [ha] at h
    | some o =>
      simp only [List.map, ha] at h
      split at h
      · exact h
      · cases h
  | a :: b :: rest => simp at h

/-- The bodies of a comprehension are among the arguments. -/
theorem mem_args_of_loop? {x : String} {form : Comprehension Expr}
    (h : loop? macros function args = some (x, form)) : ∀ e ∈ form.bodies, e ∈ args := by
  unfold loop? Comprehension.ofCall? at h
  split_ifs at h
  split at h
  · rename_i f hx hf
    cases h
    -- The first argument names the variable, and the others are the bodies.
    rw [Comprehension.bodies_of_ofBodies? hf]
    exact fun e he => List.mem_of_mem_tail he
  · cases h

/-! ## Induction -/

/-- The expressions that the code and the value of an expression are made of.
    The operand that an argument of a call selects from is among them, since the
    call may be a presence test. -/
def parts : Expr → List Expr
  | .literal _ _ | .ident _ _ => []
  | .list items _ => items
  | .map entries _ => entries.flatMap fun p => [p.1, p.2]
  | .message _ fields _ => fields.map Prod.snd
  | .unary _ x _ | .member x _ _ | .paren x _ => [x]
  | .binary _ x y _ | .index x y _ => [x, y]
  | .conditional c x y _ => [c, x, y]
  | .call _ args _ => args ++ args.filterMap fun a => a.selected?.map Prod.fst
  | .method target _ args _ => target :: args

/-- The operand of a presence test is one of the parts of the call. -/
theorem mem_parts_of_presence? {operand : Expr} {field : String} {s : Span}
    (h : presence? macros function args = some (operand, field)) :
    operand ∈ (Expr.call function args s).parts := by
  obtain ⟨a, ha, hs⟩ := selected?_of_presence? h
  exact List.mem_append_right _ (List.mem_filterMap.2 ⟨a, ha, by rw [hs]; rfl⟩)

/-- The operand of a selection is smaller than the selection, parentheses included. -/
theorem sizeOf_lt_of_selected? {e operand : Expr} {field : String}
    (h : e.selected? = some (operand, field)) : sizeOf operand < sizeOf e := by
  fun_induction selected? e with
  | case1 inner s ih =>
    have := ih h
    simp only [paren.sizeOf_spec]
    omega
  | case2 operand field s =>
    cases h
    simp only [member.sizeOf_spec]
    omega
  | case3 => cases h

/-- Parts are smaller than the expression, which is what the induction rests on. -/
theorem sizeOf_lt_of_mem_parts {e p : Expr} (h : p ∈ e.parts) : sizeOf p < sizeOf e := by
  cases e with
  | literal l s => cases h
  | ident name s => cases h
  | list items s =>
    have := List.sizeOf_lt_of_mem (show p ∈ items from h)
    simp only [list.sizeOf_spec]
    omega
  | map entries s =>
    obtain ⟨⟨k, v⟩, hp, h⟩ := List.mem_flatMap.1 h
    have := List.sizeOf_lt_of_mem hp
    simp only [Prod.mk.sizeOf_spec] at this
    simp only [List.mem_cons, List.not_mem_nil, or_false] at h
    simp only [map.sizeOf_spec]
    rcases h with rfl | rfl <;> omega
  | message typeName fields s =>
    obtain ⟨⟨name, v⟩, hp, rfl⟩ := List.mem_map.1 h
    have := List.sizeOf_lt_of_mem hp
    simp only [Prod.mk.sizeOf_spec] at this
    simp only [message.sizeOf_spec]
    omega
  | call function args s =>
    simp only [call.sizeOf_spec]
    rcases List.mem_append.1 h with h | h
    · have := List.sizeOf_lt_of_mem h
      omega
    · -- The operand that an argument selects from is smaller than this argument.
      obtain ⟨a, ha, hs⟩ := List.mem_filterMap.1 h
      obtain ⟨⟨operand, field⟩, hsel, rfl⟩ := Option.map_eq_some_iff.1 hs
      have := List.sizeOf_lt_of_mem ha
      have := sizeOf_lt_of_selected? hsel
      show sizeOf operand < _
      omega
  | method target function args s =>
    simp only [method.sizeOf_spec]
    rcases List.mem_cons.1 h with rfl | h
    · omega
    · have := List.sizeOf_lt_of_mem h
      omega
  | unary | binary | conditional | member | index | paren =>
    simp only [parts, List.mem_cons, List.not_mem_nil, or_false] at h
    simp only [unary.sizeOf_spec, binary.sizeOf_spec, conditional.sizeOf_spec, member.sizeOf_spec,
      index.sizeOf_spec, paren.sizeOf_spec]
    rcases h with rfl | rfl | rfl | _ <;> omega

/-- Induction over expressions: what holds of every expression if it holds of its
    parts, holds of all expressions. -/
theorem induct {P : Expr → Prop} (step : ∀ e, (∀ p ∈ e.parts, P p) → P e) (e : Expr) : P e :=
  step e fun p _ => induct step p
termination_by sizeOf e
decreasing_by exact sizeOf_lt_of_mem_parts ‹_›

end Expr

/-! ## Lists of parts -/

section

variable (h : Host) (macros : Bool)

theorem length_flatMap_pair {α : Type} (entries : List (α × α)) :
    (entries.flatMap fun p => [p.1, p.2]).length = 2 * entries.length := by
  induction entries with
  | nil => rfl
  | cons p rest ih =>
    rw [List.flatMap_cons, List.length_append, ih]
    simp only [List.length_cons, List.length_nil]
    omega

/-- Entries are lowered as their keys and values, in turn. -/
theorem lowerEntries_eq (entries : List (Expr × Expr)) :
    lowerEntries macros entries = lowerAll macros (entries.flatMap fun p => [p.1, p.2]) := by
  induction entries with
  | nil => rfl
  | cons p rest ih =>
    simp only [lowerEntries, List.flatMap_cons, List.cons_append, List.nil_append, lowerAll, ih,
      bind_assoc, pure_bind]

/-- Entries are evaluated as their keys and values, in turn. -/
theorem evalEntries_eq (entries : List (Expr × Expr)) :
    evalEntries h macros entries = evalAll h macros (entries.flatMap fun p => [p.1, p.2]) := by
  funext env
  induction entries with
  | nil => rfl
  | cons p rest ih =>
    simp only [evalEntries, List.flatMap_cons, List.cons_append, List.nil_append, evalAll, ih,
      bind_assoc, pure_bind]

/-- Fields are lowered as their values. -/
theorem lowerFields_eq (fields : List (String × Expr)) :
    lowerFields macros fields = lowerAll macros (fields.map Prod.snd) := by
  induction fields with
  | nil => rfl
  | cons p rest ih => simp only [lowerFields, List.map_cons, lowerAll, ih]

/-- Fields are evaluated as their values. -/
theorem evalFields_eq (fields : List (String × Expr)) :
    evalFields h macros fields = evalAll h macros (fields.map Prod.snd) := by
  funext env
  induction fields with
  | nil => rfl
  | cons p rest ih => simp only [evalFields, List.map_cons, evalAll, ih]

/-- The code of an expression as a body of a comprehension. -/
def Expr.body (e : Expr) : Body := ⟨e.lower macros, e.span⟩

/-- What an expression evaluates to as a body of a comprehension. -/
def Expr.clause (e : Expr) : Clause := ⟨e.eval h macros, e.span⟩

theorem lowerBodies_eq (es : List Expr) : lowerBodies macros es = es.map (Expr.body macros) := by
  induction es with
  | nil => rfl
  | cons e rest ih => simp only [lowerBodies, List.map_cons, ih, Expr.body]

theorem clauses_eq (es : List Expr) : clauses h macros es = es.map (Expr.clause h macros) := by
  induction es with
  | nil => rfl
  | cons e rest ih => simp only [clauses, List.map_cons, ih, Expr.clause]

/-- A selection is lowered by its operand. -/
theorem Expr.lowerSelection_eq (e : Expr) :
    e.lowerSelection macros = e.selected?.map fun p => (p.1.lower macros, p.2) := by
  fun_induction Expr.selected? e with
  | case1 inner s ih => rw [lowerSelection, ih]
  | case2 => rfl
  | case3 e hparen hmember => cases e <;> first | rfl | simp at hparen hmember

/-- A selection is evaluated by its operand. -/
theorem Expr.selection_eq (e : Expr) :
    e.selection h macros = e.selected?.map fun p => (p.1.eval h macros, p.2) := by
  fun_induction Expr.selected? e with
  | case1 inner s ih => rw [selection, ih]
  | case2 => rfl
  | case3 e hparen hmember => cases e <;> first | rfl | simp at hparen hmember

theorem lowerSelections_eq (es : List Expr) :
    lowerSelections macros es = es.map (Expr.lowerSelection macros) := by
  induction es with
  | nil => rfl
  | cons e rest ih => simp only [lowerSelections, List.map_cons, ih]

theorem selections_eq (es : List Expr) :
    selections h macros es = es.map (Expr.selection h macros) := by
  induction es with
  | nil => rfl
  | cons e rest ih => simp only [selections, List.map_cons, ih]

/-! ## Calls -/

/-- Whether a call is a presence test does not depend on what is made of the
    operands. -/
theorem presenceTest?_map {β γ : Type} (f : β → γ) (function : String)
    (selections : List (Option (β × String))) :
    presenceTest? function (selections.map (Option.map fun p => (f p.1, p.2))) =
      (presenceTest? function selections).map fun p => (f p.1, p.2) := by
  match selections with
  | [] => rfl
  | [none] => rfl
  | [some p] =>
    simp only [List.map, Option.map, presenceTest?]
    split <;> rfl
  | none :: _ :: _ => rfl
  | some _ :: _ :: _ => rfl

/-- Whether a call is a comprehension does not depend on what is made of the
    bodies. -/
theorem Comprehension.ofCall?_map {β γ : Type} (f : β → γ) (function : String)
    (firstArg : Option Expr) (bs : List β) :
    ofCall? function firstArg (bs.map f) =
      (ofCall? function firstArg bs).map fun p => (p.1, p.2.map f) := by
  unfold ofCall?
  rw [ofBodies?_map]
  cases firstArg.bind Expr.asIdent? with
  | none => rfl
  | some x =>
    cases ofBodies? function bs with
    | none => rfl
    | some form => rfl

namespace Expr

variable (function : String) (args : List Expr) (s : Span)

/-- A call without a target is lowered as a presence test if its arguments have that shape. -/
theorem lower_call : (call function args s).lower macros =
    (match presence? macros function args with
    | some (operand, field) => Lowering.select .hasField (operand.lower macros) field s
    | none => do
      let regs ← lowerAll macros args
      Lowering.call function regs s) := by
  have hsel : lowerSelections macros args =
      (args.map selected?).map (Option.map fun p => (p.1.lower macros, p.2)) := by
    rw [lowerSelections_eq, List.map_map]
    exact List.map_congr_left fun e _ => lowerSelection_eq macros e
  rw [lower, hsel, presenceTest?_map, presence?]
  cases macros with
  | false => rfl
  | true => cases presenceTest? function (args.map selected?) <;> rfl

/-- A call without a target is evaluated as a presence test in the same cases. -/
theorem eval_call (env : Environment) : (call function args s).eval h macros env =
    (match presence? macros function args with
    | some (operand, field) => do
      return .bool (← Evaluation.ofResult ((← operand.eval h macros env).hasField field s))
    | none => do Evaluation.call h function (← evalAll h macros args env) s) := by
  have hsel : selections h macros args =
      (args.map selected?).map (Option.map fun p => (p.1.eval h macros, p.2)) := by
    rw [selections_eq, List.map_map]
    exact List.map_congr_left fun e _ => selection_eq h macros e
  rw [eval, hsel, presenceTest?_map, presence?]
  cases macros with
  | false => rfl
  | true => cases presenceTest? function (args.map selected?) <;> rfl

variable (target : Expr)

/-- A call with a target is lowered as a comprehension if its arguments have that shape. -/
theorem lower_method : (method target function args s).lower macros =
    (match loop? macros function args with
    | some (x, form) =>
      Lowering.comprehension (target.lower macros) x (form.map (body macros)) s
    | none => do
      let first ← target.lower macros
      let rest ← lowerAll macros args
      Lowering.call function (first :: rest) s) := by
  rw [lower, lowerBodies_eq, ← List.map_tail, Comprehension.ofCall?_map, loop?]
  cases macros with
  | false => rfl
  | true => cases Comprehension.ofCall? function args.head? args.tail <;> rfl

/-- A call with a target is evaluated as a comprehension in the same cases. -/
theorem eval_method (env : Environment) : (method target function args s).eval h macros env =
    (match loop? macros function args with
    | some (x, form) => do
      let items ← Evaluation.ofResult ((← target.eval h macros env).items s)
      Evaluation.comprehend env x (form.map (clause h macros)) items
    | none => do
      let first ← target.eval h macros env
      let rest ← evalAll h macros args env
      Evaluation.call h function (first :: rest) s) := by
  rw [eval, clauses_eq, ← List.map_tail, Comprehension.ofCall?_map, loop?]
  cases macros with
  | false => rfl
  | true => cases Comprehension.ofCall? function args.head? args.tail <;> rfl

end Expr

end

end ExprMachine
