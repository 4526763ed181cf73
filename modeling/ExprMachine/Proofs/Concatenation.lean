import ExprMachine.Proofs.Correctness
import ExprMachine.Proofs.Idempotence
import ExprMachine.Proofs.Registration

/-!
# Comprehensions over concatenated lists

A comprehension over two lists one after the other has the result of the
comprehensions over the first and over the second, joined by an operator: by `&&` for
`all`, by `||` for `exists`, and by `+` for the forms that give a list
(`Comprehension.joint?`). No operator does this for `exists_one`.

The two agree in everything (`Evaluation.comprehend_append`). An item of the first list
that decides `all` or `exists` is what makes `&&` or `||` leave its right operand
unevaluated, so that the bodies are evaluated for the same items on both sides, in the
same order, and fail at the same one. Nothing is used of the operators but that they are
the standard ones, whatever else is registered.
-/

namespace ExprMachine

/-! ## The standard operators on results -/

namespace Registry

variable {r : Registry}

/-- What a standard descriptor lists is found. -/
theorem Extends.find?_listed (h : r.Extends Standard.registry) {d : Descriptor}
    (hd : d ∈ Standard.descriptors) {k : OverloadKey} {o : Operation} (hlisted : (k, o) ∈ d.listed)
    (span : Span) : r.find? span k = some o :=
  h span k o ((Standard.find?_registry span k o).2 (List.mem_flatMap.2 ⟨d, hd, hlisted⟩))

/-- A standard operator is applied by its standard handler. -/
theorem Extends.applyBinary (h : r.Extends Standard.registry) {d : BinaryDescriptor}
    (hd : .binary d ∈ Standard.descriptors) (left right : Value) {handler : BinaryHandler}
    (hhandler : ((left.kind, right.kind), handler) ∈ d.overloads) (span : Span) :
    r.applyBinary d.operator.index left right span = handler left right span := by
  have hfind := h.find?_listed hd (List.mem_map.2 ⟨_, hhandler, rfl⟩) span
  obtain ⟨handler', hget, hhandler'⟩ := Option.map_eq_some_iff.1 hfind
  cases hhandler'
  rw [Registry.applyBinary, hget]

theorem Extends.applyUnary (h : r.Extends Standard.registry) {d : UnaryDescriptor}
    (hd : .unary d ∈ Standard.descriptors) (v : Value) {handler : UnaryHandler}
    (hhandler : (v.kind, handler) ∈ d.overloads) (span : Span) :
    r.applyUnary d.operator v span = handler v span := by
  have hfind := h.find?_listed hd (List.mem_map.2 ⟨_, hhandler, rfl⟩) span
  obtain ⟨handler', hget, hhandler'⟩ := Option.map_eq_some_iff.1 hfind
  cases hhandler'
  rw [Registry.applyUnary, hget]

/-- A standard function is called by its standard handler. -/
theorem Extends.call (h : r.Extends Standard.registry) {d : FunctionDescriptor}
    (hd : .function d ∈ Standard.descriptors) (args : List Value) {handler : FunctionHandler}
    (hhandler : (args.map Value.kind, handler) ∈ d.overloads) (span : Span) :
    r.call d.name args span = (handler args span).map fun v => (v, d.idempotent) := by
  have hfind := h.find?_listed hd (List.mem_map.2 ⟨_, hhandler, rfl⟩) span
  obtain ⟨o, hresolve, ho⟩ := Option.map_eq_some_iff.1 hfind
  cases ho
  refine call_of_resolve (o := ⟨d.name, args.map Value.kind, d.idempotent, handler⟩) ?_
  cases hcase : r.resolve d.name (args.map Value.kind) span with
  | error e =>
    rw [hcase] at hresolve
    cases hresolve
  | ok o =>
    rw [hcase] at hresolve
    exact congrArg Except.ok (Option.some.inj hresolve)

variable (h : r.Extends Standard.registry) (span : Span)
include h

theorem Extends.add_lists (xs ys : List Value) :
    r.applyBinary BinaryOperator.add.index (.list xs) (.list ys) span =
      .ok (.list (xs ++ ys)) := by
  have hadd : .binary Standard.add ∈ Standard.descriptors :=
    List.mem_of_getElem? (i := 0) rfl
  exact h.applyBinary hadd (.list xs) (.list ys)
    (List.mem_of_getElem? (i := 5) rfl) span

theorem Extends.and_bools (a b : Bool) :
    r.applyBinary BinaryOperator.logicalAnd.index (.bool a) (.bool b) span =
      .ok (.bool (a && b)) := by
  have hand : .binary (Standard.logical .logicalAnd (· && ·)) ∈ Standard.descriptors :=
    List.mem_of_getElem? (i := 12) rfl
  exact h.applyBinary hand (.bool a) (.bool b) List.mem_cons_self span

theorem Extends.or_bools (a b : Bool) :
    r.applyBinary BinaryOperator.logicalOr.index (.bool a) (.bool b) span =
      .ok (.bool (a || b)) := by
  have hor : .binary (Standard.logical .logicalOr (· || ·)) ∈ Standard.descriptors :=
    List.mem_of_getElem? (i := 13) rfl
  exact h.applyBinary hor (.bool a) (.bool b) List.mem_cons_self span

end Registry

/-! ## Loops over concatenated lists -/

namespace Comprehension

variable {β γ : Type}

/-- The name of a form. -/
def name : Comprehension β → String
  | .all _ => "all"
  | .exists _ => "exists"
  | .existsOne _ => "exists_one"
  | .filter _ => "filter"
  | .transform _ | .filterTransform _ _ => "map"

/-- The operator that joins the results for two lists to the result for the lists one
    after the other, if there is one. -/
def joint? : Comprehension β → Option BinaryOperator
  | .all _ => some .logicalAnd
  | .exists _ => some .logicalOr
  | .existsOne _ => none
  | .filter _ | .transform _ | .filterTransform _ _ => some .add

theorem joint?_map (f : β → γ) (form : Comprehension β) : (form.map f).joint? = form.joint? := by
  cases form <;> rfl

theorem ofBodies?_bodies (form : Comprehension β) :
    ofBodies? form.name form.bodies = some form := by
  cases form <;> simp [ofBodies?, name, bodies]

end Comprehension

namespace Evaluation

section

variable (xs ys : List Value)

theorem allOf_append (test : Value → Evaluation Bool) :
    allOf test (xs ++ ys) = (do
      if ← allOf test xs then allOf test ys else pure false) := by
  induction xs with
  | nil => rfl
  | cons v rest ih =>
    rw [List.cons_append, allOf, allOf, bind_assoc]
    refine bind_congr fun passes => ?_
    cases passes with
    | true => exact ih
    | false => rfl

theorem someOf_append (test : Value → Evaluation Bool) :
    someOf test (xs ++ ys) = (do
      if ← someOf test xs then pure true else someOf test ys) := by
  induction xs with
  | nil => rfl
  | cons v rest ih =>
    rw [List.cons_append, someOf, someOf, bind_assoc]
    refine bind_congr fun passes => ?_
    cases passes with
    | true => rfl
    | false => exact ih

theorem collect_append (f : Value → Evaluation (Option Value)) :
    collect f (xs ++ ys) = (do
      let first ← collect f xs
      let second ← collect f ys
      pure (first ++ second)) := by
  induction xs with
  | nil => simp [collect]
  | cons v rest ih =>
    simp only [List.cons_append, collect, ih, bind_assoc, pure_bind, List.append_assoc]

end

section

variable {h : Host} (hext : h.registry.Extends Standard.registry) (span : Span)
include hext

/-- Two tests joined by `&&`: the second is made if the first one passes. -/
theorem binary_and (first second : Evaluation Bool) :
    binary h .logicalAnd (do return .bool (← first)) (do return .bool (← second)) span =
      (do
        let both ← (do
          if ← first then second else pure false)
        return .bool both) := by
  simp only [binary, bind_assoc, pure_bind]
  refine bind_congr fun a => ?_
  cases a with
  | false => rfl
  | true =>
    show (second >>= fun b => ofResult (h.registry.applyBinary _ (.bool true) (.bool b) span)) = _
    refine bind_congr fun b => ?_
    rw [hext.and_bools]
    rfl

/-- Two tests joined by `||`: the second is made if the first one does not pass. -/
theorem binary_or (first second : Evaluation Bool) :
    binary h .logicalOr (do return .bool (← first)) (do return .bool (← second)) span =
      (do
        let either ← (do
          if ← first then pure true else second)
        return .bool either) := by
  simp only [binary, bind_assoc, pure_bind]
  refine bind_congr fun a => ?_
  cases a with
  | false =>
    show (second >>= fun b => ofResult (h.registry.applyBinary _ (.bool false) (.bool b) span)) = _
    refine bind_congr fun b => ?_
    rw [hext.or_bools]
    rfl
  | true => rfl

/-- Two lists joined by `+`. -/
theorem binary_add (first second : Evaluation (List Value)) :
    binary h .add (do return .list (← first)) (do return .list (← second)) span =
      (do
        let items ← (do
          let a ← first
          let b ← second
          pure (a ++ b))
        return .list items) := by
  simp only [binary, bind_assoc, pure_bind]
  refine bind_congr fun a => ?_
  show (second >>= fun b => ofResult (h.registry.applyBinary _ (.list a) (.list b) span)) = _
  refine bind_congr fun b => ?_
  rw [hext.add_lists]
  rfl

/-- A comprehension over two lists one after the other evaluates as the comprehensions
    over each, joined by the operator. -/
theorem comprehend_append (env : Environment) (x : String) {form : Comprehension Clause}
    {op : BinaryOperator} (hop : form.joint? = some op) (xs ys : List Value) :
    comprehend env x form (xs ++ ys) =
      binary h op (comprehend env x form xs) (comprehend env x form ys) span := by
  cases form with
  | existsOne p => cases hop
  | all p =>
    cases hop
    simp only [comprehend, allOf_append]
    exact (binary_and hext span _ _).symm
  | «exists» p =>
    cases hop
    simp only [comprehend, someOf_append]
    exact (binary_or hext span _ _).symm
  | filter | transform | filterTransform =>
    cases hop
    simp only [comprehend, collect_append]
    exact (binary_add hext span _ _).symm

end

end Evaluation

/-! ## Expressions -/

namespace Comprehension

variable (form : Comprehension Expr) (x : String)

/-- The comprehension of a form over a target, `t.all(x, p)` for instance. -/
def callOn (target : Expr) (variableSpan span : Span) : Expr :=
  .method target form.name (.ident x variableSpan :: form.bodies) span

/-- The comprehension over two lists one after the other, `(xs + ys).all(x, p)` for
    instance. The spans of its nodes are `s`. -/
def overConcatenation (xs ys : String) (s : Nat → Span) : Expr :=
  form.callOn x (.paren (.binary .add (.ident xs (s 0)) (.ident ys (s 1)) (s 2)) (s 3)) (s 4) (s 5)

/-- The comprehensions over two lists joined by an operator,
    `xs.all(x, p) && ys.all(x, p)` for instance. The spans of its nodes are `s`. -/
def joined (op : BinaryOperator) (xs ys : String) (s : Nat → Span) : Expr :=
  .binary op (form.callOn x (.ident xs (s 0)) (s 1) (s 2))
    (form.callOn x (.ident ys (s 3)) (s 4) (s 5)) (s 6)

variable {h : Host} {env : Environment}

theorem eval_callOn (target : Expr) (variableSpan span : Span) :
    (form.callOn x target variableSpan span).eval h true env = (do
      let items ← Evaluation.ofResult ((← target.eval h true env).items span)
      Evaluation.comprehend env x (form.map (Expr.clause h true)) items) := by
  have hloop : Expr.loop? true form.name (.ident x variableSpan :: form.bodies) =
      some (x, form) := by
    rw [Expr.loop?, if_pos rfl, ofCall?, List.tail_cons, ofBodies?_bodies]
    rfl
  rw [callOn, Expr.eval_method, hloop]

variable {x} {op : BinaryOperator} {xs ys : String} {a b : List Value}

theorem eval_callOn_ident (hxs : env.get? xs = some (.list a)) (s variableSpan span : Span) :
    (form.callOn x (.ident xs s) variableSpan span).eval h true env =
      Evaluation.comprehend env x (form.map (Expr.clause h true)) a := by
  rw [eval_callOn, Expr.eval, hxs]
  rfl

/-- The two expressions evaluate to the same. -/
theorem eval_overConcatenation (hext : h.registry.Extends Standard.registry)
    (hop : form.joint? = some op) (hxs : env.get? xs = some (.list a))
    (hys : env.get? ys = some (.list b)) (s s' : Nat → Span) :
    (form.overConcatenation x xs ys s).eval h true env =
      (form.joined x op xs ys s').eval h true env := by
  have hadd : (Expr.paren (.binary .add (.ident xs (s 0)) (.ident ys (s 1)) (s 2)) (s 3)).eval
      h true env = pure (.list (a ++ b)) := by
    simp only [Expr.eval, hxs, hys]
    show Evaluation.ofResult (h.registry.applyBinary _ (.list a) (.list b) (s 2)) = _
    rw [hext.add_lists]
    rfl
  have hjoint : (form.map (Expr.clause h true)).joint? = some op := by rw [joint?_map, hop]
  rw [overConcatenation, eval_callOn, hadd, joined, Expr.eval, eval_callOn_ident form hxs,
    eval_callOn_ident form hys, ← Evaluation.comprehend_append hext (s' 6) env x hjoint]
  rfl

end Comprehension

/-! ## Executions -/

namespace Machine

variable {h : Host} {p q : Program} {form : Comprehension Expr} {op : BinaryOperator}
  {x xs ys : String} {a b : List Value} {env : Environment} {s s' : Nat → Span}

/-- The programs of a comprehension over two lists one after the other and of the
    comprehensions over each, joined by the operator, leave the same, whatever is
    registered beside the standard operations: the same value or the same error, and the
    same idempotence. -/
theorem execute_overConcatenation (hext : h.registry.Extends Standard.registry)
    (hop : form.joint? = some op)
    (hp : compile {} (form.overConcatenation x xs ys s) = .ok p)
    (hq : compile {} (form.joined x op xs ys s') = .ok q)
    (hxs : env.get? xs = some (.list a)) (hys : env.get? ys = some (.list b)) :
    (∃ fuel, ((h.machine p).execute fuel env).isSome) ∧
      (∃ fuel, ((h.machine q).execute fuel env).isSome) ∧
      ∀ fuel fuel' y y', (h.machine p).execute fuel env = some y →
        (h.machine q).execute fuel' env = some y' → y = y' := by
  obtain ⟨n, hn⟩ := exists_execute_eq (m := h.machine p) hp env
  obtain ⟨n', hn'⟩ := exists_execute_eq (m := h.machine q) hq env
  refine ⟨⟨n, by rw [hn]; rfl⟩, ⟨n', by rw [hn']; rfl⟩, fun fuel fuel' y y' hy hy' => ?_⟩
  rw [execute_unique hy hn, execute_unique hy' hn']
  exact congrArg (Evaluation.execution · env)
    (form.eval_overConcatenation (x := x) hext hop hxs hys s s')

/-- A function that is not idempotent and tells odd integers. -/
def oddness : FunctionDescriptor where
  name := "odd"
  idempotent := false
  overloads := [([.int], fun args _ =>
    match args with
    | [.int i] => .ok (.bool (i.toInt % 2 = 1))
    | _ => .ok .null)]

/-- A host with the standard operations and one function more. -/
def oddnessHost : Host where
  registry :=
    ((Standard.descriptors ++ [Descriptor.function oddness]).foldl RegistryBuilder.addOrSkip
      RegistryBuilder.empty).build

/-- The form `all(x, odd(x))`. -/
def allOdd : Comprehension Expr := .all (.call "odd" [.ident "x" ⟨16, 17⟩] ⟨12, 18⟩)

/-- The expression `(xs + ys).all(x, odd(x))`. -/
def allOddOfConcatenation : Expr := allOdd.overConcatenation "x" "xs" "ys" fun _ => ⟨0, 19⟩

/-- The expression `xs.all(x, odd(x)) && ys.all(x, odd(x))`. -/
def allOddJoined : Expr := allOdd.joined "x" .logicalAnd "xs" "ys" fun _ => ⟨0, 42⟩

/-- The variables `xs` and `ys`, each a list. -/
def listsHost : Environment :=
  .ofVariables [("xs", .list [.int 1, .int 4]), ("ys", .list [.null])]

/-- The second item of the first list decides on both sides, so that the second list is
    never tested, and a function that is not idempotent is called for both items. -/
theorem execute_allOddOfConcatenation :
    ∃ fuel fuel' y y',
      (oddnessHost.machine (allOddOfConcatenation.assembly true).toProgram).execute fuel
        listsHost = some y ∧
      (oddnessHost.machine (allOddJoined.assembly true).toProgram).execute fuel'
        listsHost = some y' ∧ y = y' := by
  have hp : compile {} allOddOfConcatenation =
      .ok (allOddOfConcatenation.assembly true).toProgram := compile_of_fits (by decide +kernel)
  have hq : compile {} allOddJoined = .ok (allOddJoined.assembly true).toProgram :=
    compile_of_fits (by decide +kernel)
  have hxs : listsHost.get? "xs" = some (.list [.int 1, .int 4]) := rfl
  have hys : listsHost.get? "ys" = some (.list [.null]) := rfl
  have hext : oddnessHost.registry.Extends Standard.registry :=
    Standard.extends_registry [.function oddness]
  obtain ⟨⟨fuel, hfuel⟩, ⟨fuel', hfuel'⟩, hequal⟩ :=
    execute_overConcatenation hext rfl hp hq hxs hys
  obtain ⟨y, hy⟩ := Option.isSome_iff_exists.1 hfuel
  obtain ⟨y', hy'⟩ := Option.isSome_iff_exists.1 hfuel'
  exact ⟨fuel, fuel', y, y', hy, hy', hequal fuel fuel' y y' hy hy'⟩

end Machine

end ExprMachine
