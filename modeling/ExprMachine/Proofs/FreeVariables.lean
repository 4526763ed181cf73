import ExprMachine.Proofs.Correctness

/-!
# Free variables

The *free variables* of an expression are those that it reads from the
environment in which it is evaluated (`Expr.free`). A comprehension binds its
variable in its bodies but not in its target, and the argument that names the
variable is not read at all.

An expression has the same value in all environments that agree on its free
variables, whatever their scopes are (`Expr.eval_congr`). The scope that a
comprehension enters keeps them in agreement: a variable inside it is the
comprehension's own or one of those outside (`Environment.get?_bind_push`). So
programs of expressions see no more of an environment than this either
(`Machine.execute_congr`).
-/

namespace ExprMachine

mutual

/-- The free variables of an expression. -/
def Expr.free (macros : Bool) : Expr → List String
  | .literal _ _ => []
  | .ident name _ => [name]
  | .list items _ => (freeEach macros items).flatten
  | .map entries _ => freeEntries macros entries
  | .message _ fields _ => freeFields macros fields
  | .unary _ operand _ => operand.free macros
  | .binary _ left right _ => left.free macros ++ right.free macros
  | .conditional c whenTrue whenFalse _ =>
    c.free macros ++ whenTrue.free macros ++ whenFalse.free macros
  | .member operand _ _ => operand.free macros
  | .index operand position _ => operand.free macros ++ position.free macros
  | .call _ args _ => (freeEach macros args).flatten
  | .method target function args _ =>
    match if macros then Comprehension.ofCall? function args.head? (freeEach macros args).tail
      else none with
    | some (x, form) => target.free macros ++ form.bodies.flatten.filter (· ≠ x)
    | none => target.free macros ++ (freeEach macros args).flatten
  | .paren inner _ => inner.free macros

/-- The free variables of each expression of a list. -/
def freeEach (macros : Bool) : List Expr → List (List String)
  | [] => []
  | e :: rest => e.free macros :: freeEach macros rest

/-- The free variables of keys and values. -/
def freeEntries (macros : Bool) : List (Expr × Expr) → List String
  | [] => []
  | (key, value) :: rest => key.free macros ++ value.free macros ++ freeEntries macros rest

/-- The free variables of the values of fields. -/
def freeFields (macros : Bool) : List (String × Expr) → List String
  | [] => []
  | (_, value) :: rest => value.free macros ++ freeFields macros rest

end

namespace Environment

variable (env : Environment) (x : String) (v : Value)

/-- A binding in a new scope shadows the variable and no other. -/
theorem get?_bind_push (y : String) :
    (env.push.bind x v).get? y = if x = y then some v else env.get? y := by
  by_cases h : x = y
  · simp [push, bind, get?, Entries.insert, Entries.get?, h]
  · simp [push, bind, get?, Entries.insert, Entries.get?, h]

theorem get?_bind_push_self : (env.push.bind x v).get? x = some v := by
  rw [get?_bind_push, if_pos rfl]

theorem get?_bind_push_of_ne {y : String} (h : x ≠ y) :
    (env.push.bind x v).get? y = env.get? y := by
  rw [get?_bind_push, if_neg h]

/-- Two environments give the same answer for each of some variables. -/
def AgreeOn (xs : List String) (env env' : Environment) : Prop :=
  ∀ x ∈ xs, env.get? x = env'.get? x

variable {env} {env' : Environment} {xs ys : List String}

theorem AgreeOn.subset (h : AgreeOn xs env env') (hsub : ys ⊆ xs) : AgreeOn ys env env' :=
  fun y hy => h y (hsub hy)

theorem AgreeOn.of_mem {α : Type} {f : α → List String} {as : List α} {a : α}
    (h : AgreeOn (as.flatMap f) env env') (ha : a ∈ as) : AgreeOn (f a) env env' :=
  h.subset fun _ hy => List.mem_flatMap.2 ⟨a, ha, hy⟩

/-- Environments that agree but for a variable agree once it is bound in a new
    scope. -/
theorem AgreeOn.bind_push (h : AgreeOn (xs.filter (· ≠ x)) env env') :
    AgreeOn xs (env.push.bind x v) (env'.push.bind x v) := by
  intro y hy
  rw [get?_bind_push, get?_bind_push]
  split
  · rfl
  · rename_i hne
    exact h y (List.mem_filter.2 ⟨hy, by simpa using Ne.symm hne⟩)

end Environment

/-! ## The free variables of the parts -/

section

variable (macros : Bool)

theorem freeEach_eq (es : List Expr) : freeEach macros es = es.map (Expr.free macros) := by
  induction es with
  | nil => rfl
  | cons e rest ih => simp only [freeEach, List.map_cons, ih]

theorem freeEntries_eq (entries : List (Expr × Expr)) :
    freeEntries macros entries =
      (entries.flatMap fun p => [p.1, p.2]).flatMap (Expr.free macros) := by
  induction entries with
  | nil => rfl
  | cons p rest ih => simp [freeEntries, ih]

theorem freeFields_eq (fields : List (String × Expr)) :
    freeFields macros fields = (fields.map Prod.snd).flatMap (Expr.free macros) := by
  induction fields with
  | nil => rfl
  | cons p rest ih => simp [freeFields, ih]

namespace Expr

variable {macros}

/-- What an expression selects from has its free variables. -/
theorem free_of_selected? {e operand : Expr} {field : String}
    (h : e.selected? = some (operand, field)) : operand.free macros = e.free macros := by
  fun_induction selected? e with
  | case1 inner s ih => rw [free, ih h]
  | case2 operand field s =>
    cases h
    rw [free]
  | case3 => cases h

variable (macros) (target : Expr) (function : String) (args : List Expr) (s : Span)

theorem free_method : (method target function args s).free macros = target.free macros ++
    (match loop? macros function args with
    | some (x, form) => (form.bodies.flatMap (free macros)).filter (· ≠ x)
    | none => args.flatMap (free macros)) := by
  rw [free, freeEach_eq, ← List.map_tail, Comprehension.ofCall?_map, loop?]
  cases macros with
  | false => simp [List.flatMap]
  | true =>
    cases Comprehension.ofCall? function args.head? args.tail with
    | none => simp [List.flatMap]
    | some p =>
      obtain ⟨x, form⟩ := p
      cases form <;> simp [Comprehension.map, Comprehension.bodies]

end Expr

end

/-! ## Evaluation -/

section

open Evaluation Environment

variable (h : Host) {macros : Bool} {env env' : Environment}

/-- A comprehension evaluates to the same in two environments if its bodies do
    for every item. -/
theorem Evaluation.comprehend_congr {x : String} {form : Comprehension Clause}
    (hform : ∀ c ∈ form.bodies, ∀ v, c.eval (env.push.bind x v) = c.eval (env'.push.bind x v))
    (items : List Value) : comprehend env x form items = comprehend env' x form items := by
  cases form with
  | filterTransform p b =>
    have hp := hform p List.mem_cons_self
    have hb := hform b (List.mem_cons_of_mem p (List.mem_singleton_self b))
    simp only [comprehend, hp, hb]
  | all p | «exists» p | existsOne p | filter p | transform p =>
    have hp := hform p (List.mem_singleton_self p)
    simp only [comprehend, hp]

variable {h}

/-- Evaluating expressions one after another gives the same where each gives the
    same. -/
theorem evalAll_congr {es : List Expr}
    (ih : ∀ e ∈ es, AgreeOn (e.free macros) env env' →
      e.eval h macros env = e.eval h macros env')
    (hagree : AgreeOn (es.flatMap (Expr.free macros)) env env') :
    evalAll h macros es env = evalAll h macros es env' := by
  induction es with
  | nil => rfl
  | cons e rest ihRest =>
    have he := ih e List.mem_cons_self (hagree.of_mem List.mem_cons_self)
    have hrest := ihRest (fun a ha => ih a (List.mem_cons_of_mem e ha)) fun x hx =>
      hagree x (List.mem_append_right _ hx)
    rw [evalAll, evalAll, he, hrest]

variable (h)

/-- Evaluating an expression gives the same in all environments that agree on its
    free variables. -/
theorem Expr.eval_congr (e : Expr) (hagree : AgreeOn (e.free macros) env env') :
    e.eval h macros env = e.eval h macros env' := by
  induction e using Expr.induct generalizing env env' with
  | step e ih =>
    -- A part whose free variables are among those of the whole evaluates to the same.
    have hpart : ∀ p ∈ e.parts, p.free macros ⊆ e.free macros →
        p.eval h macros env = p.eval h macros env' :=
      fun p hp hsub => ih p hp (hagree.subset hsub)
    cases e with
    | literal l s => rfl
    | ident name s => rw [eval, eval, hagree name (by simp [free])]
    | list items s =>
      rw [free, freeEach_eq] at hagree
      have hitems : evalAll h macros items env = evalAll h macros items env' :=
        evalAll_congr (fun e he => ih e he) hagree
      rw [eval, eval, hitems]
    | map entries s =>
      rw [free, freeEntries_eq] at hagree
      have hentries : evalAll h macros (entries.flatMap fun p => [p.1, p.2]) env =
          evalAll h macros (entries.flatMap fun p => [p.1, p.2]) env' :=
        evalAll_congr (fun e he => ih e he) hagree
      rw [eval, eval, evalEntries_eq, hentries]
    | message typeName fields s =>
      rw [free, freeFields_eq] at hagree
      have hfields : evalAll h macros (fields.map Prod.snd) env =
          evalAll h macros (fields.map Prod.snd) env' :=
        evalAll_congr (fun e he => ih e he) hagree
      rw [eval, eval, evalFields_eq, hfields]
    | unary op operand s =>
      rw [eval, eval, hpart operand (by simp [parts]) (by simp [free])]
    | binary op left right s =>
      rw [eval, eval, hpart left (by simp [parts]) (by simp [free]),
        hpart right (by simp [parts]) (by simp [free])]
    | conditional c whenTrue whenFalse s =>
      rw [eval, eval, hpart c (by simp [parts]) (by simp [free]),
        hpart whenTrue (by simp [parts]) (by simp [free]),
        hpart whenFalse (by simp [parts]) (by simp [free])]
    | member operand field s =>
      rw [eval, eval, hpart operand (by simp [parts]) (by simp [free])]
    | index operand position s =>
      rw [eval, eval, hpart operand (by simp [parts]) (by simp [free]),
        hpart position (by simp [parts]) (by simp [free])]
    | call function args s =>
      rw [free, freeEach_eq] at hagree
      rw [eval_call, eval_call]
      split
      · rename_i operand field hp
        obtain ⟨a, ha, hsel⟩ := selected?_of_presence? hp
        have hfree : AgreeOn (operand.free macros) env env' := by
          rw [free_of_selected? hsel]
          exact AgreeOn.of_mem (f := free macros) hagree ha
        rw [ih operand (mem_parts_of_presence? hp) hfree]
      · rw [evalAll_congr (fun a ha => ih a (List.mem_append_left _ ha)) hagree]
    | method target function args s =>
      have htarget := hpart target List.mem_cons_self (by rw [free_method]; simp)
      rw [free_method] at hagree
      rw [eval_method, eval_method, htarget]
      split
      · rename_i x form hf
        rw [hf] at hagree
        refine bind_congr fun first => bind_congr fun items => comprehend_congr ?_ items
        intro c hc v
        obtain ⟨e, he, rfl⟩ := Comprehension.mem_bodies_map hc
        -- Inside the scope, the variables outside and the one just bound agree.
        have hbodies := (hagree.subset (List.subset_append_right _ _)).bind_push x v
        exact ih e (List.mem_cons_of_mem _ (mem_args_of_loop? hf e he)) (hbodies.of_mem he)
      · rename_i hf
        rw [hf] at hagree
        rw [evalAll_congr (fun a ha => ih a (List.mem_cons_of_mem target ha))
          (hagree.subset (List.subset_append_right _ _))]
    | paren inner s => exact hpart inner (by simp [parts]) (by simp [free])

end

/-! ## Executions -/

namespace Machine

variable {m : Machine} {options : CompileOptions} {e : Expr} {env env' : Environment}

/-- The program of an expression comes to the same result in all environments that
    agree on the free variables of the expression: to the same value or the same
    error, with the same idempotence. -/
theorem execute_congr (h : compile options e = .ok m.program)
    (hagree : Environment.AgreeOn (e.free options.macros) env env') :
    (∃ fuel, (m.execute fuel env).isSome) ∧ (∃ fuel, (m.execute fuel env').isSome) ∧
      ∀ fuel fuel' x x', m.execute fuel env = some x → m.execute fuel' env' = some x' →
        x.result = x'.result ∧ x.idempotent = x'.idempotent := by
  obtain ⟨n, hn⟩ := exists_execute_eq h env
  obtain ⟨n', hn'⟩ := exists_execute_eq h env'
  refine ⟨⟨n, by rw [hn]; rfl⟩, ⟨n', by rw [hn']; rfl⟩, fun fuel fuel' x x' hx hx' => ?_⟩
  rw [execute_unique hx hn, execute_unique hx' hn', Expr.eval_congr m.toHost e hagree]
  unfold Evaluation.execution
  split <;> exact ⟨rfl, rfl⟩

/-- The expression `x.all(x, x) ? y : x`. -/
def choiceOfShadowed : Expr :=
  .conditional
    (.method (.ident "x" ⟨0, 1⟩) "all" [.ident "x" ⟨6, 7⟩, .ident "x" ⟨9, 10⟩] ⟨0, 11⟩)
    (.ident "y" ⟨14, 15⟩) (.ident "x" ⟨18, 19⟩) ⟨0, 19⟩

/-- Two variables in one scope. -/
def flatHost : Environment := .ofVariables [("x", .list [.bool true]), ("y", .int 1)]

/-- The same variables in two scopes, over others that they shadow. -/
def nestedHost : Environment :=
  ((Environment.ofVariables [("x", .null), ("z", .null)]).push.bind "x"
    (.list [.bool true])).push.bind "y" (.int 1)

/-- A variable that names a list outside a comprehension and an item inside it is
    sought in the one environment where it is found in the other. -/
theorem execute_choiceOfShadowed :
    compile {} choiceOfShadowed = .ok (bare (choiceOfShadowed.assembly true)).program ∧
      ∃ x x', (bare (choiceOfShadowed.assembly true)).execute 30 flatHost = some x ∧
        (bare (choiceOfShadowed.assembly true)).execute 30 nestedHost = some x' ∧
        x.result = x'.result ∧ x.idempotent = x'.idempotent := by
  have hcompile : compile {} choiceOfShadowed =
      .ok (bare (choiceOfShadowed.assembly true)).program := compile_of_fits (by decide +kernel)
  have hfree : choiceOfShadowed.free true = ["x", "y", "x"] := by decide
  have hagree : Environment.AgreeOn (choiceOfShadowed.free true) flatHost nestedHost := by
    intro x hx
    rw [hfree] at hx
    rcases List.mem_cons.1 hx with rfl | hx
    · rfl
    · rcases List.mem_cons.1 hx with rfl | hx
      · rfl
      · cases List.mem_singleton.1 hx
        rfl
  have hends : ((bare (choiceOfShadowed.assembly true)).execute 30 flatHost).isSome ∧
      ((bare (choiceOfShadowed.assembly true)).execute 30 nestedHost).isSome := by decide +kernel
  obtain ⟨x, hx⟩ := Option.isSome_iff_exists.1 hends.1
  obtain ⟨x', hx'⟩ := Option.isSome_iff_exists.1 hends.2
  exact ⟨hcompile, x, x', hx, hx', (execute_congr hcompile hagree).2.2 _ _ x x' hx hx'⟩

end Machine

end ExprMachine
