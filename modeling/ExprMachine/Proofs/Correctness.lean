import ExprMachine.Proofs.Loops

/-!
# Programs compute the values of their expressions

The code of every expression computes the value of the expression
(`Machine.computes_lower`), by induction on the expression with one statement
for each construct. The program of an expression returns what its code has
computed. So every execution of the program comes to an end, the same within
all sufficient bounds, and what is left then is what evaluating the expression
leaves (`Machine.exists_execute_eq`).
-/

namespace ExprMachine

open Build Evaluation

/-- What an evaluation leaves in an environment. -/
def Evaluation.execution (ev : Evaluation Value) (env : Environment) : Execution :=
  match ev true with
  | .ok v all => ⟨.ok v, all, env⟩
  | .error e all => ⟨.error e, all, env⟩

theorem length_lowerAll (macros : Bool) (es : List Expr) (d : Draft) :
    (lowerAll macros es d).value.length = es.length := by
  induction es generalizing d with
  | nil => rfl
  | cons e rest ih => exact congrArg (· + 1) (ih (e.lower macros d).draft)

namespace Machine

variable (m : Machine) {macros : Bool}

variable {m} in
theorem Computes.congr {x : Build Nat} {ev ev' : Environment → Evaluation Value}
    (h : m.Computes x ev) (hev : ∀ env, ev' env = ev env) : m.Computes x ev' := by
  obtain rfl : ev' = ev := funext hev
  exact h

variable {m} in
/-- A comprehension computes what it evaluates to, if its bodies do. -/
theorem Computes.comprehend {target : Build Nat} {ev : Environment → Evaluation Value}
    {form : Comprehension Expr} [Valued target] (hx : m.Computes target ev)
    (hform : ∀ e ∈ form.bodies, m.Computes (e.lower macros) (e.eval m.toHost macros))
    (x : String) (span : Span) :
    m.Computes (Lowering.comprehension target x (form.map (Expr.body macros)) span) (fun env => do
      let items ← ofResult ((← ev env).items span)
      Evaluation.comprehend env x (form.map (Expr.clause m.toHost macros)) items) := by
  have hlawful := lawful_bodies macros form
  have hvalued (e : Expr) : Valued (e.body macros).build := Expr.valued_lower macros e
  have hmem : ∀ e ∈ form.bodies, m.Computes (e.body macros).build (e.eval m.toHost macros) := hform
  -- Every form has its own state, which a turn changes as the code of the body changes the register
  -- for the result.
  cases form with
  | all p =>
    have hp := hmem p (List.mem_singleton_self p)
    exact .comprehension hlawful hx (fun env => rounds_seek hp false) fun env items =>
      comprehend_all items env x _
  | «exists» p =>
    have hp := hmem p (List.mem_singleton_self p)
    exact .comprehension hlawful hx (fun env => rounds_seek hp true) fun env items =>
      comprehend_exists items env x _
  | existsOne p =>
    have hp := hmem p (List.mem_singleton_self p)
    exact .comprehension hlawful hx (fun env => rounds_existsOne hp) fun env items =>
      comprehend_existsOne items env x _
  | filter p =>
    have hp := hmem p (List.mem_singleton_self p)
    exact .comprehension hlawful hx (fun env => rounds_filter hp) fun env items =>
      comprehend_filter items env x _
  | transform b =>
    have hb := hmem b (List.mem_singleton_self b)
    exact .comprehension hlawful hx (fun env => rounds_transform hb) fun env items =>
      comprehend_transform items env x _
  | filterTransform p b =>
    have hp := hmem p List.mem_cons_self
    have hb := hmem b (List.mem_cons_of_mem p (List.mem_singleton_self b))
    exact .comprehension hlawful hx (fun env => rounds_filterTransform hp hb) fun env items =>
      comprehend_filterTransform items env x _ _

theorem computesAll_lowerAll (es : List Expr)
    (h : ∀ e ∈ es, m.Computes (e.lower macros) (e.eval m.toHost macros)) :
    m.ComputesAll (lowerAll macros es) (evalAll m.toHost macros es) := by
  induction es with
  | nil => exact computesAll_nil
  | cons e rest ih =>
    have hrest := ih fun a ha => h a (List.mem_cons_of_mem e ha)
    exact .cons (h e List.mem_cons_self) hrest

/-- The code of every expression computes the value of the expression. -/
theorem computes_lower (e : Expr) : m.Computes (e.lower macros) (e.eval m.toHost macros) := by
  induction e using Expr.induct with
  | step e ih =>
    cases e with
    | literal l s => exact computes_literal l s
    | ident name s => exact computes_ident name s
    | list items s => exact (computesAll_lowerAll m items ih).list s
    | map entries s =>
      have hes := computesAll_lowerAll m
        (entries.flatMap fun p : Expr × Expr => [p.1, p.2]) ih
      rw [Expr.lower, lowerEntries_eq]
      refine (hes.map entries.length (fun d => ?_) s).congr fun env => ?_
      · rw [length_lowerAll, length_flatMap_pair]
      · rw [Expr.eval, evalEntries_eq]
    | message typeName fields s =>
      have hes := computesAll_lowerAll m (fields.map Prod.snd) ih
      rw [Expr.lower, lowerFields_eq]
      refine (hes.message (fields.map Prod.fst) (fun d => ?_) typeName s).congr fun env => ?_
      · rw [length_lowerAll, List.length_map, List.length_map]
      · rw [Expr.eval, evalFields_eq]
    | unary op operand s => exact (ih operand (by simp [Expr.parts])).unary op s
    | binary op left right s =>
      have hleft := ih left (by simp [Expr.parts])
      have hright := ih right (by simp [Expr.parts])
      rw [Expr.lower]
      split
      · rename_i hop
        exact hleft.shortCircuit hright hop s
      · rename_i hop
        exact hleft.strict hright hop s
    | conditional c whenTrue whenFalse s =>
      have hc := ih c (by simp [Expr.parts])
      have : Valued (Body.mk (c.lower macros) c.span).build := Expr.valued_lower macros c
      exact Computes.choose ⟨c.lower macros, c.span⟩ hc
        (ih whenTrue (by simp [Expr.parts])) (ih whenFalse (by simp [Expr.parts])) s
    | member operand field s => exact (ih operand (by simp [Expr.parts])).memberAccess field s
    | index operand position s =>
      exact (ih operand (by simp [Expr.parts])).index (ih position (by simp [Expr.parts])) s
    | call function args s =>
      rw [Expr.lower_call]
      refine Computes.congr ?_ (Expr.eval_call m.toHost macros function args s)
      split
      · -- The operand is not an argument, but what an argument selects from.
        rename_i operand field hp
        exact (ih operand (Expr.mem_parts_of_presence? hp)).hasField field s
      · have hargs := computesAll_lowerAll m args fun a ha => ih a (List.mem_append_left _ ha)
        exact hargs.call function s
    | method target function args s =>
      have htarget := ih target List.mem_cons_self
      rw [Expr.lower_method]
      refine Computes.congr ?_ (Expr.eval_method m.toHost macros function args s target)
      split
      · rename_i x form hf
        refine htarget.comprehend (fun e he => ?_) x s
        exact ih e (List.mem_cons_of_mem _ (Expr.mem_args_of_loop? hf e he))
      · have hargs := computesAll_lowerAll m args fun a ha => ih a (List.mem_cons_of_mem target ha)
        have hcall := (ComputesAll.cons htarget hargs).call function s
        simp only [bind_assoc, pure_bind] at hcall
        exact hcall
    | paren inner s => exact ih inner (by simp [Expr.parts])

/-! ## Executions -/

variable {m} {options : CompileOptions} {e : Expr}

/-- Every execution of the program of an expression comes to an end, and leaves
    what evaluating the expression leaves. -/
theorem exists_execute_eq (h : compile options e = .ok m.program) (env : Environment) :
    ∃ fuel, m.execute fuel env = some ((e.eval m.toHost options.macros env).execution env) := by
  suffices ∃ fuel r, m.run fuel (State.start m.program env) = some r ∧
      Execution.ofResult r = (e.eval m.toHost options.macros env).execution env by
    obtain ⟨fuel, r, hr, hx⟩ := this
    exact ⟨fuel, by rw [execute_eq, hr, Option.map_some, hx]⟩
  have hl := loads_of_compile h
  have hready : m.Ready {} ⟨env, 0⟩ (State.start m.program env) :=
    ⟨rfl, Array.size_replicate, rfl, rfl⟩
  have hf := computes_lower m e {} ⟨env, 0⟩ _ hl.left hready
  cases hev : e.eval m.toHost options.macros env true with
  | error err all =>
    -- The code has failed, and the scopes that it has entered are left.
    obtain ⟨t, u, hr, hstep, hall, hu⟩ := hf.of_error hev
    have hrun : m.run 1 t = some (.error err u) := by rw [run, hstep]
    obtain ⟨fuel, hfuel⟩ := run_of_reaches hr hrun
    refine ⟨fuel, _, hfuel, ?_⟩
    have henv : u.env.popMany u.openScopes = env := hu.env
    rw [Evaluation.execution, hev, Execution.ofResult, hall, henv]
  | ok v all =>
    -- The last record returns what the code has computed.
    obtain ⟨t, hr, hall, hy⟩ := hf.of_ok hev
    have hi : m.Emits _ _ t .return 0 _ 0 0 e.span :=
      .of_holds hl.right.holds hl.right.covers hy.ready
    have hrun : m.run 1 t =
        some (.ok v (t.advance.release (.ofNat (e.lower options.macros {}).value))) := by
      rw [run, hi.record.return_eq hy.has.held]
    obtain ⟨fuel, hfuel⟩ := run_of_reaches hr hrun
    refine ⟨fuel, _, hfuel, ?_⟩
    have henv : t.env.popMany t.openScopes = env := by rw [hy.ready.openScopes, hy.ready.env]; rfl
    rw [Evaluation.execution, hev, Execution.ofResult]
    show Execution.mk _ t.idempotent (t.env.popMany t.openScopes) = _
    rw [hall, henv]

/-- An execution of the program of an expression that comes to an end leaves what
    evaluating the expression leaves, the same value or the same error. -/
theorem execute_eq_execution (h : compile options e = .ok m.program) {fuel : Nat}
    {env : Environment} {x : Execution} (hx : m.execute fuel env = some x) :
    x = (e.eval m.toHost options.macros env).execution env := by
  obtain ⟨k, hk⟩ := exists_execute_eq h env
  exact execute_unique hx hk

/-- The expression `[false, true].all(x, !x) ? 1 : y`. -/
def choiceOfAll : Expr :=
  .conditional
    (.method (.list [.literal (.bool false) ⟨1, 6⟩, .literal (.bool true) ⟨8, 12⟩] ⟨0, 13⟩) "all"
      [.ident "x" ⟨18, 19⟩, .unary .not (.ident "x" ⟨22, 23⟩) ⟨21, 23⟩] ⟨0, 24⟩)
    (.literal (.int 1) ⟨27, 28⟩) (.ident "y" ⟨31, 32⟩) ⟨0, 32⟩

/-- A machine without any operations that executes the program of an assembly. -/
def bare (a : Assembly) : Machine where
  registry := RegistryBuilder.empty.build
  program := a.toProgram

/-- The second item decides, and the other branch names a variable that is not
    there. -/
theorem execute_choiceOfAll :
    compile {} choiceOfAll = .ok (bare (choiceOfAll.assembly true)).program ∧
      ∃ x, (bare (choiceOfAll.assembly true)).execute 30 {} = some x ∧
        x.result = .error ⟨⟨31, 32⟩, .noSuchVariable "y"⟩ := by
  have hcompile : compile {} choiceOfAll = .ok (bare (choiceOfAll.assembly true)).program :=
    compile_of_fits (by decide +kernel)
  have hends : ((bare (choiceOfAll.assembly true)).execute 30 {}).isSome := by decide +kernel
  obtain ⟨x, hx⟩ := Option.isSome_iff_exists.1 hends
  refine ⟨hcompile, x, hx, ?_⟩
  -- No operation is called, so the value is the same for every host.
  have heval (h : Host) : ((choiceOfAll.eval h true {}).execution {}).result =
      .error ⟨⟨31, 32⟩, .noSuchVariable "y"⟩ := by rfl
  rw [execute_eq_execution hcompile hx]
  exact heval _

/-- The execution of the program of an expression comes to an end: it does so
    within a bound and all larger ones, and no steps go on for as long. -/
theorem exists_bound_of_compile (h : compile options e = .ok m.program) (env : Environment) :
    ∃ fuel, (∀ k, fuel ≤ k → (m.run k (State.start m.program env)).isSome) ∧
      ∀ trace : Nat → State, trace 0 = State.start m.program env →
        ∃ n < fuel, m.step (trace n) ≠ .ok none (trace (n + 1)) := by
  obtain ⟨fuel, hfuel⟩ := exists_execute_eq h env
  obtain ⟨r, hr, -⟩ := exists_run_of_execute hfuel
  refine ⟨fuel, fun k hk => by rw [run_mono hr hk]; rfl, fun trace htrace => ?_⟩
  -- Steps that went on up to the bound would leave no result within it.
  by_contra hstop
  have hgo : ∀ n < fuel, m.step (trace n) = .ok none (trace (n + 1)) :=
    fun n hn => by_contra fun hne => hstop ⟨n, hn, hne⟩
  have hnone := run_trace trace hgo
  rw [htrace, hr] at hnone
  cases hnone

/-- The expression `[[true], [false]].map(x, x.exists(y, y))`. -/
def mapOfExists : Expr :=
  .method (.list [.list [.literal (.bool true) ⟨2, 6⟩] ⟨1, 7⟩,
      .list [.literal (.bool false) ⟨10, 15⟩] ⟨9, 16⟩] ⟨0, 17⟩) "map"
    [.ident "x" ⟨22, 23⟩, .method (.ident "x" ⟨25, 26⟩) "exists"
      [.ident "y" ⟨34, 35⟩, .ident "y" ⟨37, 38⟩] ⟨25, 39⟩] ⟨0, 40⟩

/-- A loop in a loop, with an early exit. -/
theorem exists_bound_mapOfExists :
    compile {} mapOfExists = .ok (bare (mapOfExists.assembly true)).program ∧
      ∃ fuel, ∀ k, fuel ≤ k → ((bare (mapOfExists.assembly true)).run k
        (State.start (bare (mapOfExists.assembly true)).program {})).isSome := by
  have hcompile : compile {} mapOfExists = .ok (bare (mapOfExists.assembly true)).program :=
    compile_of_fits (by decide +kernel)
  obtain ⟨fuel, hfuel, -⟩ := exists_bound_of_compile hcompile {}
  exact ⟨hcompile, fuel, hfuel⟩

end Machine

end ExprMachine
