import ExprMachine.Proofs.Correctness

/-!
# What evaluations denote

An evaluation carries along whether all functions that have returned are idempotent,
but nothing in an expression can read it. So an evaluation is *steady*
(`Evaluation.Steady`): whether it gives a value, and which, is the same wherever it
begins. All evaluations of expressions are (`Expr.steady_eval`).

A steady evaluation *denotes* at most one value (`Evaluation.Denotes`), and what a
composed one denotes is told by what its parts denote, although the later ones do not
begin where the first one began (`Evaluation.denotes_bind_iff`). The value that an
expression denotes is the one that its program returns (`Machine.returns_iff_denotes`).
-/

namespace ExprMachine

namespace Evaluation

variable {α β : Type}

/-- What an evaluation comes to, without its state. -/
def outcome (ev : Evaluation α) (all : Bool) : Except EvalError α :=
  match ev all with
  | .ok a _ => .ok a
  | .error e _ => .error e

/-- The outcome of an evaluation is the same wherever it begins. -/
class Steady (ev : Evaluation α) : Prop where
  outcome_eq : ∀ all all', ev.outcome all = ev.outcome all'

/-- The evaluation gives a value, wherever it begins. -/
def Denotes (ev : Evaluation α) (a : α) : Prop := ∀ all, ev.outcome all = .ok a

section

variable {x : Evaluation α} {f : α → Evaluation β} {all : Bool}

theorem outcome_bind_of_ok {a : α} {all' : Bool} (h : x all = .ok a all') :
    (x >>= f).outcome all = (f a).outcome all' := by
  show (match EStateM.bind x f all with | .ok b _ => _ | .error e _ => _) = _
  rw [EStateM.bind, h]
  rfl

theorem outcome_bind_of_error {e : EvalError} {all' : Bool} (h : x all = .error e all') :
    (x >>= f).outcome all = .error e := by
  show (match EStateM.bind x f all with | .ok b _ => _ | .error e _ => _) = _
  rw [EStateM.bind, h]

/-- An evaluation comes to a value if it gives the value in some state. -/
theorem outcome_eq_ok_iff {a : α} : x.outcome all = .ok a ↔ ∃ all', x all = .ok a all' := by
  rw [outcome]
  cases x all <;> simp

end

/-! ## Steady evaluations -/

instance (a : α) : Steady (pure a : Evaluation α) where
  outcome_eq _ _ := rfl

instance (x : Evaluation α) (f : α → Evaluation β) [hx : Steady x] [∀ a, Steady (f a)] :
    Steady (x >>= f) where
  outcome_eq all all' := by
    have hx := hx.outcome_eq all all'
    unfold outcome at hx
    -- The first part comes to the same from both states, though it may leave others.
    rcases h : x all with ⟨a, c⟩ | ⟨e, c⟩ <;> rcases h' : x all' with ⟨a', c'⟩ | ⟨e', c'⟩ <;>
      rw [h, h'] at hx <;> cases hx
    · rw [outcome_bind_of_ok h, outcome_bind_of_ok h']
      exact Steady.outcome_eq _ _
    · rw [outcome_bind_of_error h, outcome_bind_of_error h']

instance (r : Except EvalError α) : Steady (ofResult r) where
  outcome_eq _ _ := by cases r <;> rfl

instance (role : ConditionRole) (span : Span) (v : Value) : Steady (condition role span v) where
  outcome_eq _ _ := by cases v <;> rfl

instance (h : Host) (op : UnaryOperator) (v : Value) (span : Span) :
    Steady (unary h op v span) := by
  unfold unary
  split <;> exact inferInstance

instance (c : Prop) [Decidable c] (x y : Evaluation α) [Steady x] [Steady y] :
    Steady (if c then x else y) := by
  split <;> assumption

instance (h : Host) (op : BinaryOperator) (left right : Evaluation Value) (span : Span)
    [Steady left] [Steady right] : Steady (binary h op left right span) := by
  rw [binary]
  exact inferInstance

/-- A call changes the state, but what it comes to is what the function gives. -/
theorem outcome_call (h : Host) (function : String) (args : List Value) (span : Span) (all : Bool) :
    (call h function args span).outcome all =
      (h.registry.call function args span).map Prod.fst := by
  rw [call]
  rcases h.registry.call function args span with e | r <;> rfl

instance (h : Host) (function : String) (args : List Value) (span : Span) :
    Steady (call h function args span) where
  outcome_eq _ _ := by rw [outcome_call, outcome_call]

section

variable (test : Value → Evaluation Bool) [∀ v, Steady (test v)]

instance (items : List Value) : Steady (allOf test items) := by
  induction items with
  | nil => exact inferInstanceAs (Steady (pure true))
  | cons v rest ih =>
    rw [allOf]
    exact inferInstance

instance (items : List Value) : Steady (someOf test items) := by
  induction items with
  | nil => exact inferInstanceAs (Steady (pure false))
  | cons v rest ih =>
    rw [someOf]
    exact inferInstance

theorem steady_oneOf (items : List Value) (found : Bool) : Steady (oneOf test found items) := by
  induction items generalizing found with
  | nil => exact inferInstanceAs (Steady (pure found))
  | cons v rest ih =>
    have := ih found
    have := ih true
    rw [oneOf]
    exact inferInstance

instance (found : Bool) (items : List Value) : Steady (oneOf test found items) :=
  steady_oneOf test items found

end

instance (f : Value → Evaluation (Option Value)) [∀ v, Steady (f v)] (items : List Value) :
    Steady (collect f items) := by
  induction items with
  | nil => exact inferInstanceAs (Steady (pure []))
  | cons v rest ih =>
    rw [collect]
    exact inferInstance

/-- A comprehension is steady if its clauses are, whatever is bound. -/
theorem steady_comprehend (env : Environment) (x : String) (form : Comprehension Clause)
    (h : ∀ c ∈ form.bodies, ∀ env, Steady (c.eval env)) (items : List Value) :
    Steady (comprehend env x form items) := by
  cases form with
  | filterTransform p b =>
    have := h p List.mem_cons_self
    have := h b (List.mem_cons_of_mem p (List.mem_singleton_self b))
    rw [comprehend]
    exact inferInstance
  | all p | «exists» p | existsOne p | filter p | transform p =>
    have := h p (List.mem_singleton_self p)
    rw [comprehend]
    exact inferInstance

end Evaluation

open Evaluation

theorem steady_evalAll (h : Host) (macros : Bool) (env : Environment) (es : List Expr)
    (ih : ∀ e ∈ es, Steady (e.eval h macros env)) : Steady (evalAll h macros es env) := by
  induction es with
  | nil => exact inferInstanceAs (Steady (pure []))
  | cons e rest ihRest =>
    have := ih e List.mem_cons_self
    have := ihRest fun a ha => ih a (List.mem_cons_of_mem e ha)
    rw [evalAll]
    exact inferInstance

/-- The evaluation of every expression is steady. -/
instance Expr.steady_eval (h : Host) (macros : Bool) (e : Expr) (env : Environment) :
    Steady (e.eval h macros env) := by
  induction e using Expr.induct generalizing env with
  | step e ih =>
    cases e with
    | literal l s => exact inferInstanceAs (Steady (pure l.value))
    | ident name s =>
      rw [eval]
      split
      · exact inferInstance
      · exact inferInstanceAs (Steady (ofResult (.error _)))
    | list items s =>
      have := steady_evalAll h macros env items fun a ha => ih a ha env
      rw [eval]
      exact inferInstance
    | map entries s =>
      have : Steady (evalAll h macros (entries.flatMap fun p => [p.1, p.2]) env) :=
        steady_evalAll h macros env _ fun a ha => ih a ha env
      rw [eval, evalEntries_eq]
      exact inferInstance
    | message typeName fields s =>
      have : Steady (evalAll h macros (fields.map Prod.snd) env) :=
        steady_evalAll h macros env _ fun a ha => ih a ha env
      rw [eval, evalFields_eq]
      exact inferInstance
    | unary op operand s =>
      have := ih operand (by simp [parts]) env
      rw [eval]
      exact inferInstance
    | binary op left right s =>
      have := ih left (by simp [parts]) env
      have := ih right (by simp [parts]) env
      rw [eval]
      exact inferInstance
    | conditional c whenTrue whenFalse s =>
      have := ih c (by simp [parts]) env
      have := ih whenTrue (by simp [parts]) env
      have := ih whenFalse (by simp [parts]) env
      rw [eval]
      exact inferInstance
    | member operand field s =>
      have := ih operand (by simp [parts]) env
      rw [eval]
      exact inferInstance
    | index operand position s =>
      have := ih operand (by simp [parts]) env
      have := ih position (by simp [parts]) env
      rw [eval]
      exact inferInstance
    | call function args s =>
      rw [eval_call]
      split
      · rename_i operand field hp
        have := ih operand (mem_parts_of_presence? hp) env
        exact inferInstance
      · have := steady_evalAll h macros env args fun a ha => ih a (List.mem_append_left _ ha) env
        exact inferInstance
    | method target function args s =>
      have := ih target List.mem_cons_self env
      rw [eval_method]
      split
      · rename_i x form hf
        have := steady_comprehend env x (form.map (clause h macros)) fun c hc env' => by
          obtain ⟨e, he, rfl⟩ := Comprehension.mem_bodies_map hc
          exact ih e (List.mem_cons_of_mem _ (mem_args_of_loop? hf e he)) env'
        exact inferInstance
      · have := steady_evalAll h macros env args fun a ha => ih a (List.mem_cons_of_mem _ ha) env
        exact inferInstance
    | paren inner s => exact ih inner (by simp [parts]) env

/-! ## Denoted values -/

namespace Evaluation

variable {α β : Type} {x : Evaluation α} {f : α → Evaluation β} {a b : α}

/-- An evaluation denotes one value at most. -/
theorem Denotes.eq (ha : x.Denotes a) (hb : x.Denotes b) : a = b :=
  Except.ok.inj ((ha true).symm.trans (hb true))

/-- A steady evaluation denotes what it gives once. -/
theorem denotes_of_outcome [Steady x] {all : Bool} (h : x.outcome all = .ok a) : x.Denotes a :=
  fun all' => (Steady.outcome_eq all' all).trans h

/-- What comes second denotes from where the first has led as from anywhere. -/
theorem Denotes.bind {b : β} (hx : x.Denotes a) (hf : (f a).Denotes b) :
    (x >>= f).Denotes b := by
  intro all
  obtain ⟨all', h⟩ := outcome_eq_ok_iff.1 (hx all)
  rw [outcome_bind_of_ok h]
  exact hf all'

theorem denotes_pure_iff : (pure a : Evaluation α).Denotes b ↔ a = b :=
  ⟨fun h => Except.ok.inj (h true), by rintro rfl _; rfl⟩

theorem denotes_ofResult_iff {r : Except EvalError α} : (ofResult r).Denotes a ↔ r = .ok a := by
  cases r with
  | ok b => simp [Denotes, ofResult, outcome, pure, EStateM.pure]
  | error e => exact ⟨fun h => (nomatch h true), nofun⟩

/-- What two evaluations one after the other denote. -/
theorem denotes_bind_iff [Steady x] [∀ a, Steady (f a)] {b : β} :
    (x >>= f).Denotes b ↔ ∃ a, x.Denotes a ∧ (f a).Denotes b := by
  refine ⟨fun h => ?_, fun ⟨a, ha, hb⟩ => ha.bind hb⟩
  have hbind := h true
  rcases hx : x true with ⟨a, all'⟩ | ⟨e, all'⟩
  · rw [outcome_bind_of_ok hx] at hbind
    exact ⟨a, denotes_of_outcome (outcome_eq_ok_iff.2 ⟨_, hx⟩), denotes_of_outcome hbind⟩
  · rw [outcome_bind_of_error hx] at hbind
    cases hbind

end Evaluation

/-! ## Programs -/

/-- The result of an execution is the outcome of the evaluation. -/
theorem Evaluation.result_execution (ev : Evaluation Value) (env : Environment) :
    (ev.execution env).result = ev.outcome true := by
  rw [execution, outcome]
  rcases ev true with ⟨v, c⟩ | ⟨err, c⟩ <;> rfl

namespace Machine

/-- The machine's program comes to an end with a value. -/
def Returns (m : Machine) (env : Environment) (v : Value) : Prop :=
  ∃ fuel x, m.execute fuel env = some x ∧ x.result = .ok v

variable {m : Machine} {options : CompileOptions} {e : Expr} {env : Environment} {v : Value}

/-- The program of an expression returns the value that the expression denotes. -/
theorem returns_iff_denotes (h : compile options e = .ok m.program) :
    m.Returns env v ↔ (e.eval m.toHost options.macros env).Denotes v := by
  constructor
  · rintro ⟨fuel, x, hx, hv⟩
    rw [execute_eq_execution h hx, result_execution] at hv
    exact denotes_of_outcome hv
  · intro hv
    obtain ⟨fuel, hfuel⟩ := exists_execute_eq h env
    exact ⟨fuel, _, hfuel, (result_execution _ env).trans (hv true)⟩

end Machine

end ExprMachine
