import ExprMachine.Proofs.Correctness
import ExprMachine.Proofs.Footprints

/-!
# Scopes are left as they were

A program may enter scopes, leave them and bind variables in any order, and fail
anywhere. What it does to the scopes of its host shows in the variables that are
left once the scopes that it has entered are left too, at whatever moment that is
(`State.unwound`). A step changes these only if it binds a variable while no scope
of the program is open, and then the change is to the innermost scope alone
(`Machine.scopes_step`).

* So an execution of any program, verified or not, gives the host its scopes back,
  as many as there were and all but the innermost one as they were
  (`Machine.scopes_unwind`).
* The program of an expression binds variables in scopes of its own only: its
  execution leaves the variables of the host alone (`Machine.env_of_compile`).
-/

namespace ExprMachine

/-! ## Environments -/

namespace Environment

variable (env : Environment) (name : String) (v : Value)

/-- The scopes, the innermost first. -/
def scopes : List Scope := env.inner ++ [env.root]

theorem depth_bind : (env.bind name v).depth = env.depth := by
  obtain ⟨root, inner⟩ := env
  cases inner <;> rfl

/-- Binding a variable changes the innermost scope only. -/
theorem tail_scopes_bind : (env.bind name v).scopes.tail = env.scopes.tail := by
  obtain ⟨root, inner⟩ := env
  cases inner <;> rfl

variable {env} {n : Nat}

/-- A variable that is bound in a scope is gone with it. -/
theorem pop_bind (h : 1 < env.depth) : (env.bind name v).pop = env.pop := by
  obtain ⟨root, inner⟩ := env
  cases inner with
  | nil => exact absurd h (Nat.lt_irrefl 1)
  | cons scope rest => rfl

theorem depth_pop (h : 1 < env.depth) : env.pop.depth + 1 = env.depth := by
  obtain ⟨root, inner⟩ := env
  cases inner with
  | nil => exact absurd h (Nat.lt_irrefl 1)
  | cons scope rest => rfl

theorem depth_popMany (h : n < env.depth) : (env.popMany n).depth + n = env.depth := by
  induction n with
  | zero => rfl
  | succ n ih =>
    have hn := ih (Nat.lt_of_succ_lt h)
    have hpop : (env.popMany n).pop.depth + 1 = (env.popMany n).depth := depth_pop (by omega)
    rw [popMany_succ]
    omega

end Environment

/-! ## Steps -/

/-- The variables that are left once the scopes that the program has entered are
    left. -/
def State.unwound (s : State) : Environment := s.env.popMany s.openScopes

namespace Machine

open Exec

variable {m : Machine} {s : State}

/-- The next record binds a variable while no scope of the program is open. -/
structure BindsOutside (m : Machine) (s : State) : Prop where
  opcode : ∃ i, m.program.fetch s.pc = .ok i ∧ i.opcode = .bindVar
  openScopes : s.openScopes = 0
  goes : ∃ t, m.step s = .ok none t

/-- What a step does to the scopes, those of the host and those of the program. -/
structure Scoped (m : Machine) (s t : State) : Prop where
  /-- Every scope more or less is one that is counted. -/
  depth : t.env.depth + s.openScopes = s.env.depth + t.openScopes
  /-- The scopes of the host stay, but for a variable bound in the innermost. -/
  unwound : t.unwound = s.unwound ∨
    m.BindsOutside s ∧ t.unwound.scopes.tail = s.unwound.scopes.tail

theorem Scoped.of_eq {t : State} (henv : t.env = s.env) (hopen : t.openScopes = s.openScopes) :
    m.Scoped s t where
  depth := by rw [henv, hopen]
  unwound := .inl (by rw [State.unwound, henv, hopen, State.unwound])

section

variable {i : Instruction} (hfetch : m.program.fetch s.pc = .ok i) (h : s.openScopes < s.env.depth)
include hfetch

/-- Entering a scope is counted. -/
theorem scoped_push (hop : i.opcode = .scopePush) : m.Scoped s (m.step.final s) := by
  obtain ⟨opcode, dst, a, b, c, k⟩ := i
  obtain rfl : opcode = .scopePush := hop
  have hat : m.At s ⟨.scopePush, dst, a, b, c, k⟩ (m.program.span k) := ⟨hfetch, rfl⟩
  rw [final_ok hat.scopePush]
  exact ⟨Nat.add_right_comm _ 1 _, .inl rfl⟩

include h

/-- Only a scope that the program has entered can be left. -/
theorem scoped_pop (hop : i.opcode = .scopePop) : m.Scoped s (m.step.final s) := by
  obtain ⟨opcode, dst, a, b, c, k⟩ := i
  obtain rfl : opcode = .scopePop := hop
  have hat : m.At s ⟨.scopePop, dst, a, b, c, k⟩ (m.program.span k) := ⟨hfetch, rfl⟩
  by_cases ho : s.openScopes = 0
  · rw [final_error (hat.scopePop_underflow ho)]
    exact .of_eq rfl rfl
  · obtain ⟨n, hn⟩ := Nat.exists_eq_succ_of_ne_zero ho
    have hdepth : s.env.pop.depth + 1 = s.env.depth := Environment.depth_pop (by omega)
    rw [final_ok (hat.scopePop ho)]
    refine ⟨?_, .inl ?_⟩
    · show s.env.pop.depth + s.openScopes = s.env.depth + (s.openScopes - 1)
      omega
    · show s.env.pop.popMany (s.openScopes - 1) = s.env.popMany s.openScopes
      rw [hn]
      rfl

/-- A variable is bound in a scope that the program has entered. -/
theorem scoped_bind (hop : i.opcode = .bindVar) : m.Scoped s (m.step.final s) := by
  obtain ⟨opcode, dst, a, b, c, k⟩ := i
  obtain rfl : opcode = .bindVar := hop
  have hat : m.At s ⟨.bindVar, dst, a, b, c, k⟩ (m.program.span k) := ⟨hfetch, rfl⟩
  cases hname : m.program.string? a with
  | none =>
    have herror : m.step s = .error ⟨m.program.span k, .defect (.stringIndex a)⟩ s.advance := by
      rw [hat.step_eq, perform, stringOperand, hname]
      rfl
    rw [final_error herror]
    exact .of_eq rfl rfl
  | some name =>
    cases hv : s.read? b with
    | none =>
      have herror :
          m.step s = .error ⟨m.program.span k, .defect (.unwrittenRegister b)⟩ s.advance := by
        simp only [hat.step_eq, perform, stringOperand, ofOption_bind _ hname]
        exact bind_error _ (read_error hv)
      rw [final_error herror]
      exact .of_eq rfl rfl
    | some v =>
      have hstep := hat.bindVar hname hv
      rw [final_ok hstep]
      refine ⟨congrArg (· + s.openScopes) (s.env.depth_bind name v), ?_⟩
      by_cases ho : s.openScopes = 0
      · refine .inr ⟨⟨⟨_, hfetch, rfl⟩, ho, _, hstep⟩, ?_⟩
        show ((s.env.bind name v).popMany s.openScopes).scopes.tail =
          (s.env.popMany s.openScopes).scopes.tail
        rw [ho]
        exact s.env.tail_scopes_bind name v
      · -- The scope that is bound in is one of those that are left.
        obtain ⟨n, hn⟩ := Nat.exists_eq_succ_of_ne_zero ho
        have hpop : (s.env.bind name v).pop = s.env.pop :=
          Environment.pop_bind name v (by omega)
        refine .inl ?_
        show (s.env.bind name v).popMany s.openScopes = s.env.popMany s.openScopes
        rw [hn]
        exact congrArg (fun env => env.popMany n) hpop

end

/-- A step changes the scopes of the host only if it binds a variable while no
    scope of the program is open. -/
theorem scopes_step (h : s.openScopes < s.env.depth) : m.Scoped s (m.step.final s) := by
  -- Records of all other opcodes neither change the variables nor count scopes.
  have hkeeps (hop : ∀ i, m.program.fetch s.pc = .ok i → i.opcode.changesVariables = false) :
      m.Scoped s (m.step.final s) := by
    have hobserve :
        ((m.step.final s).env, (m.step.final s).openScopes) = (s.env, s.openScopes) := by
      refine observe_step State.steady_scopes fun i hi => ?_
      refine leaves_perform State.steady_scopes i (fun _ _ _ => rfl) (fun _ _ _ => rfl)
        fun hscope => ?_
      rw [hop i hi] at hscope
      cases hscope
    exact .of_eq (congrArg Prod.fst hobserve) (congrArg Prod.snd hobserve)
  cases hfetch : m.program.fetch s.pc with
  | error reason =>
    rw [hfetch] at hkeeps
    exact hkeeps nofun
  | ok i =>
    cases hop : i.opcode with
    | scopePush => exact scoped_push hfetch hop
    | scopePop => exact scoped_pop hfetch h hop
    | bindVar => exact scoped_bind hfetch h hop
    | _ =>
      refine hkeeps fun j hj => ?_
      rw [hfetch] at hj
      cases hj
      rw [hop]
      rfl

/-! ## Executions -/

/-- The scopes that a program has entered lie on those of its host. -/
structure Over (m : Machine) (env : Environment) (s : State) : Prop where
  depth : s.env.depth = env.depth + s.openScopes
  /-- All scopes of the host but the innermost are as they were. -/
  outer : s.unwound.scopes.tail = env.scopes.tail
  /-- So is the innermost one, unless a variable has been bound in it. -/
  innermost : s.unwound = env ∨
    ∃ b, m.Reaches (.start m.program env) b ∧ m.BindsOutside b

namespace Over

variable {env : Environment}

theorem start (m : Machine) (env : Environment) : m.Over env (.start m.program env) :=
  ⟨rfl, rfl, .inl rfl⟩

theorem step (h : m.Over env s) (hs : m.Reaches (.start m.program env) s) :
    m.Over env (m.step.final s) := by
  have hlt : s.openScopes < s.env.depth := by
    have hpos : 0 < env.depth := Nat.succ_pos _
    have := h.depth
    omega
  have hscoped := scopes_step (m := m) hlt
  have hdepth : (m.step.final s).env.depth = env.depth + (m.step.final s).openScopes := by
    have := hscoped.depth
    have := h.depth
    omega
  rcases hscoped.unwound with hsame | ⟨hbinds, htail⟩
  · refine ⟨hdepth, ?_, ?_⟩
    · rw [hsame, h.outer]
    · rw [hsame]
      exact h.innermost
  · exact ⟨hdepth, htail.trans h.outer, .inr ⟨s, hs, hbinds⟩⟩

/-- Wherever the execution of a program gets to, the scopes of its host are there. -/
theorem of_reaches (h : m.Reaches (.start m.program env) s) : m.Over env s := by
  induction h with
  | refl => exact start m env
  | tail hs hstep ih =>
    have hnext := ih.step hs
    rwa [final_ok hstep] at hnext

end Over

/-- At every step of the execution of any program, the host has as many scopes more
    as the program has entered and not left; and leaving one that the program has not
    entered fails. Whenever the execution ends, with a value or an error, the host has
    its own scopes again: all but the innermost one are as they were, and that one is
    too unless a variable has been bound while no scope of the program was open. -/
theorem scopes_unwind (m : Machine) (env : Environment) :
    (∀ s, m.Reaches (.start m.program env) s →
      s.env.depth = env.depth + s.openScopes ∧
      (m.step.final s).env.depth = env.depth + (m.step.final s).openScopes ∧
      ∀ i, m.program.fetch s.pc = .ok i → i.opcode = .scopePop → s.openScopes = 0 →
        ∃ t, m.step s = .error ⟨m.program.span i.span, .defect .scopeUnderflow⟩ t ∧
          t.env = s.env ∧ t.openScopes = 0) ∧
    ∀ fuel x, m.execute fuel env = some x →
      x.env.depth = env.depth ∧ x.env.scopes.tail = env.scopes.tail ∧
      (x.env = env ∨ ∃ s, m.Reaches (.start m.program env) s ∧ m.BindsOutside s) := by
  refine ⟨fun s hs => ⟨?_, ?_, fun i hfetch hop ho => ?_⟩, fun fuel x hx => ?_⟩
  · exact (Over.of_reaches hs).depth
  · exact ((Over.of_reaches hs).step hs).depth
  · obtain ⟨opcode, dst, a, b, c, k⟩ := i
    obtain rfl : opcode = .scopePop := hop
    have hat : m.At s ⟨.scopePop, dst, a, b, c, k⟩ (m.program.span k) := ⟨hfetch, rfl⟩
    exact ⟨s.advance, hat.scopePop_underflow ho, rfl, ho⟩
  · -- The last step ends the execution, and it keeps the invariant as every step does.
    obtain ⟨r, hr, rfl⟩ := exists_run_of_execute hx
    obtain ⟨t, ht, hends⟩ := exists_ends_of_run hr
    have hover := (Over.of_reaches ht).step ht
    have henv : (Execution.ofResult r).env = (m.step.final t).unwound :=
      (ofResult_of_ends hends).2
    rw [henv]
    refine ⟨?_, hover.outer, hover.innermost⟩
    have hdepth := hover.depth
    have hpos : 0 < env.depth := Nat.succ_pos _
    have hmany : (m.step.final t).unwound.depth + (m.step.final t).openScopes =
        (m.step.final t).env.depth := Environment.depth_popMany (by omega)
    omega

/-- A program that binds a variable in a scope of its own and then in one of its host,
    and leaves one scope more than it has entered. -/
def spilling : Program where
  code := (([⟨.scopePush, 0, 0, 0, 0, 0⟩, ⟨.loadTrue, 0, 0, 0, 0, 0⟩, ⟨.bindVar, 0, 0, 0, 0, 0⟩,
    ⟨.scopePop, 0, 0, 0, 0, 0⟩, ⟨.bindVar, 0, 0, 0, 0, 0⟩, ⟨.scopePop, 0, 0, 0, 0, 0⟩] :
    List Instruction).flatMap Instruction.encode).toArray
  strings := #["x"]
  registers := 1

/-- The machine without any operations that executes it. -/
def spillingMachine : Machine := { registry := RegistryBuilder.empty.build, program := spilling }

/-- The variables of its host: one in the outer of two scopes. -/
def spillingHost : Environment := (Environment.ofVariables [("x", .null)]).push

/-- After it has failed, the host has two scopes again, with a variable more in the inner
    one; so one has been bound while no scope of the program was open. -/
theorem scopes_unwind_spilling :
    ∃ x, spillingMachine.execute 6 spillingHost = some x ∧ x.env.depth = 2 ∧
      x.env.inner.map Entries.keys = [["x"]] ∧
      ∃ s, spillingMachine.Reaches (.start spilling spillingHost) s ∧
        spillingMachine.BindsOutside s := by
  have hrun : (spillingMachine.execute 6 spillingHost).map (fun x => x.env.inner.map Entries.keys) =
      some [["x"]] := by decide +kernel
  obtain ⟨x, hx, hkeys⟩ := Option.map_eq_some_iff.1 hrun
  obtain ⟨hdepth, -, hinnermost⟩ := (scopes_unwind spillingMachine spillingHost).2 _ _ hx
  refine ⟨x, hx, hdepth, hkeys, hinnermost.resolve_left fun henv => ?_⟩
  rw [henv] at hkeys
  cases hkeys

/-! ## Programs of expressions -/

variable {options : CompileOptions} {e : Expr}

/-- Executing the program of an expression comes to an end and leaves the variables
    of the host as they were, in every scope, whether it ends with a value or with
    an error. -/
theorem env_of_compile (h : compile options e = .ok m.program) (env : Environment) :
    (∃ fuel, (m.execute fuel env).isSome) ∧
      ∀ fuel x, m.execute fuel env = some x → x.env = env := by
  obtain ⟨n, hn⟩ := exists_execute_eq h env
  refine ⟨⟨n, by rw [hn]; rfl⟩, fun fuel x hx => ?_⟩
  rw [execute_unique hx hn, Evaluation.execution]
  split <;> rfl

/-- The expression `[true].map(x, [x].all(y, z))`. -/
def mapOfAll : Expr :=
  .method (.list [.literal (.bool true) ⟨1, 5⟩] ⟨0, 6⟩) "map"
    [.ident "x" ⟨11, 12⟩, .method (.list [.ident "x" ⟨15, 16⟩] ⟨14, 17⟩) "all"
      [.ident "y" ⟨22, 23⟩, .ident "z" ⟨25, 26⟩] ⟨14, 27⟩] ⟨0, 28⟩

/-- The variables of a host that has some of the same names, in two scopes. -/
def shadowedHost : Environment := (Environment.ofVariables [("x", .null)]).push.bind "y" .null

/-- It fails in a loop in a loop, whose variables shadow those of its host. -/
theorem env_of_compile_mapOfAll :
    compile {} mapOfAll = .ok (bare (mapOfAll.assembly true)).program ∧
      ∃ x, (bare (mapOfAll.assembly true)).execute 20 shadowedHost = some x ∧
        x.result.isOk = false ∧ x.env = shadowedHost := by
  have hcompile : compile {} mapOfAll = .ok (bare (mapOfAll.assembly true)).program :=
    compile_of_fits (by decide +kernel)
  have hfails : ((bare (mapOfAll.assembly true)).execute 20 shadowedHost).map
      (fun x => x.result.isOk) = some false := by decide +kernel
  obtain ⟨x, hx, hresult⟩ := Option.map_eq_some_iff.1 hfails
  exact ⟨hcompile, x, hx, hresult, (env_of_compile hcompile shadowedHost).2 _ _ hx⟩

end Machine

end ExprMachine
