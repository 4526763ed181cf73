import ExprMachine.Proofs.Footprints

/-!
# Calls that are counted

A host keeps the result of a program only if its execution has called idempotent
functions alone. The machine has a flag of this in its store. The reset before an
execution sets it, whatever it has been (`Store.reset_eq`), and nothing sets it again
before the next.

A record *invokes* the handler of an overload if it is a call that resolves to it
(`Machine.Invokes`). The flag is cleared in exactly those steps in which the handler of
an overload that is not idempotent gives a value (`Machine.idempotent_step`). A handler
that fails ends the execution before its call is counted. So the flag tells of all calls
of the last execution but a last one that has failed (`Machine.idempotent_eq_false_iff`);
and an execution that such a call has ended passes for idempotent
(`Machine.idempotent_calling_failed`).
-/

namespace ExprMachine

namespace Registry

variable {registry : Registry} {name : String} {args : List Value} {span : Span}

/-- A call that is resolved is its handler's. -/
theorem call_of_resolve {o : FunctionOverload}
    (h : registry.resolve name (args.map Value.kind) span = .ok o) :
    registry.call name args span = (o.handler args span).map fun v => (v, o.idempotent) := by
  rw [call, h]
  cases hhandler : o.handler args span <;>
    exact congrArg (· >>= fun v => pure (v, o.idempotent)) hhandler

/-- A call gives a value if it is resolved and its handler does. -/
theorem call_eq_ok_iff {v : Value} {idempotent : Bool} :
    registry.call name args span = .ok (v, idempotent) ↔
      ∃ o, registry.resolve name (args.map Value.kind) span = .ok o ∧
        o.handler args span = .ok v ∧ o.idempotent = idempotent := by
  constructor
  · intro h
    cases hresolve : registry.resolve name (args.map Value.kind) span with
    | error e =>
      rw [call, hresolve] at h
      cases h
    | ok o =>
      rw [call_of_resolve hresolve] at h
      cases hhandler : o.handler args span with
      | error e =>
        rw [hhandler] at h
        cases h
      | ok w =>
        rw [hhandler] at h
        cases h
        exact ⟨o, rfl, hhandler, rfl⟩
  · rintro ⟨o, hresolve, hhandler, rfl⟩
    rw [call_of_resolve hresolve, hhandler]
    rfl

end Registry

namespace Exec

/-- Reading consecutive registers gives what all of them hold, or fails and changes
    nothing. -/
theorem readRun_cases (span : Span) (s : State) (first n : Nat) (hfirst : first ≤ UInt32.size) :
    (∃ vs, vs.length = n ∧ first + n ≤ UInt32.size ∧
      (∀ k w, vs[k]? = some w → s.read? (.ofNat (first + k)) = some w) ∧
      readRun span first n s = .ok vs s) ∨
    ∃ e, readRun span first n s = .error e s := by
  induction n generalizing first with
  | zero => exact .inl ⟨[], rfl, hfirst, nofun, rfl⟩
  | succ n ih =>
    by_cases hlt : UInt32.size ≤ first
    · exact .inr ⟨⟨span, .defect .registerRun⟩, by rw [readRun, if_pos hlt]; rfl⟩
    · -- The number of the register does not pass the end of a word here.
      have hunfold : readRun span first (n + 1) = (do
          let v ← read span (.ofNat first)
          let vs ← readRun span (first + 1) n
          pure (v :: vs)) := by
        rw [readRun, if_neg hlt]
      rw [hunfold]
      cases hv : s.read? (.ofNat first) with
      | none => exact .inr ⟨_, bind_error _ (read_error hv)⟩
      | some v =>
        rw [read_bind _ hv]
        rcases ih (first + 1) (by omega) with ⟨vs, hlen, hfits, hread, hrun⟩ | ⟨e, hrun⟩
        · refine .inl ⟨v :: vs, by rw [List.length_cons, hlen], by omega, fun k w hk => ?_, ?_⟩
          · cases k with
            | zero =>
              cases hk
              exact hv
            | succ k =>
              rw [← Nat.add_assoc, Nat.add_right_comm]
              exact hread k w hk
          · rw [bind_ok _ hrun]
            rfl
        · exact .inr ⟨e, bind_error _ hrun⟩

end Exec

namespace Machine

open Exec

variable {m : Machine} {s : State} {i : Instruction} {name : String} {args : List Value}

/-- The next record calls a function, by its name, with what some consecutive registers
    hold. -/
structure Calls (m : Machine) (s : State) (i : Instruction) (name : String)
    (args : List Value) : Prop where
  fetch : m.program.fetch s.pc = .ok i
  opcode : i.opcode = .call
  name : m.program.string? i.op1 = some name
  length : args.length = i.op3.toNat
  fits : i.op2.toNat + args.length ≤ UInt32.size
  args : ∀ k w, args[k]? = some w → s.read? (.ofNat (i.op2.toNat + k)) = some w

/-- The next record is a call for which an overload is found, and its handler gives a
    value or fails. -/
def Invokes (m : Machine) (s : State) (o : FunctionOverload) (res : Except EvalError Value) :
    Prop :=
  ∃ i name args, m.Calls s i name args ∧
    m.registry.resolve name (args.map Value.kind) (m.program.span i.span) = .ok o ∧
    o.handler args (m.program.span i.span) = res

namespace Calls

/-- The arguments are read after the counter has moved on. -/
theorem readRun_eq (h : m.Calls s i name args) (span : Span) :
    readRun span i.op2.toNat i.op3.toNat s.advance = .ok args s.advance := by
  rw [← h.length]
  exact Exec.readRun_eq (s := s.advance) args _ h.fits h.args

/-- A record makes one call only. -/
theorem unique {j : Instruction} {name' : String} {args' : List Value}
    (h : m.Calls s i name args) (h' : m.Calls s j name' args') :
    i = j ∧ name = name' ∧ args = args' := by
  obtain rfl : i = j := Except.ok.inj (h.fetch.symm.trans h'.fetch)
  have hrun := (h.readRun_eq Span.none).symm.trans (h'.readRun_eq Span.none)
  cases hrun
  exact ⟨rfl, Option.some.inj (h.name.symm.trans h'.name), rfl⟩

/-- What is invoked is what the name and the kinds of the arguments resolve to. -/
theorem invokes_iff (h : m.Calls s i name args) {o : FunctionOverload}
    {res : Except EvalError Value} :
    m.Invokes s o res ↔
      m.registry.resolve name (args.map Value.kind) (m.program.span i.span) = .ok o ∧
        o.handler args (m.program.span i.span) = res := by
  constructor
  · rintro ⟨j, name', args', hcalls, hinvoked⟩
    obtain ⟨rfl, rfl, rfl⟩ := h.unique hcalls
    exact hinvoked
  · exact fun hinvoked => ⟨i, name, args, h, hinvoked⟩

/-- A call is left to the registry. Its value is counted first and then written. -/
theorem step_eq (h : m.Calls s i name args) :
    m.step s = match m.registry.call name args (m.program.span i.span) with
      | .ok (v, idempotent) =>
        (do write (m.program.span i.span) i.dst v; pure none : Exec (Option Value))
          (s.advance.count idempotent)
      | .error e => .error e s.advance := by
  obtain ⟨opcode, dst, a, b, c, k⟩ := i
  obtain rfl : opcode = .call := h.opcode
  have hat : m.At s ⟨.call, dst, a, b, c, k⟩ (m.program.span k) := ⟨h.fetch, rfl⟩
  simp only [hat.step_eq, perform, stringOperand, ofOption_bind _ h.name]
  rw [bind_ok _ (h.readRun_eq _), callFunction]
  cases m.registry.call name args (m.program.span k) <;> rfl

/-- A call clears the flag with a value of an overload that is not idempotent, whether or
    not the value can be written. -/
theorem idempotent_step (h : m.Calls s i name args) :
    (m.step.final s).idempotent = false ↔
      s.idempotent = false ∨ ∃ o v, m.Invokes s o (.ok v) ∧ o.idempotent = false := by
  -- The value is written after the call has been counted, and this may fail.
  have hwrite (v : Value) :
      (do write (m.program.span i.span) i.dst v; pure none : Exec (Option Value)).Leaves
        (fun s => s.idempotent) :=
    .bind (leaves_write State.steady_idempotent fun _ _ => rfl) fun _ => .pure
  have hinvokes (o : FunctionOverload) (v : Value) (ho : m.Invokes s o (.ok v)) :
      m.registry.call name args (m.program.span i.span) = .ok (v, o.idempotent) := by
    obtain ⟨hresolve, hhandler⟩ := h.invokes_iff.1 ho
    exact Registry.call_eq_ok_iff.2 ⟨o, hresolve, hhandler, rfl⟩
  cases hcall : m.registry.call name args (m.program.span i.span) with
  | error e =>
    -- Nothing has been counted, and no handler has given a value.
    have hfinal : m.step.final s = s.advance := final_error (by rw [h.step_eq, hcall])
    rw [hfinal]
    refine (or_iff_left ?_).symm
    rintro ⟨o, v, ho, -⟩
    rw [hinvokes o v ho] at hcall
    cases hcall
  | ok r =>
    obtain ⟨v, idempotent⟩ := r
    have hfinal : (m.step.final s).idempotent = (s.idempotent && idempotent) := by
      rw [final, h.step_eq, hcall]
      exact hwrite v (s.advance.count idempotent)
    rw [hfinal, Bool.and_eq_false_iff]
    refine or_congr_right ?_
    constructor
    · intro hfalse
      obtain ⟨o, hresolve, hhandler, rfl⟩ := Registry.call_eq_ok_iff.1 hcall
      exact ⟨o, v, h.invokes_iff.2 ⟨hresolve, hhandler⟩, hfalse⟩
    · rintro ⟨o, w, ho, hfalse⟩
      rw [hinvokes o w ho] at hcall
      cases hcall
      exact hfalse

end Calls

/-- A step that does not come to a call leaves the flag as it is. -/
theorem idempotent_step_of_not_calls (h : ∀ i name args, ¬m.Calls s i name args) :
    (m.step.final s).idempotent = s.idempotent := by
  by_cases hfetch : ∃ i, m.program.fetch s.pc = .ok i ∧ i.opcode = .call
  · obtain ⟨⟨opcode, dst, a, b, c, k⟩, hfetch, hop⟩ := hfetch
    obtain rfl : opcode = .call := hop
    have hat : m.At s ⟨.call, dst, a, b, c, k⟩ (m.program.span k) := ⟨hfetch, rfl⟩
    -- The record fails before it has a name and arguments to call with.
    have herror : ∃ e, m.step s = .error e s.advance := by
      cases hname : m.program.string? a with
      | none =>
        refine ⟨⟨m.program.span k, .defect (.stringIndex a)⟩, ?_⟩
        rw [hat.step_eq, perform, stringOperand, hname]
        rfl
      | some name =>
        simp only [hat.step_eq, perform, stringOperand, ofOption_bind _ hname]
        have hfirst : b.toNat ≤ UInt32.size := Nat.le_of_lt b.toNat_lt_size
        rcases readRun_cases (m.program.span k) s.advance b.toNat c.toNat hfirst with
          ⟨args, hlen, hfits, hargs, -⟩ | ⟨e, hrun⟩
        · exact absurd ⟨hfetch, rfl, hname, hlen, by rwa [hlen], hargs⟩ (h _ name args)
        · exact ⟨e, bind_error _ hrun⟩
    obtain ⟨e, herror⟩ := herror
    rw [final_error herror]
    rfl
  · refine observe_step State.steady_idempotent fun i hi => ?_
    exact leaves_perform State.steady_idempotent i (fun _ _ _ => rfl)
      (fun hop => absurd ⟨i, hi, hop⟩ hfetch) fun _ _ _ _ => rfl

/-- A step clears the flag if it invokes the handler of an overload that is not
    idempotent, and gets a value from it. -/
theorem idempotent_step (m : Machine) (s : State) :
    (m.step.final s).idempotent = false ↔
      s.idempotent = false ∨ ∃ o v, m.Invokes s o (.ok v) ∧ o.idempotent = false := by
  by_cases hcalls : ∃ i name args, m.Calls s i name args
  · obtain ⟨i, name, args, hcalls⟩ := hcalls
    exact hcalls.idempotent_step
  · simp only [not_exists] at hcalls
    rw [idempotent_step_of_not_calls hcalls]
    refine (or_iff_left ?_).symm
    rintro ⟨o, v, ⟨i, name, args, h, -⟩, -⟩
    exact hcalls i name args h

/-- A handler that fails ends the execution with its error. -/
theorem Invokes.step_error {o : FunctionOverload} {e : EvalError}
    (h : m.Invokes s o (.error e)) : m.step s = .error e s.advance := by
  obtain ⟨i, name, args, hcalls, hresolve, hhandler⟩ := h
  rw [hcalls.step_eq, Registry.call_of_resolve hresolve, hhandler]
  rfl

/-! ## Executions -/

/-- The flag stays cleared. -/
theorem idempotent_of_reaches {t : State} (h : m.Reaches s t) (hs : s.idempotent = false) :
    t.idempotent = false := by
  induction h with
  | refl => exact hs
  | @tail t u ht hstep ih =>
    have hnext := (m.idempotent_step t).2 (.inl ih)
    rwa [final_ok hstep] at hnext

/-- If the flag is cleared on the way, this happens where a handler is invoked. -/
theorem exists_invokes_of_reaches {t : State} (h : m.Reaches s t) (hs : s.idempotent = true)
    (ht : (m.step.final t).idempotent = false) :
    ∃ u o v, m.Reaches s u ∧ m.Invokes u o (.ok v) ∧ o.idempotent = false := by
  induction h with
  | refl =>
    rcases (m.idempotent_step s).1 ht with hfalse | ⟨o, v, hinvokes, hfalse⟩
    · rw [hs] at hfalse
      cases hfalse
    · exact ⟨s, o, v, .refl, hinvokes, hfalse⟩
  | @tail t u ht' hstep ih =>
    rcases (m.idempotent_step u).1 ht with hfalse | ⟨o, v, hinvokes, hfalse⟩
    · exact ih (by rwa [final_ok hstep])
    · exact ⟨u, o, v, .tail ht' hstep, hinvokes, hfalse⟩

/-- After an execution, with a value or an error and however the machine has been used
    before, the flag that it answers with is cleared exactly if the handler of an overload
    that is not idempotent has been invoked and has given a value. A handler that has failed
    instead has ended the execution with its own error. With another store in place of the
    one that was left to it, the machine does the same. -/
theorem idempotent_eq_false_iff {env : Environment} {fuel : Nat} {x : Execution}
    (h : m.execute fuel env = some x) :
    (∃ store, m.after fuel env = some { m with store := store } ∧
      Machine.isIdempotent { m with store := store } = x.idempotent) ∧
    (x.idempotent = false ↔ ∃ s o v, m.Reaches (m.start env) s ∧
      m.Invokes s o (.ok v) ∧ o.idempotent = false) ∧
    (∀ s o e, m.Reaches (m.start env) s → m.Invokes s o (.error e) → x.result = .error e) ∧
    ∀ store, Machine.execute { m with store := store } fuel env = some x := by
  obtain ⟨σ, hafter, hflag⟩ := exists_after h
  refine ⟨⟨_, hafter, hflag⟩, ?_⟩
  obtain ⟨r, hr, rfl⟩ := Option.map_eq_some_iff.1 h
  obtain ⟨t, ht, hends⟩ := exists_ends_of_run hr
  have hlast := (ofResult_of_ends hends).1
  -- The reset has set the flag, so that the executions before do not count.
  have hset : (m.start env).idempotent = true := by rw [start_eq, State.start]
  refine ⟨⟨fun hfalse => ?_, fun ⟨s, o, v, hs, hinvokes, hfalse⟩ => ?_⟩,
    fun s o e hs hinvokes => ?_, fun store => (m.execute_store store fuel env).trans h⟩
  · exact exists_invokes_of_reaches ht hset (hlast ▸ hfalse)
  · have hcleared : (m.step.final s).idempotent = false :=
      (m.idempotent_step s).2 (.inr ⟨o, v, hinvokes, hfalse⟩)
    rw [hlast]
    -- The step that clears the flag is the last one or comes before it.
    rcases Relation.ReflTransGen.cases_head (ht.of_ends hends hs) with rfl | ⟨u, hstep, hu⟩
    · exact hcleared
    · rw [final_ok hstep] at hcleared
      exact (m.idempotent_step t).2 (.inl (idempotent_of_reaches hu hcleared))
  · obtain ⟨k, hk⟩ := run_of_reaches (n := 1) hs (by rw [run, hinvokes.step_error])
    rw [run_unique hr hk]
    rfl

/-- A function that is not idempotent: it gives back a boolean, and fails if there is
    none. -/
def unsteady : FunctionDescriptor where
  name := "f"
  idempotent := false
  overloads :=
    [([], fun _ span => .error ⟨span, .invalidArgument (.other "handler failed")⟩),
      ([.bool], fun args _ => .ok (args.headD .null))]

/-- A program that calls it with as many of its registers as are given. -/
def calling (count : UInt32) : Machine where
  registry := (RegistryBuilder.empty.addOrSkip (.function unsteady)).build
  program := {
    code := (([⟨.loadTrue, 0, 0, 0, 0, 0⟩, ⟨.call, 0, 0, 0, count, 0⟩,
      ⟨.return, 0, 0, 0, 0, 0⟩] : List Instruction).flatMap Instruction.encode).toArray
    strings := #["f"]
    registers := 1 }

/-- With an argument, the handler gives it back, and the call is counted; and executing
    the program once more, on the machine as it is then, gives the same. -/
theorem idempotent_calling_returned :
    ∃ x store, (calling 1).execute 3 {} = some x ∧ x.result.isOk ∧ x.idempotent = false ∧
      (∃ s o v, (calling 1).Reaches ((calling 1).start {}) s ∧
        (calling 1).Invokes s o (.ok v) ∧ o.idempotent = false) ∧
      (calling 1).after 3 {} = some { calling 1 with store := store } ∧
      Machine.isIdempotent { calling 1 with store := store } = false ∧
      Machine.execute { calling 1 with store := store } 3 {} = some x := by
  have hrun : ((calling 1).execute 3 {}).map (fun x => (x.result.isOk, x.idempotent)) =
      some (true, false) := by decide +kernel
  obtain ⟨x, hx, heq⟩ := Option.map_eq_some_iff.1 hrun
  obtain ⟨hok, hfalse⟩ := Prod.mk.inj heq
  obtain ⟨⟨store, hafter, hflag⟩, hcalls, -, hagain⟩ := idempotent_eq_false_iff hx
  exact ⟨x, store, hx, hok, hfalse, hcalls.1 hfalse, hafter, hflag.trans hfalse, hagain store⟩

/-- Without one, it fails, and the execution passes for idempotent although a handler of an
    overload that is not idempotent has been invoked. -/
theorem idempotent_calling_failed :
    ¬∀ (m : Machine) (env : Environment) (fuel : Nat) (x : Execution),
      m.execute fuel env = some x →
        (x.idempotent = false ↔ ∃ s o res, m.Reaches (m.start env) s ∧
          m.Invokes s o res ∧ o.idempotent = false) := by
  intro hall
  have hrun : ((calling 0).execute 3 {}).map Execution.idempotent = some true := by decide +kernel
  obtain ⟨x, hx, htrue⟩ := Option.map_eq_some_iff.1 hrun
  have hload : (calling 0).At ((calling 0).start {}) ⟨.loadTrue, 0, 0, 0, 0, 0⟩
      Span.none := ⟨rfl, rfl⟩
  have hcalls : (calling 0).Calls (((calling 0).start {}).advance.set 0 (.bool true))
      ⟨.call, 0, 0, 0, 0, 0⟩ "f" [] :=
    ⟨rfl, rfl, rfl, rfl, by decide, fun k w hw => absurd hw (by simp)⟩
  have hresolve : (calling 0).registry.resolve "f" [] Span.none = .ok ⟨"f", [], false, fun _ span =>
      .error ⟨span, .invalidArgument (.other "handler failed")⟩⟩ := rfl
  have hfalse := (hall _ _ _ _ hx).2
    ⟨_, _, _, .head (hload.loadTrue (by decide)) .refl, ⟨_, _, _, hcalls, hresolve, rfl⟩, rfl⟩
  rw [htrue] at hfalse
  cases hfalse

end Machine

end ExprMachine
