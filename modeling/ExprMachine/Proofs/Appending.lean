import ExprMachine.Proofs.Correctness
import ExprMachine.Proofs.TrackedCode

/-!
# Lists under construction do not show

The machine that appends in place never has a list under construction
(`Machine.pending_runInPlace`), and yet it leaves what the machine leaves, after as
many steps, wherever the program is that of an expression
(`Machine.executeInPlace_eq_execute`). For the code of every expression tracks what
is known of the registers (`Expr.tracks_lower`): before the first record nothing need
be known, and where the code ends, the register that is returned holds the same.

It is not so for all programs, since a program may read a register in which a list is
under construction (`Machine.exists_executeInPlace_ne`).
-/

namespace ExprMachine

open Build Lowering Machine

variable {m : Machine} {n : Nat} {macros : Bool}

theorem tracks_lowerAll (es : List Expr)
    (h : ∀ a ∈ es, ∀ n d V, m.Tracks n (a.lower macros) d V IsSame) (d : Draft) (V : View) :
    m.Tracks n (lowerAll macros es) d V fun regs _ W =>
      regs.length = es.length ∧ ∀ r ∈ regs, W r = .same := by
  induction es generalizing d V with
  | nil =>
    rw [lowerAll]
    exact .pure ⟨rfl, List.forall_mem_nil _⟩
  | cons a rest ih =>
    rw [lowerAll]
    refine (h a List.mem_cons_self n d V).bind fun r e W _ _ hr => ?_
    refine (ih (fun b hb => h b (List.mem_cons_of_mem a hb)) e W).bind fun rs f U _ hU hrs => ?_
    exact .pure ⟨congrArg (· + 1) hrs.1, List.forall_mem_cons.2 ⟨hU.same r hr, hrs.2⟩⟩

/-- The code of every expression tracks what is known of the registers, wherever it
    is built. -/
theorem Expr.tracks_lower (macros : Bool) (e : Expr) (n : Nat) (d : Draft) (V : View) :
    m.Tracks n (e.lower macros) d V IsSame := by
  induction e using Expr.induct generalizing n d V with
  | step e ih =>
    cases e with
    | literal l s =>
      rw [lower]
      exact tracks_literal l
    | ident name s =>
      rw [lower]
      exact tracks_ident name
    | list items s =>
      rw [lower]
      refine (tracks_lowerAll items ih d V).bind fun regs e W _ _ hregs => ?_
      exact tracks_aggregate (.inl ⟨rfl, rfl⟩) hregs.2
    | map entries s =>
      rw [lower, lowerEntries_eq]
      refine (tracks_lowerAll (entries.flatMap fun p : Expr × Expr => [p.1, p.2]) ih d V).bind
        fun regs e W _ _ hregs => ?_
      refine tracks_aggregate (.inr ⟨rfl, ?_⟩) hregs.2
      rw [hregs.1, length_flatMap_pair]
    | message typeName fields s =>
      rw [lower, lowerFields_eq]
      refine (tracks_lowerAll (fields.map Prod.snd) ih d V).bind fun regs e W _ _ hregs => ?_
      refine tracks_message typeName ?_ hregs.2
      rw [hregs.1, List.length_map, List.length_map]
    | unary op operand s =>
      have hoperand := ih operand (by simp [parts]) n d V
      rw [lower]
      exact tracks_unary op hoperand
    | binary op left right s =>
      have hleft := ih left (by simp [parts]) n d V
      have hright := ih right (by simp [parts]) n
      rw [lower]
      split
      · exact tracks_shortCircuit op hleft hright
      · exact tracks_strict op hleft hright
    | conditional c whenTrue whenFalse s =>
      have : Lawful (Body.mk (c.lower macros) c.span).build := (Expr.valued_lower macros c).toLawful
      have hc := ih c (by simp [parts]) n d V
      have htrue := ih whenTrue (by simp [parts]) n
      have hfalse := ih whenFalse (by simp [parts]) n
      rw [lower]
      exact tracks_choose hc htrue hfalse
    | member operand field s =>
      have hoperand := ih operand (by simp [parts]) n d V
      rw [lower]
      exact tracks_select (.inl rfl) field hoperand
    | index operand position s =>
      have hoperand := ih operand (by simp [parts]) n d V
      have hposition := ih position (by simp [parts]) n
      rw [lower]
      exact tracks_index hoperand hposition
    | call function args s =>
      rw [lower_call]
      split
      · rename_i operand field hp
        have hoperand := ih operand (mem_parts_of_presence? hp) n d V
        exact tracks_select (.inr rfl) field hoperand
      · have hargs := tracks_lowerAll (n := n) args fun a ha => ih a (List.mem_append_left _ ha)
        exact (hargs d V).bind fun regs e W _ _ hregs => tracks_call function hregs.2
    | method target function args s =>
      have htarget := ih target List.mem_cons_self n d V
      rw [lower_method]
      split
      · rename_i x form hf
        refine tracks_comprehension (lawful_bodies macros form) (fun b hb => ?_) htarget x
        obtain ⟨a, ha, rfl⟩ := Comprehension.mem_bodies_map hb
        exact ih a (List.mem_cons_of_mem _ (mem_args_of_loop? hf a ha))
      · have hargs := tracks_lowerAll (n := n) args fun a ha =>
          ih a (List.mem_cons_of_mem target ha)
        refine htarget.bind fun first e W _ _ hfirst => ?_
        refine (hargs e W).bind fun rest f U _ hU hrest => ?_
        exact tracks_call function (List.forall_mem_cons.2 ⟨hU.same first hfirst, hrest.2⟩)
    | paren inner s =>
      rw [lower]
      exact ih inner (by simp [parts]) n d V

namespace Machine

open Exec

/-! ## No lists under construction -/

variable {s t : State} {span : Span}

theorem mirrors_self (h : s.pending = []) : s.Mirrors (fun _ => .same) s where
  toEndsLike := ⟨rfl, rfl, rfl⟩
  pc := rfl
  size := rfl
  iterators := rfl
  pending := h
  same r _ := ⟨by rw [h]; rfl, rfl⟩
  list _ h := nomatch h

/-- Appending in place, a record leaves no list under construction. -/
theorem pending_performInPlace {i : Instruction} {res : Option Value} (hs : s.pending = [])
    (h : m.performInPlace i span s = .ok res t) : t.pending = [] := by
  have hself := mirrors_self hs
  suffices (m.performInPlace i span).Alike (m.performInPlace i span) s s
      fun _ _ w => w.pending = [] by
    rcases this.cases with ⟨_, _, w, -, hw, hpending⟩ | ⟨_, _, w, -, hw, -⟩
    · cases h.symm.trans hw
      exact hpending
    · cases h.symm.trans hw
  -- Records that handle no lists are the same on both machines; the others are looked at in turn.
  cases hlists : i.opcode.handlesLists with
  | false =>
    rw [performInPlace_eq m hlists]
    refine (alike_perform hself hlists fun _ _ => rfl).mono fun _ _ _ hu => ?_
    exact hu.2.elim (fun h => h.2.pending) fun h => h.2.pending
  | true =>
    obtain ⟨opcode, dst, a, b, c, k⟩ := i
    cases opcode with
    | listAppend =>
      refine (alike_read hself rfl).andThen fun v => ?_
      refine .bind (P := fun _ _ w => w.pending = []) ?_ fun _ _ _ hw => .pure hw
      refine (alike_read hself rfl).andThen fun w => ?_
      cases w with
      | list items => exact (alike_write hself).mono fun _ _ _ hu => hu.2.pending
      | _ => exact alike_defect hself.toEndsLike
    | move =>
      exact (alike_read hself rfl).andThen fun _ => (alike_write hself).bind fun _ _ _ hu =>
        .pure hu.2.pending
    | «return» => exact (alike_read hself rfl).andThen fun _ => .pure hs
    | _ => cases hlists

theorem pending_stepInPlace {res : Option Value} (hs : s.pending = [])
    (h : m.stepInPlace s = .ok res t) : t.pending = [] := by
  cases hfetch : m.program.fetch s.pc with
  | ok i =>
    rw [stepInPlace_eq hfetch] at h
    exact pending_performInPlace (s := s.advance) hs h
  | error reason =>
    -- There is no record, so the step has failed.
    rw [stepInPlace, get_bind] at h
    simp only [hfetch] at h
    split at h <;> cases h

/-- The machine that appends in place never has a list under construction. -/
theorem pending_runInPlace {n : Nat} {v : Value} (hs : s.pending = [])
    (h : m.runInPlace n s = some (.ok v t)) : t.pending = [] := by
  induction n generalizing s with
  | zero => cases h
  | succ n ih =>
    rw [runInPlace] at h
    split at h
    · exact ih (pending_stepInPlace hs ‹_›) h
    · cases h
      exact pending_stepInPlace hs ‹_›
    · cases h

/-! ## Executions -/

variable {options : CompileOptions} {e : Expr}

/-- The machines agree before the first record of the program of an expression. -/
theorem agrees_of_compile (h : compile options e = .ok m.program) :
    m.Agrees n 0 fun _ => .unknown := by
  have hl := loads_of_compile h
  obtain ⟨W, hW, hsame⟩ := e.tracks_lower options.macros n {} (fun _ => .unknown) hl.left
    fun _ _ => rfl
  exact hW.agrees (agrees_return hl.right.holds (View.ne_unknown_of_same hsame))

/-- The machine that appends in place leaves what the machine leaves, after as many
    steps: the same value or the same error, what is known of the functions called
    and the variables. -/
theorem executeInPlace_eq_execute (h : compile options e = .ok m.program) (env : Environment) :
    (∀ fuel, m.executeInPlace fuel env = m.execute fuel env) ∧
      ∃ fuel, (m.execute fuel env).isSome := by
  refine ⟨fun fuel => ?_, ?_⟩
  · rw [executeInPlace, execute, start_eq]
    exact agrees_of_compile h fuel (Nat.le_refl fuel) _ _ rfl (State.mirrors_start m.program env)
  · obtain ⟨fuel, hfuel⟩ := exists_execute_eq h env
    exact ⟨fuel, by rw [hfuel]; rfl⟩

/-- The expression `[[true], [false]].map(x, x.filter(y, y))`. -/
def mapOfFilter : Expr :=
  .method (.list [.list [.literal (.bool true) ⟨2, 6⟩] ⟨1, 7⟩,
      .list [.literal (.bool false) ⟨10, 15⟩] ⟨9, 16⟩] ⟨0, 17⟩) "map"
    [.ident "x" ⟨22, 23⟩, .method (.ident "x" ⟨25, 26⟩) "filter"
      [.ident "y" ⟨34, 35⟩, .ident "y" ⟨37, 38⟩] ⟨25, 39⟩] ⟨0, 40⟩

/-- A list is built anew for every item of another list that is being built. -/
theorem executeInPlace_mapOfFilter :
    compile {} mapOfFilter = .ok (bare (mapOfFilter.assembly true)).program ∧
      ∃ fuel x, (bare (mapOfFilter.assembly true)).executeInPlace fuel {} = some x ∧
        x.result = .ok (.list [.list [.bool true], .list []]) := by
  have hcompile : compile {} mapOfFilter = .ok (bare (mapOfFilter.assembly true)).program :=
    compile_of_fits (by decide +kernel)
  obtain ⟨heq, -⟩ := executeInPlace_eq_execute hcompile {}
  obtain ⟨fuel, hfuel⟩ := exists_execute_eq hcompile {}
  refine ⟨hcompile, fuel, _, (heq fuel).trans hfuel, ?_⟩
  -- No operation is called, so the value is the same for every host.
  have heval (h : Host) : ((mapOfFilter.eval h true {}).execution {}).result =
      .ok (.list [.list [.bool true], .list []]) := by rfl
  exact heval _

/-- A program that begins to iterate over a list that is still under construction. -/
def unfinished : Program where
  code := ([⟨.makeList, 0, 0, 0, 0, 0⟩, ⟨.loadTrue, 1, 0, 0, 0, 0⟩, ⟨.listAppend, 0, 1, 0, 0, 0⟩,
    ⟨.iterInit, 2, 0, 0, 0, 0⟩, ⟨.iterNext, 3, 2, 30, 0, 0⟩,
    ⟨.return, 0, 3, 0, 0, 0⟩].flatMap Instruction.encode).toArray
  registers := 4

/-- Programs that no expression has may read lists under construction. -/
theorem exists_executeInPlace_ne :
    ∃ (m : Machine) (fuel : Nat), m.executeInPlace fuel {} ≠ m.execute fuel {} := by
  let m : Machine := { registry := RegistryBuilder.empty.build, program := unfinished }
  have hitem : (m.executeInPlace 6 {}).any fun x => x.result.isOk := by decide +kernel
  have hnone : ¬(m.execute 6 {}).any fun x => x.result.isOk := by decide +kernel
  refine ⟨m, 6, fun heq => hnone ?_⟩
  rwa [← heq]

end Machine

end ExprMachine
