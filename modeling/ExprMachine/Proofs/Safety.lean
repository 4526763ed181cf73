import ExprMachine.Proofs.SafeRecords

/-!
# Sound programs are executed safely

However a sound program has come about, its execution stands at one of its
records before every step, with all registers of the program
(`Machine.Stands`). So no record that is performed refers to what is not there:
neither to a register beyond the register file, nor to an entry beyond a pool,
nor to an operator or a role that does not exist (`Machine.stays_in_program`).

What may go wrong otherwise is left: the values may be of the wrong kinds, a
register may not have been written, and a handler may return any error at all.
-/

namespace ExprMachine

namespace Machine

variable {m : Machine}

/-- The execution of a sound program stands at one of its records, with all its
    registers. -/
structure Stands (m : Machine) (s : State) : Prop where
  size : s.registers.size = m.program.registers.toNat
  pc : ∃ k < m.program.length, s.pc = stride * k

theorem stands_start (hpos : 0 < m.program.length) (env : Environment) :
    m.Stands (State.start m.program env) :=
  ⟨Array.size_replicate, 0, hpos, rfl⟩

section

variable {record : Nat → Instruction} {s t : State}

/-- A record that has been performed, and has not ended the execution, leads to a
    record. -/
theorem Performed.stands (hp : m.program.Checked record) {k : Nat} (hk : k < m.program.length)
    (hsize : s.registers.size = m.program.registers.toNat) (hpc : s.pc = stride * (k + 1))
    (h : Performed s (record k) none t) : m.Stands t := by
  obtain ⟨hop, hgoes⟩ := h.goes rfl
  refine ⟨h.size.trans hsize, ?_⟩
  rcases hgoes with hnext | ⟨n, hn, htarget⟩
  · -- The last record returns, so this one is followed by another.
    have hlast : k ≠ m.program.length - 1 := fun hlast => hop (hlast ▸ hp.returns)
    exact ⟨k + 1, by omega, hnext.trans hpc⟩
  · obtain ⟨j, hj, hnj⟩ := (List.forall₂_iff_zip.1 (hp.refers k hk).slots).2 hn
    exact ⟨j, hj, htarget.trans hnj⟩

/-- What has been read after the counter was moved has been there before. -/
theorem HandlerFails.of_advance {i : Instruction} {span : Span} {e : EvalError}
    (h : m.HandlerFails s.advance i span e) : m.HandlerFails s i span e := by
  cases h with
  | unary hop hv hget h => exact .unary hop hv hget h
  | binary hop hv hw hget h => exact .binary hop hv hw hget h
  | call hop hname hlen hargs hresolve h => exact .call hop hname hlen hargs hresolve h

/-- A step from where an execution stands. -/
theorem Stands.ensures_step (hp : m.program.Checked record) (hs : m.Stands s) :
    ∃ i, m.program.fetch s.pc = .ok i ∧ m.program.Refers i ∧ m.step.Ensures s
      (fun r t => r = none → m.Stands t) (m.Permits s i (m.program.span i.span)) := by
  obtain ⟨hsize, k, hk, hpc⟩ := hs
  have hfetch := hp.fetch k hk
  rw [← hpc] at hfetch
  have hat : m.At s (record k) (m.program.span (record k).span) := ⟨hfetch, rfl⟩
  refine ⟨record k, hfetch, hp.refers k hk, ?_⟩
  have hsafe : m.Safe s.advance (record k) (m.program.span (record k).span) :=
    safe_of_refers (s := s.advance) (hp.refers k hk) hsize _
  have hnext : s.advance.pc = stride * (k + 1) := congrArg (· + stride) hpc
  refine hsafe.imp hat.step_eq (fun r t ht hr => ?_) fun e he => he.imp_right .of_advance
  subst hr
  exact Performed.stands (s := s.advance) hp hk hsize hnext ht

/-- Wherever the execution of a sound program gets to, it stands at a record. -/
theorem Stands.of_reaches (hp : m.program.Checked record) (hs : m.Stands s) (h : m.Reaches s t) :
    m.Stands t := by
  induction h with
  | refl => exact hs
  | tail _ hstep ih =>
    obtain ⟨i, -, -, hensures⟩ := ih.ensures_step hp
    exact hensures.of_ok hstep rfl

end

end Machine

/-- The registers that a record names: those in its slots, and the run that it
    reads. -/
def Program.registersOf (p : Program) (i : Instruction) : List Nat :=
  ((i.opcode.layout.zip i.slots).filterMap fun (operand, n) =>
    if operand = .register then some n.toNat else none) ++
  ((p.registerRun? i).map fun (first, count) => List.range' first count).getD []

theorem Program.Refers.lt_of_mem_registersOf {p : Program} {i : Instruction} (h : p.Refers i)
    {r : Nat} (hr : r ∈ p.registersOf i) : r < p.registers.toNat := by
  rcases List.mem_append.1 hr with hr | hr
  · obtain ⟨⟨operand, n⟩, hn, heq⟩ := List.mem_filterMap.1 hr
    have hhas := (List.forall₂_iff_zip.1 h.slots).2 hn
    obtain ⟨rfl, heq⟩ := Option.ite_none_right_eq_some.1 heq
    cases heq
    exact hhas
  · cases hrun : p.registerRun? i with
    | none =>
      rw [hrun] at hr
      cases hr
    | some run =>
      obtain ⟨first, count⟩ := run
      rw [hrun] at hr
      have hr : r ∈ List.range' first count := hr
      rw [List.mem_range'_1] at hr
      have := h.run first count hrun (by omega)
      omega

namespace Machine

variable {m : Machine}

/-- However far a sound program has been executed, the next record is in the
    program and all registers that it names are in the register file; and if it
    fails by a reference that leads nowhere, then by an error that a handler has
    returned. -/
theorem stays_in_program (h : m.program.isSound) {env : Environment} {s : State}
    (hs : m.Reaches (State.start m.program env) s) :
    s.pc % stride = 0 ∧ s.pc < m.program.code.size ∧ ∃ i, m.program.fetch s.pc = .ok i ∧
      (∀ r ∈ m.program.registersOf i, r < s.registers.size) ∧
      ∀ (e : EvalError) (t : State) (d : Defect), m.step s = .error e t → e.cause = .defect d →
        d.isDangling s.registers.size → m.HandlerFails s i (m.program.span i.span) e := by
  obtain ⟨record, hp⟩ := Program.exists_checked h
  have hstands := (stands_start hp.pos env).of_reaches hp hs
  obtain ⟨i, hfetch, hrefers, hensures⟩ := hstands.ensures_step hp
  obtain ⟨k, hk, hpc⟩ := hstands.pc
  refine ⟨?_, Program.lt_size_of_fetch hfetch, i, hfetch, fun r hr => ?_,
    fun e t d hstep hd hdangling => ?_⟩
  · rw [hpc, Nat.mul_mod_right]
  · rw [hstands.size]
    exact hrefers.lt_of_mem_registersOf hr
  · -- The error is a dangling reference, so a handler has returned it.
    rcases hensures.of_error hstep with hrooted | hfails
    · rw [hstands.size, hrooted d hd] at hdangling
      cases hdangling
    · exact hfails

/-- A sound program that never ends. -/
def circling : Program where
  code := (([⟨.loadTrue, 0, 0, 0, 0, 0⟩, ⟨.jump, 0, 0, 0, 0, 0⟩, ⟨.return, 0, 0, 0, 0, 0⟩] :
    List Instruction).flatMap Instruction.encode).toArray
  spans := #[Span.none]
  registers := 1

/-- The machine without any operations that executes it. -/
def circlingMachine : Machine := { registry := RegistryBuilder.empty.build, program := circling }

/-- After the first of its records, it stands at the jump. -/
theorem stays_in_program_circling : circling.isSound ∧
    ∃ s, circlingMachine.Reaches (State.start circling {}) s ∧ s.pc = stride ∧
      s.pc < circling.code.size := by
  have hsound : circlingMachine.program.isSound := by decide +kernel
  have hstart : circlingMachine.At (State.start circling {}) ⟨.loadTrue, 0, 0, 0, 0, 0⟩ Span.none :=
    ⟨rfl, rfl⟩
  have hstep : circlingMachine.step (State.start circling {}) =
      .ok none ((State.start circling {}).advance.set 0 (.bool true)) :=
    hstart.loadTrue (by decide)
  have hreaches := Reaches.head hstep .refl
  obtain ⟨-, hpc, -⟩ := stays_in_program hsound hreaches
  exact ⟨hsound, _, hreaches, rfl, hpc⟩

end Machine

end ExprMachine
