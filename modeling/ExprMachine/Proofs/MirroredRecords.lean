import ExprMachine.Proofs.Loading
import ExprMachine.Proofs.Mirrors

/-!
# What records keep alike

Performing a record keeps two states alike that mirror each other, provided that the
record reads only registers that hold the same in both and writes none in which a
list is being built (`Machine.alike_perform`).

The records that append to a list and move or return one are performed in different
ways by the two machines, and need not read the same
(`Machine.alike_listAppend`, `Machine.alike_move`, `Machine.alike_return`).
-/

namespace ExprMachine

/-! ## What records look at -/

/-- The line of a record. -/
def Instruction.line (i : Instruction) : Line where
  opcode := i.opcode
  dst := i.dst.toNat
  op1 := i.op1.toNat
  op2 := i.op2.toNat
  op3 := i.op3.toNat
  span := i.span.toNat

theorem Line.line_toInstruction {l : Line} (h : l.fits) : l.toInstruction.line = l := by
  obtain ⟨hspan, hdst, h₁, h₂, h₃⟩ := Line.fits_iff.1 h
  simp only [Instruction.line, toInstruction, toNat_ofNat_of_lt, hspan, hdst, h₁, h₂, h₃]

/-- The registers that a record reads. Those that it takes are not among them. -/
def Line.reads (p : Program) (l : Line) : List Nat :=
  match l.opcode with
  | .negate | .not | .condCheck | .memberAccess | .hasField | .iterInit | .listAppend => [l.op1]
  | .binaryOp => [l.op1, l.op3]
  | .jumpIfFalse | .jumpIfTrue | .intIncrement => [l.dst]
  | .index => [l.op1, l.op2]
  | .call => List.range' l.op2 l.op3
  | .makeList => List.range' l.op1 l.op2
  | .makeMap => List.range' l.op1 (2 * l.op2)
  | .makeMessage => List.range' l.op1 (p.messageFields[l.op2]?.getD []).length
  | .bindVar => [l.op2]
  | _ => []

/-- The offsets that a record may go on at instead of the next one. -/
def Line.targets (l : Line) : List Nat :=
  match l.opcode with
  | .jumpIfFalse | .jumpIfTrue | .jump => [l.op1]
  | .iterNext => [l.op2]
  | _ => []

/-- The records that both machines perform in one way, and go on behind. -/
def Opcode.isOrdinary : Opcode → Bool
  | .jumpIfFalse | .jumpIfTrue | .jump | .iterNext | .listAppend | .move | .return => false
  | _ => true

theorem Opcode.handlesLists_of_isOrdinary {opcode : Opcode} (h : opcode.isOrdinary) :
    opcode.handlesLists = false := by
  cases opcode <;> first | rfl | cases h

theorem Line.targets_of_isOrdinary {l : Line} (h : l.opcode.isOrdinary) : l.targets = [] := by
  obtain ⟨opcode, dst, a, b, c, k⟩ := l
  cases opcode <;> first | rfl | cases h

/-- What is known of the registers after a record. -/
def View.after (V : View) (opcode : Opcode) (dst : Nat) : View :=
  if opcode.writes then V.set dst .same else V

theorem View.after_of_writes {V : View} {opcode : Opcode} {dst : Nat} (h : opcode.writes) :
    V.after opcode dst = V.set dst .same := if_pos h

theorem View.after_of_not_writes {V : View} {opcode : Opcode} {dst : Nat}
    (h : opcode.writes = false) : V.after opcode dst = V := if_neg (ne_true_of_eq_false h)

/-- Where two machines may stand after a record that does not end the execution. -/
def Line.GoesOn (l : Line) (V : View) (next : Nat) (result : Option Value) (s t : State) : Prop :=
  result = none ∧
    (s.pc = next ∧ s.Mirrors (V.after l.opcode l.dst) t ∨ s.pc ∈ l.targets ∧ s.Mirrors V t)

namespace Machine

open Exec

variable {m : Machine} {V : View} {s t : State} {span : Span}

section

variable (h : s.Mirrors V t)
include h

theorem alike_buildMessage {first fields typeName : UInt32}
    (hr : ∀ r ∈ List.range' first.toNat (m.program.messageFields[fields.toNat]?.getD []).length,
      V r = .same) :
    (m.buildMessage span first fields typeName).Alike (m.buildMessage span first fields typeName)
      s t (Stays s t) := by
  refine alike_ofOption h.toEndsLike fun names hnames => alike_ofOption h.toEndsLike fun _ _ => ?_
  rw [hnames] at hr
  refine alike_unless (c := UInt32.size ≤ names.length) h.toEndsLike fun _ => ?_
  exact (alike_readRun h hr).andThen fun _ => alike_ofResult h.toEndsLike

theorem alike_callFunction {name : String} {args : List Value} :
    (m.callFunction span name args).Alike (m.callFunction span name args) s t
      fun _ u w => u.pc = s.pc ∧ u.Mirrors V w :=
  (alike_ofResult h.toEndsLike).andThen fun r => alike_modify (.pure ⟨rfl, h.count r.2⟩)

/-- The next item of an iterator is the same, or there is none in either. -/
theorem alike_nextItem {dst iterator exit : UInt32} :
    (nextItem span dst iterator exit).Alike (nextItem span dst iterator exit) s t fun _ u w =>
      u.pc = s.pc ∧ u.Mirrors (V.set dst.toNat .same) w ∨ u.pc = exit.toNat ∧ u.Mirrors V w := by
  refine alike_get ?_
  rw [h.iterators]
  split
  · exact alike_defect h.toEndsLike
  · exact .of_ok rfl rfl (.inr ⟨rfl, h.goto exit⟩)
  · exact alike_modify ((alike_write (h.iterate _)).mono fun _ _ _ => .inl)

theorem alike_checkCondition {v : Value} {role : UInt32} :
    (checkCondition span v role).Alike (checkCondition span v role) s t (Stays s t) := by
  unfold checkCondition
  split
  · exact .pure ⟨rfl, rfl⟩
  · split
    · exact alike_fail h.toEndsLike
    · exact alike_defect h.toEndsLike

end

section

variable {i : Instruction} {next : Nat}

/-- The last thing that most records do is to write a value. -/
theorem alike_last (h : s.Mirrors V t) (hpc : s.pc = next) (hw : i.opcode.writes)
    (v : Value) :
    (do write span i.dst v; pure none : Exec (Option Value)).Alike
      (do write span i.dst v; pure none) s t (i.line.GoesOn V next) := by
  refine (alike_write h).bind fun _ u w hu => .pure ⟨rfl, .inl ⟨hu.1.trans hpc, ?_⟩⟩
  exact (View.after_of_writes hw).symm ▸ hu.2

/-- What most other records do is to leave the registers as they are. -/
theorem alike_done (h : s.Mirrors V t) (hpc : s.pc = next) (hw : i.opcode.writes = false) :
    (pure none : Exec (Option Value)).Alike (pure none) s t (i.line.GoesOn V next) := by
  exact .pure ⟨rfl, .inl ⟨hpc, (View.after_of_not_writes hw).symm ▸ h⟩⟩

/-- Records that go on elsewhere. -/
theorem alike_jump (h : s.Mirrors V t) {target : UInt32} (htarget : target.toNat ∈ i.line.targets) :
    (do jump target; pure none : Exec (Option Value)).Alike (do jump target; pure none) s t
      (i.line.GoesOn V next) :=
  alike_modify (.pure ⟨rfl, .inr ⟨htarget, h.goto target⟩⟩)

/-- Performing a record that reads only what is the same keeps two states alike. -/
theorem alike_perform (h : s.Mirrors V t) (hlists : i.opcode.handlesLists = false)
    (hreads : ∀ r ∈ i.line.reads m.program, V r = .same) :
    (m.perform i span).Alike (m.perform i span) s t (i.line.GoesOn V s.pc) := by
  have hend := h.toEndsLike
  obtain ⟨opcode, dst, a, b, c, k⟩ := i
  cases opcode with
  | loadConst => exact alike_ofOption hend fun v _ => alike_last h rfl rfl v
  | loadVar =>
    refine alike_ofOption hend fun name _ => alike_get ?_
    rw [h.env]
    cases s.env.get? name with
    | some v => exact alike_last h rfl rfl v
    | none => exact .of_error rfl rfl hend
  | loadTrue | loadFalse | loadNull => exact alike_last h rfl rfl _
  | negate =>
    have ha : V a.toNat = .same := hreads _ List.mem_cons_self
    exact (alike_read h ha).andThen fun _ => (alike_ofResult hend).andThen (alike_last h rfl rfl)
  | not =>
    have ha : V a.toNat = .same := hreads _ List.mem_cons_self
    refine (alike_read h ha).andThen fun v => ?_
    cases v with
    | bool x => exact alike_last h rfl rfl _
    | _ => exact (alike_ofResult hend).andThen (alike_last h rfl rfl)
  | binaryOp =>
    have ha : V a.toNat = .same := hreads _ List.mem_cons_self
    have hc : V c.toNat = .same := hreads _ (List.mem_cons_of_mem _ List.mem_cons_self)
    exact (alike_read h ha).andThen fun _ => (alike_read h hc).andThen fun _ =>
      (alike_ofResult hend).andThen (alike_last h rfl rfl)
  | jumpIfFalse | jumpIfTrue =>
    have hd : V dst.toNat = .same := hreads _ List.mem_cons_self
    refine (alike_read h hd).andThen fun v => ?_
    split
    · exact alike_jump h List.mem_cons_self
    · exact alike_done h rfl rfl
  | jump => exact alike_jump h List.mem_cons_self
  | condCheck =>
    have ha : V a.toNat = .same := hreads _ List.mem_cons_self
    exact (alike_read h ha).andThen fun _ => (alike_checkCondition h).andThen fun _ =>
      alike_done h rfl rfl
  | memberAccess | hasField =>
    have ha : V a.toNat = .same := hreads _ List.mem_cons_self
    exact alike_ofOption hend fun _ _ => (alike_read h ha).andThen fun _ =>
      (alike_ofResult hend).andThen fun _ => alike_last h rfl rfl _
  | index =>
    have ha : V a.toNat = .same := hreads _ List.mem_cons_self
    have hb : V b.toNat = .same := hreads _ (List.mem_cons_of_mem _ List.mem_cons_self)
    exact (alike_read h ha).andThen fun _ => (alike_read h hb).andThen fun _ =>
      (alike_ofResult hend).andThen (alike_last h rfl rfl)
  | call =>
    refine alike_ofOption hend fun _ _ => (alike_readRun h hreads).andThen fun _ => ?_
    -- The call is counted before its value is written.
    exact (alike_callFunction h).bind fun v _ _ hu => alike_last hu.2 hu.1 rfl v
  | makeList => exact (alike_readRun h hreads).andThen fun _ => alike_last h rfl rfl _
  | makeMap =>
    refine alike_unless (c := UInt32.size ≤ 2 * b.toNat) hend fun _ => ?_
    exact (alike_readRun h hreads).andThen fun _ => (alike_ofResult hend).andThen fun _ =>
      alike_last h rfl rfl _
  | makeMessage => exact (alike_buildMessage h hreads).andThen (alike_last h rfl rfl)
  | iterInit =>
    have ha : V a.toNat = .same := hreads _ List.mem_cons_self
    exact (alike_read h ha).andThen fun _ => (alike_ofResult hend).andThen fun items =>
      alike_modify (alike_done (h.iterate items) rfl rfl)
  | iterNext =>
    refine (alike_nextItem h).bind fun _ u w hu => .pure ⟨rfl, ?_⟩
    exact hu.imp_right fun hu => ⟨List.mem_singleton.2 hu.1, hu.2⟩
  | scopePush => exact alike_modify (alike_done h.enter rfl rfl)
  | scopePop =>
    refine alike_get ?_
    rw [h.openScopes]
    exact alike_unless (c := s.openScopes = 0) hend fun _ =>
      alike_modify (alike_done h.leave rfl rfl)
  | bindVar =>
    have hb : V b.toNat = .same := hreads _ List.mem_cons_self
    exact alike_ofOption hend fun name _ => (alike_read h hb).andThen fun _ =>
      alike_modify (alike_done (h.bind name) rfl rfl)
  | intIncrement =>
    have hd : V dst.toNat = .same := hreads _ List.mem_cons_self
    refine (alike_read h hd).andThen fun v => ?_
    cases v with
    | int n =>
      show Alike (if n.toInt < Int64.maxValue.toInt then _ else _)
        (if n.toInt < Int64.maxValue.toInt then _ else _) s t _
      split
      · exact alike_last h rfl rfl _
      · exact .of_error rfl rfl hend
    | _ => exact .of_error rfl rfl hend
  | listAppend | move | «return» => cases hlists

/-- A record that appends to a list. -/
theorem alike_listAppend {dst a b c k : UInt32} (h : s.Mirrors V t) (hdst : V dst.toNat = .list)
    (ha : V a.toNat = .same) :
    (m.perform ⟨.listAppend, dst, a, b, c, k⟩ span).Alike
      (m.performInPlace ⟨.listAppend, dst, a, b, c, k⟩ span) s t
      fun res u w => res = none ∧ u.pc = s.pc ∧ u.Mirrors V w :=
  (alike_read h ha).andThen fun _ => (alike_append h hdst).bind fun _ _ _ hu => .pure ⟨rfl, hu⟩

/-- A record that moves what is held. Nothing need be known any more of the
    register that it is moved from. -/
theorem alike_move {dst a b c k : UInt32} {W : View} (h : s.Mirrors V t)
    (ha : V a.toNat ≠ .unknown)
    (hW : (s.release a).Mirrors W t) :
    (m.perform ⟨.move, dst, a, b, c, k⟩ span).Alike
      (m.performInPlace ⟨.move, dst, a, b, c, k⟩ span) s t
      fun res u w => res = none ∧ u.pc = s.pc ∧ u.Mirrors (W.set dst.toNat .same) w := by
  refine (alike_take h ha).bind fun v u w hu => ?_
  obtain ⟨rfl, rfl⟩ := hu
  exact (alike_write hW).bind fun _ _ _ hu => .pure ⟨rfl, hu⟩

/-- A record that returns what is held. -/
theorem alike_return {dst a b c k : UInt32} (h : s.Mirrors V t) (ha : V a.toNat ≠ .unknown) :
    (m.perform ⟨.return, dst, a, b, c, k⟩ span).Alike
      (m.performInPlace ⟨.return, dst, a, b, c, k⟩ span) s t
      fun res u w => res ≠ none ∧ u.EndsLike w := by
  refine (alike_take h ha).bind fun v u w hu => ?_
  obtain ⟨rfl, rfl⟩ := hu
  exact .pure ⟨Option.some_ne_none v, h.idempotent, h.openScopes, h.env⟩

end

end Machine

end ExprMachine
