import ExprMachine.Proofs.Correctness
import ExprMachine.Proofs.Footprints
import ExprMachine.Proofs.NestedLoops

/-!
# Code by itself

The code of an expression computes its value in every program that it is in, whatever is behind it
(`Machine.computes_lower`). So the execution of the code is the same in a program that ends with it
(`Program.alone`), where nothing can be executed but the code: an execution that has come to the end
of the code fails there, and has not been there before.

Hence the execution of the code of an expression takes steps at the records of the code only, until
one of them fails or it stands behind the last one (`Machine.through_lower`).
-/

namespace ExprMachine

open Build

/-! ## Steps between places -/

/-- The next record to be performed lies between two places. -/
def State.Between (s : State) (first last : Nat) : Prop :=
  ∃ k, first ≤ k ∧ k < last ∧ s.pc = stride * k

/-- Steps at the records between two places lead from a state to another one. -/
def Machine.Through (m : Machine) (first last : Nat) : State → State → Prop :=
  Relation.ReflTransGen fun s t => s.Between first last ∧ m.step s = .ok none t

/-- The counter stays where it is, or is set to a target. -/
theorem Instruction.Changes.pc {i : Instruction} {s t : State}
    (h : Relation.ReflTransGen i.Changes s t) :
    t.pc = s.pc ∨ ∃ n, (Operand.target, n) ∈ i.opcode.layout.zip i.slots ∧ t.pc = n.toNat := by
  induction h with
  | refl => exact .inl rfl
  | tail _ hchange ih =>
    cases hchange with
    | goto hn => exact .inr ⟨_, hn, rfl⟩
    | _ => exact ih

/-- The targets of a record are those of the line that it has been made from. -/
theorem Line.toNat_mem_targets {l : Line} (hfits : l.fits) {n : UInt32}
    (h : (Operand.target, n) ∈ l.toInstruction.opcode.layout.zip l.toInstruction.slots) :
    n.toNat ∈ l.targets := by
  obtain ⟨-, -, hop1, hop2, -⟩ := Line.fits_iff.1 hfits
  obtain ⟨opcode, dst, a, b, c, k⟩ := l
  cases opcode
  all_goals
    simp only [Line.toInstruction, Instruction.slots, Opcode.layout, List.zip_cons_cons,
      List.zip_nil_right, List.mem_cons, Prod.mk.injEq, reduceCtorEq, false_and, true_and,
      List.not_mem_nil, or_false, false_or] at h
  all_goals
    subst h
    simp only [Line.targets, List.mem_singleton]
    first | exact toNat_ofNat_of_lt hop1 | exact toNat_ofNat_of_lt hop2

namespace Program.Holds

variable {p : Program} {place k : Nat} {lines : List Line} {l : Line}

theorem fetch_of_lineAt (h : p.Holds place lines) (hl : LineAt place lines k l) :
    l.fits ∧ p.fetch (stride * k) = .ok l.toInstruction := by
  obtain ⟨i, hi, rfl⟩ := hl
  exact ⟨h.fits l (List.mem_of_getElem? hi), h.fetch i l hi⟩

/-- A step at a line leads to the next one or to a target. -/
theorem goes {m : Machine} {s t : State} (h : m.program.Holds place lines)
    (hl : LineAt place lines k l) (hpc : s.pc = stride * k) (hstep : m.step s = .ok none t) :
    t.pc = stride * (k + 1) ∨ t.pc ∈ l.targets := by
  obtain ⟨hfits, hfetch⟩ := h.fetch_of_lineAt hl
  rw [← hpc] at hfetch
  rcases Instruction.Changes.pc (Machine.changes_of_step hfetch hstep) with hnext | ⟨n, hn, htarget⟩
  · exact .inl (hnext.trans (congrArg (· + stride) hpc))
  · exact .inr (htarget ▸ Line.toNat_mem_targets hfits hn)

/-- A step at a line of code whose loops are nested stays in the code or leads to its end. -/
theorem exists_place {m : Machine} {s t : State} (h : m.program.Holds place lines)
    (hloops : Looping none place lines) (hl : LineAt place lines k l) (hpc : s.pc = stride * k)
    (hstep : m.step s = .ok none t) :
    ∃ j, t.pc = stride * j ∧ place ≤ j ∧ j ≤ place + lines.length ∧
      (j = k + 1 ∨ stride * j ∈ l.targets) := by
  have hle := hl.le
  have hlt := hl.lt
  rcases h.goes hl hpc hstep with hnext | htarget
  · exact ⟨k + 1, hnext, by omega, by omega, .inl rfl⟩
  · obtain ⟨j, hj, -⟩ := hloops.leads hl htarget
    rw [hj] at htarget
    rcases hloops.bounds hl htarget with ⟨hj', hend⟩ | ⟨a, ⟨⟩, -⟩
    exact ⟨j, hj, Nat.le_of_lt hj', hend, .inr htarget⟩

end Program.Holds

theorem exists_lineAt {place k : Nat} {lines : List Line} (hle : place ≤ k)
    (hlt : k < place + lines.length) : ∃ l, LineAt place lines k l := by
  obtain ⟨i, rfl⟩ := Nat.exists_eq_add_of_le hle
  exact ⟨_, i, List.getElem?_eq_getElem (Nat.lt_of_add_lt_add_left hlt), rfl⟩

/-! ## Programs that end with a piece of code -/

/-- The records of lines from a place on, with others before them. -/
def padded (place : Nat) (lines : List Line) : List Instruction :=
  List.replicate place ⟨.return, 0, 0, 0, 0, 0⟩ ++ lines.map Line.toInstruction

/-- A program that holds some lines from a place on, and nothing behind them but some words that
    are no record. -/
def Program.alone (p : Program) (place : Nat) (lines : List Line) (rest : List UInt32) : Program :=
  { p with code := ((padded place lines).flatMap Instruction.encode ++ rest).toArray }

/-- A machine with such a program. -/
def Machine.alone (m : Machine) (place : Nat) (lines : List Line) (rest : List UInt32) : Machine :=
  { m with program := m.program.alone place lines rest }

section

variable {p : Program} {place k : Nat} {lines : List Line} {l : Line} {rest : List UInt32}

theorem length_padded : (padded place lines).length = place + lines.length := by
  simp [padded]

theorem getElem?_padded (hl : LineAt place lines k l) :
    (padded place lines)[k]? = some l.toInstruction := by
  obtain ⟨i, hi, rfl⟩ := hl
  rw [padded, List.getElem?_append_right (by simp), List.getElem?_map, List.length_replicate,
    Nat.add_sub_cancel_left, hi]
  rfl

namespace Program

theorem toList_code_alone : (p.alone place lines rest).code.toList =
    (padded place lines).flatMap Instruction.encode ++ rest := rfl

theorem fetch_alone (hl : LineAt place lines k l) :
    (p.alone place lines rest).fetch (stride * k) = .ok l.toInstruction := by
  obtain ⟨hk, hl⟩ := List.getElem?_eq_some_iff.1 (getElem?_padded hl)
  rw [fetch_of_encode_append toList_code_alone hk, hl]

theorem size_alone :
    (p.alone place lines rest).code.size = stride * (place + lines.length) + rest.length := by
  rw [← Array.length_toList, toList_code_alone, List.length_append, length_flatMap_encode,
    length_padded]

theorem fetch_alone_end : ∃ reason,
    (p.alone place lines [0]).fetch (stride * (place + lines.length)) = .error reason := by
  refine ⟨.truncated (stride * (place + lines.length)), ?_⟩
  rw [fetch_eq_decode, toList_code_alone, ← length_padded, ← length_flatMap_encode, List.drop_left]
  rfl

end Program

theorem Program.Loads.alone {d : Draft} {α : Type} {piece : Piece α} (h : p.Loads d piece) :
    (p.alone d.records piece.lines rest).Loads d piece where
  holds := ⟨h.holds.fits, fun k _ hk => fetch_alone ⟨k, hk, rfl⟩⟩
  covers := ⟨h.covers.registers, h.covers.constants, h.covers.strings, h.covers.spans,
    h.covers.messageFields⟩

namespace Machine

variable {m : Machine} {s t : State}

/-- Nothing is performed behind the code, and the error says whether there are words. -/
theorem step_alone_end (hpc : s.pc = stride * (place + lines.length)) :
    (m.alone place lines []).step s = .error ⟨Span.none, .defect (.noReturn s.pc)⟩ s ∧
      ∃ reason, (m.alone place lines [0]).step s =
        .error ⟨Span.none, .defect (.undecodable s.pc reason)⟩ s := by
  constructor
  · refine step_beyond (m := m.alone place lines []) ?_
    rw [hpc]
    exact Nat.le_of_eq Program.size_alone
  · have hend : ∃ reason, (m.program.alone place lines [0]).fetch s.pc = .error reason := by
      rw [hpc]
      exact Program.fetch_alone_end
    obtain ⟨reason, hreason⟩ := hend
    refine ⟨reason, step_undecodable (m := m.alone place lines [0]) ?_ hreason⟩
    show s.pc < (m.program.alone place lines [0]).code.size
    rw [hpc, Program.size_alone]
    exact Nat.lt_succ_self _

variable (h : m.program.Holds place lines)
include h

/-- The records of the code are performed as they are in the whole program. -/
theorem step_alone (hl : LineAt place lines k l) (hpc : s.pc = stride * k) :
    (m.alone place lines rest).step s = m.step s := by
  have hat : m.At s l.toInstruction (m.program.span l.toInstruction.span) :=
    ⟨hpc ▸ (h.fetch_of_lineAt hl).2, rfl⟩
  have hat' : (m.alone place lines rest).At s l.toInstruction
      (m.program.span l.toInstruction.span) := ⟨hpc ▸ Program.fetch_alone hl, rfl⟩
  rw [hat.step_eq, hat'.step_eq]
  rfl

/-- What is reached in the program that ends with the code is reached by steps in the code. -/
theorem through_of_alone (hloops : Looping none place lines)
    (hend : ∀ u v, u.pc = stride * (place + lines.length) →
      (m.alone place lines rest).step u ≠ .ok none v)
    (hs : s.Between place (place + lines.length + 1))
    (hr : (m.alone place lines rest).Reaches s t) :
    m.Through place (place + lines.length) s t ∧ t.Between place (place + lines.length + 1) := by
  induction hr with
  | refl => exact ⟨.refl, hs⟩
  | @tail u v _ hstep ih =>
    obtain ⟨hthrough, k, hle, hlt, hpc⟩ := ih
    have hk : k ≠ place + lines.length := by
      rintro rfl
      exact hend u v hpc hstep
    have hlt : k < place + lines.length := by omega
    obtain ⟨l, hl⟩ := exists_lineAt hle hlt
    rw [step_alone h hl hpc] at hstep
    obtain ⟨j, hpc', hplace, hj, -⟩ := h.exists_place hloops hl hpc hstep
    exact ⟨hthrough.tail ⟨⟨k, hle, hlt, hpc⟩, hstep⟩, j, hplace, Nat.lt_succ_of_le hj, hpc'⟩

/-- What fails in that program fails in the code, unless it stands at the end. -/
theorem fails_of_alone {err : EvalError} {u : State}
    (ht : t.Between place (place + lines.length + 1))
    (hstep : (m.alone place lines rest).step t = .error err u) :
    t.Between place (place + lines.length) ∧ m.step t = .error err u ∨
      t.pc = stride * (place + lines.length) := by
  obtain ⟨k, hle, hlt, hpc⟩ := ht
  rcases Nat.eq_or_lt_of_le (Nat.le_of_lt_succ hlt) with rfl | hlt
  · exact .inr hpc
  · obtain ⟨l, hl⟩ := exists_lineAt hle hlt
    rw [step_alone h hl hpc] at hstep
    exact .inl ⟨⟨k, hle, hlt, hpc⟩, hstep⟩

end Machine

end

/-! ## The code of expressions -/

namespace Machine

variable {m : Machine} {macros : Bool} {e : Expr} {d : Draft} {F : Frame} {s : State}

/-- Executing the code of an expression fails at one of its records, or leads by steps at its
    records to its end, with its value and with everything in the registers before as it was. -/
theorem through_lower (hl : m.program.Loads d (e.lower macros d)) (hs : m.Ready d F s) :
    (∃ t u err, m.Through d.records (e.lower macros d).draft.records s t ∧
      t.Between d.records (e.lower macros d).draft.records ∧ m.step t = .error err u) ∨
    ∃ t v, m.Through d.records (e.lower macros d).draft.records s t ∧
      m.Yields (e.lower macros) d F s v t := by
  have hloops := (Expr.loops_lower macros e none).looping d
  have hstart : s.Between d.records (d.records + (e.lower macros d).lines.length + 1) :=
    ⟨d.records, Nat.le_refl _, by omega, hs.pc⟩
  rw [Lawful.records]
  -- Two programs that end with the code, in which an execution fails in different ways at the end.
  let m₁ := m.alone d.records (e.lower macros d).lines []
  let m₂ := m.alone d.records (e.lower macros d).lines [0]
  have hend₁ (u v : State) (hpc : u.pc = stride * (d.records + (e.lower macros d).lines.length)) :
      m₁.step u ≠ .ok none v := by
    rw [(step_alone_end hpc).1]
    nofun
  have hend₂ (u v : State) (hpc : u.pc = stride * (d.records + (e.lower macros d).lines.length)) :
      m₂.step u ≠ .ok none v := by
    obtain ⟨reason, hreason⟩ := (step_alone_end (m := m) hpc).2
    rw [hreason]
    nofun
  have hf₁ := computes_lower m₁ e d F s hl.alone ⟨hs.pc, hs.size, hs.env, hs.openScopes⟩
  have hf₂ := computes_lower m₂ e d F s hl.alone ⟨hs.pc, hs.size, hs.env, hs.openScopes⟩
  cases hev : e.eval m.toHost macros F.env s.idempotent with
  | ok v all =>
    obtain ⟨t, hr, -, hy⟩ := hf₁.of_ok hev
    obtain ⟨hthrough, -⟩ := through_of_alone hl.holds hloops hend₁ hstart hr
    refine .inr ⟨t, v, hthrough, ⟨hy.ready.pc, hy.ready.size, hy.ready.env, hy.ready.openScopes⟩,
      hy.agrees, hy.has⟩
  | error err all =>
    obtain ⟨t, u, hr, hstep, -⟩ := hf₁.of_error hev
    obtain ⟨t', u', hr', hstep', -⟩ := hf₂.of_error hev
    obtain ⟨hthrough, ht⟩ := through_of_alone hl.holds hloops hend₁ hstart hr
    obtain ⟨hthrough', ht'⟩ := through_of_alone hl.holds hloops hend₂ hstart hr'
    rcases fails_of_alone hl.holds ht hstep with ⟨hin, hfails⟩ | hpc
    · exact .inl ⟨t, u, err, hthrough, hin, hfails⟩
    rcases fails_of_alone hl.holds ht' hstep' with ⟨hin, hfails⟩ | hpc'
    · exact .inl ⟨t', u', err, hthrough', hin, hfails⟩
    -- The evaluation fails with one error, so not at the end of both programs.
    · obtain ⟨reason, hreason⟩ := (step_alone_end (m := m) hpc').2
      have herr := hstep.symm.trans (step_alone_end hpc).1
      have herr' := hstep'.symm.trans hreason
      cases herr
      cases herr'

end Machine

end ExprMachine
