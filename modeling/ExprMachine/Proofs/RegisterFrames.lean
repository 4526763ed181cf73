import ExprMachine.Proofs.CodeAlone
import ExprMachine.Proofs.Idempotence
import ExprMachine.Proofs.Verified

/-!
# The code of an expression keeps to its registers

The registers that the code of an expression is built with are its own: the draft has handed out
none of them before, and whatever else is in a register, an iterator or a list under construction,
the code leaves it as it is. So what a construct has computed for one of its parts is still there
when the next ones have been computed.

* No register behind those of the code changes, since the records of the code do not refer to it.
* No register before them changes, since the code computes the value of the expression wherever it
  is (`Machine.through_lower`).
* A list is under construction in a register of the code only while the execution is in a loop whose
  result it is, or behind it where the result is moved (`State.Inside`); so there is none at the end.
-/

namespace ExprMachine

open Relation (ReflTransGen)

/-! ## What records change -/

namespace Instruction

variable {i : Instruction}

theorem dst_mem_of_writes (h : i.opcode.writes) :
    (Operand.register, i.dst) ∈ i.opcode.layout.zip i.slots := by
  obtain ⟨opcode, dst, a, b, c, k⟩ := i
  cases opcode <;> first | exact List.mem_cons_self | cases h

namespace Changes

variable {s t : State} {q : UInt32}

/-- A change is to registers that the record refers to. -/
theorem cell_eq (h : i.Changes s t) (hq : (Operand.register, q) ∉ i.opcode.layout.zip i.slots) :
    t.cell q = s.cell q := by
  have hne {r : UInt32} (hr : (Operand.register, r) ∈ i.opcode.layout.zip i.slots) : r ≠ q := by
    rintro rfl
    exact hq hr
  obtain ⟨opcode, dst, a, b, c, k⟩ := i
  cases h with
  | goto | count | scope => rfl
  | drop h => exact State.cell_release_of_ne (hne (dst_mem_of_writes h))
  | store h =>
    have hdst : dst.toNat ≠ q.toNat := fun h' => hne (dst_mem_of_writes h) (UInt32.toNat_inj.1 h')
    simp [State.cell, State.read?, hdst]
  | take h =>
    refine State.cell_release_of_ne (hne ?_)
    rcases h with rfl | rfl <;> simp [Opcode.layout, slots]
  | append h =>
    obtain rfl : opcode = .listAppend := h
    have hdst : dst ≠ q := hne List.mem_cons_self
    rw [State.cell, State.cell, Entries.get?_insert, if_neg hdst]
    rfl
  | iterate h =>
    obtain rfl : opcode = .iterInit := h
    exact State.cell_iterate_of_ne (hne List.mem_cons_self)
  | proceed h =>
    obtain rfl : opcode = .iterNext := h
    exact State.cell_iterate_of_ne (hne (by simp [Opcode.layout, slots]))

/-- Only a record that appends begins a list. -/
theorem pending_eq_none (h : i.Changes s t) (hs : s.pending.get? q = none) :
    t.pending.get? q = none ∨ i.opcode = .listAppend ∧ i.dst = q := by
  cases h with
  | goto | count | scope | store | iterate | proceed => exact .inl hs
  | drop | take =>
    refine .inl ?_
    rw [State.pending_release]
    split
    · rfl
    · exact hs
  | append h =>
    by_cases hdst : i.dst = q
    · exact .inr ⟨h, hdst⟩
    · refine .inl ?_
      rw [Entries.get?_insert, if_neg hdst, hs]

/-- So no other registers are changed by all that a record does. -/
theorem cell_eq_of_changes (h : ReflTransGen i.Changes s t)
    (hq : (Operand.register, q) ∉ i.opcode.layout.zip i.slots) : t.cell q = s.cell q := by
  induction h with
  | refl => rfl
  | tail _ hchange ih => exact (hchange.cell_eq hq).trans ih

theorem pending_eq_none_of_changes (h : ReflTransGen i.Changes s t)
    (hs : s.pending.get? q = none) :
    t.pending.get? q = none ∨ i.opcode = .listAppend ∧ i.dst = q := by
  induction h with
  | refl => exact .inl hs
  | tail _ hchange ih =>
    rcases ih with hnone | happend
    · exact hchange.pending_eq_none hnone
    · exact .inr happend

end Changes

end Instruction

namespace Machine

open Exec

variable {m : Machine} {s t : State}

/-- A register that has been moved has no list under construction. -/
theorem pending_eq_none_of_move {i : Instruction} (hfetch : m.program.fetch s.pc = .ok i)
    (hop : i.opcode = .move) (hstep : m.step s = .ok none t) : t.pending.get? i.op1 = none := by
  have happend (h : i.opcode = .listAppend ∧ i.dst = i.op1) : t.pending.get? i.op1 = none := by
    rw [hop] at h
    cases h.1
  cases hp : s.pending.get? i.op1 with
  | none =>
    have hchanges := changes_of_step hfetch hstep
    exact (Instruction.Changes.pending_eq_none_of_changes hchanges hp).elim id happend
  | some items =>
    obtain ⟨opcode, dst, a, b, c, k⟩ := i
    obtain rfl : opcode = .move := hop
    have hat : m.At s ⟨.move, dst, a, b, c, k⟩ (m.program.span k) := ⟨hfetch, rfl⟩
    have hp : s.advance.pending.get? a = some items := hp
    have hheld : s.advance.held? a = some (.list items.reverse) := by rw [State.held?, hp]
    simp only [hat.step_eq, perform] at hstep
    rw [bind_ok _ (take_eq hheld)] at hstep
    -- The list has been taken, and a write begins no other one.
    have hwrite : (do
        write (m.program.span k) dst (.list items.reverse)
        pure none : Exec (Option Value)).Leads (Instruction.Changes ⟨.move, dst, a, b, c, k⟩) :=
      .bind (leads_write (fun _ => .drop rfl) fun _ => .store rfl) fun _ => .pure
    have hchanges := final_ok hstep ▸ hwrite (s.advance.release a)
    have htaken : (s.advance.release a).pending.get? a = none := by
      rw [State.pending_release, if_pos rfl]
    exact (Instruction.Changes.pending_eq_none_of_changes hchanges htaken).elim id happend

end Machine

/-! ## In the code -/

/-- The registers that the record of a line refers to have been handed out. -/
theorem Line.WellFormed.lt_of_mem {l : Line} {d : Draft} {q : UInt32} (h : l.WellFormed d)
    (hfits : l.fits)
    (hq : (Operand.register, q) ∈ l.toInstruction.opcode.layout.zip l.toInstruction.slots) :
    q.toNat < d.registers := by
  obtain ⟨slot, hslot⟩ := Program.exists_mem_operands hq
  obtain ⟨n, hn, rfl, hadmits⟩ := Program.exists_of_mem_operands h hslot
  rw [toNat_ofNat_of_lt (Line.lt_of_mem_slots hfits hn)]
  exact hadmits

/-- What is known at a place of a piece of code that has been executed from a state. -/
structure State.Inside {α : Type} (s : State) (d : Draft) (piece : Piece α) (k : Nat) (t : State) :
    Prop where
  pc : t.pc = stride * k
  le : d.records ≤ k
  le_end : k ≤ d.records + piece.lines.length
  /-- The registers behind those of the piece are as they were. -/
  beyond : ∀ r : UInt32, piece.draft.registers ≤ r.toNat → t.cell r = s.cell r
  /-- A list is under construction in one of the piece only in a loop, or before it is moved. -/
  pending : ∀ r : UInt32, d.registers ≤ r.toNat → r.toNat < piece.draft.registers →
    t.pending.get? r = none ∨
      ∃ head exit, ResultAt d.records piece.lines head exit r.toNat ∧ head ≤ k ∧ k ≤ exit + 1

section

variable {m : Machine} {α : Type} {d : Draft} {piece : Piece α} {s t u : State} {k j : Nat}
  {l : Line} {r : UInt32} (hl : m.program.Loads d piece)
  (hloops : Looping none d.records piece.lines)

/-- The list that is built up in a loop is still built up in it after a step, or is moved behind
    it. -/
theorem ResultAt.step {head exit : Nat} (h : ResultAt d.records piece.lines head exit r.toNat)
    (hloops : Looping none d.records piece.lines) (hfits : l.fits)
    (hline : LineAt d.records piece.lines k l) (hfetch : m.program.fetch t.pc = .ok l.toInstruction)
    (hstep : m.step t = .ok none u) (hj : j = k + 1 ∨ stride * j ∈ l.targets) (hhead : head ≤ k)
    (hexit : k ≤ exit + 1) : u.pending.get? r = none ∨ head ≤ j ∧ j ≤ exit + 1 := by
  have haround : ∀ a ∈ (none : Option Around), a.head < d.records := by rintro a ⟨⟩
  obtain ⟨leave, hleave, hscope⟩ := h.leave
  obtain ⟨move, hmove, hop, hop1⟩ := h.move
  rcases Nat.lt_trichotomy k exit with hlt | rfl | hgt
  · -- In the loop, where a target may not lead out of it.
    rcases hj with rfl | ht
    · exact .inr ⟨by omega, by omega⟩
    · have hbetween := (hloops.respects haround h.loop hline ht).1 ⟨hhead, hlt⟩
      exact .inr ⟨hbetween.1, Nat.le_succ_of_le hbetween.2⟩
  · -- Where the scope is left.
    obtain rfl := hline.unique hleave
    have hnone : l.targets = [] := by simp [Line.targets, hscope]
    rw [hnone, or_iff_left List.not_mem_nil] at hj
    exact .inr ⟨by omega, by omega⟩
  · -- Where the list is moved.
    obtain rfl : k = exit + 1 := by omega
    obtain rfl := hline.unique hmove
    have hr : l.toInstruction.op1 = r := by
      refine UInt32.toNat_inj.1 ((toNat_ofNat_of_lt ?_).trans hop1)
      exact (Line.fits_iff.1 hfits).2.2.1
    exact .inl (hr ▸ Machine.pending_eq_none_of_move hfetch hop hstep)

variable (hwell : ∀ l ∈ piece.lines, l.WellFormed piece.draft)
include hl hloops hwell

theorem State.Inside.step (h : s.Inside d piece k t) (hlt : k < d.records + piece.lines.length)
    (hstep : m.step t = .ok none u) : ∃ j, s.Inside d piece j u := by
  obtain ⟨l, hline⟩ := exists_lineAt h.le hlt
  obtain ⟨hfits, hfetch⟩ := hl.holds.fetch_of_lineAt hline
  rw [← h.pc] at hfetch
  have hchanges := Machine.changes_of_step hfetch hstep
  obtain ⟨j, hpc, hle, hend, hj⟩ := hl.holds.exists_place hloops hline h.pc hstep
  refine ⟨j, hpc, hle, hend, fun r hr => ?_, fun r hr hr' => ?_⟩
  · have hnot : (Operand.register, r) ∉
        l.toInstruction.opcode.layout.zip l.toInstruction.slots := by
      intro hmem
      exact Nat.not_lt.2 hr ((hwell l hline.mem).lt_of_mem hfits hmem)
    exact (Instruction.Changes.cell_eq_of_changes hchanges hnot).trans (h.beyond r hr)
  · rcases h.pending r hr hr' with hnone | ⟨head, exit, hresult, hhead, hexit⟩
    · rcases Instruction.Changes.pending_eq_none_of_changes hchanges hnone with
        hnone | ⟨happend, hdst⟩
      · exact .inl hnone
      · -- A list is begun in the loop whose result it is.
        have happend : l.opcode = .listAppend := happend
        have hdst : l.dst = r.toNat := by
          rw [← hdst]
          exact (toNat_ofNat_of_lt (Line.fits_iff.1 hfits).2.1).symm
        rcases hloops.appends hline happend with ⟨head, exit, hresult, hhead, hexit⟩ | ⟨a, ⟨⟩, -⟩
        rw [hdst] at hresult
        have hnone : l.targets = [] := by simp [Line.targets, happend]
        rw [hnone, or_iff_left List.not_mem_nil] at hj
        exact .inr ⟨head, exit, hresult, by omega, by omega⟩
    · rcases hresult.step hloops hfits hline hfetch hstep hj hhead hexit with hnone | ⟨hle, hle'⟩
      · exact .inl hnone
      · exact .inr ⟨head, exit, hresult, hle, hle'⟩

theorem State.Inside.of_through (hs : s.Inside d piece k s)
    (h : m.Through d.records (d.records + piece.lines.length) s t) :
    ∃ j, s.Inside d piece j t := by
  induction h with
  | refl => exact ⟨k, hs⟩
  | tail _ hstep ih =>
    obtain ⟨⟨i, -, hlt, hpc⟩, hstep⟩ := hstep
    obtain ⟨j, hj⟩ := ih
    obtain rfl : i = j := stride_inj.1 (hpc.symm.trans hj.pc)
    exact hj.step hl hloops hwell hlt hstep

end

/-! ## Frames of expressions -/

/-- What executing code leaves of a state if some registers, from one number up to another one, are
    its own. -/
structure State.Framed (s : State) (first last : Nat) (t : State) : Prop where
  /-- What there is for other registers is as it was. -/
  cells : ∀ r : UInt32, r.toNat < first ∨ last ≤ r.toNat → t.cell r = s.cell r
  /-- No list is under construction in one of them. -/
  pending : ∀ r : UInt32, first ≤ r.toNat → r.toNat < last → t.pending.get? r = none
  size : t.registers.size = s.registers.size
  openScopes : t.openScopes = s.openScopes
  env : t.env = s.env
  /-- The flag is of no register, and a call may have cleared it. -/
  idempotent : s.idempotent = false → t.idempotent = false

/-- If no list is under construction in the registers of a piece of code, executing the code fails
    at one of its records, or leads by steps at its records to its end, with all but its own
    registers as they were. -/
def Machine.Frames {α : Type} (m : Machine) (d : Draft) (piece : Piece α) : Prop :=
  ∀ s : State, s.pc = stride * d.records → s.registers.size = m.program.registers.toNat →
    (∀ r : UInt32, d.registers ≤ r.toNat → r.toNat < piece.draft.registers →
      s.pending.get? r = none) →
    (∃ t u err, m.Through d.records piece.draft.records s t ∧
      t.Between d.records piece.draft.records ∧ m.step t = .error err u) ∨
    ∃ t, m.Through d.records piece.draft.records s t ∧ t.pc = stride * piece.draft.records ∧
      s.Framed d.registers piece.draft.registers t

theorem Machine.Through.reaches {m : Machine} {first last : Nat} {s t : State}
    (h : m.Through first last s t) : m.Reaches s t :=
  ReflTransGen.mono (fun _ _ h => h.2) _ _ h

/-- The code of an expression keeps to its registers wherever it is. -/
theorem Machine.frames_lower {m : Machine} {macros : Bool} {e : Expr} {d : Draft}
    (hl : m.program.Loads d (e.lower macros d)) : m.Frames d (e.lower macros d) := by
  intro s hpc hsize hpending
  have hready : m.Ready d ⟨s.env, s.openScopes⟩ s := ⟨hpc, hsize, rfl, rfl⟩
  rcases through_lower hl hready with hfails | ⟨t, v, hthrough, hyields⟩
  · exact .inl hfails
  have hloops := (Expr.loops_lower macros e none).looping d
  have hwell := (Expr.sound_lower macros e d).wellFormed
  have hstart : s.Inside d (e.lower macros d) d.records s :=
    ⟨hpc, Nat.le_refl _, Nat.le_add_right _ _, fun _ _ => rfl,
      fun r hr hr' => .inl (hpending r hr hr')⟩
  rw [Build.Lawful.records] at hthrough ⊢
  obtain ⟨k, hinside⟩ := hstart.of_through hl hloops hwell hthrough
  refine .inr ⟨t, hthrough, ?_, fun r hr => ?_, fun r hr hr' => ?_, ?_, ?_, ?_, ?_⟩
  · rw [hyields.ready.pc, Build.Lawful.records]
  · exact hr.elim (hyields.agrees r) (hinside.beyond r)
  · -- Where a list would be under construction, the execution would not be at the end.
    rcases hinside.pending r hr hr' with hnone | ⟨head, exit, hresult, -, hexit⟩
    · exact hnone
    · have hk := hinside.pc.symm.trans hyields.ready.pc
      rw [stride_inj, Build.Lawful.records] at hk
      have := hloops.shape hresult.loop
      omega
  · rw [hyields.ready.size, hsize]
  · exact hyields.ready.openScopes
  · exact hyields.ready.env
  · exact idempotent_of_reaches hthrough.reaches

end ExprMachine
