import Mathlib.Data.List.Forall2
import ExprMachine.Proofs.Structured

/-!
# Code refers to what is there

The operands of a record refer to registers that have been handed out, to entries
of the pools and to records that are there once the code around is finished
(`Line.WellFormed`). As drafts only grow, what a record refers to stays there.

A piece is *sound* on a draft if its code is structured and all its records are
well formed at its end (`Build.Sound`); beside this, something may be known of
its value. The rules of this notion compose pieces (`Build.Sound.bind`).
-/

namespace ExprMachine

open Build

/-! ## References -/

/-- A draft has all that an earlier one has, and its code goes on after it. -/
structure Draft.Grows (d e : Draft) : Prop extends d.Precedes e where
  records : d.records ≤ e.records

namespace Draft

theorem Grows.refl (d : Draft) : d.Grows d := ⟨.refl d, Nat.le_refl _⟩

theorem Grows.trans {d e f : Draft} (h : d.Grows e) (h' : e.Grows f) : d.Grows f :=
  ⟨h.toPrecedes.trans h'.toPrecedes, Nat.le_trans h.records h'.records⟩

/-- What a slot may hold. The record that a target refers to may be the next one. -/
def Admits (d : Draft) (operand : Operand) (n : Nat) : Prop :=
  match operand with
  | .unused => n = 0
  | .register => n < d.registers
  | .constant => n < d.constants.length
  | .string => n < d.strings.length
  | .messageFields => n < d.messageFields.length
  | .target => ∃ k ≤ d.records, n = stride * k
  | .operator => ∃ op : BinaryOperator, n = op.index
  | .role => ∃ role : ConditionRole, n = role.tag.toNat
  | .count => True

/-- The run of registers that a record reads, if any, has been handed out. -/
def HasRun (d : Draft) (l : Line) : Prop :=
  match l.opcode with
  | .call => l.op2 + l.op3 ≤ d.registers
  | .makeList => l.op1 + l.op2 ≤ d.registers
  | .makeMap => l.op1 + 2 * l.op2 ≤ d.registers
  | .makeMessage =>
    ∃ names, d.messageFields[l.op2]? = some names ∧ l.op1 + names.length ≤ d.registers
  | _ => True

end Draft

/-- A register that has been handed out. -/
def IsRegister (r : Nat) (d : Draft) : Prop := r < d.registers

/-- A record refers to what a draft has. -/
structure Line.WellFormed (l : Line) (d : Draft) : Prop where
  slots : List.Forall₂ d.Admits l.opcode.layout l.slots
  span : l.span < d.spans.length
  run : d.HasRun l

section

variable {d e : Draft} {l : Line} {operand : Operand} {n : Nat}

/-- A slot may hold later what it may hold now. -/
theorem Draft.Grows.admits (hg : d.Grows e) (h : d.Admits operand n) : e.Admits operand n := by
  cases operand with
  | register => exact Nat.lt_of_lt_of_le h hg.registers
  | constant => exact Nat.lt_of_lt_of_le h hg.constants.length_le
  | string => exact Nat.lt_of_lt_of_le h hg.strings.length_le
  | messageFields => exact Nat.lt_of_lt_of_le h hg.messageFields.length_le
  | target =>
    obtain ⟨k, hk, rfl⟩ := h
    exact ⟨k, Nat.le_trans hk hg.records, rfl⟩
  | unused | operator | role | count => exact h

/-- A register that has been handed out stays one. -/
theorem Draft.Grows.isRegister {r : Nat} (hg : d.Grows e) (h : IsRegister r d) : IsRegister r e :=
  Nat.lt_of_lt_of_le h hg.registers

/-- A run of registers stays there. -/
theorem Draft.Grows.hasRun (hg : d.Grows e) (h : d.HasRun l) : e.HasRun l := by
  rw [Draft.HasRun] at h ⊢
  split at h
  · exact Nat.le_trans h hg.registers
  · exact Nat.le_trans h hg.registers
  · exact Nat.le_trans h hg.registers
  · obtain ⟨names, hnames, hrun⟩ := h
    exact ⟨names, getElem?_mono hg.messageFields hnames, Nat.le_trans hrun hg.registers⟩
  · trivial

/-- What a record refers to stays there. -/
theorem Line.WellFormed.mono (h : l.WellFormed d) (hg : d.Grows e) : l.WellFormed e where
  slots := h.slots.imp fun _ _ => hg.admits
  span := Nat.lt_of_lt_of_le h.span hg.spans.length_le
  run := hg.hasRun h.run

end

/-! ## Sound pieces -/

namespace Build

variable {α β : Type} {x : Build α} {f : α → Build β} {d e : Draft}

/-- Lawful pieces let every draft grow. -/
theorem grows (x : Build α) [Lawful x] (d : Draft) : d.Grows (x d).draft :=
  ⟨precedes d, by rw [Lawful.records]; exact Nat.le_add_right _ _⟩

/-- The code of a piece is structured and refers to what is there, and its value
    is as it should be. -/
structure Sound (x : Build α) (d : Draft) (post : α → Draft → Prop) : Prop where
  structured : Structured d.records (x d).lines
  wellFormed : ∀ l ∈ (x d).lines, l.WellFormed (x d).draft
  post : post (x d).value (x d).draft

namespace Sound

variable {P : α → Draft → Prop} {Q : β → Draft → Prop}

/-- A piece without records is sound by its value alone. -/
theorem silent (hlines : (x d).lines = []) (h : P (x d).value (x d).draft) : x.Sound d P where
  structured := by
    rw [hlines]
    exact .nil
  wellFormed l hl := by
    rw [hlines] at hl
    cases hl
  post := h

theorem pure {a : α} (h : P a d) : (Pure.pure a : Build α).Sound d P := silent rfl h

/-- One piece after another. Of the draft between them, all is known that the
    first piece provides. -/
theorem bind [Lawful x] [∀ a, Lawful (f a)] (hx : x.Sound d P)
    (hf : ∀ a e, d.Grows e → P a e → (f a).Sound e Q) : (x >>= f).Sound d Q := by
  have hy := hf _ _ (grows x d) hx.post
  refine ⟨?_, fun l hl => ?_, hy.post⟩
  · have := hy.structured
    rw [Lawful.records] at this
    exact .append hx.structured this
  · rcases List.mem_append.1 hl with hl | hl
    · -- What the first piece refers to is still there after the second one.
      exact (hx.wellFormed l hl).mono (grows (f _) _)
    · exact hy.wellFormed l hl

end Sound

/-! ## Registers and pools -/

/-- The value of a piece is in a register that has been handed out. -/
theorem sound_of_valued {x : Build Nat} [Valued x] (h : x.Sound d fun _ _ => True) :
    x.Sound d IsRegister :=
  ⟨h.structured, h.wellFormed, value_lt d⟩

/-- A fresh register has been handed out. -/
theorem sound_fresh (d : Draft) : fresh.Sound d fun r e => r < e.registers :=
  .silent rfl (Nat.lt_succ_self _)

/-- So have all registers of a block. -/
theorem sound_block (n : Nat) (d : Draft) :
    (block n).Sound d fun base e => base + n ≤ e.registers :=
  .silent rfl (Nat.le_refl _)

theorem sound_string (s : String) (d : Draft) :
    (string s).Sound d fun i e => i < e.strings.length :=
  .silent rfl (intern_lt_length _ _)

/-- A constant is in the pool at the place that is yielded. -/
theorem sound_constant (v : Value) (d : Draft) :
    (constant v).Sound d fun i e => i < e.constants.length :=
  .silent rfl (by simp [constant])

theorem sound_fields (names : List String) (d : Draft) :
    (fields names).Sound d fun i e => e.messageFields[i]? = some names :=
  .silent rfl (by simp [fields])

/-! ## Records -/

section

variable {opcode : Opcode} {dst a b c : Nat} {o₀ o₁ o₂ o₃ : Operand} {s : Span}

/-- The slots of a record, one by one. -/
theorem slots (hlayout : opcode.layout = [o₀, o₁, o₂, o₃]) (h₀ : d.Admits o₀ dst)
    (h₁ : d.Admits o₁ a) (h₂ : d.Admits o₂ b) (h₃ : d.Admits o₃ c) :
    List.Forall₂ d.Admits opcode.layout [dst, a, b, c] := by
  rw [hlayout]
  exact .cons h₀ (.cons h₁ (.cons h₂ (.cons h₃ .nil)))

theorem grows_reserved (d : Draft) (s : Span) : d.Grows (reserved d s) :=
  ⟨precedes_reserved d s, Nat.le_succ _⟩

/-- A record for which room has been left is well formed wherever its slots are. -/
theorem wellFormed_of_reserved (hg : (reserved d s).Grows e)
    (hslots : List.Forall₂ e.Admits opcode.layout [dst, a, b, c])
    (hrun : e.HasRun ⟨opcode, dst, a, b, c, (intern d.spans s).1⟩) :
    Line.WellFormed ⟨opcode, dst, a, b, c, (intern d.spans s).1⟩ e where
  slots := hslots
  span := Nat.lt_of_lt_of_le (intern_lt_length _ _) hg.spans.length_le
  run := hrun

/-- A plain record is sound if its slots refer to what is there. -/
theorem sound_emit (hplain : opcode.isPlain)
    (hslots : List.Forall₂ d.Admits opcode.layout [dst, a, b, c])
    (hrun : d.HasRun ⟨opcode, dst, a, b, c, (intern d.spans s).1⟩) :
    (emit opcode dst a b c s).Sound d fun _ _ => True where
  structured := .plain hplain
  wellFormed l hl := by
    obtain rfl := List.mem_singleton.1 hl
    have hg := grows_reserved d s
    exact wellFormed_of_reserved (.refl _) (hslots.imp fun _ _ => hg.admits) (hg.hasRun hrun)
  post := trivial

/-- A record that writes a register of its own. -/
theorem sound_result (hplain : opcode.isPlain) (hlayout : opcode.layout = [.register, o₁, o₂, o₃])
    (h : ∀ e, d.Grows e → d.registers < e.registers →
      e.Admits o₁ a ∧ e.Admits o₂ b ∧ e.Admits o₃ c ∧
        ∀ dst i, e.HasRun ⟨opcode, dst, a, b, c, i⟩) :
    (do let r ← fresh; emit opcode r a b c s; pure r : Build Nat).Sound d IsRegister := by
  refine sound_of_valued
    (.bind (P := fun r e => r < e.registers ∧ d.registers < e.registers) ?_ fun r e hg hr => ?_)
  · exact .silent rfl ⟨Nat.lt_succ_self _, Nat.lt_succ_self _⟩
  · obtain ⟨h₁, h₂, h₃, hrun⟩ := h e hg hr.2
    have hslots := slots hlayout hr.1 h₁ h₂ h₃
    exact (sound_emit hplain hslots (hrun _ _)).bind fun _ _ _ _ => .pure trivial

end

section

variable {P : α → Draft → Prop} {line : Nat → Nat → Line} {s : Span}

/-- A jump over a piece is sound together with the piece, once its target is known. -/
theorem sound_skipping
    (hstructured : Structured d.records
      (line (stride * (x (reserved d s)).draft.records) (intern d.spans s).1 ::
        (x (reserved d s)).lines))
    (hline : (line (stride * (x (reserved d s)).draft.records) (intern d.spans s).1).WellFormed
      (x (reserved d s)).draft) (hx : x.Sound (reserved d s) P) :
    (skipping line s x).Sound d P := by
  have heq := skipping_apply x d line s
  refine ⟨?_, fun l hl => ?_, ?_⟩
  · rwa [heq]
  · rw [heq] at hl ⊢
    rcases List.mem_cons.1 hl with rfl | hl
    · exact hline
    · exact hx.wellFormed l hl
  · rw [heq]
    exact hx.post

/-- A record that may stand anywhere before a piece of code, with the end of the
    code as its target. -/
theorem Sound.after [Lawful x] (hx : x.Sound (reserved d s) P)
    (hplain : ∀ t i, (line t i).opcode.isPlain)
    (hline : ∀ e, (reserved d s).Grows e →
      (line (stride * e.records) (intern d.spans s).1).WellFormed e) :
    (Build.skipping line s x).Sound d P := by
  have hfirst : Structured d.records
      [line (stride * (x (reserved d s)).draft.records) (intern d.spans s).1] :=
    .plain (hplain _ _)
  exact sound_skipping (hfirst.append hx.structured) (hline _ (grows x (reserved d s))) hx

end

end Build

end ExprMachine
