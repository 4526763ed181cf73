import ExprMachine.Proofs.Simulation

/-!
# Jumps at work

A jump over a piece of code leads to the end of that piece. The operators `&&`
and `||` and choices are made of such jumps, and compute what they evaluate to
if their parts do.

A conditional jump on a value that is not a boolean is not taken. In a choice
there is no such value, since it has been checked before; the operators leave it
to the registry.
-/

namespace ExprMachine.Machine

open Build Evaluation

variable {m : Machine} {d e : Draft} {F : Frame} {s t : State} {span : Span} {α : Type}
  {x : Build α} {opcode : Opcode} {dst a b c : Nat}

/-! ## Checks and jumps -/

namespace Emits

variable (h : m.Emits d F s opcode dst a b c span)
include h

/-- A record that changes nothing leads to the end of it. -/
theorem ready_next : m.Ready (reserved d span) F s.advance := h.ready_advance rfl rfl rfl rfl

/-- A jump leads to the end of the draft whose offset is its target. -/
theorem ready_goto (hw : stride * e.records < wordLimit) :
    m.Ready e F (s.goto (.ofNat (stride * e.records))) where
  pc := toNat_ofNat_of_lt hw
  size := h.ready.size
  env := h.ready.env
  openScopes := h.ready.openScopes

end Emits

/-- A check passes a boolean, and fails as its role says on any other value. -/
theorem runs_check {src : Nat} {v : Value} {role : ConditionRole} (hv : s.Has src v) :
    m.Runs F (emit .condCheck 0 src role.tag.toNat 0 span) d s (condition role span v)
      fun b t => m.Ready (reserved d span) F t ∧ t = s.advance ∧ v = .bool b := by
  refine .emit fun h => ?_
  have hrecord := h.record
  rw [UInt32.ofNat_toNat] at hrecord
  have hstep := hrecord.condCheck hv.read
  cases v with
  | bool b => exact .step hstep rfl (.pure ⟨h.ready_next, rfl, rfl⟩)
  | _ => exact .fail hstep rfl h.unwinds

section

variable {a b c : Nat → Nat} (hl : m.program.Loads d
  (skipping (fun exit i => ⟨opcode, dst, a exit, b exit, c exit, i⟩) span x d))
include hl

/-- A piece that is jumped over is in the program. -/
theorem loads_of_skipping : m.program.Loads (reserved d span) (x (reserved d span)) := by
  rw [skipping_apply] at hl
  exact ⟨hl.holds.tail, hl.covers⟩

/-- So is the record before it. -/
theorem emits_of_skipping [Lawful x] (hs : m.Ready d F s) {exit : Nat}
    (hexit : stride * (x (reserved d span)).draft.records = exit) :
    m.Emits d F s opcode dst (a exit) (b exit) (c exit) span := by
  rw [skipping_apply] at hl
  subst hexit
  exact .of_holds hl.holds (hl.covers.of_precedes (precedes _)) hs

end

/-! ## Operators that decide early -/

/-- The jump of `&&` and `||` is taken if the left operand decides. -/
theorem At.decide {op : BinaryOperator} {dst a b c k : UInt32} {v : Value}
    (h : m.At s ⟨if op = .logicalAnd then .jumpIfFalse else .jumpIfTrue, dst, a, b, c, k⟩ span)
    (hop : op.isShortCircuit) (hv : s.read? dst = some v) :
    m.step s = .ok none
      (if v.asBool?.any fun b => deciding op = some b then s.goto a else s.advance) := by
  cases op with
  | logicalAnd =>
    rw [h.jumpIfFalse hv]
    rcases v.asBool? with _ | _ | _ <;> rfl
  | logicalOr =>
    rw [h.jumpIfTrue hv]
    rcases v.asBool? with _ | _ | _ <;> rfl
  | _ => cases hop

section

variable {x y z : Build Nat} {ev ev' ev'' : Environment → Evaluation Value} [Valued x] [Valued y]
  [Valued z]

theorem Computes.shortCircuit (hx : m.Computes x ev) (hy : m.Computes y ev') {op : BinaryOperator}
    (hop : op.isShortCircuit) (span : Span) :
    m.Computes (Lowering.shortCircuit op x y span) fun env =>
      Evaluation.binary m.toHost op (ev env) (ev' env) span := by
  intro d F s
  refine hx.andThen fun v t hv => ?_
  refine .prepare rfl rfl (.putThen (Nat.lt_succ_self _) (fun h hd => h.move hd hv.has) ?_)
  intro u htu hacc
  refine .andPure fun hl hs => ?_
  have hi := emits_of_skipping hl hs rfl
  have hstep := hi.record.decide hop hacc.read
  by_cases hdecided : v.asBool?.any fun b => deciding op = some b
  · rw [if_pos hdecided] at hstep ⊢
    exact .step hstep rfl (.pure ⟨hi.ready_goto hi.op1, htu, hacc.read, hacc.pending⟩)
  · rw [if_neg hdecided] at hstep ⊢
    refine .step hstep rfl ?_
    refine Runs.bind hy.yields (fun w z hw => ?_)
      (loads_of_skipping hl) hi.ready_next
    -- The register of the result lies before those of the right operand.
    have hz : z.Has (x d).draft.registers v := hacc.of_agrees hw.agrees (Nat.lt_succ_self _)
    have hlt : (x d).draft.registers <
        (y (reserved (reserved (fresh (x d).draft).draft span) span)).draft.registers :=
      (precedes (x := y) (reserved (reserved (fresh (x d).draft).draft span) span)).registers
    refine (Runs.put hlt fun h hd => ?_).mono fun r q hq => ?_
    · have hbinary := h.record.binary hd hz.read hw.has.read
      rwa [toNat_ofNat_of_lt h.op2] at hbinary
    · exact ⟨hq.1, (htu.trans hw.agrees (Nat.le_succ _)).trans hq.2.1 (Nat.le_refl _), hq.2.2.1⟩

/-! ## Choices -/

omit [Valued x] in
/-- A branch leaves its value in the register of the choice. -/
theorem runs_branch [Valued x] (hx : m.Computes x ev) {result : Nat} (hr : result < d.registers) :
    m.Runs F (Lowering.branch result x span) d s (ev F.env) fun v t =>
      m.Ready (Lowering.branch result x span d).draft F t ∧ s.Agrees t result ∧ t.Has result v := by
  rw [← bind_pure (ev F.env)]
  refine Runs.bind hx.yields fun v t hv => ?_
  have hlt : result < (x d).draft.registers := Nat.lt_of_lt_of_le hr (precedes d).registers
  refine .putLast hlt (fun h hd => h.move hd hv.has) fun u hready htu hhas => ?_
  exact ⟨hready, (hv.agrees.mono (Nat.le_of_lt hr)).trans htu (Nat.le_refl _), hhas⟩

theorem Computes.choose (condition : Body) [Valued condition.build]
    (hx : m.Computes condition.build ev) (hy : m.Computes y ev') (hz : m.Computes z ev'')
    (span : Span) :
    m.Computes (Lowering.choose condition y z span) (fun env => do
      if ← Evaluation.condition .conditional condition.span (← ev env) then ev' env
      else ev'' env) := by
  rw [Lowering.choose_eq]
  intro d F s
  refine hx.andThen fun v t hv => ?_
  refine Runs.bind (runs_check hv.has) fun b u hu => ?_
  obtain ⟨rfl, rfl⟩ := hu
  refine .prepare rfl rfl fun hl hs => ?_
  have hfirst := emits_of_skipping hl.left hs rfl
  have hstep := hfirst.record.jumpIfFalse hv.has.read
  have hlt : (condition.build d).draft.registers < (condition.build d).draft.registers + 1 :=
    Nat.lt_succ_self _
  cases b with
  | true =>
    -- The first branch follows, and the second one is jumped over.
    refine .step hstep rfl ?_
    show m.Follows F (ev' F.env) _ _
    rw [← bind_pure (ev' F.env)]
    refine .bind (runs_branch hy hlt (loads_of_skipping hl.left) hfirst.ready_next) fun w u hu => ?_
    have hsecond := emits_of_skipping hl.right.left hu.1 rfl
    refine .step hsecond.record.jump rfl (.pure ⟨hsecond.ready_goto hsecond.op1, hu.2.1, ?_⟩)
    exact ⟨hu.2.2.read, hu.2.2.pending⟩
  | false =>
    -- The first jump leads past the second one, to the other branch.
    refine .step hstep rfl ?_
    refine (runs_branch hz ?_ (loads_of_skipping hl.right.left) ?_).mono fun w u hu => ?_
    · refine Nat.lt_of_lt_of_le hlt (Draft.Precedes.registers ?_
        (d := (fresh (reserved (condition.build d).draft condition.span)).draft))
      exact .trans (precedes _) (precedes_reserved _ span)
    · exact hfirst.ready_goto hfirst.op1
    · exact ⟨hu.1, hu.2.1, hu.2.2⟩

end

end ExprMachine.Machine
