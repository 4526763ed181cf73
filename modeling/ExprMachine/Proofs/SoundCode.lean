import ExprMachine.Proofs.WellFormed

/-!
# The code of constructs is sound

The code of every construct is sound if the code of its parts is, wherever that
is built; one statement for each form of code but comprehensions. Every record
is told its operands where it is emitted, and drafts only grow from there.

A conditional jump is sound only together with what guards it: the record of the
operator that it skips to (`Lowering.sound_joined`), or the check before it
(`Lowering.sound_check`).
-/

namespace ExprMachine

open Build

/-! ## Combining parts -/

namespace Lowering

variable {d : Draft} {x y : Build Nat} {regs : List Nat} {s : Span}

/-- A literal is one record that loads it into a register of its own. -/
theorem sound_literal (l : Literal) (s : Span) (d : Draft) : (literal l s).Sound d IsRegister := by
  rw [literal]
  cases l with
  | null => exact sound_result rfl rfl fun _ _ _ => ⟨rfl, rfl, rfl, fun _ _ => trivial⟩
  | bool b =>
    cases b <;> exact sound_result rfl rfl fun _ _ _ => ⟨rfl, rfl, rfl, fun _ _ => trivial⟩
  | int _ | uint _ | double _ | string _ | bytes _ =>
    refine sound_of_valued ((sound_fresh d).bind fun dst e _ hdst => ?_)
    refine (sound_constant _ e).bind fun i f hf hi => ?_
    have hslots : List.Forall₂ f.Admits Opcode.loadConst.layout [dst, i, 0, 0] :=
      slots rfl (hf.isRegister hdst) hi rfl rfl
    exact (sound_emit rfl hslots trivial).bind fun _ _ _ _ => .pure trivial

/-- A variable is loaded by its name, which is in the pool by then. -/
theorem sound_ident (name : String) (s : Span) (d : Draft) :
    (do
      let i ← string name
      let dst ← fresh
      emit .loadVar dst i 0 0 s
      pure dst : Build Nat).Sound d IsRegister :=
  (sound_string name d).bind fun _ _ _ hi => sound_result rfl rfl fun _ hf _ =>
    ⟨hf.admits hi, rfl, rfl, fun _ _ => trivial⟩

/-- Registers are moved into a row that has been handed out for them. -/
theorem sound_moveAll (regs : List Nat) (base : Nat) (s : Span) (d : Draft)
    (hbase : base + regs.length ≤ d.registers) (hregs : ∀ r ∈ regs, r < d.registers) :
    (moveAll base s regs).Sound d fun _ _ => True := by
  induction regs generalizing base d with
  | nil => exact .pure trivial
  | cons r rest ih =>
    rw [List.length_cons] at hbase
    have hdst : base < d.registers := by omega
    have hmove : (emit .move base r 0 0 s).Sound d fun _ _ => True :=
      sound_emit rfl (slots rfl hdst (hregs r List.mem_cons_self) rfl rfl) trivial
    refine hmove.bind fun _ e he _ => ih (base + 1) e ?_ fun q hq => ?_
    · have := he.registers
      omega
    · exact he.isRegister (hregs q (List.mem_cons_of_mem r hq))

/-- The row begins at the base that is yielded, and has room for all registers. -/
theorem sound_consecutive (s : Span) (hregs : ∀ r ∈ regs, r < d.registers) :
    (consecutive regs s).Sound d fun base e => base + regs.length ≤ e.registers := by
  refine (sound_block regs.length d).bind fun base e he hbase => ?_
  refine (sound_moveAll regs base s e hbase fun r hr => he.isRegister (hregs r hr)).bind
    fun _ f hf _ => ?_
  exact .pure (Nat.le_trans hbase hf.registers)

/-- A list or a map refers to a row of registers, one for each item, or key and value. -/
theorem sound_aggregate {opcode : Opcode} {count : Nat} (hplain : opcode.isPlain)
    (hlayout : opcode.layout = [.register, .register, .count, .unused])
    (hrun : ∀ (base dst i : Nat) (e : Draft), base + regs.length ≤ e.registers →
      e.HasRun ⟨opcode, dst, base, count, 0, i⟩) (hregs : ∀ r ∈ regs, r < d.registers) :
    (aggregate opcode regs count s).Sound d IsRegister := by
  refine (sound_consecutive s hregs).bind fun base e _ hbase => ?_
  refine sound_result hplain hlayout fun f hf hlt => ⟨?_, trivial, rfl, fun dst i => ?_⟩
  · exact Nat.lt_of_le_of_lt (Nat.le_of_add_right_le hbase) hlt
  · exact hrun base dst i f (Nat.le_trans hbase hf.registers)

/-- A message refers to a row of registers, with as many names as values. -/
theorem sound_message {names : List String} (typeName : String) (hlen : names.length = regs.length)
    (hregs : ∀ r ∈ regs, r < d.registers) :
    (message typeName names regs s).Sound d IsRegister := by
  refine (sound_consecutive s hregs).bind fun base e _ hbase => ?_
  refine (sound_fields names e).bind fun i f hf hi => ?_
  refine (sound_string typeName f).bind fun name g hg hname => ?_
  refine sound_result rfl rfl fun h hh hlt => ?_
  -- The row has been handed out first, and the draft has only grown since.
  have hgrows := hf.trans (hg.trans hh)
  have hrun : base + names.length ≤ h.registers := by
    rw [hlen]
    exact Nat.le_trans hbase hgrows.registers
  have hnames := getElem?_mono (hg.trans hh).messageFields hi
  obtain ⟨hi, -⟩ := List.getElem?_eq_some_iff.1 hnames
  refine ⟨?_, hi, hh.admits hname, fun _ _ => ⟨names, hnames, hrun⟩⟩
  have hbase := Nat.le_trans hbase (hf.trans hg).registers
  exact Nat.lt_of_le_of_lt (Nat.le_of_add_right_le hbase) hlt

/-- A call refers to a row of registers for its arguments and to a name. -/
theorem sound_call (function : String) (hregs : ∀ r ∈ regs, r < d.registers) :
    (call function regs s).Sound d IsRegister := by
  refine (sound_consecutive s hregs).bind fun base e _ hbase => ?_
  refine (sound_string function e).bind fun name f hf hname => ?_
  refine sound_result rfl rfl fun g hg hlt => ?_
  have hrun := Nat.le_trans hbase hf.registers
  refine ⟨hg.admits hname, ?_, trivial, fun _ _ => Nat.le_trans hrun hg.registers⟩
  exact Nat.lt_of_le_of_lt (Nat.le_of_add_right_le hrun) hlt

theorem sound_select [Lawful x] {opcode : Opcode}
    (hopcode : opcode = .memberAccess ∨ opcode = .hasField) (field : String)
    (hx : x.Sound d IsRegister) : (select opcode x field s).Sound d IsRegister := by
  refine hx.bind fun src e _ hsrc => (sound_string field e).bind fun name f hf hname => ?_
  rcases hopcode with rfl | rfl
  all_goals
    exact sound_result rfl rfl fun g hg _ =>
      ⟨(hf.trans hg).isRegister hsrc, hg.admits hname, rfl, fun _ _ => trivial⟩

theorem sound_unary [Lawful x] (op : UnaryOperator) (hx : x.Sound d IsRegister) :
    (do
      let src ← x
      let dst ← fresh
      emit (unaryOpcode op) dst src 0 0 s
      pure dst : Build Nat).Sound d IsRegister := by
  refine hx.bind fun src e _ hsrc => ?_
  cases op with
  | negate | not =>
    exact sound_result rfl rfl fun f hf _ => ⟨hf.isRegister hsrc, rfl, rfl, fun _ _ => trivial⟩

/-- The register of the operand is still there when the index has been built. -/
theorem sound_index [Lawful x] [Lawful y] (hx : x.Sound d IsRegister)
    (hy : ∀ e, y.Sound e IsRegister) :
    (do
      let src ← x
      let key ← y
      let dst ← fresh
      emit .index dst src key 0 s
      pure dst : Build Nat).Sound d IsRegister := by
  refine hx.bind fun src e _ hsrc => (hy e).bind fun key f hf hkey => ?_
  exact sound_result rfl rfl fun g hg _ =>
    ⟨(hf.trans hg).isRegister hsrc, hg.isRegister hkey, rfl, fun _ _ => trivial⟩

theorem sound_strict [Lawful x] [Lawful y] (op : BinaryOperator) (hx : x.Sound d IsRegister)
    (hy : ∀ e, y.Sound e IsRegister) : (strict op x y s).Sound d IsRegister := by
  refine hx.bind fun lhs e _ hlhs => (hy e).bind fun rhs f hf hrhs => ?_
  exact sound_result rfl rfl fun g hg _ =>
    ⟨(hf.trans hg).isRegister hlhs, ⟨op, rfl⟩, hg.isRegister hrhs, fun _ _ => trivial⟩

/-! ## Jumps -/

/-- A conditional jump into which room has been left is well formed once its target is known. -/
theorem wellFormed_jump {e : Draft} {opcode : Opcode} {r target : Nat}
    (hjump : opcode.isConditionalJump) (hg : (reserved d s).Grows e) (hr : IsRegister r e)
    (htarget : e.Admits .target target) :
    Line.WellFormed ⟨opcode, r, target, 0, 0, (intern d.spans s).1⟩ e := by
  have hlayout : opcode.layout = [.register, .target, .unused, .unused] := by
    cases opcode <;> first | rfl | cases hjump
  refine wellFormed_of_reserved hg (slots hlayout hr htarget rfl rfl) ?_
  cases opcode <;> trivial

/-- The right operand of `&&` or `||`, with the jump over it. -/
theorem sound_joined [Lawful y] {op : BinaryOperator} (hop : op.isShortCircuit)
    {opcode : Opcode} (hjump : opcode.isConditionalJump)
    {acc : Nat} (hacc : IsRegister acc d) (hy : ∀ e, y.Sound e IsRegister) :
    (jumpOver opcode acc s do
      let rhs ← y
      emit .binaryOp acc acc op.index rhs s).Sound d fun _ _ => True := by
  have hacc' := (grows_reserved d s).isRegister hacc
  have hjoin : (do
      let rhs ← y
      emit .binaryOp acc acc op.index rhs s : Build Unit).Sound (reserved d s) fun _ _ => True := by
    refine (hy _).bind fun rhs e he hrhs => ?_
    have hacc := he.isRegister hacc'
    exact sound_emit rfl (slots rfl hacc hacc ⟨op, rfl⟩ hrhs) trivial
  have hg := grows (do
    let rhs ← y
    emit .binaryOp acc acc op.index rhs s) (reserved d s)
  refine sound_skipping ?_ ?_ hjoin
  · -- The jump leads to the place after the record that applies the operator.
    refine .joined (hy (reserved d s)).structured hjump (congrArg (stride * ·) ?_) ⟨rfl, rfl, ?_⟩
    · show (y (reserved d s)).draft.records + 1 = d.records + (y (reserved d s)).lines.length + 2
      rw [Lawful.records, records_reserved]
      omega
    · rw [BinaryOperator.ofIndex?_index]
      exact hop
  · exact wellFormed_jump hjump hg (hg.isRegister hacc') ⟨_, Nat.le_refl _, rfl⟩

/-- The left operand of `&&` or `||` is moved to where the result is joined. -/
theorem sound_shortCircuit [Lawful x] [Lawful y] {op : BinaryOperator} (hop : op.isShortCircuit)
    (hx : x.Sound d IsRegister) (hy : ∀ e, y.Sound e IsRegister) :
    (shortCircuit op x y s).Sound d IsRegister := by
  refine sound_of_valued (hx.bind fun lhs e _ hlhs => (sound_fresh e).bind fun acc f hf hacc => ?_)
  have hmove : (emit .move acc lhs 0 0 s).Sound f fun _ _ => True :=
    sound_emit rfl (slots rfl hacc (hf.isRegister hlhs) rfl rfl) trivial
  refine hmove.bind fun _ g hg _ => ?_
  refine (sound_joined hop ?_ (hg.isRegister hacc) hy).bind fun _ _ _ _ => .pure trivial
  split <;> rfl

/-- A check of a register before a piece that begins with a jump on it. -/
theorem sound_check {α : Type} {f : Unit → Build α} [Lawful (f ())] {P : α → Draft → Prop} {r : Nat}
    {role : ConditionRole} {jump : Line} {rest : List Line} (hr : IsRegister r d)
    (hlines : (f () (reserved d s)).lines = jump :: rest) (hjump : jump.opcode.isConditionalJump)
    (hdst : jump.dst = r) (hrest : Structured (d.records + 2) rest)
    (hwell : ∀ l ∈ jump :: rest, l.WellFormed (f () (reserved d s)).draft)
    (hpost : P (f () (reserved d s)).value (f () (reserved d s)).draft) :
    (emit .condCheck 0 r role.tag.toNat 0 s >>= f).Sound d P := by
  have hg := grows (f ()) (reserved d s)
  have hcheck : Line.WellFormed ⟨.condCheck, 0, r, role.tag.toNat, 0, (intern d.spans s).1⟩
      (f () (reserved d s)).draft := by
    have hr := hg.isRegister ((grows_reserved d s).isRegister hr)
    exact wellFormed_of_reserved hg (slots rfl rfl hr ⟨role, rfl⟩ rfl) trivial
  -- The check and the jump behind it are taken together, as a jump alone would not be checked.
  have heq : ((emit .condCheck 0 r role.tag.toNat 0 s >>= f) d).lines =
      [⟨.condCheck, 0, r, role.tag.toNat, 0, (intern d.spans s).1⟩, jump] ++ rest :=
    congrArg (_ :: ·) hlines
  refine ⟨?_, fun l hl => ?_, hpost⟩
  · rw [heq]
    exact .append (.checked ⟨rfl, hdst.symm⟩ hjump) hrest
  · rw [heq] at hl
    rcases List.mem_cons.1 hl with rfl | hl
    · exact hcheck
    · exact hwell l hl

/-- A body that is a boolean, a jump on it, and what follows. -/
theorem sound_guarded {p : Body} [Lawful p.build] {opcode : Opcode} {target : Nat}
    {role : ConditionRole} {z : Build Unit} [Lawful z] (hjump : opcode.isConditionalJump)
    (hp : p.build.Sound d IsRegister) (htarget : d.Admits .target target)
    (hz : ∀ e, d.Grows e → z.Sound e fun _ _ => True) :
    (do
      let v ← guarded p role
      emit opcode v target 0 0 s
      z : Build Unit).Sound d fun _ _ => True := by
  -- The check at the end of the body is taken together with the jump on it.
  have heq : (do
      let v ← guarded p role
      emit opcode v target 0 0 s
      z : Build Unit) = (do
        let v ← p.build
        emit .condCheck 0 v role.tag.toNat 0 p.span
        emit opcode v target 0 0 s
        z) := by
    simp only [guarded, bind_assoc, pure_bind]
  rw [heq]
  refine hp.bind fun v e he hv => ?_
  have hg : e.Grows (reserved (reserved e p.span) s) :=
    (grows_reserved e p.span).trans (grows_reserved _ s)
  have hz := hz _ (he.trans hg)
  have hgz := grows z (reserved (reserved e p.span) s)
  refine sound_check hv rfl hjump rfl hz.structured (fun l hl => ?_) trivial
  rcases List.mem_cons.1 hl with rfl | hl
  · exact wellFormed_jump hjump hgz ((hg.trans hgz).isRegister hv)
      ((he.trans (hg.trans hgz)).admits htarget)
  · exact hz.wellFormed l hl

/-- A branch is moved into the register that a choice has for its result. -/
theorem sound_branch [Lawful x] {result : Nat} (hresult : IsRegister result d)
    (hx : ∀ e, x.Sound e IsRegister) : (branch result x s).Sound d fun _ _ => True :=
  (hx d).bind fun _ _ he hv =>
    sound_emit rfl (slots rfl (he.isRegister hresult) hv rfl rfl) trivial

/-- A check of a register, a jump on it over a piece, and what follows. The target
    may lie behind the piece by a distance `k`. -/
theorem sound_checkOver {x y : Build Unit} [Lawful x] [Lawful y] {opcode : Opcode} {r k : Nat}
    {role : ConditionRole} {span : Span} (hjump : opcode.isConditionalJump) (hr : IsRegister r d)
    (hx : ∀ e, d.Grows e → x.Sound e fun _ _ => True)
    (hy : ∀ e, d.Grows e → y.Sound e fun _ _ => True)
    (htarget : ∀ e, (y e).draft.Admits .target (stride * e.records + k)) :
    (do
      emit .condCheck 0 r role.tag.toNat 0 span
      skipping (fun target i => ⟨opcode, r, target + k, 0, 0, i⟩) s x
      y : Build Unit).Sound d fun _ _ => True := by
  let d' := reserved (reserved d span) s
  let e := (x d').draft
  let rest : Build Unit := do
    skipping (fun target i => ⟨opcode, r, target + k, 0, 0, i⟩) s x
    y
  -- After the check and the jump, the draft is `d'`, and after the piece `e`.
  have hd : d.Grows d' := (grows_reserved d span).trans (grows_reserved _ s)
  have hde : d'.Grows e := grows x d'
  have hef : e.Grows (y e).draft := grows y e
  have hx := hx d' hd
  have hy := hy e (hd.trans hde)
  have hlines : (rest (reserved d span)).lines =
      ⟨opcode, r, stride * e.records + k, 0, 0, (intern (reserved d span).spans s).1⟩ ::
        ((x d').lines ++ (y e).lines) := by
    rw [lines_bind, skipping_apply]
    rfl
  have hdraft : (rest (reserved d span)).draft = (y e).draft := by
    rw [draft_bind, skipping_apply]
  refine sound_check (f := fun _ => rest) hr hlines hjump rfl (.append hx.structured ?_) ?_ trivial
  · have hplace : e.records = d.records + 2 + (x d').lines.length := Lawful.records d'
    rw [← hplace]
    exact hy.structured
  · intro l hl
    rw [hdraft]
    rcases List.mem_cons.1 hl with rfl | hl
    · have hr := (hd.trans (hde.trans hef)).isRegister hr
      exact wellFormed_jump hjump (hde.trans hef) hr (htarget e)
    · rcases List.mem_append.1 hl with hl | hl
      · exact (hx.wellFormed l hl).mono hef
      · exact hy.wellFormed l hl

/-- A choice checks its condition before it jumps on it, and both jumps lead behind its code. -/
theorem sound_choose {condition : Body} {whenTrue whenFalse : Build Nat} [Lawful condition.build]
    [Lawful whenTrue] [Lawful whenFalse] (hcondition : condition.build.Sound d IsRegister)
    (htrue : ∀ e, whenTrue.Sound e IsRegister) (hfalse : ∀ e, whenFalse.Sound e IsRegister) :
    (choose condition whenTrue whenFalse s).Sound d IsRegister := by
  let second (result : Nat) : Build Unit :=
    skipping (fun target i => ⟨.jump, 0, target, 0, 0, i⟩) s (branch result whenFalse s)
  have heq : choose condition whenTrue whenFalse s = (do
      let test ← condition.build
      let result ← fresh
      (do
        emit .condCheck 0 test ConditionRole.conditional.tag.toNat 0 condition.span
        skipping (fun target i => ⟨.jumpIfFalse, test, target + stride, 0, 0, i⟩) s
          (branch result whenTrue s)
        second result)
      pure result) := by
    rw [choose_eq]
    simp only [bind_assoc]
    rfl
  rw [heq]
  refine sound_of_valued (hcondition.bind fun test e _ htest => ?_)
  refine (sound_fresh e).bind fun result f hf hresult => ?_
  refine .bind (P := fun _ _ => True) ?_ fun _ _ _ _ => .pure trivial
  refine sound_checkOver rfl (hf.isRegister htest) (fun g hg => ?_) (fun g hg => ?_) fun g => ?_
  · exact sound_branch (hg.isRegister hresult) htrue
  · refine Sound.after ?_ (fun _ _ => rfl) fun k hk => ?_
    · exact sound_branch ((hg.trans (grows_reserved g s)).isRegister hresult) hfalse
    · exact wellFormed_of_reserved hk (slots rfl rfl ⟨_, Nat.le_refl _, rfl⟩ rfl rfl) trivial
  · -- The first jump goes past the second one.
    have hg := grows (branch result whenFalse s) (reserved g s)
    refine ⟨g.records + 1, ?_, (Nat.mul_succ _ _).symm⟩
    show g.records + 1 ≤ (second result g).draft.records
    rw [show second result g = _ from skipping_apply _ g _ s]
    exact hg.records

end Lowering

end ExprMachine
