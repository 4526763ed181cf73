import ExprMachine.Proofs.Ensures
import ExprMachine.Proofs.SoundPrograms

/-!
# Records that refer to what is there

Performing a record that refers to what its program has ends as it should
(`Machine.safe_of_refers`): the registers stay as many as they are, and the
execution goes on after the record or at its target. If it fails, then without a
dangling reference, or because a handler does.

A handler may return any error at all. An error is the failure of a handler only
if the record at hand calls it on the values at hand (`Machine.HandlerFails`).
-/

namespace ExprMachine

namespace Machine

open Exec

variable (m : Machine)

/-- The record calls a handler on the values at hand, and the handler returns an
    error. -/
inductive HandlerFails (s : State) (i : Instruction) (span : Span) (e : EvalError) : Prop where
  | unary {op : UnaryOperator} {v : Value} {handler : UnaryHandler}
      (hop : i.opcode = Lowering.unaryOpcode op) (hv : s.read? i.op1 = some v)
      (hget : ((m.registry.unary.get? op).getD []).get? v.kind = some handler)
      (h : handler v span = .error e)
  | binary {v w : Value} {handler : BinaryHandler} (hop : i.opcode = .binaryOp)
      (hv : s.read? i.op1 = some v) (hw : s.read? i.op3 = some w)
      (hget : m.registry.table.get? i.op2.toNat v.kind w.kind = some handler)
      (h : handler v w span = .error e)
  | call {name : String} {args : List Value} {o : FunctionOverload} (hop : i.opcode = .call)
      (hname : m.program.string? i.op1 = some name) (hlen : args.length = i.op3.toNat)
      (hargs : ∀ k v, args[k]? = some v → s.read? (.ofNat (i.op2.toNat + k)) = some v)
      (hresolve : m.registry.resolve name (args.map Value.kind) span = .ok o)
      (h : o.handler args span = .error e)

/-- The errors that performing a record may end with. -/
def Permits (s : State) (i : Instruction) (span : Span) (e : EvalError) : Prop :=
  e.IsRooted m.program.registers.toNat ∨ m.HandlerFails s i span e

/-- A record has been performed: the registers are as many as before, and unless
    the record ends the execution it goes on at the same place or at a target of
    the record. -/
structure Performed (s : State) (i : Instruction) (result : Option Value) (t : State) : Prop where
  size : t.registers.size = s.registers.size
  goes : result = none → i.opcode ≠ .return ∧ (t.pc = s.pc ∨
    ∃ n, (Operand.target, n) ∈ i.opcode.layout.zip i.slots ∧ t.pc = n.toNat)

variable {m}

/-- A record that keeps the counter and the number of registers goes on at the same place. -/
theorem Performed.of_keeps {s t : State} {i : Instruction} (h : s.Keeps t)
    (hop : i.opcode ≠ .return) : Performed s i none t :=
  ⟨h.size, fun _ => ⟨hop, .inl h.pc⟩⟩

/-- A record that jumps to one of its targets goes on there. -/
theorem Performed.of_goto {s : State} {i : Instruction} {n : UInt32} (hop : i.opcode ≠ .return)
    (hn : (Operand.target, n) ∈ i.opcode.layout.zip i.slots) : Performed s i none (s.goto n) :=
  ⟨rfl, fun _ => ⟨hop, .inr ⟨n, hn, rfl⟩⟩⟩

/-- Performing a record ends as it should. -/
def Safe (m : Machine) (s : State) (i : Instruction) (span : Span) : Prop :=
  (m.perform i span).Ensures s (Performed s i) (m.Permits s i span)

section

variable {s t : State} {i : Instruction} {span : Span} {dst a b c k : UInt32} {v : Value}
  {E : EvalError → Prop}

/-- The last thing that most records do is to write a value. -/
theorem ensures_last (ht : s.Keeps t) (hop : i.opcode ≠ .return)
    (hdst : i.dst.toNat < s.registers.size) :
    (do write span i.dst v; pure none : Exec (Option Value)).Ensures t (Performed s i) E := by
  refine .bind (ensures_write (ht.size ▸ hdst)) fun _ u hu => ?_
  exact .pure (.of_keeps (ht.trans hu) hop)

/-- A record that writes the result of an operation. -/
theorem ensures_result {res : Except EvalError Value} (hop : i.opcode ≠ .return)
    (hdst : i.dst.toNat < s.registers.size) (h : ∀ e, res = .error e → E e) :
    (do let v ← ofResult res; write span i.dst v; pure none : Exec (Option Value)).Ensures s
      (Performed s i) E := by
  exact ensures_ofResult h fun v _ => ensures_last (.refl s) hop hdst

variable (hdst : dst.toNat < s.registers.size) (ha : a.toNat < m.program.registers.toNat)
  (hb : b.toNat < m.program.registers.toNat) (hc : c.toNat < m.program.registers.toNat)

/-- Errors that are not dangling references may always occur. -/
theorem permits (e : EvalError) (h : e.IsRooted m.program.registers.toNat) : m.Permits s i span e :=
  .inl h

theorem toNat_registers_le (m : Machine) : m.program.registers.toNat ≤ UInt32.size :=
  Nat.le_of_lt m.program.registers.toNat_lt_size

/-- A name in the pool is found. -/
theorem isSome_string? (ha : a.toNat < m.program.strings.size) : (m.program.string? a).isSome := by
  rw [Program.string?, Array.getElem?_eq_getElem ha]
  rfl

include hdst

/-- A constant that is in the pool is loaded. -/
theorem safe_loadConst (ha : a.toNat < m.program.constants.size) :
    m.Safe s ⟨.loadConst, dst, a, b, c, k⟩ span := by
  have hsome : m.program.constants[a.toNat]?.isSome := by
    rw [Array.getElem?_eq_getElem ha]
    rfl
  exact ensures_ofOption hsome fun v _ => ensures_last (.refl s) nofun hdst

/-- A variable is looked up by its name, and may be missing, which is no dangling reference. -/
theorem safe_loadVar (ha : a.toNat < m.program.strings.size) :
    m.Safe s ⟨.loadVar, dst, a, b, c, k⟩ span := by
  refine ensures_ofOption (isSome_string? ha) fun name _ => ensures_get ?_
  cases s.env.get? name with
  | some v => exact ensures_last (.refl s) nofun hdst
  | none => exact permits _ nofun

theorem safe_loadTrue : m.Safe s ⟨.loadTrue, dst, a, b, c, k⟩ span :=
  ensures_last (.refl s) nofun hdst

theorem safe_loadFalse : m.Safe s ⟨.loadFalse, dst, a, b, c, k⟩ span :=
  ensures_last (.refl s) nofun hdst

theorem safe_loadNull : m.Safe s ⟨.loadNull, dst, a, b, c, k⟩ span :=
  ensures_last (.refl s) nofun hdst

include ha

/-- A unary operator fails only as its handler does, or for want of an overload. -/
theorem safe_unary (op : UnaryOperator) :
    m.Safe s ⟨Lowering.unaryOpcode op, dst, a, b, c, k⟩ span := by
  have hfails (v : Value) (hv : s.read? a = some v) (e : EvalError)
      (he : m.registry.applyUnary op v span = .error e) :
      m.Permits s ⟨Lowering.unaryOpcode op, dst, a, b, c, k⟩ span e := by
    rw [Registry.applyUnary] at he
    split at he
    · rename_i handler hget
      exact .inr (.unary rfl hv hget he)
    · cases he
      exact permits _ nofun
  cases op with
  | negate =>
    exact ensures_read permits ha fun v hv => ensures_result nofun hdst (hfails v hv)
  | not =>
    refine ensures_read permits ha fun v hv => ?_
    cases v with
    | bool x => exact ensures_last (.refl _) nofun hdst
    | _ => exact ensures_result nofun hdst (hfails _ hv)

include hc in
/-- A binary operator that exists fails only as its handler does, or for want of an overload. -/
theorem safe_binaryOp (hb : (BinaryOperator.ofIndex? b.toNat).isSome) :
    m.Safe s ⟨.binaryOp, dst, a, b, c, k⟩ span := by
  refine ensures_read permits ha fun v hv => ensures_read permits hc fun w hw => ?_
  refine ensures_result nofun hdst fun e he => ?_
  rw [Registry.applyBinary] at he
  split at he
  · rename_i handler hget
    exact .inr (.binary rfl hv hw hget he)
  · -- The operator exists, so what is missing is an overload for the kinds.
    obtain ⟨op, hop⟩ := Option.isSome_iff_exists.1 hb
    cases he
    rw [Registry.binaryMiss, hop]
    exact permits _ nofun

/-- A selection fails only by the value that is selected from. -/
theorem safe_memberAccess (hb : b.toNat < m.program.strings.size) :
    m.Safe s ⟨.memberAccess, dst, a, b, c, k⟩ span := by
  refine ensures_ofOption (isSome_string? hb) fun field _ => ensures_read permits ha fun v _ => ?_
  exact ensures_result nofun hdst fun e he => permits e (Value.isRooted_select he)

/-- A presence test fails only by the value that is tested. -/
theorem safe_hasField (hb : b.toNat < m.program.strings.size) :
    m.Safe s ⟨.hasField, dst, a, b, c, k⟩ span := by
  refine ensures_ofOption (isSome_string? hb) fun field _ => ensures_read permits ha fun v _ => ?_
  refine ensures_ofResult (fun e he => permits e (Value.isRooted_hasField he)) fun x _ => ?_
  exact ensures_last (.refl s) nofun hdst

include hb in
/-- An index fails only by the value and the index. -/
theorem safe_index : m.Safe s ⟨.index, dst, a, b, c, k⟩ span := by
  refine ensures_read permits ha fun v _ => ensures_read permits hb fun w _ => ?_
  exact ensures_result nofun hdst fun e he => permits e (Value.isRooted_item he)

/-- What is under construction in a register, or in it, is moved. -/
theorem safe_move : m.Safe s ⟨.move, dst, a, b, c, k⟩ span :=
  .bind (ensures_take permits ha) fun _ _ ht => ensures_last ht nofun hdst

omit ha

/-- A register that is no iterator is a defect, but no dangling reference; an iterator gives an item
    or goes on at the target. -/
theorem safe_iterNext : m.Safe s ⟨.iterNext, dst, a, b, c, k⟩ span := by
  have htarget : (Operand.target, b) ∈ Opcode.iterNext.layout.zip [dst, a, b, c] := by
    simp [Opcode.layout]
  have hnext : (nextItem span dst a b).Ensures s
      (fun _ t => Performed s ⟨.iterNext, dst, a, b, c, k⟩ none t)
      (m.Permits s ⟨.iterNext, dst, a, b, c, k⟩ span) := by
    refine ensures_get ?_
    split
    · exact ensures_defect permits rfl
    · exact Performed.of_goto nofun htarget
    · exact (ensures_write (s := s.iterate a _) hdst).imp rfl
        (fun _ t ht => .of_keeps ⟨ht.size, ht.pc⟩ nofun) fun _ => id
  exact .bind hnext fun _ t ht => ht

/-- A record that writes a value computed from consecutive registers. -/
theorem safe_makeList (hrun : 0 < b.toNat → a.toNat + b.toNat ≤ m.program.registers.toNat) :
    m.Safe s ⟨.makeList, dst, a, b, c, k⟩ span := by
  refine ensures_readRun permits (toNat_registers_le m) hrun fun vs _ _ => ?_
  exact ensures_last (.refl s) nofun hdst

/-- A map whose run of registers is there fails only by its keys. -/
theorem safe_makeMap (hrun : 0 < 2 * b.toNat → a.toNat + 2 * b.toNat ≤ m.program.registers.toNat) :
    m.Safe s ⟨.makeMap, dst, a, b, c, k⟩ span := by
  have hcount : ¬ UInt32.size ≤ 2 * b.toNat := by
    have := m.program.registers.toNat_lt_size
    omega
  show (if UInt32.size ≤ 2 * b.toNat then _ else _ : Exec (Option Value)).Ensures s _ _
  rw [if_neg hcount]
  refine ensures_readRun permits (toNat_registers_le m) hrun fun vs _ _ => ?_
  refine ensures_ofResult (fun e he => permits e (Value.isRooted_addEntries he)) fun x _ => ?_
  exact ensures_last (.refl s) nofun hdst

/-- A message whose names and registers are there fails only by what the catalog says. -/
theorem safe_makeMessage (hb : b.toNat < m.program.messageFields.size)
    (hc : c.toNat < m.program.strings.size)
    (hrun : ∀ names, m.program.messageFields[b.toNat]? = some names → 0 < names.length →
      a.toNat + names.length ≤ m.program.registers.toNat) :
    m.Safe s ⟨.makeMessage, dst, a, b, c, k⟩ span := by
  have hnames : m.program.messageFields[b.toNat]?.isSome := by
    rw [Array.getElem?_eq_getElem hb]
    rfl
  have hbuild : (m.buildMessage span a b c).Ensures s (fun _ t => s.Keeps t)
      (m.Permits s ⟨.makeMessage, dst, a, b, c, k⟩ span) := by
    refine ensures_ofOption hnames fun names hnames => ?_
    refine ensures_ofOption (isSome_string? hc) fun typeName _ => ?_
    -- A run that lies in the registers is never too long to be counted.
    have hcount : ¬ UInt32.size ≤ names.length := by
      have := hrun names hnames
      have := m.program.registers.toNat_lt_size
      omega
    rw [if_neg hcount]
    refine ensures_readRun permits (toNat_registers_le m) (hrun names hnames) fun vs _ _ => ?_
    rw [← bind_pure (ofResult _)]
    exact ensures_ofResult (fun e he => permits e (Host.isRooted_construct he)) fun v _ =>
      .pure (.refl s)
  exact .bind hbuild fun v t ht => ensures_last ht nofun hdst

/-- A call of a name that is there fails as its handler does, or is not resolved. -/
theorem safe_call (ha : a.toNat < m.program.strings.size)
    (hrun : 0 < c.toNat → b.toNat + c.toNat ≤ m.program.registers.toNat) :
    m.Safe s ⟨.call, dst, a, b, c, k⟩ span := by
  refine ensures_ofOption (isSome_string? ha) fun name hname => ?_
  refine ensures_readRun permits (toNat_registers_le m) hrun fun args hlen hargs => ?_
  have hfails (e : EvalError) (he : m.registry.call name args span = .error e) :
      m.Permits s ⟨.call, dst, a, b, c, k⟩ span e := by
    rcases Registry.call_error he with hresolve | ⟨o, hresolve, hhandler⟩
    · exact permits _ (Registry.isRooted_resolve hresolve)
    · exact .inr (.call rfl hname hlen hargs hresolve hhandler)
  have hcall : (m.callFunction span name args).Ensures s (fun _ t => s.Keeps t)
      (m.Permits s ⟨.call, dst, a, b, c, k⟩ span) :=
    ensures_ofResult hfails fun r _ => ⟨rfl, rfl⟩
  exact .bind hcall fun v t ht => ensures_last ht nofun hdst

omit hdst
include ha

/-- Only lists and maps give items, which is a matter of the value. -/
theorem safe_iterInit : m.Safe s ⟨.iterInit, dst, a, b, c, k⟩ span := by
  refine ensures_read permits ha fun v _ => ?_
  refine ensures_ofResult (fun e he => permits e (Value.isRooted_items he)) fun items _ => ?_
  exact Performed.of_keeps ⟨rfl, rfl⟩ nofun

/-- Appending to what is no list is a defect, but no dangling reference. -/
theorem safe_listAppend (hdst : dst.toNat < m.program.registers.toNat) :
    m.Safe s ⟨.listAppend, dst, a, b, c, k⟩ span := by
  refine ensures_read permits ha fun v _ => ?_
  exact .bind (ensures_append permits hdst) fun _ u hu => .pure (.of_keeps hu nofun)

/-- A check that names a role fails only by the kind of the value. -/
theorem safe_condCheck (hb : (ConditionRole.ofTag? b).isSome) :
    m.Safe s ⟨.condCheck, dst, a, b, c, k⟩ span := by
  obtain ⟨role, hrole⟩ := Option.isSome_iff_exists.1 hb
  have hrooted (kind : Kind) :
      EvalError.IsRooted ⟨span, Value.conditionCause role kind⟩ m.program.registers.toNat := by
    cases role <;> nofun
  refine ensures_read permits ha fun v _ => ?_
  have hcheck : (checkCondition span v b).Ensures s (fun _ t => s.Keeps t)
      (m.Permits s ⟨.condCheck, dst, a, b, c, k⟩ span) := by
    unfold checkCondition
    split
    · exact .refl s
    · rw [hrole]
      exact permits _ (hrooted _)
  exact .bind hcheck fun _ t ht => .pure (.of_keeps ht nofun)

include hb in
omit ha in
theorem safe_bindVar (ha : a.toNat < m.program.strings.size) :
    m.Safe s ⟨.bindVar, dst, a, b, c, k⟩ span := by
  refine ensures_ofOption (isSome_string? ha) fun name _ => ensures_read permits hb fun v _ => ?_
  exact Performed.of_keeps ⟨rfl, rfl⟩ nofun

/-- A record that returns goes on nowhere. -/
theorem safe_return : m.Safe s ⟨.return, dst, a, b, c, k⟩ span := by
  refine .bind (ensures_take permits ha) fun v t ht => ?_
  exact ⟨ht.size, nofun⟩

omit ha

theorem safe_jump : m.Safe s ⟨.jump, dst, a, b, c, k⟩ span :=
  Performed.of_goto nofun (by simp [Opcode.layout, Instruction.slots])

theorem safe_scopePush : m.Safe s ⟨.scopePush, dst, a, b, c, k⟩ span :=
  Performed.of_keeps ⟨rfl, rfl⟩ nofun

/-- Leaving a scope that has not been entered is a defect, but no dangling reference. -/
theorem safe_scopePop : m.Safe s ⟨.scopePop, dst, a, b, c, k⟩ span := by
  show ((get : Exec State) >>= _).Ensures s _ _
  refine ensures_get ?_
  split
  · exact ensures_defect permits rfl
  · exact Performed.of_keeps ⟨rfl, rfl⟩ nofun

variable (hd : dst.toNat < m.program.registers.toNat)
include hd

/-- A conditional jump goes on at its target or after itself, whatever it tests. -/
theorem safe_jumpIfFalse : m.Safe s ⟨.jumpIfFalse, dst, a, b, c, k⟩ span := by
  refine ensures_read permits hd fun v _ => ?_
  split
  · exact Performed.of_goto nofun (by simp [Opcode.layout, Instruction.slots])
  · exact Performed.of_keeps (.refl s) nofun

theorem safe_jumpIfTrue : m.Safe s ⟨.jumpIfTrue, dst, a, b, c, k⟩ span := by
  refine ensures_read permits hd fun v _ => ?_
  split
  · exact Performed.of_goto nofun (by simp [Opcode.layout, Instruction.slots])
  · exact Performed.of_keeps (.refl s) nofun

/-- Counting on overflows, or is a defect if there is no integer. -/
theorem safe_intIncrement (hsize : s.registers.size = m.program.registers.toNat) :
    m.Safe s ⟨.intIncrement, dst, a, b, c, k⟩ span := by
  refine ensures_read permits hd fun v _ => ?_
  cases v with
  | int n =>
    show (if n.toInt < Int64.maxValue.toInt then _ else _ : Exec (Option Value)).Ensures s _ _
    split
    · exact ensures_last (.refl s) nofun (hsize ▸ hd)
    · exact permits _ nofun
  | _ => exact ensures_defect permits rfl

end

/-- Performing a record that refers to what the program has ends as it should. -/
theorem safe_of_refers {s : State} {i : Instruction} (hi : m.program.Refers i)
    (hsize : s.registers.size = m.program.registers.toNat) (span : Span) : m.Safe s i span := by
  have hlt (r : UInt32) (hr : r.toNat < m.program.registers.toNat) :
      r.toNat < s.registers.size := by
    rwa [hsize]
  obtain ⟨opcode, dst, a, b, c, k⟩ := i
  obtain ⟨hslots, hrun⟩ := hi
  cases opcode
  all_goals
    simp only [Opcode.layout, Instruction.slots, List.forall₂_cons, Program.Has] at hslots
  case loadConst => exact safe_loadConst (hlt _ hslots.1) hslots.2.1
  case loadVar => exact safe_loadVar (hlt _ hslots.1) hslots.2.1
  case loadTrue => exact safe_loadTrue (hlt _ hslots.1)
  case loadFalse => exact safe_loadFalse (hlt _ hslots.1)
  case loadNull => exact safe_loadNull (hlt _ hslots.1)
  case negate => exact safe_unary (hlt _ hslots.1) hslots.2.1 .negate
  case not => exact safe_unary (hlt _ hslots.1) hslots.2.1 .not
  case binaryOp => exact safe_binaryOp (hlt _ hslots.1) hslots.2.1 hslots.2.2.2.1 hslots.2.2.1
  case jumpIfFalse => exact safe_jumpIfFalse hslots.1
  case jumpIfTrue => exact safe_jumpIfTrue hslots.1
  case jump => exact safe_jump
  case condCheck => exact safe_condCheck hslots.2.1 hslots.2.2.1
  case memberAccess => exact safe_memberAccess (hlt _ hslots.1) hslots.2.1 hslots.2.2.1
  case index => exact safe_index (hlt _ hslots.1) hslots.2.1 hslots.2.2.1
  case hasField => exact safe_hasField (hlt _ hslots.1) hslots.2.1 hslots.2.2.1
  case call => exact safe_call (hlt _ hslots.1) hslots.2.1 (hrun _ _ rfl)
  case makeList => exact safe_makeList (hlt _ hslots.1) (hrun _ _ rfl)
  case makeMap => exact safe_makeMap (hlt _ hslots.1) (hrun _ _ rfl)
  case makeMessage =>
    refine safe_makeMessage (hlt _ hslots.1) hslots.2.2.1 hslots.2.2.2.1 fun names hnames => ?_
    refine hrun _ _ ?_
    rw [Program.registerRun?, hnames]
    rfl
  case iterInit => exact safe_iterInit hslots.2.1
  case iterNext => exact safe_iterNext (hlt _ hslots.1)
  case scopePush => exact safe_scopePush
  case scopePop => exact safe_scopePop
  case bindVar => exact safe_bindVar hslots.2.2.1 hslots.2.1
  case listAppend => exact safe_listAppend hslots.2.1 hslots.1
  case intIncrement => exact safe_intIncrement hslots.1 hsize
  case move => exact safe_move (hlt _ hslots.1) hslots.2.1
  case «return» => exact safe_return hslots.2.1

end Machine

end ExprMachine
