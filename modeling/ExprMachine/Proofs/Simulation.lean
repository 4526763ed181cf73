import Mathlib.Data.List.Forall2
import ExprMachine.Proofs.Runs

/-!
# The code of values at work

The code of every construct computes what the construct evaluates to, if the
code of its parts does; one statement for each form of code but comprehensions.
Parts in a list are computed one after another (`Machine.ComputesAll`), and
moved to consecutive registers before they are combined (`Machine.Runs.gather`).
-/

namespace ExprMachine.Machine

open Build Evaluation

variable {m : Machine} {d : Draft} {F : Frame} {s t : State} {span : Span}

/-! ## Leaves -/

/-- A literal is loaded by a record of its own, or from the pool of constants. -/
theorem computes_literal (l : Literal) (span : Span) :
    m.Computes (Lowering.literal l span) fun _ => pure l.value := by
  intro d F s
  cases l with
  | null => exact Runs.result fun h hd => h.record.loadNull hd
  | bool b =>
    cases b with
    | true => exact Runs.result fun h hd => h.record.loadTrue hd
    | false => exact Runs.result fun h hd => h.record.loadFalse hd
  | int | uint | double | string | bytes =>
    refine .prepare rfl rfl (.prepare rfl rfl (.andPure ?_))
    refine (Runs.put (Nat.lt_succ_self d.registers) fun h hd => h.record.loadConst hd
      (h.covers.constant h.op1 List.getElem?_concat_length)).mono fun _ _ ht => ?_
    exact ⟨ht.1, ht.2.1, ht.2.2.1⟩

/-- A variable is looked up by the name that the pool has for it. -/
theorem computes_ident (name : String) (span : Span) :
    m.Computes (do
      let i ← string name
      let dst ← fresh
      emit .loadVar dst i 0 0 span
      pure dst) fun env =>
        match env.get? name with
        | some v => pure v
        | none => fail span (.noSuchVariable name) := by
  intro d F s
  have heval : (match F.env.get? name with
      | some v => pure v
      | none => fail span (.noSuchVariable name)) =
      ofResult (match F.env.get? name with
        | some v => .ok v
        | none => .error ⟨span, .noSuchVariable name⟩) := by
    cases F.env.get? name <;> rfl
  show m.Runs F _ d s (match F.env.get? name with
    | some v => pure v
    | none => fail span (.noSuchVariable name)) _
  rw [heval]
  refine .within rfl (.result fun h hd => ?_)
  rw [← h.ready.env]
  exact h.record.loadVar hd (h.covers.string h.op1 (getElem?_intern d.strings name))

/-! ## Selections and operators -/

section

variable {x y : Build Nat} {ev ev' : Environment → Evaluation Value} [Valued x] [Valued y]

theorem Computes.memberAccess (hx : m.Computes x ev) (field : String) (span : Span) :
    m.Computes (Lowering.select .memberAccess x field span) (fun env => do
      ofResult ((← ev env).select field span)) := by
  intro d F s
  refine hx.andThen fun v t hv => .within rfl (.result fun h hd => ?_)
  exact h.record.memberAccess hd hv.has.read (h.covers.string h.op2 (getElem?_intern _ field))

theorem Computes.hasField (hx : m.Computes x ev) (field : String) (span : Span) :
    m.Computes (Lowering.select .hasField x field span) (fun env => do
      return .bool (← ofResult ((← ev env).hasField field span))) := by
  intro d F s
  refine hx.andThen fun v t hv => ?_
  have heval : (do return .bool (← ofResult (v.hasField field span)) : Evaluation Value) =
      ofResult ((v.hasField field span).map .bool) := by
    cases v.hasField field span <;> rfl
  rw [heval]
  refine .within rfl (.result fun h hd => ?_)
  exact h.record.hasField hd hv.has.read (h.covers.string h.op2 (getElem?_intern _ field))

/-- The fast paths of the unary opcodes give what the evaluation does. -/
theorem Computes.unary (hx : m.Computes x ev) (op : UnaryOperator) (span : Span) :
    m.Computes (do
      let src ← x
      let dst ← fresh
      emit (Lowering.unaryOpcode op) dst src 0 0 span
      pure dst) (fun env => do Evaluation.unary m.toHost op (← ev env) span) := by
  intro d F s
  refine hx.andThen fun v t hv => ?_
  have heval : Evaluation.unary m.toHost op v span =
      ofResult (At.unaryResult m.registry op v span) := by
    cases op <;> cases v <;> rfl
  rw [heval]
  exact .result fun h hd => h.record.unary hd hv.has.read

omit [Valued y] in
/-- The value of the first of two pieces is still there after the second. -/
theorem Yields.before {v w : Value} {u : State} (hv : m.Yields x d F s v t)
    (hw : m.Yields y (x d).draft F t w u) : u.Has (x d).value v :=
  hv.has.of_agrees hw.agrees (value_lt d)

/-- The container is evaluated before what it is indexed with. -/
theorem Computes.index (hx : m.Computes x ev) (hy : m.Computes y ev') (span : Span) :
    m.Computes (do
      let src ← x
      let key ← y
      let dst ← fresh
      emit .index dst src key 0 span
      pure dst) (fun env => do
        let v ← ev env
        let i ← ev' env
        ofResult (v.item i span)) := by
  intro d F s
  refine hx.andThen fun v t hv => hy.andThen fun w u hw => .result fun h hd => ?_
  exact h.record.index hd (hv.before hw).read hw.has.read

/-- Both operands of a strict operator are evaluated, from left to right. -/
theorem Computes.strict (hx : m.Computes x ev) (hy : m.Computes y ev') {op : BinaryOperator}
    (hop : ¬ op.isShortCircuit) (span : Span) :
    m.Computes (Lowering.strict op x y span) fun env =>
      Evaluation.binary m.toHost op (ev env) (ev' env) span := by
  intro d F s
  refine hx.andThen fun v t hv => ?_
  -- No left operand decides an operator that is strict.
  have hnone : deciding op = none := by
    cases op <;> first | rfl | exact absurd rfl hop
  have hgo : ¬ (v.asBool?.any fun b => deciding op = some b) := by
    rw [hnone]
    cases v.asBool? <;> simp
  rw [if_neg hgo]
  refine hy.andThen fun w u hw => .result fun h hd => ?_
  have := h.record.binary hd (hv.before hw).read hw.has.read
  rwa [toNat_ofNat_of_lt h.op2] at this

end

/-! ## Lists of parts -/

/-- Values are in registers, all of them among the first `n`. -/
def HasAll (s : State) (n : Nat) (regs : List Nat) (vs : List Value) : Prop :=
  List.Forall₂ (fun r v => r < n ∧ s.Has r v) regs vs

/-- Values stay in registers that nothing happens to. -/
theorem HasAll.of_agrees {n k : Nat} {regs : List Nat} {vs : List Value} (h : HasAll s n regs vs)
    (ha : s.Agrees t n) (hk : n ≤ k) : HasAll t k regs vs :=
  List.Forall₂.imp (fun _ _ h => ⟨Nat.lt_of_lt_of_le h.1 hk, h.2.of_agrees ha h.1⟩) h

/-- Values are in the registers that a piece has yielded for them, and everything
    in the registers before is as it was. -/
structure YieldsAll (m : Machine) (x : Build (List Nat)) (d : Draft) (F : Frame) (s : State)
    (vs : List Value) (t : State) : Prop where
  ready : m.Ready (x d).draft F t
  agrees : s.Agrees t d.registers
  has : HasAll t (x d).draft.registers (x d).value vs

variable (m) in
/-- The code of a piece leaves the values that an evaluation gives in its
    registers. -/
def ComputesAll (x : Build (List Nat)) (ev : Environment → Evaluation (List Value)) : Prop :=
  ∀ (d : Draft) (F : Frame) (s : State), m.Runs F x d s (ev F.env) (m.YieldsAll x d F s)

theorem computesAll_nil : m.ComputesAll (pure []) fun _ => pure [] :=
  fun _ _ s _ hs => .pure ⟨hs, .refl s _, .nil⟩

/-- The first of some parts, and then the others. -/
theorem ComputesAll.cons {x : Build Nat} {xs : Build (List Nat)}
    {ev : Environment → Evaluation Value} {evs : Environment → Evaluation (List Value)}
    [Valued x] [Lawful xs] (hx : m.Computes x ev) (hxs : m.ComputesAll xs evs) :
    m.ComputesAll
      (do
        let r ← x
        let rs ← xs
        pure (r :: rs))
      (fun env => do
        let v ← ev env
        let vs ← evs env
        pure (v :: vs)) := by
  intro d F s
  refine hx.yields.bind fun v t hv => ?_
  refine ((hxs _ F t).mono fun _ _ h => ⟨h.ready, h⟩).bind fun vs u hvs => ?_
  intro _ hu
  refine .pure ⟨hu, hv.agrees.trans hvs.agrees (precedes d).registers, .cons ⟨?_, ?_⟩ hvs.has⟩
  · exact Nat.lt_of_lt_of_le (value_lt d) (precedes (x := xs) (x d).draft).registers
  · exact hv.has.of_agrees hvs.agrees (value_lt d)

theorem ComputesAll.andThen {x : Build (List Nat)} {f : List Nat → Build Nat}
    {ev : Environment → Evaluation (List Value)} {g : List Value → Evaluation Value} [Lawful x]
    [∀ rs, Lawful (f rs)] (hx : m.ComputesAll x ev)
    (hf : ∀ vs t, m.YieldsAll x d F s vs t →
      m.Runs F (f (x d).value) (x d).draft t (g vs) (m.Yields (f (x d).value) (x d).draft F t)) :
    m.Runs F (x >>= f) d s (ev F.env >>= g) (m.Yields (x >>= f) d F s) :=
  ((hx d F s).mono fun _ _ h => ⟨h.ready, h.agrees, h⟩).andThen fun vs t _ h => hf vs t h

/-- Values stand one after another in the registers from `base` on. -/
def Row (s : State) (base : Nat) (vs : List Value) : Prop :=
  ∀ (k : Nat) (v : Value), vs[k]? = some v → s.Has (base + k) v

/-- A value is copied if no list is under construction in its register. -/
theorem Emits.move {d : Draft} {dst src : Nat} {v : Value}
    (h : m.Emits d F s .move dst src 0 0 span) (hd : (UInt32.ofNat dst).toNat < s.registers.size)
    (hv : s.Has src v) : m.Puts s (.ofNat dst) (.ok v) := by
  have hstep := h.record.move hd hv.held
  rwa [show s.advance.release (.ofNat src) = s.advance from
    State.release_of_pending _ _ hv.pending] at hstep

/-- Values that are in registers below a row are moved into it one after another. -/
theorem runs_moveAll {regs : List Nat} {vs : List Value} {base : Nat}
    (hvs : HasAll s base regs vs) (hbase : base + regs.length ≤ d.registers) :
    m.Runs F (Lowering.moveAll base span regs) d s (pure ()) fun _ t =>
      m.Ready (Lowering.moveAll base span regs d).draft F t ∧ s.Agrees t base ∧
        Row t base vs := by
  induction regs generalizing vs base d s with
  | nil =>
    cases hvs
    exact fun _ hs => .pure ⟨hs, .refl s _, fun k v hk => by simp at hk⟩
  | cons r rest ih =>
    obtain ⟨v, ws, hv, hws, rfl⟩ := List.forall₂_cons_left_iff.1 hvs
    rw [List.length_cons] at hbase
    have hdst : base < d.registers := by omega
    refine Runs.putThen hdst (fun h hd => h.move hd hv.2) fun t hst hhas => ?_
    have hrest := HasAll.of_agrees hws hst (Nat.le_succ base)
    have hle : base + 1 + rest.length ≤ (reserved d span).registers := by
      show _ ≤ d.registers
      omega
    -- The first value is in its place, before the others that are moved then.
    refine (ih hrest hle).mono fun _ u hu => ⟨hu.1, hst.trans hu.2.1 (Nat.le_succ _), ?_⟩
    intro k w hk
    cases k with
    | zero =>
      cases hk
      exact hhas.of_agrees hu.2.1 (Nat.lt_succ_self _)
    | succ k =>
      rw [← Nat.succ_add_eq_add_succ]
      exact hu.2.2 k w hk

/-- Values that are in registers anywhere are moved into a row. -/
theorem Runs.gather {regs : List Nat} {vs : List Value} {f : Nat → Build Nat}
    {ev : Evaluation Value} [∀ b, Lawful (f b)] (hvs : HasAll s d.registers regs vs)
    (h : ∀ t, Row t d.registers vs →
      m.Runs F (f d.registers) (Lowering.consecutive regs span d).draft t ev
        (m.Yields (f d.registers) (Lowering.consecutive regs span d).draft F t)) :
    m.Runs F (Lowering.consecutive regs span >>= f) d s ev
      (m.Yields (Lowering.consecutive regs span >>= f) d F s) := by
  show m.Runs F _ d s (pure () >>= fun _ => ev) _
  refine Runs.andThen ?_ fun _ t _ => h t
  refine .prepare rfl rfl (.andPure ?_)
  exact runs_moveAll hvs (Nat.le_refl _)

/-- A record that reads a row finds it, and the numbers of its registers and of
    its values fit in words. -/
theorem Emits.row {opcode : Opcode} {dst a b c base : Nat} {vs : List Value}
    (h : m.Emits d F s opcode dst a b c span) (hbase : base < wordLimit)
    (hrow : Row s base vs) (hlen : base + vs.length ≤ d.registers) :
    (UInt32.ofNat base).toNat + vs.length ≤ UInt32.size ∧ vs.length < UInt32.size ∧
      ∀ j w, vs[j]? = some w → s.read? (UInt32.ofNat ((UInt32.ofNat base).toNat + j)) = some w := by
  rw [toNat_ofNat_of_lt hbase]
  have hlt : base + vs.length < UInt32.size :=
    Nat.lt_of_le_of_lt (Nat.le_trans hlen h.covers.registers) (toNat_lt_wordLimit _)
  exact ⟨Nat.le_of_lt hlt, Nat.lt_of_le_of_lt (Nat.le_add_left _ _) hlt,
    fun j w hj => (hrow j w hj).read⟩

/-- The registers of a row have been handed out. -/
theorem HasAll.row_le {regs : List Nat} {vs : List Value} {n : Nat} (h : HasAll s n regs vs)
    (d : Draft) (span : Span) :
    d.registers + vs.length ≤ (Lowering.consecutive regs span d).draft.registers := by
  rw [← List.Forall₂.length_eq h]
  exact (precedes (x := Lowering.moveAll d.registers span regs)
    { d with registers := d.registers + regs.length }).registers

/-! ## Lists, maps, messages and calls -/

section

variable {xs : Build (List Nat)} {evs : Environment → Evaluation (List Value)} [Lawful xs]

/-- A list is built from the row of its items. -/
theorem ComputesAll.list (hxs : m.ComputesAll xs evs) (span : Span) :
    m.Computes (do
      let regs ← xs
      Lowering.aggregate .makeList regs regs.length span) (fun env => do
        return .list (← evs env)) := by
  intro d F s
  refine hxs.andThen fun vs t hvs => ?_
  have hlen := List.Forall₂.length_eq hvs.has
  show m.Runs F _ _ t (ofResult (.ok (Value.list vs))) _
  refine Runs.gather hvs.has fun u hrow => .result fun h hd => ?_
  obtain ⟨hw, -, hrun⟩ := h.row h.op1 hrow (Nat.le_succ_of_le (hvs.has.row_le _ span))
  exact h.record.makeList hd (by rw [toNat_ofNat_of_lt h.op2, hlen]) hw hrun

/-- A map is built from twice as many values as it has entries. -/
theorem ComputesAll.map (hxs : m.ComputesAll xs evs) (count : Nat)
    (hcount : ∀ d : Draft, (xs d).value.length = 2 * count) (span : Span) :
    m.Computes (do
      let regs ← xs
      Lowering.aggregate .makeMap regs count span) (fun env => do
        let parts ← evs env
        return .map (← ofResult (Value.addEntries [] span parts))) := by
  intro d F s
  refine hxs.andThen fun vs t hvs => ?_
  have hlen : 2 * count = vs.length := (hcount d).symm.trans (List.Forall₂.length_eq hvs.has)
  have heval : (do return .map (← ofResult (Value.addEntries [] span vs)) : Evaluation Value) =
      ofResult ((Value.addEntries [] span vs).map .map) := by
    cases Value.addEntries [] span vs <;> rfl
  rw [heval]
  refine Runs.gather hvs.has fun u hrow => .result fun h hd => ?_
  obtain ⟨hw, hfew, hrun⟩ := h.row h.op1 hrow (Nat.le_succ_of_le (hvs.has.row_le _ span))
  exact h.record.makeMap hd (by rw [toNat_ofNat_of_lt h.op2, hlen]) hw hfew hrun

/-- A message is built from as many values as it has fields. -/
theorem ComputesAll.message (hxs : m.ComputesAll xs evs) (names : List String)
    (hnames : ∀ d : Draft, (xs d).value.length = names.length) (typeName : String) (span : Span) :
    m.Computes (do
      let regs ← xs
      Lowering.message typeName names regs span) (fun env => do
        let values ← evs env
        ofResult (m.construct typeName (names.zip values) span)) := by
  intro d F s
  refine hxs.andThen fun vs t hvs => ?_
  have hlen : names.length = vs.length := (hnames d).symm.trans (List.Forall₂.length_eq hvs.has)
  refine Runs.gather hvs.has fun u hrow => .within rfl (.within rfl (.result fun h hd => ?_))
  obtain ⟨hw, hfew, hrun⟩ := h.row h.op1 hrow (Nat.le_succ_of_le (hvs.has.row_le _ span))
  exact h.record.makeMessage hd (h.covers.fields h.op2 List.getElem?_concat_length)
    (h.covers.string h.op3 (getElem?_intern _ typeName)) hlen hw hfew hrun

/-- A call of a function with the values that are in some registers. -/
theorem runs_call {regs : List Nat} {vs : List Value} (hvs : HasAll s d.registers regs vs)
    (function : String) (span : Span) :
    m.Runs F (Lowering.call function regs span) d s
      (Evaluation.call m.toHost function vs span)
      (m.Yields (Lowering.call function regs span) d F s) := by
  refine Runs.gather hvs fun t hrow => .within rfl (.prepare rfl rfl (.andPure (.emit fun h => ?_)))
  obtain ⟨hw, -, hrun⟩ := h.row h.op2 hrow (Nat.le_succ_of_le (hvs.row_le d span))
  have hdst := Nat.lt_succ_self (Lowering.consecutive regs span d).draft.registers
  have hsize := h.lt_size hdst
  have hstep := h.record.call hsize (h.covers.string h.op1 (getElem?_intern _ function))
    (by rw [toNat_ofNat_of_lt h.op3, List.Forall₂.length_eq hvs]) hw hrun
  rw [Evaluation.call]
  cases hres : m.registry.call function vs span with
  | error e =>
    rw [hres] at hstep
    exact .fail hstep rfl h.unwinds
  | ok r =>
    rw [hres] at hstep
    refine ⟨_, .head hstep .refl, rfl, ?_, ?_, State.has_set (s := t.advance.count r.2) hsize⟩
    · exact h.ready_advance (State.size_set _ _ _) rfl rfl rfl
    · exact State.agrees_set (h.le_toNat hdst (Nat.le_refl _))

/-- A function is called with the row of its arguments. -/
theorem ComputesAll.call (hxs : m.ComputesAll xs evs) (function : String) (span : Span) :
    m.Computes (do
      let regs ← xs
      Lowering.call function regs span) (fun env => do
        Evaluation.call m.toHost function (← evs env) span) := by
  intro d F s
  exact hxs.andThen fun vs t hvs => runs_call hvs.has function span

end

end ExprMachine.Machine
