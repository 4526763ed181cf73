import ExprMachine.Proofs.Iteration
import ExprMachine.Proofs.Jumps

/-!
# Turns of loops at work

The code that a comprehension performs for one item takes a turn: it leaves the
result so far, or the result decided, in the register of the loop, and goes back
to the head of the loop or past its own end (`Machine.Turned`). What the
register holds for a result is a boolean or a list, the list under construction
if there is one.
-/

namespace ExprMachine

open Build Evaluation

namespace Machine

variable {m : Machine} {d e : Draft} {F : Frame} {s t : State} {span : Span} {acc item r : Nat}

/-- A turn has been taken: the code goes on at the head of the loop, where the
    draft `e` ends, or at its own end if the result is decided. -/
structure Turned {β : Type} (m : Machine) (hold : β → Value) (acc : Nat) (e d : Draft) (F : Frame)
    (s : State) (result : β × Bool) (t : State) : Prop where
  ready : m.Ready (if result.2 then d else e) F t
  agrees : s.Agrees t acc
  held : t.held? (.ofNat acc) = some (hold result.1)

theorem has_of_held?_bool {b : Bool} (h : s.held? (.ofNat r) = some (.bool b)) :
    s.Has r (.bool b) :=
  ⟨(State.read?_of_held?_bool h).2, (State.read?_of_held?_bool h).1⟩

/-- A record that is performed before a piece of code. -/
theorem Runs.emitThen {α β : Type} {f : Unit → Build α} {opcode : Opcode} {dst a b c : Nat}
    {ev : Evaluation β} {P : β → State → Prop} [∀ u, Lawful (f u)]
    (h : m.Emits d F s opcode dst a b c span →
      m.program.Loads (reserved d span) (f () (reserved d span)) → m.Follows F ev s P) :
    m.Runs F (Build.emit opcode dst a b c span >>= f) d s ev P :=
  fun hl hs => h (.of_holds hl.left.holds hl.left.covers hs) hl.right

/-- The value of a guarded body is a boolean. -/
theorem runs_guarded {p : Body} {ev : Environment → Evaluation Value} [Lawful p.build]
    (hp : m.Computes p.build ev) (role : ConditionRole) :
    m.Runs F (Lowering.guarded p role) d s (do condition role p.span (← ev F.env)) fun b t =>
      m.Ready (Lowering.guarded p role d).draft F t ∧ s.Agrees t d.registers ∧
        t.Has (Lowering.guarded p role d).value (.bool b) := by
  refine Runs.bind hp.yields fun v t hv => .andPure ?_
  refine (runs_check hv.has).mono fun b u hu => ?_
  obtain ⟨hready, rfl, rfl⟩ := hu
  exact ⟨hready, hv.agrees, hv.has.read, hv.has.pending⟩

theorem Turned.of_agrees {β : Type} {hold : β → Value} {result : β × Bool} {u : State}
    (h : m.Turned hold acc e d F t result u) (ha : s.Agrees t acc) :
    m.Turned hold acc e d F s result u where
  ready := h.ready
  agrees := ha.trans h.agrees (Nat.le_refl _)
  held := h.held

section

variable {α β γ : Type} {x : Build α} {f : α → Build Unit} {hold : β → Value} [∀ a, Lawful (f a)]
  {opcode : Opcode} {dst a b c : Nat}

/-- A piece before the code of a turn. -/
theorem Runs.thenTurn [Lawful x] {ev : Evaluation γ} {g : γ → Evaluation (β × Bool)}
    {P : γ → State → Prop} {n : Nat} (hn : acc ≤ n)
    (hx : m.Runs F x d s ev fun r t => m.Ready (x d).draft F t ∧ s.Agrees t n ∧ P r t)
    (hf : ∀ r t, s.Agrees t n → P r t → m.Runs F (f (x d).value) (x d).draft t (g r)
      (m.Turned hold acc e (f (x d).value (x d).draft).draft F t)) :
    m.Runs F (x >>= f) d s (ev >>= g) (m.Turned hold acc e ((x >>= f) d).draft F s) :=
  hx.bind fun r t ht => (hf r t ht.1 ht.2).mono fun _ _ hu => hu.of_agrees (ht.1.mono hn)

end

/-- Back to the head of the loop, with what its register holds. -/
theorem Emits.follows_back {β : Type} {hold : β → Value} {opcode : Opcode} {dst a b c : Nat} {r : β}
    {f : Draft} (h : m.Emits d F t opcode dst a b c span)
    (hstep : m.step t = .ok none (t.goto (.ofNat (stride * e.records))))
    (hw : stride * e.records < wordLimit) (ha : s.Agrees t acc)
    (hheld : t.held? (.ofNat acc) = some (hold r)) :
    m.Follows F (pure (r, false)) t (m.Turned hold acc e f F s) :=
  .step hstep rfl (.pure ⟨h.ready_goto hw, ha, hheld⟩)

/-! ## Seeking an item -/

theorem runs_decided (hacc : acc < d.registers) (stop : Bool) :
    m.Runs F (Lowering.decided stop acc span) d s (pure (stop, true))
      (m.Turned .bool acc e (Lowering.decided stop acc span d).draft F s) := by
  refine .putThen (v := .bool stop) hacc (fun h hd => ?_) fun t hst hhas hl hs => ?_
  · have hrecord := h.record
    cases stop with
    | true => exact hrecord.loadTrue hd
    | false => exact hrecord.loadFalse hd
  · have hjump := emits_of_skipping hl hs rfl
    exact .step hjump.record.jump rfl (.pure ⟨hjump.ready_goto hjump.op1, hst, hhas.held⟩)

/-- The forms that seek an item go back to the head unless they have found it. -/
theorem runs_seek (span : Span) {p : Body} {ev : Environment → Evaluation Value} [Lawful p.build]
    (hp : m.Computes p.build ev) (hacc : acc < d.registers) (stop b : Bool)
    (hb : s.held? (.ofNat acc) = some (.bool b)) (v : Value) :
    m.Runs F (Lowering.seek p stop acc (stride * e.records) span) d s
      (seekTurn (passes .predicate p.span fun _ => ev F.env) stop b v)
      (m.Turned .bool acc e (Lowering.seek p stop acc (stride * e.records) span d).draft F s) := by
  have hregs := (precedes (x := Lowering.guarded p .predicate) d).registers
  refine .thenTurn (Nat.le_of_lt hacc) (runs_guarded hp .predicate) fun c t hst hc => ?_
  refine .emitThen fun h hl => ?_
  have hstep : m.step t = .ok none
      (if c = stop then t.advance else t.goto (.ofNat (stride * e.records))) := by
    have hrecord := h.record
    cases stop with
    | true =>
      rw [hrecord.jumpIfFalse hc.read]
      cases c <;> rfl
    | false =>
      rw [hrecord.jumpIfTrue hc.read]
      cases c <;> rfl
  by_cases hcs : c = stop
  · -- The item has been found, and the code after the jump ends the loop.
    rw [if_pos hcs] at hstep ⊢
    refine .step hstep rfl (Runs.follows hl h.ready_next ?_)
    refine (runs_decided (e := e) ?_ stop).mono fun _ _ hu => hu.of_agrees (s := t) (.refl t acc)
    exact Nat.lt_of_lt_of_le hacc hregs
  · -- It has not, and the next turn is taken.
    rw [if_neg hcs] at hstep ⊢
    exact h.follows_back hstep h.op1 (.refl t acc) ((hst.held hacc).trans hb)

/-! ## Counting items -/

/-- The first item that passes the test is remembered, and the second one
    decides. -/
theorem runs_count (hacc : acc < d.registers) (found : Bool) (hb : s.Has acc (.bool found)) :
    m.Runs F (Lowering.count acc (stride * e.records) span) d s
      (if found then pure (false, true) else pure (true, false))
      (m.Turned .bool acc e (Lowering.count acc (stride * e.records) span d).draft F s) := by
  refine (runs_check hb).bind (g := fun _ => if found then pure (false, true) else
    pure (true, false)) fun _ u hu hl hs => ?_
  obtain ⟨rfl, -⟩ := hu
  have hjump := emits_of_skipping hl.left hs rfl
  have hstep := hjump.record.jumpIfTrue (v := .bool found) hb.read
  cases found with
  | true =>
    -- A second item is counted behind the jump, where the loop ends.
    refine .step hstep rfl (Runs.follows hl.right (hjump.ready_goto hjump.op1) ?_)
    show m.Runs F _ _ _ (pure (false, true)) _
    refine .putLast ?_ (fun h hd => h.record.loadFalse hd) fun w hready hw hhas => ?_
    · exact hacc
    · exact ⟨hready, hw, hhas.held⟩
  | false =>
    -- The first one is counted before it, and the next turn is taken.
    refine .step hstep rfl (Runs.follows (loads_of_skipping hl.left) hjump.ready_next ?_)
    show m.Runs F _ _ _ (pure (true, false)) _
    refine .putThen ?_ (fun h hd => h.record.loadTrue hd) fun w hw hhas => .emit fun h => ?_
    · exact hacc
    · exact h.follows_back h.record.jump h.op1 hw hhas.held

/-! ## Passing over items -/

/-- An item that does not pass the test leaves everything as it is. -/
theorem runs_keeping {β : Type} (hold : β → Value) {r : β} {p : Body} (role : ConditionRole)
    (span : Span) {ev : Environment → Evaluation Value} {g : Evaluation (β × Bool)} {x : Build Unit}
    [Lawful p.build] [Lawful x] (hp : m.Computes p.build ev) (v : Value) (hacc : acc < d.registers)
    (hr : s.held? (.ofNat acc) = some (hold r))
    (hx : ∀ e' t, d.registers ≤ e'.registers → s.Agrees t d.registers →
      m.Runs F x e' t g (m.Turned hold acc e (x e').draft F t)) :
    m.Runs F (Lowering.keeping p role (stride * e.records) span x) d s
      (do if ← passes role p.span (fun _ => ev F.env) v then g else pure (r, false))
      (m.Turned hold acc e (Lowering.keeping p role (stride * e.records) span x d).draft F s) := by
  have hregs := (precedes (x := Lowering.guarded p role) d).registers
  refine .thenTurn (Nat.le_of_lt hacc) (runs_guarded hp role) fun c t hst hc => ?_
  refine .emitThen fun h hl => ?_
  have hstep := h.record.jumpIfFalse hc.read
  cases c with
  | false =>
    exact h.follows_back hstep h.op1 (.refl t acc) ((hst.held hacc).trans hr)
  | true =>
    refine .step hstep rfl (Runs.follows hl h.ready_next (Runs.mono (hx _ t.advance ?_ hst) ?_))
    · exact hregs
    · exact fun _ _ hu => hu.of_agrees (s := t) (.refl t acc)

/-! ## Collecting items -/

/-- The record that appends a value to the list of the loop, and the jump back. -/
theorem runs_append {r : Nat} {w : Value} {results : List Value} (hacc : acc < d.registers)
    (hw : s.Has r w) (hb : s.held? (.ofNat acc) = some (.list results)) :
    m.Runs F (Lowering.append acc r (stride * e.records) span) d s
      (pure (results ++ [w], false))
      (m.Turned .list acc e (Lowering.append acc r (stride * e.records) span d).draft F s) := by
  refine .emitThen fun h hl => ?_
  refine .step (h.record.listAppend hw.read hb) rfl ?_
  have hready : m.Ready (reserved d span) F (s.advance.extend (.ofNat acc) w results) :=
    h.ready_advance rfl rfl rfl rfl
  have hagrees : s.Agrees (s.advance.extend (.ofNat acc) w results) acc :=
    State.agrees_extend (h.le_toNat hacc (Nat.le_refl acc))
  refine Runs.emit (fun hj => ?_) hl hready
  exact hj.follows_back hj.record.jump hj.op1 hagrees (State.held?_extend_self _ _ _ _)

theorem runs_transform (span : Span) {b : Body} {ev : Environment → Evaluation Value}
    {results : List Value} [Valued b.build] (hb : m.Computes b.build ev) (hacc : acc < d.registers)
    (hr : s.held? (.ofNat acc) = some (.list results)) :
    m.Runs F (do
      let v ← b.build
      Lowering.append acc v (stride * e.records) span) d s
      (do
        let w ← ev F.env
        pure (results ++ [w], false))
      (m.Turned .list acc e ((do
        let v ← b.build
        Lowering.append acc v (stride * e.records) span : Build Unit) d).draft F s) := by
  refine .thenTurn (Nat.le_of_lt hacc) ((hb d F s).mono fun _ _ h => ⟨h.ready, h.agrees, h.has⟩)
    fun w t hst hw => ?_
  refine runs_append ?_ hw ((hst.held hacc).trans hr)
  exact Nat.lt_of_lt_of_le hacc (precedes d).registers

end Machine

end ExprMachine
