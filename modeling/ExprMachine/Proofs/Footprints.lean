import ExprMachine.Proofs.Steps

/-!
# What records leave as it is

A record changes the state of an execution in few ways (`Instruction.Changes`), and all that
performing it does is a series of such changes, whether it ends with a result or with an error
(`Machine.leads_perform`). What is lost when a record fails halfway is part of this, so that nothing
has to be known of the values at hand.

A computation *leaves* what is observed of the state if that is the same afterwards
(`Exec.Leaves`). Few records are seen from outside of the machine:

* only records that write do so to the register in their first slot, and to no
  other;
* only calls change what is known of the functions called so far;
* only the records that enter and leave scopes and bind variables change the
  variables;
* only records that return give a value (`Machine.gives_perform`).

All else leaves any observation that does not look at the counter, the iterators
and the lists under construction (`Machine.leaves_perform`).
-/

namespace ExprMachine

open Relation (ReflTransGen)

/-- The records that write the register in their first slot. -/
def Opcode.writes : Opcode → Bool
  | .jumpIfFalse | .jumpIfTrue | .jump | .condCheck | .iterInit | .scopePush | .scopePop
  | .bindVar | .listAppend | .return => false
  | _ => true

/-- The records that change the variables. -/
def Opcode.changesVariables : Opcode → Bool
  | .scopePush | .scopePop | .bindVar => true
  | _ => false

/-- One of the changes that a record makes to a state. -/
inductive Instruction.Changes (i : Instruction) (s : State) : State → Prop where
  /-- The record goes on at one of its targets. -/
  | goto {n : UInt32} (h : (Operand.target, n) ∈ i.opcode.layout.zip i.slots) :
      i.Changes s (s.goto n)
  /-- A list under construction is dropped where the record writes. -/
  | drop (h : i.opcode.writes) : i.Changes s (s.release i.dst)
  | store {v : Value} (h : i.opcode.writes) :
      i.Changes s { s with registers := s.registers.setIfInBounds i.dst.toNat (some v) }
  /-- A list under construction is finished. -/
  | take (h : i.opcode = .move ∨ i.opcode = .return) : i.Changes s (s.release i.op1)
  | append {items : List Value} (h : i.opcode = .listAppend) :
      i.Changes s { s with pending := s.pending.insert i.dst items }
  | iterate {items : List Value} (h : i.opcode = .iterInit) : i.Changes s (s.iterate i.dst items)
  | proceed {items : List Value} (h : i.opcode = .iterNext) : i.Changes s (s.iterate i.op1 items)
  /-- A function has been called. -/
  | count {b : Bool} (h : i.opcode = .call) :
      i.Changes s { s with idempotent := s.idempotent && b }
  | scope {env : Environment} {n : Nat} (h : i.opcode.changesVariables) :
      i.Changes s { s with env := env, openScopes := n }

/-- An observation in which neither the counter nor the iterators nor the lists
    under construction show. -/
structure State.Steady {γ : Type} (f : State → γ) : Prop where
  pc : ∀ s n, f { s with pc := n } = f s
  iterators : ∀ s ts, f { s with iterators := ts } = f s
  pending : ∀ s ts, f { s with pending := ts } = f s

/-- The flag does not show in them. -/
theorem State.steady_idempotent : State.Steady fun s => s.idempotent :=
  ⟨fun _ _ => rfl, fun _ _ => rfl, fun _ _ => rfl⟩

/-- Neither do the variables and the number of open scopes. -/
theorem State.steady_scopes : State.Steady fun s => (s.env, s.openScopes) :=
  ⟨fun _ _ => rfl, fun _ _ => rfl, fun _ _ => rfl⟩

/-- Nor does what has been written into a register. -/
theorem State.steady_read? (r : UInt32) : State.Steady (State.read? · r) :=
  ⟨fun _ _ => rfl, fun _ _ => rfl, fun _ _ => rfl⟩

namespace Exec

variable {α β γ : Type}

/-- The state that a computation ends in, with a result or with an error. -/
def final (x : Exec α) (s : State) : State :=
  match x s with
  | .ok _ t => t
  | .error _ t => t

/-- All that a computation does to the state is a series of changes, however it ends. -/
def Leads (x : Exec α) (C : State → State → Prop) : Prop := ∀ s, ReflTransGen C s (x.final s)

/-- A computation leaves what is observed of the state as it is, however it
    ends. -/
def Leaves (x : Exec α) (f : State → γ) : Prop := ∀ s, f (x.final s) = f s

section

variable {x : Exec α} {g : α → Exec β} {f : State → γ} {C : State → State → Prop} {s t : State}

/-- A computation with a result ends in the state that comes with it. -/
theorem final_ok {a : α} (h : x s = .ok a t) : x.final s = t := by
  rw [final, h]

theorem final_error {e : EvalError} (h : x s = .error e t) : x.final s = t := by
  rw [final, h]

/-- Whatever a computation gives has a property. -/
def Gives (x : Exec α) (P : α → Prop) : Prop := ∀ s a t, x s = .ok a t → P a

theorem Gives.pure {P : α → Prop} {a : α} (h : P a) : (Pure.pure a : Exec α).Gives P := by
  intro s b t hb
  cases hb
  exact h

/-- What comes last decides what is given. -/
theorem Gives.bind {P : β → Prop} (h : ∀ a, (g a).Gives P) : (x >>= g).Gives P := by
  intro s b t hb
  cases hxs : x s with
  | ok a u => exact h a u b t (bind_ok g hxs ▸ hb)
  | error e u =>
    rw [bind_error g hxs] at hb
    cases hb

namespace Leads

theorem pure {a : α} : (Pure.pure a : Exec α).Leads C := fun _ => .refl

theorem fail {span : Span} {cause : EvalError.Cause} : (fail span cause : Exec α).Leads C :=
  fun _ => .refl

theorem defect {span : Span} {d : Defect} : (defect span d : Exec α).Leads C := fail

theorem ofResult {res : Except EvalError α} : (ofResult res).Leads C := by
  cases res with
  | ok a => exact pure
  | error e => exact fun _ => .refl

/-- What is missing is a defect and changes nothing. -/
theorem ofOption {span : Span} {d : Defect} {o : Option α} : (ofOption span d o).Leads C := by
  cases o with
  | some a => exact pure
  | none => exact defect

theorem get : (MonadState.get : Exec State).Leads C := fun _ => .refl

/-- A modification is one change. -/
theorem modify {g : State → State} (h : ∀ s, C s (g s)) : (modify g : Exec Unit).Leads C :=
  fun s => .single (h s)

/-- The changes of two computations one after the other. -/
theorem bind (hx : x.Leads C) (hg : ∀ a, (g a).Leads C) : (x >>= g).Leads C := by
  intro s
  cases hxs : x s with
  | ok a t =>
    have ht : ReflTransGen C s t := final_ok hxs ▸ hx s
    rw [final, bind_ok g hxs]
    exact ht.trans (hg a t)
  | error e t =>
    rw [final_error (bind_error g hxs)]
    exact final_error hxs ▸ hx s

/-- What no change shows in is left as it is. -/
theorem leaves (h : x.Leads C) (hC : ∀ s t, C s t → f t = f s) : x.Leaves f := by
  intro s
  have hs := h s
  generalize x.final s = t at hs ⊢
  induction hs with
  | refl => rfl
  | tail _ hst ih => exact (hC _ _ hst).trans ih

end Leads

namespace Leaves

theorem pure {a : α} : (Pure.pure a : Exec α).Leaves f := fun _ => rfl

/-- What two computations leave is left by one after the other. -/
theorem bind (hx : x.Leaves f) (hg : ∀ a, (g a).Leaves f) : (x >>= g).Leaves f := by
  intro s
  cases hxs : x s with
  | ok a t =>
    have ht : f t = f s := final_ok hxs ▸ hx s
    rw [final, bind_ok g hxs]
    exact (hg a t).trans ht
  | error e t =>
    rw [final_error (bind_error g hxs)]
    exact final_error hxs ▸ hx s

end Leaves

end

section

variable {C : State → State → Prop} {span : Span} {r : UInt32} {v : Value}

/-- Reading changes nothing. -/
theorem leads_read : (read span r).Leads C := .bind .get fun _ => .ofOption

/-- Nor does reading several registers. -/
theorem leads_readRun (first n : Nat) : (readRun span first n).Leads C := by
  induction n generalizing first with
  | zero => exact .pure
  | succ n ih =>
    have hrest : (do
        let v ← read span (UInt32.ofNat first)
        let vs ← readRun span (first + 1) n
        pure (v :: vs) : Exec (List Value)).Leads C :=
      .bind leads_read fun _ => .bind (ih (first + 1)) fun _ => .pure
    rw [readRun]
    split
    · exact .bind .defect fun _ => hrest
    · exact hrest

/-- A write drops a list under construction and stores a value. -/
theorem leads_write (hdrop : ∀ s : State, C s (s.release r))
    (hstore : ∀ s, C s { s with registers := s.registers.setIfInBounds r.toNat (some v) }) :
    (write span r v).Leads C := by
  refine .bind (.modify hdrop) fun _ => .bind .get fun s => ?_
  split
  · exact .modify hstore
  · exact .defect

/-- Taking a register drops the list under construction in it. -/
theorem leads_take (h : ∀ s : State, C s (s.release r)) : (take span r).Leads C := by
  refine .bind .get fun s => ?_
  cases s.pending.get? r with
  | some items => exact .bind (.modify h) fun _ => .pure
  | none => exact leads_read

/-- Appending changes one list under construction. -/
theorem leads_append (h : ∀ s items, C s { s with pending := s.pending.insert r items }) :
    (append span r v).Leads C := by
  refine .bind .get fun s => ?_
  cases s.pending.get? r with
  | some items => exact .modify fun s => h s _
  | none =>
    refine .bind leads_read fun w => ?_
    cases w with
    | list items => exact .modify fun s => h s _
    | _ => exact .defect

theorem leads_jump {target : UInt32} (h : ∀ s : State, C s (s.goto target)) :
    (jump target).Leads C := .modify h

/-- A write is observed in its register only. -/
theorem leaves_write {f : State → γ} (hf : State.Steady f)
    (hr : ∀ s w, f { s with registers := s.registers.setIfInBounds r.toNat w } = f s) :
    (write span r v).Leaves f := by
  refine .bind (fun s => hf.pending s _) fun _ s => ?_
  show f ((if r.toNat < s.registers.size then _ else _ : Exec Unit).final s) = f s
  split
  · exact hr s _
  · rfl

end

end Exec

namespace Machine

open Exec

variable (m : Machine) {γ : Type} {f : State → γ} {C : State → State → Prop}

theorem leads_stringOperand {span : Span} {index : UInt32} :
    (m.stringOperand span index).Leads C := .ofOption

/-- Checking a value changes nothing. -/
theorem leads_checkCondition {span : Span} {v : Value} {role : UInt32} :
    (checkCondition span v role).Leads C := by
  unfold checkCondition
  split
  · exact .pure
  · split
    · exact .fail
    · exact .defect

/-- Building a message changes nothing. -/
theorem leads_buildMessage {span : Span} {first fields typeName : UInt32} :
    (m.buildMessage span first fields typeName).Leads C := by
  refine .bind .ofOption fun names => .bind m.leads_stringOperand fun name => ?_
  split
  · exact .bind .defect fun _ => .bind (leads_readRun _ _) fun _ => .ofResult
  · exact .bind (leads_readRun _ _) fun _ => .ofResult

/-- A call may clear the flag. -/
theorem leads_callFunction {span : Span} {name : String} {args : List Value}
    (h : ∀ s b, C s { s with idempotent := s.idempotent && b }) :
    (m.callFunction span name args).Leads C :=
  .bind .ofResult fun _ => .bind (.modify fun s => h s _) fun _ => .pure

/-- The next item is taken from its iterator and written, or a jump is made. -/
theorem leads_nextItem {span : Span} {dst iterator exit : UInt32}
    (hgoto : ∀ s : State, C s (s.goto exit)) (hnext : ∀ s items, C s (s.iterate iterator items))
    (hdrop : ∀ s : State, C s (s.release dst))
    (hstore : ∀ s v, C s { s with registers := s.registers.setIfInBounds dst.toNat (some v) }) :
    (nextItem span dst iterator exit).Leads C := by
  refine .bind .get fun s => ?_
  split
  · exact .defect
  · exact leads_jump hgoto
  · exact .bind (.modify fun s => hnext s _) fun _ => leads_write hdrop fun s => hstore s _

/-! ## Records -/

section

variable {m} {span : Span}

/-- A record only makes changes that it is there to make. -/
theorem leads_perform (i : Instruction) : (m.perform i span).Leads i.Changes := by
  -- Nearly all records end by writing a result or by a jump.
  have hlast (v : Value) (hw : i.opcode.writes) :
      (do write span i.dst v; pure none : Exec (Option Value)).Leads i.Changes :=
    .bind (leads_write (fun _ => .drop hw) fun _ => .store hw) fun _ => .pure
  have hjump (n : UInt32) (hn : (Operand.target, n) ∈ i.opcode.layout.zip i.slots) :
      (do jump n; pure none : Exec (Option Value)).Leads i.Changes :=
    .bind (leads_jump fun _ => .goto hn) fun _ => .pure
  obtain ⟨opcode, dst, a, b, c, k⟩ := i
  cases opcode with
  | loadConst => exact .bind .ofOption fun v => hlast v rfl
  | loadVar =>
    refine .bind m.leads_stringOperand fun name => .bind .get fun s => ?_
    cases s.env.get? name with
    | some v => exact hlast v rfl
    | none => exact .bind .fail fun _ => .pure
  | loadTrue | loadFalse | loadNull => exact hlast _ rfl
  | negate => exact .bind leads_read fun _ => .bind .ofResult fun v => hlast v rfl
  | not =>
    refine .bind leads_read fun v => ?_
    cases v with
    | bool x => exact hlast _ rfl
    | _ => exact .bind .ofResult fun v => hlast v rfl
  | binaryOp =>
    exact .bind leads_read fun _ => .bind leads_read fun _ => .bind .ofResult fun v => hlast v rfl
  | jumpIfFalse | jumpIfTrue =>
    refine .bind leads_read fun v => ?_
    split
    · exact hjump a (by simp [Opcode.layout, Instruction.slots])
    · exact .pure
  | jump => exact hjump a (by simp [Opcode.layout, Instruction.slots])
  | condCheck => exact .bind leads_read fun _ => .bind leads_checkCondition fun _ => .pure
  | memberAccess =>
    exact .bind m.leads_stringOperand fun _ => .bind leads_read fun _ =>
      .bind .ofResult fun v => hlast v rfl
  | index =>
    exact .bind leads_read fun _ => .bind leads_read fun _ => .bind .ofResult fun v => hlast v rfl
  | hasField =>
    exact .bind m.leads_stringOperand fun _ => .bind leads_read fun _ =>
      .bind .ofResult fun _ => hlast _ rfl
  | call =>
    exact .bind m.leads_stringOperand fun _ => .bind (leads_readRun _ _) fun _ =>
      .bind (m.leads_callFunction fun _ _ => .count rfl) fun v => hlast v rfl
  | makeList => exact .bind (leads_readRun _ _) fun _ => hlast _ rfl
  | makeMap =>
    have hrest : (do
        let run ← readRun span a.toNat (2 * b.toNat)
        write span dst (.map (← ofResult (Value.addEntries [] span run)))
        pure none : Exec (Option Value)).Leads _ :=
      .bind (leads_readRun _ _) fun _ => .bind .ofResult fun _ => hlast _ rfl
    show (if UInt32.size ≤ 2 * b.toNat then _ else _ : Exec (Option Value)).Leads _
    split
    · exact .bind .defect fun _ => hrest
    · exact hrest
  | makeMessage => exact .bind m.leads_buildMessage fun v => hlast v rfl
  | iterInit =>
    exact .bind leads_read fun _ => .bind .ofResult fun _ =>
      .bind (.modify fun _ => .iterate rfl) fun _ => .pure
  | iterNext =>
    have htarget : (Operand.target, b) ∈ Opcode.iterNext.layout.zip [dst, a, b, c] := by
      simp [Opcode.layout]
    exact .bind (leads_nextItem (fun _ => .goto htarget) (fun _ _ => .proceed rfl)
      (fun _ => .drop rfl) fun _ _ => .store rfl) fun _ => .pure
  | scopePush => exact .bind (.modify fun _ => .scope rfl) fun _ => .pure
  | scopePop =>
    have hrest : (do
        modify fun s => { s with env := s.env.pop, openScopes := s.openScopes - 1 }
        pure none : Exec (Option Value)).Leads (Instruction.Changes ⟨.scopePop, dst, a, b, c, k⟩) :=
      .bind (.modify fun _ => .scope rfl) fun _ => .pure
    refine .bind .get fun s => ?_
    split
    · exact .bind .defect fun _ => hrest
    · exact hrest
  | bindVar =>
    exact .bind m.leads_stringOperand fun _ => .bind leads_read fun _ =>
      .bind (.modify fun _ => .scope rfl) fun _ => .pure
  | listAppend =>
    exact .bind leads_read fun _ => .bind (leads_append fun _ _ => .append rfl) fun _ => .pure
  | intIncrement =>
    refine .bind leads_read fun v => ?_
    cases v with
    | int n =>
      show (if n.toInt < Int64.maxValue.toInt then _ else _ : Exec (Option Value)).Leads _
      split
      · exact hlast _ rfl
      · exact .bind .fail fun _ => .pure
    | _ => exact .bind .defect fun _ => .pure
  | move => exact .bind (leads_take fun _ => .take (.inl rfl)) fun v => hlast v rfl
  | «return» => exact .bind (leads_take fun _ => .take (.inr rfl)) fun _ => .pure

/-- A record leaves every observation that does not look at what the record is
    there to change. -/
theorem leaves_perform (hf : State.Steady f) (i : Instruction)
    (hwrite : i.opcode.writes → ∀ s w,
      f { s with registers := s.registers.setIfInBounds i.dst.toNat w } = f s)
    (hcall : i.opcode = .call → ∀ s b, f { s with idempotent := b } = f s)
    (hscope : i.opcode.changesVariables → ∀ s env n,
      f { s with env := env, openScopes := n } = f s) :
    (m.perform i span).Leaves f := by
  refine (leads_perform i).leaves fun s t h => ?_
  cases h with
  | goto => exact hf.pc s _
  | drop | take | append => exact hf.pending s _
  | store h => exact hwrite h s _
  | iterate | proceed => exact hf.iterators s _
  | count h => exact hcall h s _
  | scope h => exact hscope h s _ _

end

variable {m}

/-- Only a record that returns gives a value. -/
theorem gives_perform {span : Span} {i : Instruction} (hop : i.opcode ≠ .return) :
    (m.perform i span).Gives (· = none) := by
  have hlast (x : Exec Unit) : (do x; pure none : Exec (Option Value)).Gives (· = none) :=
    .bind fun _ => .pure rfl
  obtain ⟨opcode, dst, a, b, c, k⟩ := i
  cases opcode with
  | loadTrue | loadFalse | loadNull | jump | iterNext | scopePush => exact hlast _
  | loadConst | condCheck | makeList | makeMessage | listAppend | move =>
    exact .bind fun _ => hlast _
  | negate | iterInit | bindVar => exact .bind fun _ => .bind fun _ => hlast _
  | binaryOp | memberAccess | index | hasField | call =>
    exact .bind fun _ => .bind fun _ => .bind fun _ => hlast _
  | loadVar =>
    refine .bind fun name => .bind fun s => ?_
    cases s.env.get? name <;> exact hlast _
  | not =>
    refine .bind fun v => ?_
    cases v with
    | bool x => exact hlast _
    | _ => exact .bind fun _ => hlast _
  | jumpIfFalse | jumpIfTrue =>
    refine .bind fun v => ?_
    split
    · exact hlast _
    · exact .pure rfl
  | makeMap =>
    have hrest : (do
        let run ← readRun span a.toNat (2 * b.toNat)
        write span dst (.map (← ofResult (Value.addEntries [] span run)))
        pure none : Exec (Option Value)).Gives (· = none) := .bind fun _ => .bind fun _ => hlast _
    -- Too many entries are a defect, after which nothing else is done.
    show (if UInt32.size ≤ 2 * b.toNat then _ else _ : Exec (Option Value)).Gives _
    split
    · exact .bind fun _ => hrest
    · exact hrest
  | scopePop =>
    refine .bind fun s => ?_
    split
    · exact .bind fun _ => hlast _
    · exact hlast _
  | intIncrement =>
    refine .bind fun v => ?_
    cases v with
    | int n =>
      show (if n.toInt < Int64.maxValue.toInt then _ else _ : Exec (Option Value)).Gives _
      split <;> exact hlast _
    | _ => exact hlast _
  | «return» => exact absurd rfl hop

/-! ## Steps -/

variable {s t : State} {i : Instruction}

/-- A step moves the counter and then makes changes of its record. -/
theorem changes_of_step {result : Option Value} (hfetch : m.program.fetch s.pc = .ok i)
    (h : m.step s = .ok result t) : ReflTransGen i.Changes s.advance t := by
  have hperform : m.perform i (m.program.span i.span) s.advance = .ok result t :=
    (At.step_eq ⟨hfetch, rfl⟩).symm.trans h
  exact final_ok hperform ▸ leads_perform i s.advance

/-- Behind the last word there is no record, which is a defect. -/
theorem step_beyond (hpc : m.program.code.size ≤ s.pc) :
    m.step s = .error ⟨Span.none, .defect (.noReturn s.pc)⟩ s := by
  rw [step, get_bind, if_pos hpc]
  rfl

/-- Words that are no record are a defect. -/
theorem step_undecodable {reason : DecodeError} (hpc : s.pc < m.program.code.size)
    (hfetch : m.program.fetch s.pc = .error reason) :
    m.step s = .error ⟨Span.none, .defect (.undecodable s.pc reason)⟩ s := by
  rw [step, get_bind, if_neg (Nat.not_le.2 hpc), hfetch]
  rfl

/-- A step performs the record at the counter. If there is none, it fails where
    the execution stands. -/
theorem step_cases (m : Machine) (s : State) :
    (∃ i, m.program.fetch s.pc = .ok i ∧
      m.step s = m.perform i (m.program.span i.span) s.advance) ∨
    (∀ i, m.program.fetch s.pc ≠ .ok i) ∧ ∃ e, m.step s = .error e s := by
  cases hfetch : m.program.fetch s.pc with
  | ok i => exact .inl ⟨i, rfl, At.step_eq ⟨hfetch, rfl⟩⟩
  | error reason =>
    refine .inr ⟨nofun, ?_⟩
    rcases Nat.lt_or_ge s.pc m.program.code.size with hlt | hge
    · exact ⟨_, step_undecodable hlt hfetch⟩
    · exact ⟨_, step_beyond hge⟩

/-- A step leaves what its record does. -/
theorem observe_step (hf : State.Steady f)
    (h : ∀ i, m.program.fetch s.pc = .ok i → (m.perform i (m.program.span i.span)).Leaves f) :
    f (m.step.final s) = f s := by
  rcases m.step_cases s with ⟨i, hfetch, hstep⟩ | ⟨-, e, hstep⟩
  · have hfinal : m.step.final s = (m.perform i (m.program.span i.span)).final s.advance := by
      rw [final, hstep, final]
    rw [hfinal, h i hfetch]
    exact hf.pc s _
  · rw [final_error hstep]

/-- What is left after an execution is what its last step leaves. -/
theorem ofResult_of_ends {r : EStateM.Result EvalError State Value} (h : m.Ends s r) :
    (Execution.ofResult r).idempotent = (m.step.final s).idempotent ∧
      (Execution.ofResult r).env =
        (m.step.final s).env.popMany (m.step.final s).openScopes := by
  cases r with
  | ok v t =>
    rw [final_ok h]
    exact ⟨rfl, rfl⟩
  | error e t =>
    rw [final_error h]
    exact ⟨rfl, rfl⟩

/-- An execution ends with a value at a record that returns. -/
theorem opcode_of_step_eq_some {v : Value}
    (hfetch : m.program.fetch s.pc = .ok i) (h : m.step s = .ok (some v) t) :
    i.opcode = .return := by
  by_contra hop
  have hstep : m.step s = m.perform i (m.program.span i.span) s.advance := At.step_eq ⟨hfetch, rfl⟩
  cases gives_perform hop _ _ _ (hstep ▸ h)

end Machine

end ExprMachine
