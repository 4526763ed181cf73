import Mathlib.Logic.Relation
import Mathlib.Tactic.Common
import ExprMachine.Code.Lowering
import ExprMachine.Machine

/-!
# What a step does

One statement for each record: the state that the step leads to, or the error
that it ends with, given what the record finds in the registers and the pools.

Most records compute a value from what they read and write it into a register,
or fail and write nothing (`Machine.Puts`). A record that moves a register takes
what the register *holds*, which is the list under construction in it, if there
is one, and else what was written last (`State.held?`).

Steps are joined into executions by `Machine.Reaches`. An execution that reaches
an end has it within every sufficient bound (`Machine.run_of_reaches`).
-/

namespace ExprMachine

/-- Erasing what is not there changes nothing. -/
theorem Entries.erase_of_get?_eq_none {κ α : Type} [DecidableEq κ] {t : Entries κ α} {k : κ}
    (h : t.get? k = none) : t.erase k = t := by
  induction t with
  | nil => rfl
  | cons p rest ih =>
    obtain ⟨j, w⟩ := p
    by_cases hj : j = k
    · simp [get?, hj] at h
    · rw [get?, if_neg hj] at h
      rw [erase, if_neg hj, ih h]

/-! ## States -/

namespace State

variable (s : State) (r q : UInt32) (v : Value) (items : List Value)

/-- The state with the counter moved past a record. -/
def advance : State := { s with pc := s.pc + stride }

/-- The state after a write. -/
def set : State :=
  { s with
    pending := s.pending.erase r
    registers := s.registers.setIfInBounds r.toNat (some v) }

/-- The state after the list under construction in a register has been taken. -/
def release : State := { s with pending := s.pending.erase r }

/-- The state after a value has been appended to the list that a register
    holds. -/
def extend : State := { s with pending := s.pending.insert r (v :: items.reverse) }

/-- The state after a register has been made an iterator over some items. -/
def iterate : State := { s with iterators := s.iterators.insert r items }

/-- The state after a jump. -/
def goto (target : UInt32) : State := { s with pc := target.toNat }

/-- The state after a scope has been entered. -/
def enter : State := { s with env := s.env.push, openScopes := s.openScopes + 1 }

/-- The state after a scope has been left. -/
def leave : State := { s with env := s.env.pop, openScopes := s.openScopes - 1 }

/-- The state after a function has returned that is idempotent or not. -/
def count (idempotent : Bool) : State := { s with idempotent := s.idempotent && idempotent }

/-- The state after a variable has been bound. -/
def bind (name : String) : State := { s with env := s.env.bind name v }

/-- The value that moving a register takes. -/
def held? : Option Value :=
  match s.pending.get? r with
  | some items => some (.list items.reverse)
  | none => s.read? r

/-- Without a list under construction, a register holds what has been written. -/
theorem held?_of_pending (h : s.pending.get? r = none) : s.held? r = s.read? r := by
  rw [held?, h]

/-- What is held and is no list has been written. -/
theorem read?_of_held? {s : State} {r : UInt32} {held : Option Value} (h : s.held? r = held)
    (hlist : ∀ items, held ≠ some (.list items)) :
    s.pending.get? r = none ∧ s.read? r = held := by
  rw [held?] at h
  split at h
  · exact absurd h.symm (hlist _)
  · exact ⟨‹_›, h⟩

/-- A register that holds a boolean has no list under construction. -/
theorem read?_of_held?_bool {s : State} {r : UInt32} {b : Bool} (h : s.held? r = some (.bool b)) :
    s.pending.get? r = none ∧ s.read? r = some (.bool b) :=
  read?_of_held? h nofun

/-- A register that has been written is one of the register file. -/
theorem lt_size_of_read? {s : State} {r : UInt32} {v : Value} (h : s.read? r = some v) :
    r.toNat < s.registers.size := by
  by_contra hle
  rw [read?, Array.getElem?_eq_none (Nat.not_lt.1 hle)] at h
  cases h

@[simp] theorem size_set : (s.set r v).registers.size = s.registers.size :=
  Array.size_setIfInBounds

/-- A write is read back. -/
theorem read?_set_self (h : r.toNat < s.registers.size) : (s.set r v).read? r = some v := by
  simp [read?, set, h]

/-- A write leaves all other registers. -/
theorem read?_set_of_ne (h : r ≠ q) : (s.set r v).read? q = s.read? q := by
  have : r.toNat ≠ q.toNat := fun hn => h (UInt32.toNat_inj.1 hn)
  simp [read?, set, this]

/-- A write drops the list under construction in its register, and no other. -/
theorem pending_set : (s.set r v).pending.get? q = if r = q then none else s.pending.get? q :=
  Entries.get?_erase _ _ _

/-- Taking a list under construction leaves the others. -/
theorem pending_release :
    (s.release r).pending.get? q = if r = q then none else s.pending.get? q :=
  Entries.get?_erase _ _ _

/-- Appending leaves the lists under construction in other registers. -/
theorem pending_extend : (s.extend r v items).pending.get? q =
    if r = q then some (v :: items.reverse) else s.pending.get? q :=
  Entries.get?_insert _ _ _ _

/-- What has been appended is the last item of what the register holds. -/
theorem held?_extend_self : (s.extend r v items).held? r = some (.list (items ++ [v])) := by
  simp [held?, pending_extend]

theorem release_of_pending (h : s.pending.get? r = none) : s.release r = s := by
  rw [release, Entries.erase_of_get?_eq_none h]

end State

/-! ## Computations -/

namespace Exec

variable {α β : Type} {s s' : State} {span : Span} {r : UInt32} {v : Value}

/-- A computation goes on with the value and the state of its first part. -/
theorem bind_ok {x : Exec α} {a : α} (f : α → Exec β) (h : x s = .ok a s') :
    (x >>= f) s = f a s' := by
  show EStateM.bind x f s = _
  rw [EStateM.bind, h]

/-- A computation ends with the error of its first part. -/
theorem bind_error {x : Exec α} {e : EvalError} (f : α → Exec β) (h : x s = .error e s') :
    (x >>= f) s = .error e s' := by
  show EStateM.bind x f s = _
  rw [EStateM.bind, h]

theorem get_bind (f : State → Exec β) : ((get : Exec State) >>= f) s = f s s := rfl

theorem modify_bind (g : State → State) (f : Unit → Exec β) :
    ((modify g : Exec Unit) >>= f) s = f () (g s) := rfl

theorem ofOption_some (d : Defect) (a : α) : ofOption span d (some a) s = .ok a s := rfl

theorem ofOption_bind {d : Defect} {o : Option α} {a : α} (f : α → Exec β) (h : o = some a) :
    (ofOption span d o >>= f) s = f a s := by
  rw [h, bind_ok _ (ofOption_some d a)]

theorem read_eq (h : s.read? r = some v) : read span r s = .ok v s := by
  rw [read, get_bind, h, ofOption_some]

/-- A register that has not been written is a defect. -/
theorem read_error (h : s.read? r = none) :
    read span r s = .error ⟨span, .defect (.unwrittenRegister r)⟩ s := by
  rw [read, get_bind, h]
  rfl

theorem read_bind (f : Value → Exec β) (h : s.read? r = some v) :
    (read span r >>= f) s = f v s :=
  bind_ok f (read_eq h)

/-- Reading consecutive registers gives what they hold one after another. -/
theorem readRun_eq (vs : List Value) (first : Nat) (hw : first + vs.length ≤ UInt32.size)
    (h : ∀ k w, vs[k]? = some w → s.read? (UInt32.ofNat (first + k)) = some w) :
    readRun span first vs.length s = .ok vs s := by
  induction vs generalizing first with
  | nil => rfl
  | cons w rest ih =>
    rw [List.length_cons] at hw
    have hfirst : s.read? (UInt32.ofNat first) = some w := h 0 w rfl
    -- Where the next register is counted from, the others are one place nearer.
    have hrest : readRun span (first + 1) rest.length s = .ok rest s := by
      refine ih (first + 1) (by omega) fun k u hk => ?_
      rw [Nat.add_assoc, Nat.add_comm 1 k]
      exact h (k + 1) u hk
    rw [List.length_cons, readRun]
    simp only [if_neg (show ¬UInt32.size ≤ first by omega)]
    rw [read_bind _ hfirst, bind_ok _ hrest]
    rfl

/-- A register of the register file can be written. -/
theorem write_eq (h : r.toNat < s.registers.size) : write span r v s = .ok () (s.set r v) := by
  simp only [write, modify_bind, get_bind, if_pos h]
  rfl

/-- Writing a result, if there is one. -/
theorem ofResult_write (res : Except EvalError Value) (h : r.toNat < s.registers.size) :
    (do let v ← ofResult res; write span r v; pure none : Exec (Option Value)) s =
      match res with
      | .ok v => .ok none (s.set r v)
      | .error e => .error e s := by
  cases res with
  | error e => rfl
  | ok v =>
    have hres : ofResult (.ok v) s = .ok v s := rfl
    rw [bind_ok _ hres, bind_ok _ (write_eq h)]
    rfl

/-- Taking a register gives what it holds. -/
theorem take_eq (h : s.held? r = some v) : take span r s = .ok v (s.release r) := by
  rw [State.held?] at h
  rw [take, get_bind]
  cases hp : s.pending.get? r with
  | some items =>
    rw [hp] at h
    obtain rfl := Option.some.inj h
    rfl
  | none =>
    rw [hp] at h
    -- Nothing is under construction, and nothing is dropped.
    rw [State.release_of_pending _ _ hp]
    exact read_eq h

/-- Appending adds to what the register holds, be it under construction or written. -/
theorem append_eq {items : List Value} (h : s.held? r = some (.list items)) :
    append span r v s = .ok () (s.extend r v items) := by
  rw [State.held?] at h
  rw [append, get_bind]
  cases hp : s.pending.get? r with
  | some pending =>
    rw [hp] at h
    -- A list under construction is kept in reverse.
    obtain rfl : pending.reverse = items := Value.list.inj (Option.some.inj h)
    rw [State.extend, List.reverse_reverse]
    rfl
  | none =>
    rw [hp] at h
    simp only [read_bind _ h]
    rfl

end Exec

/-! ## Records -/

/-- A record is fetched only from where there are words. -/
theorem Program.lt_size_of_fetch {p : Program} {offset : Nat} {i : Instruction}
    (h : p.fetch offset = .ok i) : offset < p.code.size := by
  rw [fetch] at h
  split_ifs at h
  by_contra hlt
  rw [Array.extract_eq_empty_of_le (by omega)] at h
  cases h

namespace Machine

open Exec

variable (m : Machine)

/-- The record that a state is about to perform, with its span. -/
structure At (s : State) (i : Instruction) (span : Span) : Prop where
  fetch : m.program.fetch s.pc = .ok i
  span : m.program.span i.span = span

/-- A step that writes a result into a register, or fails with its error. -/
def Puts (s : State) (dst : UInt32) (res : Except EvalError Value) : Prop :=
  m.step s = match res with
    | .ok v => .ok none (s.advance.set dst v)
    | .error e => .error e s.advance

namespace At

variable {m} {s : State} {i : Instruction} {span : Span} {dst a b c k : UInt32} {u v w : Value}

/-- A step performs the record with the counter behind it. -/
theorem step_eq (h : m.At s i span) : m.step s = m.perform i span s.advance := by
  have hlt : ¬m.program.code.size ≤ s.pc := Nat.not_le.2 (Program.lt_size_of_fetch h.fetch)
  rw [step, get_bind]
  simp only [if_neg hlt, h.fetch, modify_bind, h.span]
  rfl

theorem puts {res : Except EvalError Value} (h : m.At s i span)
    (hp : m.perform i span s.advance = match res with
      | .ok v => .ok none (s.advance.set dst v)
      | .error e => .error e s.advance) : m.Puts s dst res := h.step_eq.trans hp

section

variable (hd : dst.toNat < s.registers.size)
include hd

theorem loadConst (h : m.At s ⟨.loadConst, dst, a, b, c, k⟩ span)
    (ha : m.program.constants[a.toNat]? = some v) : m.Puts s dst (.ok v) := by
  refine h.puts ?_
  simp only [perform, ofOption_bind _ ha]
  exact ofResult_write (.ok v) hd

theorem loadTrue (h : m.At s ⟨.loadTrue, dst, a, b, c, k⟩ span) :
    m.Puts s dst (.ok (.bool true)) := by
  refine h.puts ?_
  exact ofResult_write (.ok (.bool true)) hd

theorem loadFalse (h : m.At s ⟨.loadFalse, dst, a, b, c, k⟩ span) :
    m.Puts s dst (.ok (.bool false)) := by
  refine h.puts ?_
  exact ofResult_write (.ok (.bool false)) hd

theorem loadNull (h : m.At s ⟨.loadNull, dst, a, b, c, k⟩ span) : m.Puts s dst (.ok .null) := by
  refine h.puts ?_
  exact ofResult_write (.ok .null) hd

/-- A variable is loaded, or there is none of the name. -/
theorem loadVar {name : String} (h : m.At s ⟨.loadVar, dst, a, b, c, k⟩ span)
    (ha : m.program.string? a = some name) :
    m.Puts s dst (match s.env.get? name with
      | some v => .ok v
      | none => .error ⟨span, .noSuchVariable name⟩) := by
  refine h.puts ?_
  have henv : s.advance.env = s.env := rfl
  simp only [perform, stringOperand, ofOption_bind _ ha, get_bind, henv]
  cases s.env.get? name with
  | some v => exact ofResult_write (.ok v) hd
  | none => rfl

/-- What a unary operator gives: the negation of a boolean is known, and all else
    is left to the registry. -/
def unaryResult (registry : Registry) (op : UnaryOperator) (v : Value) (span : Span) :
    Except EvalError Value :=
  match op, v with
  | .not, .bool b => .ok (.bool !b)
  | op, v => registry.applyUnary op v span

/-- A unary operator puts what it gives for the value of its operand. -/
theorem unary {op : UnaryOperator}
    (h : m.At s ⟨Lowering.unaryOpcode op, dst, a, b, c, k⟩ span) (ha : s.read? a = some v) :
    m.Puts s dst (unaryResult m.registry op v span) := by
  refine h.puts ?_
  cases op with
  | negate =>
    simp only [perform, Lowering.unaryOpcode]
    rw [read_bind (s := s.advance) _ ha]
    exact ofResult_write _ hd
  | not =>
    simp only [perform, Lowering.unaryOpcode]
    rw [read_bind (s := s.advance) _ ha]
    cases v with
    | bool x => exact ofResult_write (.ok (.bool !x)) hd
    | _ => exact ofResult_write _ hd

/-- A binary operator puts what the registry gives for the values of both operands. -/
theorem binary (h : m.At s ⟨.binaryOp, dst, a, b, c, k⟩ span) (ha : s.read? a = some v)
    (hc : s.read? c = some w) : m.Puts s dst (m.registry.applyBinary b.toNat v w span) := by
  refine h.puts ?_
  simp only [perform]
  rw [read_bind (s := s.advance) _ ha, read_bind (s := s.advance) _ hc]
  exact ofResult_write _ hd

theorem memberAccess {field : String} (h : m.At s ⟨.memberAccess, dst, a, b, c, k⟩ span)
    (ha : s.read? a = some v) (hb : m.program.string? b = some field) :
    m.Puts s dst (v.select field span) := by
  refine h.puts ?_
  simp only [perform, stringOperand, ofOption_bind _ hb]
  rw [read_bind (s := s.advance) _ ha]
  exact ofResult_write _ hd

theorem hasField {field : String} (h : m.At s ⟨.hasField, dst, a, b, c, k⟩ span)
    (ha : s.read? a = some v) (hb : m.program.string? b = some field) :
    m.Puts s dst ((v.hasField field span).map .bool) := by
  refine h.puts ?_
  simp only [perform, stringOperand, ofOption_bind _ hb]
  rw [read_bind (s := s.advance) _ ha]
  cases v.hasField field span with
  | ok x => exact ofResult_write (.ok (.bool x)) hd
  | error e => rfl

theorem index (h : m.At s ⟨.index, dst, a, b, c, k⟩ span) (ha : s.read? a = some v)
    (hb : s.read? b = some w) : m.Puts s dst (v.item w span) := by
  refine h.puts ?_
  simp only [perform]
  rw [read_bind (s := s.advance) _ ha, read_bind (s := s.advance) _ hb]
  exact ofResult_write _ hd

/-- A list is made of what consecutive registers hold. -/
theorem makeList {items : List Value} (h : m.At s ⟨.makeList, dst, a, b, c, k⟩ span)
    (hlen : b.toNat = items.length) (hw : a.toNat + items.length ≤ UInt32.size)
    (hrun : ∀ j w, items[j]? = some w → s.read? (UInt32.ofNat (a.toNat + j)) = some w) :
    m.Puts s dst (.ok (.list items)) := by
  refine h.puts ?_
  simp only [perform, hlen]
  rw [bind_ok _ (readRun_eq (s := s.advance) items _ hw hrun)]
  exact ofResult_write (.ok (.list items)) hd

/-- A map is made of keys and values in turn, in consecutive registers. -/
theorem makeMap {run : List Value} (h : m.At s ⟨.makeMap, dst, a, b, c, k⟩ span)
    (hlen : 2 * b.toNat = run.length) (hw : a.toNat + run.length ≤ UInt32.size)
    (hcount : run.length < UInt32.size)
    (hrun : ∀ j w, run[j]? = some w → s.read? (UInt32.ofNat (a.toNat + j)) = some w) :
    m.Puts s dst ((Value.addEntries [] span run).map .map) := by
  refine h.puts ?_
  simp only [perform, hlen, if_neg (Nat.not_le.2 hcount)]
  rw [bind_ok _ (readRun_eq (s := s.advance) run _ hw hrun)]
  cases Value.addEntries [] span run with
  | ok entries => exact ofResult_write (.ok (.map entries)) hd
  | error e => rfl

/-- A message is built of its names and what consecutive registers hold. -/
theorem makeMessage {names : List String} {typeName : String} {values : List Value}
    (h : m.At s ⟨.makeMessage, dst, a, b, c, k⟩ span)
    (hb : m.program.messageFields[b.toNat]? = some names)
    (hc : m.program.string? c = some typeName) (hlen : names.length = values.length)
    (hw : a.toNat + values.length ≤ UInt32.size) (hcount : values.length < UInt32.size)
    (hrun : ∀ j w, values[j]? = some w → s.read? (UInt32.ofNat (a.toNat + j)) = some w) :
    m.Puts s dst (m.construct typeName (names.zip values) span) := by
  have hbuild : m.buildMessage span a b c s.advance =
      ofResult (m.construct typeName (names.zip values) span) s.advance := by
    have hfew : ¬UInt32.size ≤ values.length := Nat.not_le.2 hcount
    simp only [buildMessage, stringOperand, ofOption_bind _ hb, ofOption_bind _ hc, hlen,
      if_neg hfew]
    rw [bind_ok _ (readRun_eq (s := s.advance) values _ hw hrun)]
  refine h.puts ?_
  simp only [perform]
  cases hres : m.construct typeName (names.zip values) span with
  | ok v =>
    rw [hres] at hbuild
    rw [bind_ok _ hbuild]
    exact ofResult_write (.ok v) hd
  | error e =>
    rw [hres] at hbuild
    rw [bind_error _ hbuild]

/-- A call writes its result, and counts whether the function is idempotent. -/
theorem call {name : String} {args : List Value} (h : m.At s ⟨.call, dst, a, b, c, k⟩ span)
    (ha : m.program.string? a = some name) (hlen : c.toNat = args.length)
    (hw : b.toNat + args.length ≤ UInt32.size)
    (hrun : ∀ j w, args[j]? = some w → s.read? (UInt32.ofNat (b.toNat + j)) = some w) :
    m.step s = match m.registry.call name args span with
      | .ok (v, idempotent) =>
        .ok none ((s.advance.count idempotent).set dst v)
      | .error e => .error e s.advance := by
  simp only [h.step_eq, perform, stringOperand, ofOption_bind _ ha, hlen]
  rw [bind_ok _ (readRun_eq (s := s.advance) args _ hw hrun), callFunction]
  cases m.registry.call name args span with
  | ok r => exact ofResult_write (.ok r.1) hd
  | error e => rfl

/-- An iterator with an item gives it, and keeps the others. -/
theorem iterNext_cons {items : List Value} (h : m.At s ⟨.iterNext, dst, a, b, c, k⟩ span)
    (ha : s.iterators.get? a = some (v :: items)) :
    m.step s = .ok none ((s.advance.iterate a items).set dst v) := by
  have ha' : s.advance.iterators.get? a = some (v :: items) := ha
  have hnext : nextItem span dst a b s.advance =
      .ok () ((s.advance.iterate a items).set dst v) := by
    rw [nextItem, get_bind, ha']
    exact write_eq (s := s.advance.iterate a items) hd
  simp only [h.step_eq, perform]
  rw [bind_ok _ hnext]
  rfl

/-- A move takes what the source holds. -/
theorem move (h : m.At s ⟨.move, dst, a, b, c, k⟩ span) (ha : s.held? a = some v) :
    m.step s = .ok none ((s.advance.release a).set dst v) := by
  simp only [h.step_eq, perform]
  rw [bind_ok _ (take_eq (s := s.advance) ha)]
  exact ofResult_write (s := s.advance.release a) (.ok v) hd

end

/-- An iterator without items goes on at the end of the loop. -/
theorem iterNext_nil (h : m.At s ⟨.iterNext, dst, a, b, c, k⟩ span)
    (ha : s.iterators.get? a = some []) : m.step s = .ok none (s.goto b) := by
  have ha' : s.advance.iterators.get? a = some [] := ha
  have hnext : nextItem span dst a b s.advance = .ok () (s.goto b) := by
    rw [nextItem, get_bind, ha']
    rfl
  simp only [h.step_eq, perform]
  rw [bind_ok _ hnext]
  rfl

/-- Only `false` is jumped on; any other value, boolean or not, goes on after the record. -/
theorem jumpIfFalse (h : m.At s ⟨.jumpIfFalse, dst, a, b, c, k⟩ span) (hv : s.read? dst = some v) :
    m.step s = .ok none (if v.asBool? = some false then s.goto a else s.advance) := by
  simp only [h.step_eq, perform]
  rw [read_bind (s := s.advance) _ hv]
  split_ifs <;> rfl

/-- Only `true` is jumped on; any other value, boolean or not, goes on after the record. -/
theorem jumpIfTrue (h : m.At s ⟨.jumpIfTrue, dst, a, b, c, k⟩ span) (hv : s.read? dst = some v) :
    m.step s = .ok none (if v.asBool? = some true then s.goto a else s.advance) := by
  simp only [h.step_eq, perform]
  rw [read_bind (s := s.advance) _ hv]
  split_ifs <;> rfl

theorem jump (h : m.At s ⟨.jump, dst, a, b, c, k⟩ span) : m.step s = .ok none (s.goto a) := by
  rw [h.step_eq]
  rfl

/-- A check passes booleans, and names the kind of any other value. -/
theorem condCheck {role : ConditionRole} (h : m.At s ⟨.condCheck, dst, a, role.tag, c, k⟩ span)
    (ha : s.read? a = some v) :
    m.step s = match v.asBool? with
      | some _ => .ok none s.advance
      | none => .error ⟨span, Value.conditionCause role v.kind⟩ s.advance := by
  simp only [h.step_eq, perform]
  rw [read_bind (s := s.advance) _ ha]
  cases v with
  | bool b => rfl
  | _ =>
    simp only [checkCondition, ConditionRole.ofTag?_tag]
    rfl

/-- A value that has items is iterated over; any other fails. -/
theorem iterInit (h : m.At s ⟨.iterInit, dst, a, b, c, k⟩ span) (ha : s.read? a = some v) :
    m.step s = match v.items span with
      | .ok items => .ok none (s.advance.iterate dst items)
      | .error e => .error e s.advance := by
  simp only [h.step_eq, perform]
  rw [read_bind (s := s.advance) _ ha]
  cases v.items span <;> rfl

theorem scopePush (h : m.At s ⟨.scopePush, dst, a, b, c, k⟩ span) :
    m.step s = .ok none s.advance.enter := by
  rw [h.step_eq]
  rfl

theorem scopePop (h : m.At s ⟨.scopePop, dst, a, b, c, k⟩ span) (ho : s.openScopes ≠ 0) :
    m.step s = .ok none s.advance.leave := by
  have ho : ¬s.advance.openScopes = 0 := ho
  simp only [h.step_eq, perform, get_bind, if_neg ho]
  rfl

/-- No scope is left that the program has not entered. -/
theorem scopePop_underflow (h : m.At s ⟨.scopePop, dst, a, b, c, k⟩ span)
    (ho : s.openScopes = 0) : m.step s = .error ⟨span, .defect .scopeUnderflow⟩ s.advance := by
  have ho : s.advance.openScopes = 0 := ho
  simp only [h.step_eq, perform, get_bind, if_pos ho]
  rfl

theorem bindVar {name : String} (h : m.At s ⟨.bindVar, dst, a, b, c, k⟩ span)
    (ha : m.program.string? a = some name) (hb : s.read? b = some v) :
    m.step s = .ok none (s.advance.bind v name) := by
  simp only [h.step_eq, perform, stringOperand, ofOption_bind _ ha]
  rw [read_bind (s := s.advance) _ hb]
  rfl

/-- An item is appended to the list that the register holds. -/
theorem listAppend {items : List Value} (h : m.At s ⟨.listAppend, dst, a, b, c, k⟩ span)
    (ha : s.read? a = some v) (hd : s.held? dst = some (.list items)) :
    m.step s = .ok none (s.advance.extend dst v items) := by
  simp only [h.step_eq, perform]
  rw [read_bind (s := s.advance) _ ha, bind_ok _ (append_eq (s := s.advance) hd)]
  rfl

/-- The value returned is the one that the register holds. -/
theorem return_eq (h : m.At s ⟨.return, dst, a, b, c, k⟩ span) (ha : s.held? a = some v) :
    m.step s = .ok (some v) (s.advance.release a) := by
  simp only [h.step_eq, perform]
  rw [bind_ok _ (take_eq (s := s.advance) ha)]
  rfl

end At

/-! ## Executions -/

/-- Steps lead from a state to another one, none of them ending the execution. -/
def Reaches : State → State → Prop := Relation.ReflTransGen fun s t => m.step s = .ok none t

namespace Reaches

variable {m} {s t u : State}

theorem refl : m.Reaches s s := Relation.ReflTransGen.refl

theorem trans (h : m.Reaches s t) (h' : m.Reaches t u) : m.Reaches s u :=
  Relation.ReflTransGen.trans h h'

theorem head (h : m.step s = .ok none t) (h' : m.Reaches t u) : m.Reaches s u :=
  Relation.ReflTransGen.head h h'

end Reaches

variable {m} {s t : State} {r r' : EStateM.Result EvalError State Value}

/-- A larger bound does not change how an execution ends. -/
theorem run_mono {n k : Nat} (h : m.run n s = some r) (hk : n ≤ k) : m.run k s = some r := by
  induction n generalizing s k with
  | zero => cases h
  | succ n ih =>
    -- A step has been taken, so the larger bound allows for one as well.
    obtain ⟨k, rfl⟩ := Nat.exists_eq_add_of_le' (Nat.le_trans (Nat.succ_le_succ n.zero_le) hk)
    rw [run] at h ⊢
    split at h
    · exact ih h (Nat.le_of_succ_le_succ hk)
    · exact h
    · exact h

/-- An execution ends in one way only, whatever the bounds. -/
theorem run_unique {n k : Nat} (h : m.run n s = some r) (h' : m.run k s = some r') : r = r' :=
  Option.some.inj <| (run_mono h (Nat.le_max_left n k)).symm.trans
    (run_mono h' (Nat.le_max_right n k))

/-- What is left after an execution does not depend on the bounds either. -/
theorem execute_unique {n k : Nat} {env : Environment} {x y : Execution}
    (h : m.execute n env = some x) (h' : m.execute k env = some y) : x = y := by
  obtain ⟨r, hr, rfl⟩ := Option.map_eq_some_iff.1 h
  obtain ⟨r', hr', rfl⟩ := Option.map_eq_some_iff.1 h'
  rw [run_unique hr hr']

/-- An execution is a run from the state of a machine that has not executed anything. -/
theorem execute_eq (m : Machine) (n : Nat) (env : Environment) :
    m.execute n env = (m.run n (State.start m.program env)).map Execution.ofResult := by
  rw [execute, start_eq]

/-- What is left after an execution is left after such a run. -/
theorem exists_run_of_execute {n : Nat} {env : Environment} {x : Execution}
    (h : m.execute n env = some x) :
    ∃ r, m.run n (State.start m.program env) = some r ∧ Execution.ofResult r = x := by
  rw [execute_eq] at h
  exact Option.map_eq_some_iff.1 h

/-- The steps do not look at what the executions before have left. -/
theorem run_store (m : Machine) (σ : Store) (n : Nat) (s : State) :
    Machine.run { m with store := σ } n s = m.run n s := by
  induction n generalizing s with
  | zero => rfl
  | succ n ih =>
    have hstep : Machine.step { m with store := σ } = m.step := rfl
    simp only [run, hstep, ih]

/-- Nothing carries over from one execution to the next. -/
theorem execute_store (m : Machine) (σ : Store) (n : Nat) (env : Environment) :
    Machine.execute { m with store := σ } n env = m.execute n env := by
  rw [execute_eq, execute_eq, run_store]

/-- An execution leaves a machine with the same program on the same host, which has the
    flag of the execution. -/
theorem exists_after {n : Nat} {env : Environment} {x : Execution}
    (h : m.execute n env = some x) :
    ∃ σ, m.after n env = some { m with store := σ } ∧ σ.idempotent = x.idempotent := by
  obtain ⟨r, hr, rfl⟩ := Option.map_eq_some_iff.1 h
  refine ⟨.ofResult r, by rw [after, hr]; rfl, ?_⟩
  cases r <;> rfl

/-- An execution that reaches a state ends as it does from there. -/
theorem run_of_reaches {n : Nat} (h : m.Reaches s t) (ht : m.run n t = some r) :
    ∃ k, m.run k s = some r := by
  induction h using Relation.ReflTransGen.head_induction_on with
  | refl => exact ⟨n, ht⟩
  | head hs _ ih =>
    obtain ⟨k, hk⟩ := ih
    refine ⟨k + 1, ?_⟩
    rw [run, hs]
    exact hk

/-- The step from a state ends the execution. -/
def Ends (m : Machine) (s : State) : EStateM.Result EvalError State Value → Prop
  | .ok v t => m.step s = .ok (some v) t
  | .error e t => m.step s = .error e t

/-- A step that ends the execution leads nowhere. -/
theorem Ends.ne_ok_none (h : m.Ends s r) (t : State) : m.step s ≠ .ok none t := by
  cases r <;> rw [Ends] at h <;> rw [h] <;> nofun

/-- An execution that has ended has got to a last state. -/
theorem exists_ends_of_run {n : Nat} (h : m.run n s = some r) :
    ∃ t, m.Reaches s t ∧ m.Ends t r := by
  induction n generalizing s with
  | zero => cases h
  | succ n ih =>
    rw [run] at h
    split at h
    · rename_i hstep
      obtain ⟨t, ht, hends⟩ := ih h
      exact ⟨t, .head hstep ht, hends⟩
    · cases h
      exact ⟨s, .refl, ‹_›⟩
    · cases h
      exact ⟨s, .refl, ‹_›⟩

/-- Wherever an execution gets to, it gets from there to its last state. -/
theorem Reaches.of_ends {u : State} (h : m.Reaches s t) (hends : m.Ends t r)
    (h' : m.Reaches s u) : m.Reaches u t := by
  have hunique : Relator.RightUnique fun s t => m.step s = .ok none t := by
    intro a b c hb hc
    rw [hb] at hc
    cases hc
    rfl
  rcases Relation.ReflTransGen.total_of_right_unique hunique h h' with htu | hut
  · -- The last state is left by no step, so what it reaches is itself.
    rcases Relation.ReflTransGen.cases_head htu with rfl | ⟨w, hw, -⟩
    · exact .refl
    · exact absurd hw (hends.ne_ok_none w)
  · exact hut

/-- While steps go on, no execution has come to an end. -/
theorem run_trace (trace : Nat → State) {n : Nat}
    (h : ∀ k < n, m.step (trace k) = .ok none (trace (k + 1))) : m.run n (trace 0) = none := by
  induction n generalizing trace with
  | zero => rfl
  | succ n ih =>
    rw [run, h 0 (Nat.succ_pos n)]
    exact ih (fun k => trace (k + 1)) fun k hk => h (k + 1) (Nat.succ_lt_succ hk)

end Machine

end ExprMachine
