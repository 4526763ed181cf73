import ExprMachine.Evaluation
import ExprMachine.Proofs.Loading

/-!
# Runs of code

A piece of code *follows* an evaluation if executing it leads where the
evaluation does: to a state for its result, or to a step that fails with its
error (`Machine.Follows`). Along the way the same functions are called, and a
failure comes in a state from which the scopes entered since can be left.

`Machine.Runs` states this of a piece that is in the program, for an execution
that stands at its beginning; its rules compose the runs of pieces as the pieces
themselves are composed. A piece *computes* an evaluation if it leaves the value
in its register and everything in the registers before it as it was
(`Machine.Computes`).
-/

namespace ExprMachine

open Build Environment

/-! ## Registers -/

namespace State

/-- All that a state has for a register: what has been written, the items that
    are still to come, and the list under construction. -/
def cell (s : State) (r : UInt32) : Option Value × Option (List Value) × Option (List Value) :=
  (s.read? r, s.iterators.get? r, s.pending.get? r)

/-- A state has the same as an earlier one in the first `n` registers. -/
def Agrees (s t : State) (n : Nat) : Prop := ∀ r : UInt32, r.toNat < n → t.cell r = s.cell r

/-- A register has been written, and no list is under construction in it. -/
structure Has (s : State) (r : Nat) (v : Value) : Prop where
  read : s.read? (.ofNat r) = some v
  pending : s.pending.get? (.ofNat r) = none

variable {s t u : State} {n k r : Nat} {q : UInt32} {v : Value} {items : List Value}

/-- A register is read as what its cell says. -/
theorem held?_of_cell (h : t.cell q = s.cell q) : t.held? q = s.held? q := by
  simp only [cell, Prod.mk.injEq] at h
  rw [held?, held?, h.1, h.2.2]

variable {p : UInt32}

/-- Writing a register leaves the others as they are. -/
theorem cell_set_of_ne (h : p ≠ q) : (s.set p v).cell q = s.cell q := by
  rw [cell, cell, read?_set_of_ne _ _ _ _ h, pending_set, if_neg h]
  rfl

theorem cell_extend_of_ne (h : p ≠ q) : (s.extend p v items).cell q = s.cell q := by
  rw [cell, cell, pending_extend, if_neg h]
  rfl

theorem cell_release_of_ne (h : p ≠ q) : (s.release p).cell q = s.cell q := by
  rw [cell, cell, pending_release, if_neg h]
  rfl

theorem cell_iterate_of_ne (h : p ≠ q) : (s.iterate p items).cell q = s.cell q := by
  rw [cell, cell, iterate, Entries.get?_insert, if_neg h]
  rfl

namespace Agrees

theorem refl (s : State) (n : Nat) : s.Agrees s n := fun _ _ => rfl

theorem trans (h : s.Agrees t n) (h' : t.Agrees u k) (hk : n ≤ k) : s.Agrees u n :=
  fun r hr => (h' r (Nat.lt_of_lt_of_le hr hk)).trans (h r hr)

theorem mono (h : s.Agrees t n) (hk : k ≤ n) : s.Agrees t k :=
  fun r hr => h r (Nat.lt_of_lt_of_le hr hk)

/-- What happens to the register `n` leaves those before it as they are. -/
theorem of_cell (h : ∀ r, q ≠ r → t.cell r = s.cell r) (hn : n ≤ q.toNat) : s.Agrees t n := by
  intro r hr
  refine h r fun hq => ?_
  rw [hq] at hn
  exact Nat.not_lt.2 hn hr

theorem cell_eq (h : s.Agrees t n) (hr : r < n) : t.cell (.ofNat r) = s.cell (.ofNat r) := by
  refine h _ (Nat.lt_of_le_of_lt ?_ hr)
  rw [UInt32.toNat_ofNat']
  exact Nat.mod_le _ _

theorem iterators (h : s.Agrees t n) (hr : r < n) :
    t.iterators.get? (.ofNat r) = s.iterators.get? (.ofNat r) :=
  congrArg (·.2.1) (h.cell_eq hr)

theorem held (h : s.Agrees t n) (hr : r < n) : t.held? (.ofNat r) = s.held? (.ofNat r) :=
  held?_of_cell (h.cell_eq hr)

end Agrees

section

variable (hn : n ≤ p.toNat)
include hn

theorem agrees_set : s.Agrees (s.set p v) n := .of_cell (fun _ h => cell_set_of_ne h) hn

theorem agrees_extend : s.Agrees (s.extend p v items) n :=
  .of_cell (fun _ h => cell_extend_of_ne h) hn

theorem agrees_release : s.Agrees (s.release p) n := .of_cell (fun _ h => cell_release_of_ne h) hn

theorem agrees_iterate : s.Agrees (s.iterate p items) n :=
  .of_cell (fun _ h => cell_iterate_of_ne h) hn

end

namespace Has

theorem held (h : s.Has r v) : s.held? (.ofNat r) = some v :=
  (held?_of_pending _ _ h.pending).trans h.read

/-- What a register has stays there as long as the states agree on it. -/
theorem of_agrees (h : s.Has r v) (ha : s.Agrees t n) (hr : r < n) : t.Has r v := by
  have hcell := ha.cell_eq hr
  simp only [cell, Prod.mk.injEq] at hcell
  exact ⟨hcell.1.trans h.read, hcell.2.2.trans h.pending⟩

end Has

/-- A register that has been written has what was written. -/
theorem has_set (h : (UInt32.ofNat r).toNat < s.registers.size) : (s.set (.ofNat r) v).Has r v :=
  ⟨read?_set_self _ _ _ h, by rw [pending_set, if_pos rfl]⟩

end State

/-! ## Frames -/

/-- Where code is executed: the variables that it sees, and the number of scopes
    that the program has entered so far. -/
structure Frame where
  env : Environment
  depth : Nat

/-- Leaving the scopes entered since leads back to the variables of the frame. -/
structure State.Unwinds (u : State) (F : Frame) : Prop where
  depth : F.depth ≤ u.openScopes
  env : u.env.popMany (u.openScopes - F.depth) = F.env

/-- The outermost of some scopes is left last. -/
theorem Environment.popMany_succ (env : Environment) (n : Nat) :
    env.popMany (n + 1) = (env.popMany n).pop := by
  induction n generalizing env with
  | zero => rfl
  | succ n ih => exact ih env.pop

/-- What unwinds to a frame inside another one unwinds to that one. -/
theorem State.Unwinds.leave {u : State} {env : Environment} {depth : Nat}
    (h : u.Unwinds ⟨env, depth + 1⟩) : u.Unwinds ⟨env.pop, depth⟩ where
  depth := Nat.le_of_succ_le h.depth
  env := by
    -- One scope more is left than to get to the frame inside.
    obtain ⟨k, hk⟩ := Nat.exists_eq_add_of_le h.depth
    have henv : u.env.popMany (u.openScopes - (depth + 1)) = env := h.env
    rw [hk, Nat.add_sub_cancel_left] at henv
    show u.env.popMany (u.openScopes - depth) = _
    rw [hk, Nat.add_assoc, Nat.add_sub_cancel_left, Nat.add_comm 1 k, popMany_succ, henv]

namespace Machine

variable (m : Machine)

/-- An execution stands at the end of a draft, in a frame. -/
structure Ready (d : Draft) (F : Frame) (s : State) : Prop where
  pc : s.pc = stride * d.records
  size : s.registers.size = m.program.registers.toNat
  env : s.env = F.env
  openScopes : s.openScopes = F.depth

variable {m} in
/-- Where an execution stands depends on the records alone. -/
theorem Ready.of_records {d e : Draft} {F : Frame} {s : State} (h : m.Ready d F s)
    (he : e.records = d.records) : m.Ready e F s where
  pc := by
    rw [he]
    exact h.pc
  size := h.size
  env := h.env
  openScopes := h.openScopes

variable {m} in
/-- Where no scope has been entered since, there is nothing to leave. -/
theorem Ready.unwinds {d : Draft} {F : Frame} {s : State} (h : m.Ready d F s) : s.Unwinds F where
  depth := Nat.le_of_eq h.openScopes.symm
  env := by
    rw [h.openScopes, Nat.sub_self]
    exact h.env

/-! ## Following an evaluation -/

/-- Executing from a state leads where an evaluation does. -/
def Follows {α : Type} (F : Frame) (ev : Evaluation α) (s : State) (post : α → State → Prop) :
    Prop :=
  match ev s.idempotent with
  | .ok a all => ∃ t, m.Reaches s t ∧ t.idempotent = all ∧ post a t
  | .error e all => ∃ t u, m.Reaches s t ∧ m.step t = .error e u ∧ u.idempotent = all ∧ u.Unwinds F

namespace Follows

variable {m} {α β : Type} {F G : Frame} {s t : State} {ev : Evaluation α} {g : α → Evaluation β}
  {P : α → State → Prop} {Q : β → State → Prop}

theorem of_ok {a : α} {all : Bool} (h : m.Follows F ev s P) (hev : ev s.idempotent = .ok a all) :
    ∃ t, m.Reaches s t ∧ t.idempotent = all ∧ P a t := by
  rwa [Follows, hev] at h

theorem of_error {e : EvalError} {all : Bool} (h : m.Follows F ev s P)
    (hev : ev s.idempotent = .error e all) :
    ∃ t u, m.Reaches s t ∧ m.step t = .error e u ∧ u.idempotent = all ∧ u.Unwinds F := by
  rwa [Follows, hev] at h

theorem pure {a : α} (h : P a s) : m.Follows F (Pure.pure a) s P := ⟨s, .refl, rfl, h⟩

/-- What holds where an evaluation is followed may be weakened. -/
theorem mono {P' : α → State → Prop} (h : m.Follows F ev s P) (hP : ∀ a t, P a t → P' a t) :
    m.Follows F ev s P' := by
  rw [Follows] at h ⊢
  cases hev : ev s.idempotent with
  | ok a all =>
    rw [hev] at h
    obtain ⟨t, hr, hall, hp⟩ := h
    exact ⟨t, hr, hall, hP a t hp⟩
  | error e all =>
    rw [hev] at h
    exact h

/-- A failure inside a frame is one in each frame around it. -/
theorem rebase (h : m.Follows F ev s P) (hF : ∀ u : State, u.Unwinds F → u.Unwinds G) :
    m.Follows G ev s P := by
  rw [Follows] at h ⊢
  cases hev : ev s.idempotent with
  | ok a all =>
    rw [hev] at h
    exact h
  | error e all =>
    rw [hev] at h
    obtain ⟨t, u, hr, hstep, hall, hu⟩ := h
    exact ⟨t, u, hr, hstep, hall, hF u hu⟩

/-- What is reached first may go on in any way that gives the same in the end. -/
theorem of_reaches {ev' : Evaluation α} (hr : m.Reaches s t)
    (hev : ev s.idempotent = ev' t.idempotent) (h : m.Follows F ev' t P) : m.Follows F ev s P := by
  rw [Follows] at h ⊢
  rw [hev]
  cases hev' : ev' t.idempotent with
  | ok a all =>
    rw [hev'] at h
    obtain ⟨u, hu, hall, hp⟩ := h
    exact ⟨u, hr.trans hu, hall, hp⟩
  | error e all =>
    rw [hev'] at h
    obtain ⟨u, w, hu, hstep, hall, hw⟩ := h
    exact ⟨u, w, hr.trans hu, hstep, hall, hw⟩

/-- A step may be taken first if it calls no function. -/
theorem step (hs : m.step s = .ok none t) (hid : t.idempotent = s.idempotent)
    (h : m.Follows F ev t P) : m.Follows F ev s P :=
  of_reaches (.head hs .refl) (by rw [hid]) h

/-- A step that fails follows an evaluation that does. -/
theorem fail {e : EvalError} (hs : m.step s = .error e t) (hid : t.idempotent = s.idempotent)
    (hu : t.Unwinds F) : m.Follows F (throw e) s P := ⟨s, t, .refl, hs, hid, hu⟩

/-- Following one evaluation and then another one follows their composition. -/
theorem bind (hx : m.Follows F ev s P) (hf : ∀ a t, P a t → m.Follows F (g a) t Q) :
    m.Follows F (ev >>= g) s Q := by
  rw [Follows] at hx
  cases hev : ev s.idempotent with
  | ok a all =>
    rw [hev] at hx
    obtain ⟨t, hr, rfl, hp⟩ := hx
    -- The second evaluation starts from what the first one has left.
    have hbind : (ev >>= g) s.idempotent = g a t.idempotent := by
      show EStateM.bind ev g _ = _
      rw [EStateM.bind, hev]
    exact of_reaches hr hbind (hf a t hp)
  | error e all =>
    rw [hev] at hx
    have hbind : (ev >>= g) s.idempotent = .error e all := by
      show EStateM.bind ev g _ = _
      rw [EStateM.bind, hev]
    rw [Follows, hbind]
    exact hx

end Follows

/-! ## Pieces of code -/

/-- The execution of a piece that is in the program follows an evaluation. -/
def Runs {α β : Type} (F : Frame) (x : Build α) (d : Draft) (s : State) (ev : Evaluation β)
    (post : β → State → Prop) : Prop :=
  m.program.Loads d (x d) → m.Ready d F s → m.Follows F ev s post

/-- What is known where a record is performed. -/
structure Emits (d : Draft) (F : Frame) (s : State) (opcode : Opcode) (dst a b c : Nat)
    (span : Span) : Prop where
  ready : m.Ready d F s
  covers : m.program.Covers d
  op1 : a < wordLimit
  op2 : b < wordLimit
  op3 : c < wordLimit
  record : m.At s ⟨opcode, .ofNat dst, .ofNat a, .ofNat b, .ofNat c,
    .ofNat (intern d.spans span).1⟩ span

variable {m} {α β γ : Type} {F : Frame} {x : Build α} {f : α → Build β} {d e : Draft} {s t : State}
  {opcode : Opcode} {dst a b c : Nat} {span : Span}

/-- The machine stands at a record that the program holds. -/
theorem At.of_holds {l : Line} {lines : List Line} {place : Nat}
    (h : m.program.Holds place (l :: lines)) (hc : m.program.Covers e)
    (hspan : e.spans[l.span]? = some span) (hpc : s.pc = stride * place) :
    m.At s l.toInstruction span where
  fetch := by
    rw [hpc]
    exact h.head.2
  span := hc.span (Line.fits_iff.1 h.head.1).1 hspan

/-- What is known of the first record of some lines. -/
theorem Emits.of_holds {lines : List Line}
    (h : m.program.Holds d.records (⟨opcode, dst, a, b, c, (intern d.spans span).1⟩ :: lines))
    (hc : m.program.Covers (reserved d span)) (hs : m.Ready d F s) :
    m.Emits d F s opcode dst a b c span :=
  have hfits := Line.fits_iff.1 h.head.1
  ⟨hs, hc.of_precedes (precedes_reserved d span), hfits.2.2.1, hfits.2.2.2.1, hfits.2.2.2.2,
    At.of_holds h hc (getElem?_intern d.spans span) hs.pc⟩

namespace Emits

variable (h : m.Emits d F s opcode dst a b c span) {r : Nat}
include h

/-- Every register of the draft can be written. -/
theorem lt_size (hr : r < d.registers) : (UInt32.ofNat r).toNat < s.registers.size := by
  rw [h.covers.toNat_register hr, h.ready.size]
  exact Nat.lt_of_lt_of_le hr h.covers.registers

theorem le_toNat {n : Nat} (hr : r < d.registers) (hn : n ≤ r) : n ≤ (UInt32.ofNat r).toNat := by
  rwa [h.covers.toNat_register hr]

/-- After the record, the execution stands at the end of it. -/
theorem ready_advance (hsize : t.registers.size = s.registers.size) (hpc : t.pc = s.pc + stride)
    (henv : t.env = s.env) (hscopes : t.openScopes = s.openScopes) :
    m.Ready (reserved d span) F t where
  pc := by
    rw [hpc, h.ready.pc, records_reserved, Nat.mul_succ]
  size := hsize.trans h.ready.size
  env := henv.trans h.ready.env
  openScopes := hscopes.trans h.ready.openScopes

theorem unwinds : s.advance.Unwinds F :=
  ⟨h.ready.unwinds.depth, h.ready.unwinds.env⟩

end Emits

/-- A value is in the register that a piece has yielded for it, and everything
    in the registers before is as it was. -/
structure Yields (m : Machine) (x : Build Nat) (d : Draft) (F : Frame) (s : State) (v : Value)
    (t : State) : Prop where
  ready : m.Ready (x d).draft F t
  agrees : s.Agrees t d.registers
  has : t.Has (x d).value v

variable (m) in
/-- The code of a piece leaves the value that an evaluation gives in its
    register, wherever it is executed. -/
def Computes (x : Build Nat) (ev : Environment → Evaluation Value) : Prop :=
  ∀ (d : Draft) (F : Frame) (s : State), m.Runs F x d s (ev F.env) (m.Yields x d F s)

namespace Runs

variable {ev : Evaluation γ} {P P' : γ → State → Prop}

theorem mono (h : m.Runs F x d s ev P) (hP : ∀ a t, P a t → P' a t) : m.Runs F x d s ev P' :=
  fun hl hs => (h hl hs).mono hP

theorem follows (hl : m.program.Loads d (x d)) (hs : m.Ready d F s) (h : m.Runs F x d s ev P) :
    m.Follows F ev s P := h hl hs

/-- A piece without records can be left out. -/
theorem prepare (hlines : (x d).lines = []) (hrecords : (x d).draft.records = d.records)
    (h : m.Runs F (f (x d).value) (x d).draft s ev P) : m.Runs F (x >>= f) d s ev P := by
  refine fun hl hs => h ⟨?_, hl.covers⟩ (hs.of_records hrecords)
  have := hl.holds
  rw [lines_bind, hlines, List.nil_append] at this
  rwa [hrecords]

/-- A value yielded at the end needs no code. -/
theorem andPure {y : β} (h : m.Runs F x d s ev P) :
    m.Runs F (x >>= fun _ => pure y) d s ev P := by
  refine fun hl hs => h ⟨?_, hl.covers⟩ hs
  have := hl.holds
  rwa [lines_bind, pure_apply, List.append_nil] at this

/-- The run of two pieces one after another. -/
theorem bind {δ : Type} {g : γ → Evaluation δ} {Q : δ → State → Prop} [Lawful x]
    [∀ a, Lawful (f a)]
    (hx : m.Runs F x d s ev fun b t => m.Ready (x d).draft F t ∧ P b t)
    (hf : ∀ b t, P b t → m.Runs F (f (x d).value) (x d).draft t (g b) Q) :
    m.Runs F (x >>= f) d s (ev >>= g) Q :=
  fun hl hs => (hx hl.left hs).bind fun b t ht => hf b t ht.2 hl.right ht.1

/-- A record that is performed without a result of its own. -/
theorem emit (h : m.Emits d F s opcode dst a b c span → m.Follows F ev s P) :
    m.Runs F (Build.emit opcode dst a b c span) d s ev P :=
  fun hl hs => h (.of_holds hl.holds hl.covers hs)

/-- A record that writes a result into a register. -/
theorem put {res : Except EvalError Value} (hdst : dst < d.registers)
    (h : m.Emits d F s opcode dst a b c span →
      (UInt32.ofNat dst).toNat < s.registers.size → m.Puts s (.ofNat dst) res) :
    m.Runs F (Build.emit opcode dst a b c span) d s (Evaluation.ofResult res) fun v t =>
      m.Ready (reserved d span) F t ∧ s.Agrees t dst ∧ t.Has dst v ∧ res = .ok v := by
  refine emit fun hi => ?_
  have hsize := hi.lt_size hdst
  have hstep := h hi hsize
  cases res with
  | error e => exact .fail hstep rfl hi.unwinds
  | ok v =>
    refine .step hstep rfl (.pure ⟨?_, ?_, State.has_set hsize, rfl⟩)
    · exact hi.ready_advance (State.size_set _ _ _) rfl rfl rfl
    · exact State.agrees_set (hi.le_toNat hdst (Nat.le_refl dst))

section

variable {v : Value} (hdst : dst < d.registers)
  (h : m.Emits d F s opcode dst a b c span →
    (UInt32.ofNat dst).toNat < s.registers.size → m.Puts s (.ofNat dst) (.ok v))
include hdst h

/-- A record that writes a value, after which the evaluation is over. -/
theorem putLast {r : γ}
    (hP : ∀ t, m.Ready (reserved d span) F t → s.Agrees t dst → t.Has dst v → P r t) :
    m.Runs F (Build.emit opcode dst a b c span) d s (pure r) P := by
  intro hl hs
  refine (put hdst h hl hs).bind (g := fun _ => pure r) fun _ t ht => ?_
  obtain ⟨hready, hst, hhas, hv⟩ := ht
  cases hv
  exact .pure (hP t hready hst hhas)

/-- A record that writes a value, and a piece after it. -/
theorem putThen {f : Unit → Build β} [∀ a, Lawful (f a)]
    (hf : ∀ t, s.Agrees t dst → t.Has dst v → m.Runs F (f ()) (reserved d span) t ev P) :
    m.Runs F (Build.emit opcode dst a b c span >>= f) d s ev P :=
  (putLast (r := ()) hdst h fun _ hready hst hhas => ⟨hready, hst, hhas⟩).bind
    (g := fun _ => ev) (P := fun _ t => s.Agrees t dst ∧ t.Has dst v) fun _ t ht => hf t ht.1 ht.2

end

end Runs

/-! ## Pieces that yield a register -/

section

variable {f : α → Build Nat} [Lawful x] {ev : Evaluation γ} {g : γ → Evaluation Value}
  {P : γ → State → Prop}

/-- What a second piece yields is yielded by both if the first one left the registers as they
    were. -/
theorem Yields.after {v : Value} {u : State} (h : m.Yields (f (x d).value) (x d).draft F t v u)
    (ha : s.Agrees t d.registers) : m.Yields (x >>= f) d F s v u where
  ready := h.ready
  agrees := ha.trans h.agrees (precedes d).registers
  has := h.has

/-- A piece that keeps the registers before it, and one that yields a register after it. -/
theorem Runs.andThen [∀ a, Lawful (f a)]
    (hx : m.Runs F x d s ev fun b t =>
      m.Ready (x d).draft F t ∧ s.Agrees t d.registers ∧ P b t)
    (hf : ∀ b t, s.Agrees t d.registers → P b t →
      m.Runs F (f (x d).value) (x d).draft t (g b) (m.Yields (f (x d).value) (x d).draft F t)) :
    m.Runs F (x >>= f) d s (ev >>= g) (m.Yields (x >>= f) d F s) :=
  hx.bind fun b t ht => (hf b t ht.1 ht.2).mono fun _ _ h => h.after ht.1

/-- A piece without records can be left out. -/
theorem Runs.within {ev : Evaluation Value} (hlines : (x d).lines = [])
    (h : m.Runs F (f (x d).value) (x d).draft s ev
      (m.Yields (f (x d).value) (x d).draft F s)) :
    m.Runs F (x >>= f) d s ev (m.Yields (x >>= f) d F s) := by
  refine .prepare hlines ?_ (h.mono fun _ _ hy => hy.after (.refl s _))
  rw [records, hlines]
  rfl

end

theorem Computes.yields {x : Build Nat} {ev : Environment → Evaluation Value}
    (hx : m.Computes x ev) : m.Runs F x d s (ev F.env) fun v t =>
      m.Ready (x d).draft F t ∧ m.Yields x d F s v t :=
  (hx d F s).mono fun _ _ h => ⟨h.ready, h⟩

/-- A piece that computes a value, and one that goes on with it. -/
theorem Computes.andThen {x : Build Nat} {f : Nat → Build Nat} {ev : Environment → Evaluation Value}
    {g : Value → Evaluation Value} [Lawful x] [∀ r, Lawful (f r)] (hx : m.Computes x ev)
    (hf : ∀ v t, m.Yields x d F s v t →
      m.Runs F (f (x d).value) (x d).draft t (g v) (m.Yields (f (x d).value) (x d).draft F t)) :
    m.Runs F (x >>= f) d s (ev F.env >>= g) (m.Yields (x >>= f) d F s) :=
  ((hx d F s).mono fun _ _ h => ⟨h.ready, h.agrees, h⟩).andThen fun v t _ h => hf v t h

/-- A record that writes a result into a register of its own. -/
theorem Runs.result {res : Except EvalError Value}
    (h : m.Emits (fresh d).draft F s opcode d.registers a b c span →
      (UInt32.ofNat d.registers).toNat < s.registers.size →
      m.Puts s (.ofNat d.registers) res) :
    m.Runs F (do let r ← fresh; Build.emit opcode r a b c span; pure r) d s
      (Evaluation.ofResult res)
      (m.Yields (do let r ← fresh; Build.emit opcode r a b c span; pure r) d F s) := by
  refine .prepare rfl rfl (.andPure ?_)
  refine (put (d := (fresh d).draft) (Nat.lt_succ_self _) h).mono fun v t ht => ?_
  exact ⟨ht.1, ht.2.1, ht.2.2.1⟩

end Machine

end ExprMachine
