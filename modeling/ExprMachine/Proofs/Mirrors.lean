import ExprMachine.Machine.InPlace
import ExprMachine.Proofs.Footprints

/-!
# States that mirror each other

The machine that appends in place takes the steps of the machine with lists under
construction, but the two do not have the same in all registers:

* most registers hold the same, and no list is under construction in them;
* where a list is being built, the machine that appends in place holds the list
  that the other one would take (`State.held?`);
* once a list has been taken, the first machine has an old list in the register
  and the second one the list taken, so that nothing is to be read there before
  it is written again.

A *view* says which registers are known to be of the first two kinds (`View`), and
two states are compared under a view (`State.Mirrors`). Computations of the two
machines are compared by where they end (`Exec.Alike`).
-/

namespace ExprMachine

/-! ## Views -/

/-- What is known of a register of two machines, the second of which appends in
    place. -/
inductive Likeness where
  /-- Nothing. -/
  | unknown
  /-- It holds the same in both, and no list is under construction in it. -/
  | same
  /-- The second machine holds what the first one would take. -/
  | list
  deriving DecidableEq

/-- What is known of the registers. -/
abbrev View := Nat → Likeness

namespace View

variable {U V W : View} {r q n : Nat} {x : Likeness}

/-- The view with something else known of a register. -/
def set (V : View) (r : Nat) (x : Likeness) : View := Function.update V r x

@[simp] theorem set_self : V.set r x r = x := Function.update_self _ _ _

theorem set_of_ne (h : q ≠ r) : V.set r x q = V q := Function.update_of_ne h _ _

/-- A view tells at least as much as another one, and of the same lists. -/
structure Le (V W : View) : Prop where
  same : ∀ r, V r = .same → W r = .same
  list : ∀ r, W r = .list ↔ V r = .list

/-- Nothing is known of the registers from a number on. -/
def Below (V : View) (n : Nat) : Prop := ∀ r, n ≤ r → V r = .unknown

theorem ne_list_of_unknown (h : V r = .unknown) : V r ≠ .list := by
  rw [h]
  decide

theorem ne_list_of_same (h : V r = .same) : V r ≠ .list := by
  rw [h]
  decide

theorem ne_unknown_of_same (h : V r = .same) : V r ≠ .unknown := by
  rw [h]
  decide

theorem Le.refl (V : View) : V.Le V := ⟨fun _ h => h, fun _ => .rfl⟩

/-- What is known less and less is known less in the end. -/
theorem Le.trans (h : U.Le V) (h' : V.Le W) : U.Le W :=
  ⟨fun r hr => h'.same r (h.same r hr), fun r => (h'.list r).trans (h.list r)⟩

theorem Le.ne_list (h : V.Le W) (hr : V r ≠ .list) : W r ≠ .list := fun hW => hr ((h.list r).1 hW)

/-- A register may be found to hold the same, unless it holds a list under construction. -/
theorem le_set (h : V r ≠ .list) : V.Le (V.set r .same) where
  same q hq := by
    by_cases hqr : q = r
    · rw [hqr, set_self]
    · rwa [set_of_ne hqr]
  list q := by
    by_cases hqr : q = r
    · subst hqr
      rw [set_self]
      exact ⟨nofun, fun hq => absurd hq h⟩
    · rw [set_of_ne hqr]

theorem Le.set_le (h : V.Le W) (hV : V r ≠ .list) (hW : W r = .same) : (V.set r .same).Le W where
  same q hq := by
    by_cases hqr : q = r
    · rwa [hqr]
    · exact h.same q (by rwa [set_of_ne hqr] at hq)
  list q := by
    rw [h.list q]
    by_cases hqr : q = r
    · subst hqr
      rw [set_self]
      exact ⟨fun hq => absurd hq hV, nofun⟩
    · rw [set_of_ne hqr]

theorem Le.set (h : V.Le W) : (V.set r .same).Le (W.set r .same) where
  same q hq := by
    by_cases hqr : q = r
    · rw [hqr, set_self]
    · rw [set_of_ne hqr] at hq ⊢
      exact h.same q hq
  list q := by
    by_cases hqr : q = r
    · rw [hqr, set_self, set_self]
    · rw [set_of_ne hqr, set_of_ne hqr, h.list q]

/-- A view without a register tells as much of the others. -/
theorem Le.forget (h : (V.set r x).Le W) (hV : V r = .unknown) : V.Le (W.set r .unknown) where
  same q hq := by
    by_cases hqr : q = r
    · rw [hqr, hV] at hq
      cases hq
    · rw [set_of_ne hqr]
      exact h.same q (by rwa [set_of_ne hqr])
  list q := by
    by_cases hqr : q = r
    · rw [hqr, set_self, hV]
    · rw [set_of_ne hqr, h.list q, set_of_ne hqr]

/-- What is known of a register stays known. -/
theorem Le.eq (h : V.Le W) (hr : V r = x) (hx : x ≠ .unknown) : W r = x := by
  cases x with
  | unknown => exact absurd rfl hx
  | same => exact h.same r hr
  | list => exact (h.list r).2 hr

theorem Below.mono {k : Nat} (h : V.Below n) (hk : n ≤ k) : V.Below k :=
  fun r hr => h r (Nat.le_trans hk hr)

/-- A view stays below a number when something becomes known of a register below it. -/
theorem Below.set (h : V.Below n) (hr : r < n) : (V.set r x).Below n := fun q hq => by
  rw [set_of_ne (by omega), h q hq]

end View

/-! ## States -/

/-- What is left of two states is the same if an execution ends in them. -/
structure State.EndsLike (s t : State) : Prop where
  idempotent : t.idempotent = s.idempotent
  openScopes : t.openScopes = s.openScopes
  env : t.env = s.env

/-- The states of two machines, the second of which appends in place, under a
    view. -/
structure State.Mirrors (V : View) (s t : State) : Prop extends State.EndsLike s t where
  pc : t.pc = s.pc
  size : t.registers.size = s.registers.size
  iterators : t.iterators = s.iterators
  pending : t.pending = []
  same : ∀ r : UInt32, V r.toNat = .same → s.pending.get? r = none ∧ t.read? r = s.read? r
  list : ∀ r : UInt32, V r.toNat = .list → t.read? r = s.held? r

namespace State.Mirrors

variable {V W : View} {s t : State} {r : UInt32} {v : Value}

/-- States that mirror each other under a view do so under one that tells less. -/
theorem mono (h : s.Mirrors W t) (hV : V.Le W) : s.Mirrors V t :=
  { h with
    same := fun r hr => h.same r (hV.same _ hr)
    list := fun r hr => h.list r ((hV.list _).2 hr) }

/-- What one machine holds of a register of which something is known is what the
    other one would take. -/
theorem read?_eq_held? (h : s.Mirrors V t) (hr : V r.toNat ≠ .unknown) :
    t.read? r = s.held? r := by
  cases hV : V r.toNat with
  | unknown => exact absurd hV hr
  | same =>
    obtain ⟨hpending, hread⟩ := h.same r hV
    rw [State.held?_of_pending s r hpending, hread]
  | list => exact h.list r hV

/-- The same may be the beginning of a list. -/
theorem set_list {r : Nat} (h : s.Mirrors (V.set r .same) t) : s.Mirrors (V.set r .list) t :=
  { h with
    same := fun q hq => by
      by_cases hqr : q.toNat = r
      · rw [hqr, View.set_self] at hq
        cases hq
      · rw [View.set_of_ne hqr] at hq
        exact h.same q (by rwa [View.set_of_ne hqr])
    list := fun q hq => by
      by_cases hqr : q.toNat = r
      · refine h.read?_eq_held? (View.ne_unknown_of_same ?_)
        rw [hqr, View.set_self]
      · rw [View.set_of_ne hqr] at hq
        exact h.list q (by rwa [View.set_of_ne hqr]) }

/-- What is known of a register may be forgotten. -/
theorem forget (h : s.Mirrors V t) (r : Nat) : s.Mirrors (V.set r .unknown) t :=
  { h with
    same := fun q hq => by
      by_cases hqr : q.toNat = r
      · rw [hqr, View.set_self] at hq
        cases hq
      · exact h.same q (by rwa [View.set_of_ne hqr] at hq)
    list := fun q hq => by
      by_cases hqr : q.toNat = r
      · rw [hqr, View.set_self] at hq
        cases hq
      · exact h.list q (by rwa [View.set_of_ne hqr] at hq) }

/-- Both machines write a value. -/
theorem set (h : s.Mirrors V t) (hr : r.toNat < s.registers.size) :
    (s.set r v).Mirrors (V.set r.toNat .same) (t.set r v) where
  toEndsLike := ⟨h.idempotent, h.openScopes, h.env⟩
  pc := h.pc
  size := by rw [State.size_set, State.size_set, h.size]
  iterators := h.iterators
  pending := by
    show t.pending.erase r = []
    rw [h.pending]
    rfl
  same q hq := by
    rw [State.pending_set]
    by_cases hrq : r = q
    · subst hrq
      rw [if_pos rfl, State.read?_set_self t r v (h.size ▸ hr), State.read?_set_self s r v hr]
      exact ⟨rfl, rfl⟩
    · rw [View.set_of_ne fun hn => hrq (UInt32.toNat_inj.1 hn.symm)] at hq
      rw [if_neg hrq, State.read?_set_of_ne t r q v hrq, State.read?_set_of_ne s r q v hrq]
      exact h.same q hq
  list q hq := by
    by_cases hrq : r = q
    · rw [hrq, View.set_self] at hq
      cases hq
    · rw [View.set_of_ne fun hn => hrq (UInt32.toNat_inj.1 hn.symm)] at hq
      rw [State.held?, State.pending_set, if_neg hrq, State.read?_set_of_ne s r q v hrq,
        State.read?_set_of_ne t r q v hrq]
      exact h.list q hq

/-- One machine appends to a list under construction, and the other one replaces
    the list. -/
theorem extend {items : List Value} (h : s.Mirrors V t) (hV : V r.toNat = .list)
    (hr : r.toNat < s.registers.size) :
    (s.extend r v items).Mirrors V (t.set r (.list (items ++ [v]))) where
  toEndsLike := ⟨h.idempotent, h.openScopes, h.env⟩
  pc := h.pc
  size := (State.size_set t r _).trans h.size
  iterators := h.iterators
  pending := by
    show t.pending.erase r = []
    rw [h.pending]
    rfl
  same q hq := by
    have hrq : r ≠ q := by
      rintro rfl
      rw [hV] at hq
      cases hq
    rw [State.pending_extend, if_neg hrq, State.read?_set_of_ne t r q _ hrq]
    exact h.same q hq
  list q hq := by
    by_cases hrq : r = q
    · subst hrq
      rw [State.held?_extend_self, State.read?_set_self t r _ (h.size ▸ hr)]
    · rw [State.held?, State.pending_extend, if_neg hrq, State.read?_set_of_ne t r q _ hrq]
      exact h.list q hq

/-- One machine takes a list under construction. Nothing is known of its register
    afterwards, unless there has been no list in it. -/
theorem release (h : s.Mirrors V t) (hr : V r.toNat ≠ .list) : (s.release r).Mirrors V t :=
  { h with
    same := fun q hq => by
      obtain ⟨hpending, hread⟩ := h.same q hq
      rw [State.pending_release, hpending, ite_self]
      exact ⟨rfl, hread⟩
    list := fun q hq => by
      have hrq : r ≠ q := by
        rintro rfl
        exact hr hq
      rw [State.held?, State.pending_release, if_neg hrq]
      exact h.list q hq }

/-- Both machines go on elsewhere. -/
theorem goto (h : s.Mirrors V t) (target : UInt32) : (s.goto target).Mirrors V (t.goto target) :=
  { h with
    pc := rfl
    same := h.same
    list := h.list }

theorem advance (h : s.Mirrors V t) : s.advance.Mirrors V t.advance :=
  { h with
    pc := congrArg (· + stride) h.pc
    same := h.same
    list := h.list }

/-- The items of an iterator are the same in both states. -/
theorem iterate (h : s.Mirrors V t) (items : List Value) :
    (s.iterate r items).Mirrors V (t.iterate r items) :=
  { h with
    iterators := congrArg (·.insert r items) h.iterators
    same := h.same
    list := h.list }

theorem count (h : s.Mirrors V t) (idempotent : Bool) :
    (s.count idempotent).Mirrors V (t.count idempotent) :=
  { h with
    idempotent := congrArg (· && idempotent) h.idempotent
    same := h.same
    list := h.list }

theorem enter (h : s.Mirrors V t) : s.enter.Mirrors V t.enter :=
  { h with
    openScopes := congrArg (· + 1) h.openScopes
    env := congrArg Environment.push h.env
    same := h.same
    list := h.list }

theorem leave (h : s.Mirrors V t) : s.leave.Mirrors V t.leave :=
  { h with
    openScopes := congrArg (· - 1) h.openScopes
    env := congrArg Environment.pop h.env
    same := h.same
    list := h.list }

theorem bind (h : s.Mirrors V t) (name : String) : (s.bind v name).Mirrors V (t.bind v name) :=
  { h with
    env := congrArg (·.bind name v) h.env
    same := h.same
    list := h.list }

end State.Mirrors

/-- The states before the first record mirror each other. -/
theorem State.mirrors_start (p : Program) (env : Environment) :
    (State.start p env).Mirrors (fun _ => .unknown) (State.start p env) where
  toEndsLike := ⟨rfl, rfl, rfl⟩
  pc := rfl
  size := rfl
  iterators := rfl
  pending := rfl
  same _ h := nomatch h
  list _ h := nomatch h

/-- States that end alike have the same environment and the same flag for the caller. -/
theorem Execution.ofResult_ok {s t : State} (h : s.EndsLike t) (v : Value) :
    Execution.ofResult (.ok v t) = Execution.ofResult (.ok v s) := by
  rw [ofResult, ofResult, h.idempotent, h.env, h.openScopes]

theorem Execution.ofResult_error {s t : State} (h : s.EndsLike t) (e : EvalError) :
    Execution.ofResult (.error e t) = Execution.ofResult (.error e s) := by
  rw [ofResult, ofResult, h.idempotent, h.env, h.openScopes]

/-! ## Computations -/

namespace Exec

variable {α β : Type}

/-- Two computations on two states end alike: with the same result, in states that
    are related as they should be, or with the same error, and then what is left
    of the states is the same. -/
def Alike (x y : Exec α) (s t : State) (post : α → State → State → Prop) : Prop :=
  match x s, y t with
  | .ok a u, .ok b w => a = b ∧ post a u w
  | .error e u, .error f w => e = f ∧ u.EndsLike w
  | _, _ => False

section

variable {x y : Exec α} {f g : α → Exec β} {s t u w : State} {P : α → State → State → Prop}
  {Q : β → State → State → Prop} {V : View} {span : Span} {r : UInt32} {v : Value} {d : Defect}

theorem Alike.of_ok {a : α} (hx : x s = .ok a u) (hy : y t = .ok a w) (h : P a u w) :
    x.Alike y s t P := by
  rw [Alike, hx, hy]
  exact ⟨rfl, h⟩

theorem Alike.of_error {e : EvalError} (hx : x s = .error e u) (hy : y t = .error e w)
    (h : u.EndsLike w) : x.Alike y s t P := by
  rw [Alike, hx, hy]
  exact ⟨rfl, h⟩

/-- Either both computations have a result, or both fail. -/
theorem Alike.cases (h : x.Alike y s t P) :
    (∃ a u w, x s = .ok a u ∧ y t = .ok a w ∧ P a u w) ∨
      ∃ e u w, x s = .error e u ∧ y t = .error e w ∧ u.EndsLike w := by
  rw [Alike] at h
  split at h
  · obtain ⟨rfl, hp⟩ := h
    exact .inl ⟨_, _, _, ‹_›, ‹_›, hp⟩
  · obtain ⟨rfl, hend⟩ := h
    exact .inr ⟨_, _, _, ‹_›, ‹_›, hend⟩
  · exact h.elim

theorem Alike.pure {a : α} (h : P a s t) : (Pure.pure a : Exec α).Alike (Pure.pure a) s t P :=
  .of_ok rfl rfl h

/-- What holds of two runs that go alike may be weakened. -/
theorem Alike.mono {P' : α → State → State → Prop} (h : x.Alike y s t P)
    (hP : ∀ a u w, P a u w → P' a u w) : x.Alike y s t P' := by
  rcases h.cases with ⟨a, u, w, hx, hy, hp⟩ | ⟨e, u, w, hx, hy, hend⟩
  · exact .of_ok hx hy (hP a u w hp)
  · exact .of_error hx hy hend

/-- Runs that go alike go on alike. -/
theorem Alike.bind (hx : x.Alike y s t P) (hf : ∀ a u w, P a u w → (f a).Alike (g a) u w Q) :
    (x >>= f).Alike (y >>= g) s t Q := by
  rcases hx.cases with ⟨a, u, w, hxs, hyt, hp⟩ | ⟨e, u, w, hxs, hyt, hend⟩
  · rw [Alike, bind_ok f hxs, bind_ok g hyt]
    exact hf a u w hp
  · exact .of_error (bind_error f hxs) (bind_error g hyt) hend

/-- The computations have changed neither state. -/
def Stays (s t : State) (_ : α) (u w : State) : Prop := u = s ∧ w = t

/-- What follows computations that have changed neither state. -/
theorem Alike.andThen (hx : x.Alike y s t (Stays s t)) (hf : ∀ a, (f a).Alike (g a) s t Q) :
    (x >>= f).Alike (y >>= g) s t Q :=
  hx.bind fun a _ _ hp => by
    obtain ⟨rfl, rfl⟩ := hp
    exact hf a

theorem alike_get {f g : State → Exec β} (h : (f s).Alike (g t) s t Q) :
    ((get : Exec State) >>= f).Alike (get >>= g) s t Q := h

theorem alike_modify {f g : Unit → Exec β} {i j : State → State}
    (h : (f ()).Alike (g ()) (i s) (j t) Q) :
    ((modify i : Exec Unit) >>= f).Alike (modify j >>= g) s t Q := h

section

variable (h : s.EndsLike t)
include h

theorem alike_fail {cause : EvalError.Cause} :
    (fail span cause : Exec α).Alike (fail span cause) s t P := .of_error rfl rfl h

theorem alike_defect : (defect span d : Exec α).Alike (defect span d) s t P := alike_fail h

theorem alike_ofResult {res : Except EvalError α} :
    (ofResult res).Alike (ofResult res) s t (Stays s t) := by
  cases res with
  | ok a => exact .pure ⟨rfl, rfl⟩
  | error e => exact .of_error rfl rfl h

theorem alike_ofOption {o : Option α} (hf : ∀ a, o = some a → (f a).Alike (g a) s t Q) :
    (ofOption span d o >>= f).Alike (ofOption span d o >>= g) s t Q := by
  cases o with
  | some a => exact hf a rfl
  | none => exact .of_error rfl rfl h

/-- Unless both computations fail by a defect, what follows is done. -/
theorem alike_unless {c : Prop} [Decidable c] {f g : α → Exec β} {x y : Exec β}
    (hx : ¬c → x.Alike y s t Q) :
    (if c then defect span d >>= f else x).Alike (if c then defect span d >>= g else y) s t Q := by
  split
  · exact .of_error rfl rfl h
  · exact hx ‹_›

end

section

variable (h : s.Mirrors V t)
include h

/-- Both machines read a register that holds the same. -/
theorem alike_read (hr : V r.toNat = .same) :
    (read span r).Alike (read span r) s t (Stays s t) := by
  obtain ⟨-, hread⟩ := h.same r hr
  cases hv : s.read? r with
  | some v => exact .of_ok (read_eq hv) (read_eq (hread.trans hv)) ⟨rfl, rfl⟩
  | none => exact .of_error (read_error hv) (read_error (hread.trans hv)) h.toEndsLike

/-- So they do with registers one after another. -/
theorem alike_readRun {first n : Nat} (hr : ∀ r ∈ List.range' first n, V r = .same) :
    (readRun span first n).Alike (readRun span first n) s t (Stays s t) := by
  induction n generalizing first with
  | zero => exact .pure ⟨rfl, rfl⟩
  | succ n ih =>
    rw [List.range'_succ, List.forall_mem_cons] at hr
    refine alike_unless h.toEndsLike fun hlt => ?_
    refine (alike_read h ?_).andThen fun v => (ih hr.2).andThen fun vs => .pure ⟨rfl, rfl⟩
    rw [UInt32.toNat_ofNat_of_lt' (Nat.not_le.1 hlt)]
    exact hr.1

/-- Both machines write a value to a register. -/
theorem alike_write : (write span r v).Alike (write span r v) s t
    fun _ u w => u.pc = s.pc ∧ u.Mirrors (V.set r.toNat .same) w := by
  by_cases hr : r.toNat < s.registers.size
  · exact .of_ok (write_eq hr) (write_eq (h.size ▸ hr)) ⟨rfl, h.set hr⟩
  · have hs : write span r v s = .error ⟨span, .defect (.registerRange r)⟩ (s.release r) := by
      simp only [write, modify_bind, get_bind, if_neg hr]
      rfl
    have ht : write span r v t = .error ⟨span, .defect (.registerRange r)⟩ (t.release r) := by
      simp only [write, modify_bind, get_bind, if_neg (h.size ▸ hr)]
      rfl
    exact .of_error hs ht ⟨h.idempotent, h.openScopes, h.env⟩

/-- One machine takes the value of a register that the other one reads. -/
theorem alike_take (hr : V r.toNat ≠ .unknown) : (take span r).Alike (read span r) s t
    fun _ u w => u = s.release r ∧ w = t := by
  have hread := h.read?_eq_held? hr
  cases hv : s.held? r with
  | some v => exact .of_ok (take_eq hv) (read_eq (hread.trans hv)) ⟨rfl, rfl⟩
  | none =>
    obtain ⟨hpending, hs⟩ := State.read?_of_held? hv (by simp)
    have htake : take span r s = .error ⟨span, .defect (.unwrittenRegister r)⟩ s := by
      rw [take, get_bind, hpending]
      exact read_error hs
    exact .of_error htake (read_error (hread.trans hv)) h.toEndsLike

/-- One machine appends to the list that the other one replaces. -/
theorem alike_append (hr : V r.toNat = .list) :
    (append span r v).Alike (appendInPlace span r v) s t
      fun _ u w => u.pc = s.pc ∧ u.Mirrors V w := by
  have hread := h.list r hr
  cases hv : s.held? r with
  | none =>
    obtain ⟨hpending, hs⟩ := State.read?_of_held? hv (by simp)
    have happend : append span r v s = .error ⟨span, .defect (.unwrittenRegister r)⟩ s := by
      rw [append, get_bind, hpending]
      exact bind_error _ (read_error hs)
    exact .of_error happend (bind_error _ (read_error (hread.trans hv))) h.toEndsLike
  | some held =>
    rw [hv] at hread
    cases held with
    | list items =>
      have hlt := State.lt_size_of_read? hread
      have hreplace : appendInPlace span r v t = .ok () (t.set r (.list (items ++ [v]))) := by
        rw [appendInPlace, read_bind _ hread]
        exact write_eq hlt
      exact .of_ok (append_eq hv) hreplace ⟨rfl, h.extend hr (h.size ▸ hlt)⟩
    | _ =>
      -- Neither machine finds a list.
      obtain ⟨hpending, hs⟩ := State.read?_of_held? hv (by simp)
      refine .of_error (u := s) (w := t) ?_ (read_bind _ hread) h.toEndsLike
      rw [append, get_bind, hpending]
      exact read_bind _ hs

end

end

end Exec

end ExprMachine
