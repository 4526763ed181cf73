import ExprMachine.Proofs.Steps

/-!
# What computations ensure

A computation on the state of an execution *ensures* something of its result, and
that its error is one of those allowed (`Exec.Ensures`). The rules of this notion
go through a computation step by step: what is read is in the state, which stays
as it is, and what is written leaves the registers as many as they are.

A *dangling* reference leads beyond the register file or a pool, or to an
operator or a role that does not exist. The operations on values fail without
one, and so does reading a register that is there (`Exec.ensures_read`).
-/

namespace ExprMachine

/-- The defects of references that lead nowhere, where there are so many
    registers. -/
def Defect.isDangling (registers : Nat) : Defect → Bool
  | .noReturn _ | .undecodable _ _ | .constantIndex | .stringIndex _ | .messageFieldsIndex
  | .messageFieldsCount | .registerRange _ | .registerRun | .mapEntryCount | .conditionRole _
  | .operatorIndex _ => true
  | .unwrittenRegister r => registers ≤ r.toNat
  | .notIterator _ | .scopeUnderflow | .incrementKind _ | .appendKind _ _ | .operandKinds => false

/-- An error that is not a dangling reference. -/
def EvalError.IsRooted (e : EvalError) (registers : Nat) : Prop :=
  ∀ d, e.cause = .defect d → d.isDangling registers = false

/-! ## Operations on values -/

namespace Value

variable {v w : Value} {span : Span} {e : EvalError} {N : Nat}

theorem isRooted_select {field : String} (h : v.select field span = .error e) : e.IsRooted N := by
  have hfound (o : Option Value) (h : select.found field span o = .error e) : e.IsRooted N := by
    cases o <;> cases h
    nofun
  cases v with
  | map | message => exact hfound _ h
  | _ =>
    cases h
    nofun

theorem isRooted_hasField {field : String} (h : v.hasField field span = .error e) :
    e.IsRooted N := by
  cases v with
  | map | message => cases h
  | _ =>
    cases h
    nofun

/-- An item that is missing, or sought in a value that has none, is an error of the operands. -/
theorem isRooted_item (h : v.item w span = .error e) : e.IsRooted N := by
  have hfound (key : String) (o : Option Value) (h : item.found span key o = .error e) :
      e.IsRooted N := by
    cases o <;> cases h
    nofun
  unfold item at h
  split at h
  case h_7 =>
    -- There are no items of these kinds.
    cases h
    nofun
  all_goals exact hfound _ _ h

theorem isRooted_items (h : v.items span = .error e) : e.IsRooted N := by
  cases v with
  | list | map => cases h
  | _ =>
    cases h
    nofun

/-- A key that no map can have is an error of the operands. -/
theorem isRooted_addEntries {run : List Value} {built : Entries MapKey Value}
    (h : addEntries built span run = .error e) : e.IsRooted N := by
  fun_induction addEntries built span run with
  | case1 built key v rest key' hkey ih => exact ih h
  | case2 built key v rest hkey =>
    cases h
    nofun
  | case3 => cases h

end Value

/-- A function that is missing is an error of its own, whichever registers there are. -/
theorem Registry.isRooted_resolve {registry : Registry} {name : String} {kinds : List Kind}
    {span : Span} {e : EvalError} {N : Nat} (h : registry.resolve name kinds span = .error e) :
    e.IsRooted N := by
  rw [resolve] at h
  split at h
  · cases h
    nofun
  · split at h <;> cases h
    nofun

/-- A call fails because there is no such function, or because its handler does. -/
theorem Registry.call_error {registry : Registry} {name : String} {args : List Value} {span : Span}
    {e : EvalError} (h : registry.call name args span = .error e) :
    registry.resolve name (args.map Value.kind) span = .error e ∨
      ∃ o, registry.resolve name (args.map Value.kind) span = .ok o ∧
        o.handler args span = .error e := by
  rw [call] at h
  cases hresolve : registry.resolve name (args.map Value.kind) span with
  | error e' =>
    rw [hresolve] at h
    cases h
    exact .inl rfl
  | ok o =>
    rw [hresolve] at h
    replace h : (o.handler args span >>= fun v => pure (v, o.idempotent)) = .error e := h
    cases hhandler : o.handler args span with
    | error e' =>
      rw [hhandler] at h
      cases h
      exact .inr ⟨o, rfl, hhandler⟩
    | ok v =>
      rw [hhandler] at h
      cases h

/-- So is a message that cannot be constructed. -/
theorem Host.isRooted_construct {host : Host} {typeName : String} {fields : List (String × Value)}
    {span : Span} {e : EvalError} {N : Nat} (h : host.construct typeName fields span = .error e) :
    e.IsRooted N := by
  rw [construct] at h
  split at h
  · rw [TypeCatalog.construct] at h
    split at h
    · cases h
      nofun
    · split at h <;> cases h
      nofun
  · cases h
    nofun

/-! ## Computations -/

/-- A state has the registers of an earlier one, and is to go on at the same
    place. -/
structure State.Keeps (s t : State) : Prop where
  size : t.registers.size = s.registers.size
  pc : t.pc = s.pc

namespace State.Keeps

variable {s t u : State}

theorem refl (s : State) : s.Keeps s := ⟨rfl, rfl⟩

theorem trans (h : s.Keeps t) (h' : t.Keeps u) : s.Keeps u :=
  ⟨h'.size.trans h.size, h'.pc.trans h.pc⟩

end State.Keeps

namespace Exec

variable {α β : Type}

/-- A computation ends as it should: with a result for which `post` holds, or
    with an error that is allowed. -/
def Ensures (x : Exec α) (s : State) (post : α → State → Prop) (allowed : EvalError → Prop) :
    Prop :=
  match x s with
  | .ok a t => post a t
  | .error e _ => allowed e

namespace Ensures

variable {x : Exec α} {f : α → Exec β} {s t : State} {P P' : α → State → Prop}
  {Q : β → State → Prop} {E E' : EvalError → Prop}

theorem of_ok {a : α} (h : x.Ensures s P E) (hx : x s = .ok a t) : P a t := by
  rwa [Ensures, hx] at h

theorem of_error {e : EvalError} (h : x.Ensures s P E) (hx : x s = .error e t) : E e := by
  rwa [Ensures, hx] at h

theorem pure {a : α} (h : P a s) : Ensures (Pure.pure a) s P E := h

/-- A computation that ends in the same way ensures what follows. -/
theorem imp {y : Exec α} (h : x.Ensures s P E) (hy : y t = x s) (hP : ∀ a u, P a u → P' a u)
    (hE : ∀ e, E e → E' e) : y.Ensures t P' E' := by
  rw [Ensures, hy]
  cases hx : x s with
  | ok a u => exact hP a u (h.of_ok hx)
  | error e u => exact hE e (h.of_error hx)

/-- What a computation ensures is what the next one starts from. -/
theorem bind (hx : x.Ensures s P E) (hf : ∀ a t, P a t → (f a).Ensures t Q E) :
    (x >>= f).Ensures s Q E := by
  cases hxs : x s with
  | ok a t =>
    rw [Ensures, bind_ok f hxs]
    exact hf a t (hx.of_ok hxs)
  | error e t =>
    rw [Ensures, bind_error f hxs]
    exact hx.of_error hxs

end Ensures

section

variable {s : State} {span : Span} {r : UInt32} {v : Value} {d : Defect} {N : Nat}
  {E : EvalError → Prop}

/-- The state that is read is the one that the computation goes on in. -/
theorem ensures_get {f : State → Exec β} {Q : β → State → Prop} (h : (f s).Ensures s Q E) :
    ((get : Exec State) >>= f).Ensures s Q E := h

/-- What is there is gone on with. -/
theorem ensures_ofOption {o : Option α} {f : α → Exec β} {Q : β → State → Prop} (h : o.isSome)
    (hf : ∀ a, o = some a → (f a).Ensures s Q E) : (ofOption span d o >>= f).Ensures s Q E := by
  obtain ⟨a, rfl⟩ := Option.isSome_iff_exists.1 h
  exact hf a rfl

/-- A result is gone on with, and an error of it has to be allowed. -/
theorem ensures_ofResult {res : Except EvalError α} {f : α → Exec β} {Q : β → State → Prop}
    (h : ∀ e, res = .error e → E e) (hf : ∀ a, res = .ok a → (f a).Ensures s Q E) :
    (ofResult res >>= f).Ensures s Q E := by
  cases res with
  | ok a => exact hf a rfl
  | error e => exact h e rfl

/-- A register of the file can be written. -/
theorem ensures_write (hr : r.toNat < s.registers.size) :
    (write span r v).Ensures s (fun _ t => s.Keeps t) E := by
  rw [Ensures, write_eq hr]
  exact ⟨State.size_set s r v, rfl⟩

variable (hE : ∀ e, EvalError.IsRooted e N → E e)
include hE

/-- An error of a defect that is not a dangling reference is allowed. -/
theorem ensures_defect {P : α → State → Prop} (hd : d.isDangling N = false) :
    (defect span d : Exec α).Ensures s P E := by
  refine hE _ fun d' hd' => ?_
  cases hd'
  exact hd

/-- Reading a register is gone on with, unless nothing has been written to it. -/
theorem ensures_read {f : Value → Exec β} {Q : β → State → Prop} (hr : r.toNat < N)
    (hf : ∀ v, s.read? r = some v → (f v).Ensures s Q E) : (read span r >>= f).Ensures s Q E := by
  cases hv : s.read? r with
  | some v =>
    rw [Ensures, read_bind f hv]
    exact hf v hv
  | none =>
    -- The register is in the file, so that the defect is not a dangling reference.
    have hdefect : (defect span (.unwrittenRegister r) : Exec β).Ensures s Q E :=
      ensures_defect hE (decide_eq_false (Nat.not_le.2 hr))
    have hread : (read span r >>= f) s = (defect span (.unwrittenRegister r) : Exec β) s :=
      bind_error f (read_error hv)
    exact hdefect.imp hread (fun _ _ => id) fun _ => id

/-- So is reading consecutive registers, if they are in the register file. -/
theorem ensures_readRun {f : List Value → Exec β} {Q : β → State → Prop} {n first : Nat}
    (hN : N ≤ UInt32.size) (h : 0 < n → first + n ≤ N)
    (hf : ∀ vs, vs.length = n →
      (∀ k v, vs[k]? = some v → s.read? (UInt32.ofNat (first + k)) = some v) →
      (f vs).Ensures s Q E) : (readRun span first n >>= f).Ensures s Q E := by
  induction n generalizing first f with
  | zero => exact hf [] rfl nofun
  | succ n ih =>
    have hle := h (Nat.succ_pos n)
    have hlt : ¬UInt32.size ≤ first := by omega
    have hfirst : (UInt32.ofNat first).toNat < N := by
      rw [UInt32.toNat_ofNat_of_lt' (Nat.not_le.1 hlt)]
      omega
    simp only [readRun, if_neg hlt, bind_assoc, pure_bind]
    refine ensures_read hE hfirst fun v hv => ih (fun _ => by omega) fun vs hlen hvs => ?_
    refine hf (v :: vs) (congrArg (· + 1) hlen) fun k w hk => ?_
    cases k with
    | zero =>
      cases hk
      exact hv
    | succ k =>
      rw [← Nat.add_assoc, Nat.add_right_comm]
      exact hvs k w hk

/-- A list is moved out of a register of the file, unless nothing has been written to it. -/
theorem ensures_take (hr : r.toNat < N) :
    (take span r).Ensures s (fun _ t => s.Keeps t) E := by
  refine ensures_get ?_
  cases s.pending.get? r with
  | some items => exact ⟨rfl, rfl⟩
  | none =>
    show (read span r).Ensures s (fun _ t => s.Keeps t) E
    rw [← bind_pure (read span r)]
    exact ensures_read hE hr fun v _ => .pure (.refl s)

/-- An item is appended in a register of the file, unless there is something else than a list. -/
theorem ensures_append (hr : r.toNat < N) :
    (append span r v).Ensures s (fun _ t => s.Keeps t) E := by
  refine ensures_get ?_
  cases s.pending.get? r with
  | some items => exact ⟨rfl, rfl⟩
  | none =>
    refine ensures_read hE hr fun w _ => ?_
    cases w with
    | list items => exact ⟨rfl, rfl⟩
    | _ => exact ensures_defect hE rfl

end

end Exec

end ExprMachine
