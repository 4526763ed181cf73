import ExprMachine.Code.Memo
import ExprMachine.Proofs.Loading

/-!
# Calls of one compiler

A compiler is called on shared expressions, one after the other. The expression of an
identity is fixed, and different identities may have equal expressions (`tree`). The `log`
says what comes of each call. A call either finds its expression in the memo or compiles it to
a program of a new identity (`compile_eq_ok_iff`), and a call that fails changes nothing. So

* whatever is remembered is the program of its expression (`Sound`), in every state that
  calls lead to, and every call gives the program of its expression (`content_log`);
* the programs that are still to come are not older than the one that is remembered
  (`le_id_of_mem_log`), so that an object is never returned again after another;
* until there is a call on another expression, the one remembered is returned (`log_of_memo`).

Hence two calls return one object exactly if all calls from the one to the other are on one
expression (`log_new`).
-/

namespace ExprMachine.Compiler

/-! ## One call -/

section

variable {c c' : Compiler} {e : Shared Expr} {p : Shared Program} {err : CompileError}

theorem compile_of_memo (h : c.memo = some (e.id, p)) : c.compile e = .ok (p, c) := by
  rw [compile, h]
  exact if_pos rfl

theorem compile_of_ne_memo (h : ∀ p, c.memo ≠ some (e.id, p)) :
    c.compile e = (ExprMachine.compile c.options e.content).map fun r =>
      (⟨c.nextId, r⟩, { c with memo := some (e.id, ⟨c.nextId, r⟩), nextId := c.nextId + 1 }) := by
  have hanew : compile.compileAnew c e = (ExprMachine.compile c.options e.content).map fun r =>
      (⟨c.nextId, r⟩, { c with memo := some (e.id, ⟨c.nextId, r⟩), nextId := c.nextId + 1 }) := by
    rw [compile.compileAnew]
    cases ExprMachine.compile c.options e.content <;> rfl
  rw [compile]
  split
  · rename_i id p hm
    have hid : id ≠ e.id := by
      rintro rfl
      exact h p hm
    rw [if_neg hid, hanew]
  · exact hanew

/-- A call that succeeds finds its expression in the memo, or makes a program of a new
    identity. -/
theorem compile_eq_ok_iff : c.compile e = .ok (p, c') ↔
    c.memo = some (e.id, p) ∧ c' = c ∨
      (∀ p', c.memo ≠ some (e.id, p')) ∧
        ExprMachine.compile c.options e.content = .ok p.content ∧ p.id = c.nextId ∧
          c' = { c with memo := some (e.id, p), nextId := c.nextId + 1 } := by
  by_cases hm : ∃ p', c.memo = some (e.id, p')
  · obtain ⟨p', hm⟩ := hm
    simp [compile_of_memo hm, hm, eq_comm]
  · rw [not_exists] at hm
    obtain ⟨id, content⟩ := p
    rw [compile_of_ne_memo hm]
    cases ExprMachine.compile c.options e.content with
    | error err => simp [Except.map, hm]
    | ok r =>
      constructor
      · rintro ⟨⟩
        exact .inr ⟨hm, rfl, rfl, rfl⟩
      · rintro (⟨hmemo, -⟩ | ⟨-, ⟨⟩, ⟨⟩, rfl⟩)
        · exact absurd hmemo (hm _)
        · rfl

/-- A call that fails has not found its expression in the memo. -/
theorem compile_eq_error_iff : c.compile e = .error err ↔
    (∀ p', c.memo ≠ some (e.id, p')) ∧ ExprMachine.compile c.options e.content = .error err := by
  by_cases hm : ∃ p', c.memo = some (e.id, p')
  · obtain ⟨p', hm⟩ := hm
    simp [compile_of_memo hm, hm]
  · rw [not_exists] at hm
    rw [compile_of_ne_memo hm]
    cases ExprMachine.compile c.options e.content <;> simp [Except.map, hm]

end

variable (tree : Nat → Expr)

/-- What a compiler remembers is the program of the expression, and it has an identity that is
    not given to other programs. -/
structure Sound (c : Compiler) : Prop where
  compile_eq : ∀ {a p}, c.memo = some (a, p) →
    ExprMachine.compile c.options (tree a) = .ok p.content
  id_lt : ∀ {a p}, c.memo = some (a, p) → p.id < c.nextId

variable {tree} {c c' : Compiler} {a : Nat} {p : Shared Program}

theorem Sound.new (options : CompileOptions) : Sound tree { options := options } := ⟨nofun, nofun⟩

/-- A call keeps a compiler sound. -/
theorem Sound.of_compile (hc : c.Sound tree) (h : c.compile ⟨a, tree a⟩ = .ok (p, c')) :
    c'.Sound tree := by
  rcases compile_eq_ok_iff.1 h with ⟨-, rfl⟩ | ⟨-, hcontent, hid, rfl⟩
  · exact hc
  · refine ⟨?_, ?_⟩
    · rintro _ _ ⟨⟩
      exact hcontent
    · rintro _ _ ⟨⟩
      exact hid ▸ Nat.lt_succ_self _

theorem options_of_compile {e : Shared Expr} (h : c.compile e = .ok (p, c')) :
    c'.options = c.options := by
  rcases compile_eq_ok_iff.1 h with ⟨-, rfl⟩ | ⟨-, -, -, rfl⟩ <;> rfl

/-- After a call, its program is the one remembered. -/
theorem memo_of_compile {e : Shared Expr} (h : c.compile e = .ok (p, c')) :
    c'.memo = some (e.id, p) := by
  rcases compile_eq_ok_iff.1 h with ⟨hmemo, rfl⟩ | ⟨-, -, -, rfl⟩
  · exact hmemo
  · rfl

/-! ## Many calls -/

/-- The calls with what comes of them. -/
def log (tree : Nat → Expr) (c : Compiler) :
    List Nat → List (Nat × Except CompileError (Shared Program))
  | [] => []
  | a :: rest =>
    match c.compile ⟨a, tree a⟩ with
    | .ok (p, c') => (a, .ok p) :: c'.log tree rest
    | .error err => (a, .error err) :: c.log tree rest

section

variable {err : CompileError} (calls : List Nat)

theorem log_cons_of_ok (h : c.compile ⟨a, tree a⟩ = .ok (p, c')) :
    c.log tree (a :: calls) = (a, .ok p) :: c'.log tree calls := by
  rw [log, h]

theorem log_cons_of_error (h : c.compile ⟨a, tree a⟩ = .error err) :
    c.log tree (a :: calls) = (a, .error err) :: c.log tree calls := by
  rw [log, h]

theorem map_fst_log (c : Compiler) : (c.log tree calls).map Prod.fst = calls := by
  induction calls generalizing c with
  | nil => rfl
  | cons a rest ih =>
    cases h : c.compile ⟨a, tree a⟩ with
    | ok r => rw [log_cons_of_ok rest h, List.map_cons, ih]
    | error err => rw [log_cons_of_error rest h, List.map_cons, ih]

end

variable {calls : List Nat}

/-- Every call of a sound compiler gives what compiling the expression gives. -/
theorem content_log (hc : c.Sound tree) {o : Except CompileError (Shared Program)}
    (h : (a, o) ∈ c.log tree calls) :
    o.map Shared.content = ExprMachine.compile c.options (tree a) := by
  induction calls generalizing c with
  | nil => exact absurd h List.not_mem_nil
  | cons x rest ih =>
    cases hx : c.compile ⟨x, tree x⟩ with
    | ok r =>
      obtain ⟨p, c'⟩ := r
      have hc' := hc.of_compile hx
      rw [log_cons_of_ok rest hx, List.mem_cons, Prod.mk.injEq] at h
      rw [← options_of_compile hx]
      rcases h with ⟨rfl, rfl⟩ | h
      · rw [hc'.compile_eq (memo_of_compile hx)]
        rfl
      · exact ih hc' h
    | error err =>
      rw [log_cons_of_error rest hx, List.mem_cons, Prod.mk.injEq] at h
      rcases h with ⟨rfl, rfl⟩ | h
      · exact (compile_eq_error_iff.1 hx).2.symm
      · exact ih hc h

/-- The programs to come are not older than the one remembered. -/
theorem le_id_of_mem_log {n : Nat} (hnext : n ≤ c.nextId)
    (hmemo : ∀ a p, c.memo = some (a, p) → n ≤ p.id) (h : (a, .ok p) ∈ c.log tree calls) :
    n ≤ p.id := by
  induction calls generalizing c with
  | nil => exact absurd h List.not_mem_nil
  | cons x rest ih =>
    cases hx : c.compile ⟨x, tree x⟩ with
    | ok r =>
      obtain ⟨q, c'⟩ := r
      rw [log_cons_of_ok rest hx, List.mem_cons, Prod.mk.injEq] at h
      -- The program is the one in the memo, or it has the next identity.
      have hq : n ≤ q.id ∧ n ≤ c'.nextId := by
        rcases compile_eq_ok_iff.1 hx with ⟨hm, rfl⟩ | ⟨-, -, hid, rfl⟩
        · exact ⟨hmemo _ _ hm, hnext⟩
        · exact ⟨hid ▸ hnext, Nat.le_succ_of_le hnext⟩
      rcases h with ⟨rfl, ⟨⟩⟩ | h
      · exact hq.1
      · refine ih hq.2 (fun b r hb => ?_) h
        obtain ⟨-, rfl⟩ := Prod.mk.inj (Option.some.inj ((memo_of_compile hx).symm.trans hb))
        exact hq.1
    | error err =>
      rw [log_cons_of_error rest hx, List.mem_cons, Prod.mk.injEq] at h
      rcases h with ⟨-, ⟨⟩⟩ | h
      exact ih hnext hmemo h

/-- All calls that have succeeded are on the expression. -/
def OnlyOn (a : Nat) (log : List (Nat × Except CompileError (Shared Program))) : Prop :=
  ∀ d r, (d, .ok r) ∈ log → d = a

section

variable {d : Nat} {rest : List (Nat × Except CompileError (Shared Program))}

theorem onlyOn_cons_ok_iff : OnlyOn a ((d, .ok p) :: rest) ↔ d = a ∧ OnlyOn a rest := by
  simp only [OnlyOn, List.mem_cons, Prod.mk.injEq, Except.ok.injEq]
  constructor
  · exact fun h => ⟨h d p (.inl ⟨rfl, rfl⟩), fun d' r hr => h d' r (.inr hr)⟩
  · rintro ⟨rfl, h⟩ d' r (⟨rfl, -⟩ | hr)
    · rfl
    · exact h d' r hr

theorem onlyOn_cons_error_iff {err : CompileError} :
    OnlyOn a ((d, .error err) :: rest) ↔ OnlyOn a rest := by
  simp [OnlyOn]

end

/-- The program that is remembered is returned by the calls on its expression that come
    before any call on another one, and by no other calls. -/
theorem log_of_memo {before after : List (Nat × Except CompileError (Shared Program))} {b : Nat}
    {q : Shared Program} (hmemo : c.memo = some (a, p)) (hid : p.id < c.nextId)
    (h : c.log tree calls = before ++ (b, .ok q) :: after) :
    (q.id = p.id ↔ b = a ∧ OnlyOn a before) ∧ (q.id = p.id → q = p) := by
  induction calls generalizing before with
  | nil => exact absurd h.symm (List.append_ne_nil_of_right_ne_nil _ (List.cons_ne_nil _ _))
  | cons x rest ih =>
    cases hx : c.compile ⟨x, tree x⟩ with
    | ok r =>
      obtain ⟨r, c'⟩ := r
      rw [log_cons_of_ok rest hx] at h
      rcases compile_eq_ok_iff.1 hx with ⟨hm, rfl⟩ | ⟨hmiss, -, hr, rfl⟩
      · obtain ⟨rfl, rfl⟩ := Prod.mk.inj (Option.some.inj (hmemo.symm.trans hm))
        -- A hit gives `p` and leaves the compiler as it is.
        cases before with
        | nil =>
          obtain ⟨⟨⟩, -⟩ := List.cons.inj h
          simp [OnlyOn]
        | cons y before =>
          obtain ⟨rfl, hrest⟩ := List.cons.inj h
          simpa [onlyOn_cons_ok_iff] using ih hrest
      · have hne : x ≠ a := by
          rintro rfl
          exact hmiss _ hmemo
        -- A program has been made, and none older is returned after it.
        have hq : q.id ≠ p.id := by
          refine Nat.ne_of_gt (Nat.lt_of_lt_of_le hid ?_)
          have hmem : (b, .ok q) ∈ before ++ (b, .ok q) :: after :=
            List.mem_append_right _ List.mem_cons_self
          rcases List.mem_cons.1 (h ▸ hmem) with hhead | hlater
          · obtain ⟨-, ⟨⟩⟩ := Prod.mk.inj hhead
            exact Nat.le_of_eq hr.symm
          · refine le_id_of_mem_log (Nat.le_succ _) ?_ hlater
            rintro _ _ ⟨⟩
            exact Nat.le_of_eq hr.symm
        refine ⟨iff_of_false hq ?_, fun heq => absurd heq hq⟩
        rintro ⟨rfl, honly⟩
        cases before with
        | nil => exact hne (Prod.mk.inj (List.cons.inj h).1).1
        | cons y before =>
          obtain ⟨rfl, -⟩ := List.cons.inj h
          exact hne (onlyOn_cons_ok_iff.1 honly).1
    | error err =>
      rw [log_cons_of_error rest hx] at h
      cases before with
      | nil => exact absurd h nofun
      | cons y before =>
        obtain ⟨rfl, hrest⟩ := List.cons.inj h
        rw [onlyOn_cons_error_iff]
        exact ih hrest

/-- Two calls of a sound compiler return one program exactly if they and the calls between
    them are on one expression. -/
theorem log_shared {before between after : List (Nat × Except CompileError (Shared Program))}
    {b : Nat} {q : Shared Program} (hc : c.Sound tree)
    (h : c.log tree calls = before ++ (a, .ok p) :: (between ++ (b, .ok q) :: after)) :
    (q.id = p.id ↔ b = a ∧ OnlyOn a between) ∧ (q.id = p.id → q = p) := by
  induction calls generalizing c before with
  | nil => exact absurd h.symm (List.append_ne_nil_of_right_ne_nil _ (List.cons_ne_nil _ _))
  | cons x rest ih =>
    cases hx : c.compile ⟨x, tree x⟩ with
    | ok r =>
      obtain ⟨r, c'⟩ := r
      rw [log_cons_of_ok rest hx] at h
      have hc' := hc.of_compile hx
      cases before with
      | nil =>
        obtain ⟨⟨⟩, hrest⟩ := List.cons.inj h
        have hmemo := memo_of_compile hx
        exact log_of_memo hmemo (hc'.id_lt hmemo) hrest
      | cons y before => exact ih hc' (List.cons.inj h).2
    | error err =>
      rw [log_cons_of_error rest hx] at h
      cases before with
      | nil => exact absurd h nofun
      | cons y before => exact ih hc (List.cons.inj h).2

/-- The calls of a new compiler.

    * Every call gives what compiling the expression alone gives.
    * Two calls return the same program exactly if no call from the one to the other is on
      another expression. -/
theorem log_new (options : CompileOptions) (tree : Nat → Expr) (calls : List Nat) :
    (log tree { options := options } calls).map Prod.fst = calls ∧
      (∀ a o, (a, o) ∈ log tree { options := options } calls →
        o.map Shared.content = ExprMachine.compile options (tree a)) ∧
      ∀ before a p between b q after,
        log tree { options := options } calls =
            before ++ (a, .ok p) :: (between ++ (b, .ok q) :: after) →
          (q.id = p.id ↔ b = a ∧ OnlyOn a between) ∧ (q.id = p.id → q = p) :=
  ⟨map_fst_log calls _, fun _ _ => content_log (.new options),
    fun _ _ _ _ _ _ _ => log_shared (.new options)⟩

/-- Expressions of one content have programs of their own, and a call on the one has another
    program after a call on the other than before. -/
theorem log_new_equal :
    ∃ p q q', log (fun _ => .literal .null ⟨0, 4⟩) {} [0, 0, 1, 0] =
        [(0, .ok p), (0, .ok p), (1, .ok q), (0, .ok q')] ∧
      p.content = q.content ∧ p.id ≠ q.id ∧ p.id ≠ q'.id := by
  obtain ⟨r, hr⟩ : ∃ r, ExprMachine.compile {} (.literal .null ⟨0, 4⟩) = .ok r :=
    ⟨_, compile_of_fits (by decide)⟩
  have hlog : log (fun _ => .literal .null ⟨0, 4⟩) {} [0, 0, 1, 0] =
      [(0, .ok ⟨0, r⟩), (0, .ok ⟨0, r⟩), (1, .ok ⟨1, r⟩), (0, .ok ⟨2, r⟩)] := by
    simp [log, compile, compile.compileAnew, hr, bind, Except.bind, pure, Except.pure]
  obtain ⟨-, -, hshared⟩ := log_new {} (fun _ => .literal .null ⟨0, 4⟩) [0, 0, 1, 0]
  have hother := hshared [] 0 ⟨0, r⟩ [(0, .ok ⟨0, r⟩)] 1 ⟨1, r⟩ [(0, .ok ⟨2, r⟩)] hlog
  have hagain := hshared [] 0 ⟨0, r⟩ [(0, .ok ⟨0, r⟩), (1, .ok ⟨1, r⟩)] 0 ⟨2, r⟩ [] hlog
  refine ⟨_, _, _, hlog, rfl, fun h => ?_, fun h => ?_⟩
  · exact absurd (hother.1.1 h.symm).1 (by decide)
  · have honly := (hagain.1.1 h.symm).2
    simp [onlyOn_cons_ok_iff] at honly

end ExprMachine.Compiler
