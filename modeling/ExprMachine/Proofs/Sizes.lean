import Mathlib.Algebra.Ring.Nat
import Mathlib.Data.List.Perm.Subperm
import ExprMachine.Proofs.Denotation
import ExprMachine.Proofs.Pools
import ExprMachine.Proofs.Verified

/-!
# The size of programs

No part of a program is larger than its expression allows. Every piece of code *takes* some
records and registers (`Build.Takes`): the code of an expression takes at most 22 of each for
every node (`Expr.takes_lower`), as every argument of a call is moved once. As constants, names
and spans are entered for the records that refer to them, there are no more of them than there
are records (`Draft.Filed.length_le`).

So all operands of the code fit in words if the expression is not enormous, and it has a
program (`exists_compile_of_nodes`), which gives the one result the expression stands for
(`Expr.Gives`, `gives_of_denotes`).
-/

namespace ExprMachine

namespace Build

variable {α β : Type}

/-- The piece adds no more than a number of records to a draft, and no more than the same
    number of registers. -/
class Takes (x : Build α) (n : outParam Nat) : Prop where
  records_le : ∀ d : Draft, (x d).draft.records ≤ d.records + n
  registers_le : ∀ d : Draft, (x d).draft.registers ≤ d.registers + n

theorem Takes.of_le {x : Build α} {m n : Nat} [h : Takes x m] (hmn : m ≤ n) : Takes x n where
  records_le d := Nat.le_trans (h.records_le d) (Nat.add_le_add_left hmn _)
  registers_le d := Nat.le_trans (h.registers_le d) (Nat.add_le_add_left hmn _)

instance (a : α) : Takes (pure a : Build α) 0 := ⟨fun _ => Nat.le_refl _, fun _ => Nat.le_refl _⟩

/-- What the second of two pieces takes may depend on the value of the first. -/
theorem Takes.bind {x : Build α} {f : α → Build β} {P : α → Prop} {m n : Nat} [hx : Takes x m]
    (hP : ∀ d, P (x d).value) (hf : ∀ a, P a → Takes (f a) n) : Takes (x >>= f) (m + n) where
  records_le d := by
    have := hx.records_le d
    have := (hf _ (hP d)).records_le (x d).draft
    rw [draft_bind]
    omega
  registers_le d := by
    have := hx.registers_le d
    have := (hf _ (hP d)).registers_le (x d).draft
    rw [draft_bind]
    omega

instance (x : Build α) (f : α → Build β) (m n : Nat) [Takes x m] [hf : ∀ a, Takes (f a) n] :
    Takes (x >>= f) (m + n) :=
  .bind (P := fun _ => True) (fun _ => trivial) fun a _ => hf a

instance (n : Nat) : Takes (block n) n := ⟨fun _ => Nat.le_add_right _ _, fun _ => Nat.le_refl _⟩

instance : Takes fresh 1 := inferInstanceAs (Takes (block 1) 1)

instance (s : String) : Takes (string s) 0 := ⟨fun _ => Nat.le_refl _, fun _ => Nat.le_refl _⟩

instance (v : Value) : Takes (constant v) 0 := ⟨fun _ => Nat.le_refl _, fun _ => Nat.le_refl _⟩

instance (names : List String) : Takes (fields names) 0 :=
  ⟨fun _ => Nat.le_refl _, fun _ => Nat.le_refl _⟩

instance : Takes here 0 := ⟨fun _ => Nat.le_refl _, fun _ => Nat.le_refl _⟩

instance (opcode : Opcode) (dst op1 op2 op3 : Nat) (s : Span) :
    Takes (emit opcode dst op1 op2 op3 s) 1 :=
  ⟨fun _ => Nat.le_refl _, fun _ => Nat.le_succ _⟩

instance (line : Nat → Nat → Line) (s : Span) (x : Build α) (n : Nat) [hx : Takes x n] :
    Takes (skipping line s x) (1 + n) where
  records_le d := by
    rw [skipping_apply, ← Nat.add_assoc]
    exact hx.records_le (reserved d s)
  registers_le d := by
    rw [skipping_apply]
    exact Nat.le_trans (hx.registers_le (reserved d s))
      (Nat.add_le_add_left (Nat.le_add_left n 1) d.registers)

instance (opcode : Opcode) (tested : Nat) (s : Span) (x : Build α) (n : Nat) [Takes x n] :
    Takes (jumpOver opcode tested s x) (1 + n) :=
  inferInstanceAs (Takes (skipping _ s x) _)

end Build

/-! ## The code of constructs -/

namespace Lowering

open Build

variable (s : Span)

instance (l : Literal) : Takes (literal l s) 2 := by
  rw [literal]
  match l with
  | .null | .bool true | .bool false => exact .of_le (by decide)
  | .int _ | .uint _ | .double _ | .string _ | .bytes _ => exact .of_le (by decide)

theorem takes_moveAll (regs : List Nat) (base : Nat) :
    Takes (moveAll base s regs) regs.length := by
  induction regs generalizing base with
  | nil => exact inferInstanceAs (Takes (pure ()) 0)
  | cons r rest ih =>
    have := ih (base + 1)
    rw [moveAll]
    exact .of_le (by simp; omega)

instance (base : Nat) (regs : List Nat) : Takes (moveAll base s regs) regs.length :=
  takes_moveAll s regs base

instance (regs : List Nat) : Takes (consecutive regs s) (2 * regs.length) := by
  rw [consecutive]
  exact .of_le (by omega)

instance (opcode : Opcode) (regs : List Nat) (count : Nat) :
    Takes (aggregate opcode regs count s) (2 * regs.length + 2) := by
  rw [aggregate]
  exact .of_le (by omega)

instance (typeName : String) (names : List String) (regs : List Nat) :
    Takes (message typeName names regs s) (2 * regs.length + 2) := by
  rw [message]
  exact .of_le (by omega)

instance (function : String) (regs : List Nat) :
    Takes (call function regs s) (2 * regs.length + 2) := by
  rw [call]
  exact .of_le (by omega)

section

variable (x y : Build Nat) (m n : Nat) [Takes x m] [Takes y n]

instance (opcode : Opcode) (field : String) : Takes (select opcode x field s) (m + 2) := by
  rw [select]
  exact .of_le (by omega)

instance (op : BinaryOperator) : Takes (shortCircuit op x y s) (m + n + 4) := by
  rw [shortCircuit]
  exact .of_le (by omega)

instance (op : BinaryOperator) : Takes (strict op x y s) (m + n + 2) := by
  rw [strict]
  exact .of_le (by omega)

instance (result : Nat) : Takes (branch result x s) (m + 1) := by
  rw [branch]
  exact .of_le (by omega)

end

instance (condition : Body) (whenTrue whenFalse : Build Nat) (n n₁ n₂ : Nat)
    [Takes condition.build n] [Takes whenTrue n₁] [Takes whenFalse n₂] :
    Takes (choose condition whenTrue whenFalse s) (n + n₁ + n₂ + 6) := by
  rw [choose_eq]
  exact .of_le (by omega)

instance (body : Body) (role : ConditionRole) (n : Nat) [Takes body.build n] :
    Takes (guarded body role) (n + 1) := by
  rw [guarded]
  exact .of_le (by omega)

section

variable {β : Type} (form : Comprehension β) {f : β → Body} {n : β → Nat}

instance (acc : Nat) : Takes (start (form.map f) acc s) 1 := by
  cases form <;> exact inferInstanceAs (Takes (emit _ _ _ _ _ _) 1)

theorem takes_loopBody (h : ∀ b ∈ form.bodies, Takes (f b).build (n b)) (acc item head : Nat) :
    Takes (loopBody (form.map f) acc item head s) ((form.bodies.map n).sum + 8) := by
  cases form with
  | all b | «exists» b | existsOne b | filter b | transform b =>
    have := h b (List.mem_singleton_self b)
    rw [Comprehension.map, loopBody]
    exact .of_le (by simp [Comprehension.bodies])
  | filterTransform p b =>
    have := h p List.mem_cons_self
    have := h b (List.mem_cons_of_mem p (List.mem_singleton_self b))
    rw [Comprehension.map, loopBody]
    exact .of_le (by simp [Comprehension.bodies]; omega)

theorem takes_comprehension (target : Build Nat) {m : Nat} [Takes target m] (x : String)
    (h : ∀ b ∈ form.bodies, Takes (f b).build (n b)) :
    Takes (comprehension target x (form.map f) s) (m + (form.bodies.map n).sum + 20) := by
  have := takes_loopBody s form h
  have (acc item head : Nat) : Takes (turn x (form.map f) acc item head s)
      ((form.bodies.map n).sum + 9) := by
    rw [turn]
    exact .of_le (by omega)
  have (iterator acc : Nat) : Takes (loop x (form.map f) iterator acc s)
      ((form.bodies.map n).sum + 11) := by
    rw [loop]
    exact .of_le (by omega)
  have (iterator : Nat) : Takes (rounds x (form.map f) iterator s)
      ((form.bodies.map n).sum + 17) := by
    rw [rounds]
    exact .of_le (by omega)
  rw [comprehension_eq]
  exact .of_le (by omega)

end

end Lowering

/-! ## The code of expressions -/

/-- A number of records, and of registers, that are enough for an expression. -/
def Expr.room (e : Expr) : Nat := 22 * e.nodes.length - 2

theorem Expr.length_nodes_pos (e : Expr) : 0 < e.nodes.length := by
  rw [nodes_eq, List.length_append]
  exact Nat.succ_pos _

theorem Expr.sum_room (es : List Expr) :
    (es.map room).sum + 2 * es.length = 22 * (es.flatMap nodes).length := by
  induction es with
  | nil => rfl
  | cons e rest ih =>
    have := e.length_nodes_pos
    simp only [List.map_cons, List.sum_cons, List.length_cons, List.flatMap_cons,
      List.length_append]
    rw [room]
    omega

/-- A node adds to what is enough for the expressions that it is made of, and to move the
    values of all these. -/
theorem Expr.room_eq (e : Expr) :
    e.room = (e.children.map room).sum + 2 * e.children.length + 20 := by
  rw [sum_room, room, nodes_eq, List.length_append, List.length_singleton]
  omega

open Build Lowering

theorem Expr.room_le_of_selected? {e operand : Expr} {field : String}
    (h : e.selected? = some (operand, field)) : operand.room + 2 ≤ e.room := by
  fun_induction selected? e with
  | case1 inner s ih =>
    have := ih h
    rw [room_eq (.paren inner s)]
    simp [parts]
    omega
  | case2 operand field s =>
    cases h
    rw [room_eq (.member operand field s)]
    simp [parts]
  | case3 => cases h

theorem Expr.takes_of_children {x : Build Nat} {e : Expr} {n : Nat} [Takes x n]
    (h : n ≤ (e.children.map room).sum + 2 * e.children.length + 20) : Takes x e.room :=
  .of_le (e.room_eq ▸ h)

theorem takes_lowerAll (macros : Bool) (es : List Expr)
    (h : ∀ e ∈ es, Takes (e.lower macros) e.room) :
    Takes (lowerAll macros es) (es.map Expr.room).sum := by
  induction es with
  | nil => exact inferInstanceAs (Takes (pure []) 0)
  | cons e rest ih =>
    have := h e List.mem_cons_self
    have := ih fun e he => h e (List.mem_cons_of_mem _ he)
    rw [lowerAll]
    exact .of_le (by simp)

/-- Expressions are evaluated one by one, and something is made of their values. -/
theorem takes_lowerAll_bind (macros : Bool) {es : List Expr} {f : List Nat → Build Nat}
    {c : List Nat → Nat} {n : Nat} [hf : ∀ regs, Takes (f regs) (c regs)]
    (h : ∀ e ∈ es, Takes (e.lower macros) e.room)
    (hc : ∀ regs : List Nat, regs.length = es.length → (es.map Expr.room).sum + c regs ≤ n) :
    Takes (lowerAll macros es >>= f) n := by
  have := takes_lowerAll macros es h
  -- `Takes.bind` adds two numbers, so the second piece is given what the first leaves of `n`.
  have hsum : (es.map Expr.room).sum ≤ n :=
    Nat.le_of_add_right_le (hc (List.replicate es.length 0) List.length_replicate)
  have hbind := Takes.bind (f := f) (n := n - (es.map Expr.room).sum)
    (length_lowerAll macros es) fun regs hregs => .of_le (by have := hc regs hregs; omega)
  exact .of_le (by omega)

/-- The code of an expression takes no more room than is enough for it. -/
theorem Expr.takes_lower (macros : Bool) (e : Expr) : Takes (e.lower macros) e.room := by
  induction e using Expr.induct with
  | step e ih =>
    cases e with
    | literal l s =>
      rw [lower]
      exact takes_of_children (by simp [parts])
    | ident name s =>
      rw [lower]
      exact takes_of_children (by simp [parts])
    | list items s =>
      rw [lower]
      refine takes_lowerAll_bind macros ih fun regs hregs => ?_
      rw [room_eq, hregs]
      simp [parts]
      omega
    | map entries s =>
      rw [lower, lowerEntries_eq]
      refine takes_lowerAll_bind macros ih fun regs hregs => ?_
      rw [room_eq, hregs]
      simp [parts]
      omega
    | message typeName fields s =>
      rw [lower, lowerFields_eq]
      refine takes_lowerAll_bind macros ih fun regs hregs => ?_
      rw [room_eq, hregs]
      simp [parts]
      omega
    | unary op operand s =>
      have := ih operand (by simp [parts])
      rw [lower]
      exact takes_of_children (by simp [parts])
    | binary op left right s =>
      have := ih left (by simp [parts])
      have := ih right (by simp [parts])
      rw [lower]
      split <;> exact takes_of_children (by simp [parts])
    | conditional c whenTrue whenFalse s =>
      have := ih c (by simp [parts])
      have := ih whenTrue (by simp [parts])
      have := ih whenFalse (by simp [parts])
      rw [lower]
      exact takes_of_children (by simp [parts]; omega)
    | member operand field s =>
      have := ih operand (by simp [parts])
      rw [lower]
      exact takes_of_children (by simp [parts])
    | index operand position s =>
      have := ih operand (by simp [parts])
      have := ih position (by simp [parts])
      rw [lower]
      exact takes_of_children (by simp [parts]; omega)
    | call function args s =>
      rw [lower_call]
      split
      · rename_i operand field hp
        have := ih operand (mem_parts_of_presence? hp)
        obtain ⟨a, rfl, ha⟩ := args_of_presence? hp
        -- A presence test has no code for the selection itself, so there is room for more than it
        -- takes.
        have := room_le_of_selected? ha
        exact takes_of_children (by simp; omega)
      · refine takes_lowerAll_bind macros (fun a ha => ih a (List.mem_append_left _ ha))
          fun regs hregs => ?_
        rw [room_eq, hregs]
        simp
        omega
    | method target function args s =>
      have := ih target List.mem_cons_self
      rw [lower_method]
      split
      · rename_i x form hf
        obtain ⟨a, rfl, -⟩ := args_of_loop? hf
        have := takes_comprehension s form (target.lower macros) x (f := body macros)
          fun e he => ih e (List.mem_cons_of_mem _ (mem_args_of_loop? hf e he))
        exact takes_of_children (by simp [parts]; omega)
      · -- The target is the first argument, and its code comes before that of the others.
        have (first : Nat) : Takes (do
            let rest ← lowerAll macros args
            Lowering.call function (first :: rest) s)
            ((args.map room).sum + 2 * (args.length + 1) + 2) := by
          refine takes_lowerAll_bind macros (fun a ha => ih a (List.mem_cons_of_mem _ ha))
            fun regs hregs => ?_
          rw [List.length_cons, hregs]
          omega
        exact takes_of_children (by simp [parts]; omega)
    | paren inner s =>
      have := ih inner (by simp [parts])
      rw [lower]
      exact takes_of_children (by simp [parts, Nat.add_assoc])

/-! ## Pools -/

/-- There is no more of anything in a draft than a number. -/
structure Draft.Within (d : Draft) (n : Nat) : Prop where
  records : d.records ≤ n
  registers : d.registers ≤ n
  constants : d.constants.length ≤ n
  strings : d.strings.length ≤ n
  spans : d.spans.length ≤ n
  messageFields : d.messageFields.length ≤ n

section

variable {α : Type} {pool : List α} {refs : List Nat}

/-- A pool that was empty has no more names or spans than are referred to. -/
theorem Interned.length_le (h : Interned [] refs pool) : pool.length ≤ refs.length := by
  have hsubset : List.range pool.length ⊆ refs := fun k hk =>
    h.mem_refs k (Nat.zero_le k) (List.mem_range.1 hk)
  simpa using (List.subperm_of_subset List.nodup_range hsubset).length_le

theorem Appended.length_eq {entries : List α} (h : Appended [] entries refs pool) :
    refs.length = pool.length := by
  rw [h.refs_eq_range, List.length_range]

end

theorem Line.length_names_le (l : Line) : l.names.length ≤ 1 := by
  obtain ⟨opcode, dst, op1, op2, op3, span⟩ := l
  cases opcode <;> exact Nat.le_of_ble_eq_true rfl

theorem length_flatMap_names_le (lines : List Line) :
    (lines.flatMap Line.names).length ≤ lines.length := by
  induction lines with
  | nil => exact Nat.le_refl _
  | cons l rest ih =>
    have := l.length_names_le
    rw [List.flatMap_cons, List.length_append, List.length_cons]
    omega

/-- Filling pools that were empty makes none of them longer than the code. -/
theorem Draft.Filed.within {values : List Value} {fields : List (List String)} {lines : List Line}
    {d : Draft} {n : Nat} (h : ({} : Draft).Filed values fields lines d) (hlines : lines.length ≤ n)
    (hrecords : d.records ≤ n) (hregisters : d.registers ≤ n) : d.Within n where
  records := hrecords
  registers := hregisters
  constants := by
    rw [← h.constants.length_eq, loadsOf, List.length_map]
    exact Nat.le_trans (List.length_filter_le _ _) hlines
  strings :=
    Nat.le_trans h.strings.length_le (Nat.le_trans (length_flatMap_names_le lines) hlines)
  spans := by
    have hspans := h.spans.length_le
    rw [List.length_map] at hspans
    exact Nat.le_trans hspans hlines
  messageFields := by
    rw [← h.messageFields.length_eq, makesOf, List.length_map]
    exact Nat.le_trans (List.length_filter_le _ _) hlines

/-! ## Words -/

section

variable {d : Draft} {l : Line} {n k : Nat}

/-- A count is one of registers that have been handed out. -/
theorem Draft.HasRun.count_le (h : d.HasRun l)
    (hk : (.count, k) ∈ l.opcode.layout.zip l.slots) : k ≤ d.registers := by
  obtain ⟨opcode, dst, op1, op2, op3, span⟩ := l
  cases opcode <;> simp [Opcode.layout, Line.slots] at hk
  all_goals
    simp only [HasRun] at h
    omega

variable (hd : d.Within n) (hn : stride * n < wordLimit)
include hd hn

theorem Draft.Admits.lt_wordLimit {operand : Operand} (h : d.Admits operand k)
    (hcount : operand = .count → k ≤ d.registers) : k < wordLimit := by
  have hstride : n ≤ stride * n := Nat.le_mul_of_pos_left n (by decide)
  have := hd.registers
  cases operand with
  | unused =>
    obtain rfl : k = 0 := h
    decide
  | register => exact Nat.lt_of_lt_of_le h (by omega)
  | constant => exact Nat.lt_of_lt_of_le h (by have := hd.constants; omega)
  | string => exact Nat.lt_of_lt_of_le h (by have := hd.strings; omega)
  | messageFields => exact Nat.lt_of_lt_of_le h (by have := hd.messageFields; omega)
  | target =>
    obtain ⟨m, hm, rfl⟩ := h
    exact Nat.lt_of_le_of_lt (Nat.mul_le_mul_left _ (Nat.le_trans hm hd.records)) hn
  | operator =>
    obtain ⟨op, rfl⟩ := h
    exact Nat.lt_trans op.index_lt_count (by decide)
  | role =>
    obtain ⟨role, rfl⟩ := h
    exact toNat_lt_wordLimit _
  | count =>
    have := hcount rfl
    omega

/-- A record that refers to what a small draft has fits in words. -/
theorem Line.WellFormed.fits (h : l.WellFormed d) : l.fits := by
  have hspan : l.span < wordLimit := by
    have := h.span
    have := hd.spans
    have : n ≤ stride * n := Nat.le_mul_of_pos_left n (by decide)
    omega
  refine List.all_eq_true.2 fun k hk => decide_eq_true ?_
  rcases List.mem_cons.1 hk with rfl | hk
  · exact hspan
  · -- What an operand may be is said by its place in the layout, so the two are read together.
    have hlength : l.slots.length ≤ l.opcode.layout.length :=
      Nat.le_of_eq l.opcode.length_layout.symm
    rw [← List.map_snd_zip hlength] at hk
    obtain ⟨⟨operand, k⟩, hzip, rfl⟩ := List.mem_map.1 hk
    refine (List.forall₂_zip h.slots hzip).lt_wordLimit hd hn ?_
    rintro rfl
    exact h.run.count_le hzip

end

/-! ## Programs -/

theorem Expr.sound_lowerWhole (macros : Bool) (e : Expr) :
    (e.lowerWhole macros).Sound {} fun _ _ => True :=
  (e.sound_lower macros {}).bind fun _ _ _ hv => sound_emit rfl (slots rfl rfl hv rfl rfl) trivial

/-- No part of the code of an expression is larger than what is enough for its nodes. -/
theorem Expr.within_lowerWhole (macros : Bool) (e : Expr) :
    (e.lowerWhole macros {}).draft.Within (22 * e.nodes.length) := by
  have hroom : e.room + 1 ≤ 22 * e.nodes.length := by
    have := e.length_nodes_pos
    rw [room]
    omega
  have : Takes (e.lowerWhole macros) (e.room + 1) := by
    have := e.takes_lower macros
    rw [lowerWhole]
    exact inferInstance
  have : Lawful (e.lowerWhole macros) := by
    rw [lowerWhole]
    exact inferInstance
  have hrecords : (e.lowerWhole macros {}).draft.records ≤ 0 + (e.room + 1) :=
    Takes.records_le {}
  have hregisters : (e.lowerWhole macros {}).draft.registers ≤ 0 + (e.room + 1) :=
    Takes.registers_le {}
  have hlines : (e.lowerWhole macros {}).draft.records =
      0 + (e.lowerWhole macros {}).lines.length := records {}
  exact ((e.files_lowerWhole macros).filed {}).within (by omega) (by omega) (by omega)

/-- An expression of up to sixteen million nodes has a program, whatever names and spans
    there are in it. -/
theorem exists_compile_of_nodes (options : CompileOptions) {e : Expr}
    (h : e.nodes.length ≤ 2 ^ 24) : ∃ p, compile options e = .ok p := by
  have hwithin := e.within_lowerWhole options.macros
  have hsize : stride * (22 * e.nodes.length) < wordLimit :=
    Nat.lt_of_le_of_lt (Nat.mul_le_mul_left stride (Nat.mul_le_mul_left 22 h)) (by decide)
  have hregisters := hwithin.registers
  have hstride : 22 * e.nodes.length ≤ stride * (22 * e.nodes.length) :=
    Nat.le_mul_of_pos_left _ (by decide)
  refine ⟨_, compile_of_fits (Bool.and_eq_true_iff.2 ⟨decide_eq_true ?_, List.all_eq_true.2 ?_⟩)⟩
  · exact Nat.lt_of_le_of_lt (Nat.le_trans hregisters hstride) hsize
  · exact fun l hl =>
      ((e.sound_lowerWhole options.macros).wellFormed l hl).fits hwithin hsize

/-- The expression has a program, which comes to an end with the result and with no other. -/
def Expr.Gives (h : Host) (env : Environment) (e : Expr) (r : Except EvalError Value) : Prop :=
  ∃ p, compile {} e = .ok p ∧ (∃ fuel, ((h.machine p).execute fuel env).isSome) ∧
    ∀ fuel x, (h.machine p).execute fuel env = some x → x.result = r

section

variable {h : Host} {env : Environment} {e : Expr}

/-- An expression gives one result. -/
theorem Expr.Gives.eq {r r' : Except EvalError Value} (hr : e.Gives h env r)
    (hr' : e.Gives h env r') : r = r' := by
  obtain ⟨p, hp, ⟨fuel, hfuel⟩, hr⟩ := hr
  obtain ⟨p', hp', -, hr'⟩ := hr'
  obtain rfl := Except.ok.inj (hp.symm.trans hp')
  obtain ⟨x, hx⟩ := Option.isSome_iff_exists.1 hfuel
  exact (hr fuel x hx).symm.trans (hr' fuel x hx)

/-- An expression that is not enormous gives what it evaluates to. -/
theorem Expr.gives_of_outcome (hsize : e.nodes.length ≤ 2 ^ 24) {r : Except EvalError Value}
    (hr : (e.eval h true env).outcome true = r) : e.Gives h env r := by
  obtain ⟨p, hp⟩ := exists_compile_of_nodes {} hsize
  obtain ⟨fuel, hfuel⟩ := Machine.exists_execute_eq (m := h.machine p) hp env
  refine ⟨p, hp, ⟨fuel, by rw [hfuel]; rfl⟩, fun fuel' x hx => ?_⟩
  rw [Machine.execute_eq_execution hp hx, Evaluation.result_execution, hr]

theorem Expr.gives_of_eval (hsize : e.nodes.length ≤ 2 ^ 24) {r : Except EvalError Value}
    (hr : e.eval h true env = Evaluation.ofResult r) : e.Gives h env r := by
  refine gives_of_outcome hsize ?_
  rw [hr]
  cases r <;> rfl

theorem Expr.gives_of_denotes (hsize : e.nodes.length ≤ 2 ^ 24) {v : Value}
    (hv : (e.eval h true env).Denotes v) : e.Gives h env (.ok v) :=
  gives_of_outcome hsize (hv true)

end

end ExprMachine
