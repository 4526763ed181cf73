import ExprMachine.Proofs.LoopStructure
import ExprMachine.Proofs.Pools

/-!
# The loops of expressions are nested

All code of expressions is of the grammar of loops, whatever is around it (`Expr.loops_lower`): the
code of a comprehension is a loop, and its bodies lie in the loop. So in the program of an
expression a jump that does not go forward goes back to the head of a loop that it is in, and two
loops are disjoint or one is inside the other one (`Program.WellNested`).
-/

namespace ExprMachine

namespace Build

variable {α β : Type}

/-- The loops of the code of a piece are nested, with a loop around it or none. -/
class Loops (around : Option Around) (x : Build α) : Prop where
  looping : ∀ d : Draft, Looping around d.records (x d).lines

variable {around : Option Around} {a : Around}

instance (b : α) : Loops around (pure b : Build α) := ⟨fun _ => .nil⟩

instance (x : Build α) (f : α → Build β) [Lawful x] [hx : Loops around x]
    [hf : ∀ b, Loops around (f b)] : Loops around (x >>= f) where
  looping d := by
    have hy := (hf (x d).value).looping (x d).draft
    rw [Lawful.records] at hy
    exact .append (hx.looping d) hy

instance (n : Nat) : Loops around (block n) := ⟨fun _ => .nil⟩

instance : Loops around fresh := ⟨fun _ => .nil⟩

instance (s : String) : Loops around (string s) := ⟨fun _ => .nil⟩

instance (v : Value) : Loops around (constant v) := ⟨fun _ => .nil⟩

instance (names : List String) : Loops around (fields names) := ⟨fun _ => .nil⟩

section

variable (opcode : Opcode) (dst op1 op2 op3 : Nat) (s : Span)

instance [h : Fact opcode.Straight] : Loops around (emit opcode dst op1 op2 op3 s) :=
  ⟨fun _ => .straight h.out⟩

instance [h : Fact opcode.isJump] :
    Loops (some a) (emit opcode dst (stride * a.head) op2 op3 s) :=
  ⟨fun _ => .back h.out rfl⟩

instance : Loops (some a) (emit .listAppend a.result op1 op2 op3 s) :=
  ⟨fun _ => .collect rfl rfl⟩

end

instance (opcode : Opcode) [h : Fact opcode.isJump] (tested : Nat) (s : Span) (x : Build α)
    [Lawful x] [hx : Loops around x] : Loops around (jumpOver opcode tested s x) where
  looping d := by
    rw [jumpOver, skipping_apply]
    refine .forward h.out ?_ (hx.looping (reserved d s))
    show stride * (x (reserved d s)).draft.records = _
    rw [Lawful.records, records_reserved, Nat.add_right_comm]

end Build

namespace Opcode

instance : Fact (isJump .jump) := ⟨rfl⟩

instance : Fact (isJump .jumpIfFalse) := ⟨rfl⟩

instance : Fact (isJump .jumpIfTrue) := ⟨rfl⟩

instance (c : Prop) [Decidable c] : Fact (isJump (if c then .jumpIfFalse else .jumpIfTrue)) := by
  split <;> exact inferInstance

end Opcode

namespace Lowering

open Build

variable {around : Option Around} (s : Span)

/-! ## The code of constructs -/

instance (l : Literal) : Loops around (literal l s) := by
  rw [literal]
  match l with
  | .null | .bool true | .bool false => exact inferInstance
  | .int _ | .uint _ | .double _ | .string _ | .bytes _ => exact inferInstance

instance (op : UnaryOperator) : Fact (unaryOpcode op).Straight := by
  cases op <;> exact inferInstanceAs (Fact True)

theorem loops_moveAll (regs : List Nat) (base : Nat) : Loops around (moveAll base s regs) := by
  induction regs generalizing base with
  | nil => exact inferInstanceAs (Loops around (pure ()))
  | cons r rest ih =>
    have := ih (base + 1)
    rw [moveAll]
    exact inferInstance

instance (base : Nat) (regs : List Nat) : Loops around (moveAll base s regs) :=
  loops_moveAll s regs base

instance (regs : List Nat) : Loops around (consecutive regs s) := by
  rw [consecutive]
  exact inferInstance

instance (opcode : Opcode) [Fact opcode.Straight] (regs : List Nat) (count : Nat) :
    Loops around (aggregate opcode regs count s) := by
  rw [aggregate]
  exact inferInstance

instance (typeName : String) (names : List String) (regs : List Nat) :
    Loops around (message typeName names regs s) := by
  rw [message]
  exact inferInstance

instance (function : String) (regs : List Nat) : Loops around (call function regs s) := by
  rw [call]
  exact inferInstance

section

variable (x y : Build Nat) [Lawful x] [Lawful y] [Loops around x] [Loops around y]

instance (opcode : Opcode) [Fact opcode.Straight] (field : String) :
    Loops around (select opcode x field s) := by
  rw [select]
  exact inferInstance

instance (op : BinaryOperator) : Loops around (shortCircuit op x y s) := by
  rw [shortCircuit]
  exact inferInstance

instance (op : BinaryOperator) : Loops around (strict op x y s) := by
  rw [strict]
  exact inferInstance

instance (result : Nat) : Loops around (branch result x s) := by
  rw [branch]
  exact inferInstance

end

/-- A jump over a piece that leads to the record behind the jump over another piece. -/
theorem loops_choice (test : Nat) (x y : Build Unit) [Lawful x] [Lawful y] [hx : Loops around x]
    [hy : Loops around y] :
    Loops around (do
      skipping (fun target i => ⟨.jumpIfFalse, test, target + stride, 0, 0, i⟩) s x
      skipping (fun target i => ⟨.jump, 0, target, 0, 0, i⟩) s y : Build Unit) where
  looping d := by
    let e := (x (reserved d s)).draft
    have he : e.records = d.records + (x (reserved d s)).lines.length + 1 := by
      rw [Lawful.records, records_reserved, Nat.add_right_comm]
    have hy := hy.looping (reserved e s)
    rw [records_reserved, he] at hy
    rw [lines_bind, skipping_apply, skipping_apply]
    refine .choice rfl ?_ (hx.looping (reserved d s)) rfl ?_ hy
    · show stride * e.records + stride = _
      rw [he, ← Nat.mul_succ]
    · show stride * (y (reserved e s)).draft.records = _
      rw [Lawful.records, records_reserved, he]

instance (condition : Body) (whenTrue whenFalse : Build Nat) [Lawful condition.build]
    [Lawful whenTrue] [Lawful whenFalse] [Loops around condition.build] [Loops around whenTrue]
    [Loops around whenFalse] : Loops around (choose condition whenTrue whenFalse s) := by
  have heq : choose condition whenTrue whenFalse s = (do
      let test ← condition.build
      emit .condCheck 0 test ConditionRole.conditional.tag.toNat 0 condition.span
      let result ← fresh
      (do
        skipping (fun target i => ⟨.jumpIfFalse, test, target + stride, 0, 0, i⟩) s
          (branch result whenTrue s)
        skipping (fun target i => ⟨.jump, 0, target, 0, 0, i⟩) s (branch result whenFalse s))
      pure result) := by
    simp only [choose_eq, bind_assoc]
  have (test result : Nat) : Loops around _ :=
    loops_choice s test (branch result whenTrue s) (branch result whenFalse s)
  rw [heq]
  exact inferInstance

instance (body : Body) (role : ConditionRole) [Lawful body.build] [Loops around body.build] :
    Loops around (guarded body role) := by
  rw [guarded]
  exact inferInstance

/-! ## The code of comprehensions -/

section

variable {form : Comprehension Body} (hlawful : ∀ b ∈ form.bodies, Lawful b.build)
  (h : ∀ b ∈ form.bodies, ∀ around, Loops around b.build)

instance {β : Type} (form : Comprehension β) (acc : Nat) : Loops around (start form acc s) := by
  cases form <;> exact inferInstanceAs (Loops around (emit _ _ _ _ _ _))

include hlawful h

/-- The code for an item goes back to the head of the loop and appends to its result. -/
theorem loops_loopBody (a : Around) (item : Nat) :
    Loops (some a) (loopBody form a.result item (stride * a.head) s) := by
  cases form with
  | all b | «exists» b | existsOne b | filter b | transform b =>
    have := hlawful b (List.mem_singleton_self b)
    have := h b (List.mem_singleton_self b)
    rw [loopBody]
    exact inferInstance
  | filterTransform p b =>
    have := hlawful p List.mem_cons_self
    have := h p List.mem_cons_self
    have := hlawful b (List.mem_cons_of_mem p (List.mem_singleton_self b))
    have := h b (List.mem_cons_of_mem p (List.mem_singleton_self b))
    rw [loopBody]
    exact inferInstance

theorem loops_turn (x : String) (a : Around) (item : Nat) :
    Loops (some a) (turn x form a.result item (stride * a.head) s) := by
  have := lawful_loopBody form hlawful
  have := loops_loopBody s hlawful h a item
  rw [turn]
  exact inferInstance

/-- The loop, in its scope, and the record that moves its result. -/
theorem loops_scoped (x : String) (iterator acc : Nat) :
    Loops around (do
      emit .scopePush 0 0 0 0 s
      loop x form iterator acc s
      emit .scopePop 0 0 0 0 s
      let result ← fresh
      emit .move result acc 0 0 s
      pure result : Build Nat) where
  looping d := by
    -- The loop begins behind the record that enters the scope, with the register of the item.
    let a : Around := ⟨d.records + 1, acc⟩
    let d' : Draft := reserved (fresh (reserved d s)).draft s
    let item := (fresh (reserved d s)).value
    have := lawful_turn x form hlawful acc item (stride * a.head) s
    have hturn := (loops_turn s hlawful h x a item).looping d'
    rw [lines_bind, lines_bind, loop, lines_bind, lines_bind, skipping_apply]
    refine .loop rfl rfl ?_ hturn rfl rfl rfl
    show stride * (turn x form acc item (stride * a.head) s d').draft.records = _
    have hplace : d'.records = d.records + 2 := rfl
    rw [Lawful.records, hplace, Nat.add_right_comm]
    rfl

theorem loops_comprehension {target : Build Nat} [Lawful target] [Loops around target]
    (x : String) : Loops around (comprehension target x form s) := by
  have (iterator : Nat) := valued_rounds x form hlawful iterator s
  have (iterator : Nat) : Loops around (rounds x form iterator s) := by
    have := lawful_loop x form hlawful
    have (acc : Nat) : Loops around _ := loops_scoped s hlawful h x iterator acc
    rw [rounds]
    exact inferInstance
  rw [comprehension_eq]
  exact inferInstance

end

end Lowering

/-! ## The code of expressions -/

open Build Lowering

variable {around : Option Around}

theorem loops_lowerAll (macros : Bool) (es : List Expr)
    (h : ∀ e ∈ es, Loops around (e.lower macros)) : Loops around (lowerAll macros es) := by
  induction es with
  | nil => exact inferInstanceAs (Loops around (pure []))
  | cons e rest ih =>
    have := h e List.mem_cons_self
    have := ih fun e he => h e (List.mem_cons_of_mem _ he)
    rw [lowerAll]
    exact inferInstance

/-- The loops of the code of every expression are nested, whatever is around it. -/
instance Expr.loops_lower (macros : Bool) (e : Expr) (around : Option Around) :
    Loops around (e.lower macros) := by
  induction e using Expr.induct generalizing around with
  | step e ih =>
    cases e with
    | literal l s =>
      rw [lower]
      exact inferInstance
    | ident name s =>
      rw [lower]
      exact inferInstance
    | list items s =>
      have := loops_lowerAll macros items fun a ha => ih a ha around
      rw [lower]
      exact inferInstance
    | map entries s =>
      have : Loops around (lowerAll macros (entries.flatMap fun p => [p.1, p.2])) :=
        loops_lowerAll macros _ fun a ha => ih a ha around
      rw [lower, lowerEntries_eq]
      exact inferInstance
    | message typeName fields s =>
      have : Loops around (lowerAll macros (fields.map Prod.snd)) :=
        loops_lowerAll macros _ fun a ha => ih a ha around
      rw [lower, lowerFields_eq]
      exact inferInstance
    | unary op operand s =>
      have := ih operand (by simp [parts]) around
      rw [lower]
      exact inferInstance
    | binary op left right s =>
      have := ih left (by simp [parts]) around
      have := ih right (by simp [parts]) around
      rw [lower]
      split <;> exact inferInstance
    | conditional c whenTrue whenFalse s =>
      have := ih c (by simp [parts]) around
      have := ih whenTrue (by simp [parts]) around
      have := ih whenFalse (by simp [parts]) around
      rw [lower]
      exact inferInstance
    | member operand field s =>
      have := ih operand (by simp [parts]) around
      rw [lower]
      exact inferInstance
    | index operand position s =>
      have := ih operand (by simp [parts]) around
      have := ih position (by simp [parts]) around
      rw [lower]
      exact inferInstance
    | call function args s =>
      rw [lower_call]
      split
      · rename_i operand field hp
        have := ih operand (mem_parts_of_presence? hp) around
        exact inferInstance
      · have := loops_lowerAll macros args fun a ha => ih a (List.mem_append_left _ ha) around
        exact inferInstance
    | method target function args s =>
      have := ih target List.mem_cons_self around
      rw [lower_method]
      split
      · rename_i x form hf
        refine loops_comprehension s (lawful_bodies macros form) (fun b hb around => ?_) x
        -- A body lies in the loop, not in what is around the comprehension.
        obtain ⟨a, ha, rfl⟩ := Comprehension.mem_bodies_map hb
        exact ih a (List.mem_cons_of_mem _ (mem_args_of_loop? hf a ha)) around
      · have := loops_lowerAll macros args fun a ha => ih a (List.mem_cons_of_mem _ ha) around
        exact inferInstance
    | paren inner s =>
      rw [lower]
      exact ih inner (by simp [parts]) around

theorem Expr.loops_lowerWhole (macros : Bool) (e : Expr) : Loops none (e.lowerWhole macros) := by
  rw [lowerWhole]
  exact inferInstance

/-! ## Programs -/

namespace Program

/-- The record at an offset is a jump to another one. -/
def Jumps (p : Program) (o t : Nat) : Prop :=
  ∃ i, p.fetch o = .ok i ∧ i.opcode.isJump ∧ i.op1.toNat = t

/-- The record at an offset gives the next item of an iterator, or leads to another offset if there
    is none. -/
def Iterates (p : Program) (head exit : Nat) : Prop :=
  ∃ i, p.fetch head = .ok i ∧ i.opcode = .iterNext ∧ i.op2.toNat = exit

/-- The loops of a program have one entry each and are nested. -/
structure WellNested (p : Program) : Prop where
  /-- A jump goes forward, or back to the head of a loop that it is in. -/
  jump : ∀ o t, p.Jumps o t → o < t ∨ t ≤ o ∧ ∃ exit, p.Iterates t exit ∧ o < exit
  /-- A loop ends behind its head. -/
  exit : ∀ head exit, p.Iterates head exit → head < exit
  /-- Nothing outside of a loop leads into it. -/
  entry : ∀ head exit, p.Iterates head exit → ∀ o t, p.Jumps o t ∨ p.Iterates o t →
    ¬ (head ≤ o ∧ o < exit) → ¬ (head ≤ t ∧ t < exit)
  /-- Two loops are disjoint, or one is inside the other one. -/
  nested : ∀ head exit head' exit', p.Iterates head exit → p.Iterates head' exit' →
    exit ≤ head' ∨ exit' ≤ head ∨ head ≤ head' ∧ exit' ≤ exit ∨ head' ≤ head ∧ exit ≤ exit'

end Program

open Program

section

variable {a : Assembly} (hfits : ∀ l ∈ a.lines, l.fits) {o t head exit : Nat}

theorem Assembly.exists_lineAt_of_fetch {i : Instruction} (h : a.toProgram.fetch o = .ok i) :
    ∃ k l, o = stride * k ∧ LineAt 0 a.lines k l ∧ i = l.toInstruction := by
  have hdvd : stride ∣ a.toProgram.code.size := ⟨_, a.size_code⟩
  obtain ⟨k, hk, rfl⟩ := exists_place_of_fetch hdvd h
  rw [a.length_toProgram] at hk
  have hl := List.getElem?_eq_getElem hk
  rw [a.fetch_toProgram hl] at h
  exact ⟨k, _, rfl, ⟨k, hl, (Nat.zero_add k).symm⟩, (Except.ok.inj h).symm⟩

include hfits

/-- A jump of the program is one of the lines. -/
theorem Assembly.exists_of_jumps (h : a.toProgram.Jumps o t) :
    ∃ k l, o = stride * k ∧ LineAt 0 a.lines k l ∧ t ∈ l.targets := by
  obtain ⟨i, hi, hjump, rfl⟩ := h
  obtain ⟨k, l, rfl, hl, rfl⟩ := exists_lineAt_of_fetch hi
  refine ⟨k, l, rfl, hl, ?_⟩
  rw [Line.targets_of_isJump hjump, List.mem_singleton]
  exact toNat_ofNat_of_lt (Line.fits_iff.1 (hfits _ hl.mem)).2.2.1

/-- So is a record that gives the next item. -/
theorem Assembly.exists_of_iterates (h : a.toProgram.Iterates head exit) :
    ∃ k l, head = stride * k ∧ LineAt 0 a.lines k l ∧ l.opcode = .iterNext ∧ l.op2 = exit := by
  obtain ⟨i, hi, hnext, rfl⟩ := h
  obtain ⟨k, l, rfl, hl, rfl⟩ := exists_lineAt_of_fetch hi
  refine ⟨k, l, rfl, hl, hnext, ?_⟩
  exact (toNat_ofNat_of_lt (Line.fits_iff.1 (hfits _ hl.mem)).2.2.2.1).symm

/-- The loops of the lines are loops of the program. -/
theorem Assembly.iterates_of_loopAt (h : LoopAt 0 a.lines head exit) :
    a.toProgram.Iterates (stride * head) (stride * exit) := by
  obtain ⟨l, hl, hnext, hop2⟩ := h
  have hlt := (Line.fits_iff.1 (hfits _ hl.mem)).2.2.2.1
  obtain ⟨k, hk, rfl⟩ := hl
  rw [Nat.zero_add]
  exact ⟨_, a.fetch_toProgram hk, hnext, (toNat_ofNat_of_lt hlt).trans hop2⟩

namespace Looping

variable (h : Looping none 0 a.lines)
include h

/-- A record that gives the next item leads to the place where its loop ends. -/
theorem exists_loopAt_of_iterates (hi : a.toProgram.Iterates head exit) :
    ∃ j e, head = stride * j ∧ exit = stride * e ∧ LoopAt 0 a.lines j e := by
  obtain ⟨j, l, rfl, hl, hnext, hop2⟩ := Assembly.exists_of_iterates hfits hi
  obtain ⟨e, rfl, -⟩ := h.leads hl (hop2 ▸ Line.op2_mem_targets hnext)
  exact ⟨j, e, rfl, rfl, l, hl, hnext, hop2⟩

/-- A record that leads elsewhere leads to a place. -/
theorem exists_places (ho : a.toProgram.Jumps o t ∨ a.toProgram.Iterates o t) :
    ∃ k j l, o = stride * k ∧ t = stride * j ∧ LineAt 0 a.lines k l ∧ stride * j ∈ l.targets := by
  rcases ho with hjumps | hiterates
  · obtain ⟨k, l, rfl, hl, ht⟩ := Assembly.exists_of_jumps hfits hjumps
    obtain ⟨j, rfl, -⟩ := h.leads hl ht
    exact ⟨k, j, l, rfl, rfl, hl, ht⟩
  · obtain ⟨k, j, rfl, rfl, l, hl, hnext, hop2⟩ := h.exists_loopAt_of_iterates hfits hiterates
    exact ⟨k, j, l, rfl, rfl, hl, hop2 ▸ Line.op2_mem_targets hnext⟩

/-- The program of lines whose loops are nested has nested loops. -/
theorem wellNested : a.toProgram.WellNested := by
  -- Places in the code are turned into places among the lines, where all of it has been proved.
  have hpos : 0 < stride := by decide
  have haround : ∀ b ∈ (none : Option Around), b.head < 0 := by rintro b ⟨⟩
  refine ⟨fun o t ho => ?_, fun head exit hi => ?_, fun head exit hi o t ho => ?_,
    fun head exit head' exit' hi hi' => ?_⟩
  · obtain ⟨k, j, l, rfl, rfl, hl, ht⟩ := h.exists_places hfits (.inl ho)
    obtain ⟨j', hj, hleads⟩ := h.leads hl ht
    obtain rfl := stride_inj.1 hj
    rcases hleads with ⟨hkj, -⟩ | ⟨hjk, e, hloop, hke⟩ | ⟨b, ⟨⟩, -⟩
    · exact .inl (Nat.mul_lt_mul_of_pos_left hkj hpos)
    · exact .inr ⟨Nat.mul_le_mul_left _ hjk, _, Assembly.iterates_of_loopAt hfits hloop,
        Nat.mul_lt_mul_of_pos_left hke hpos⟩
  · obtain ⟨j, e, rfl, rfl, hloop⟩ := h.exists_loopAt_of_iterates hfits hi
    exact Nat.mul_lt_mul_of_pos_left (h.shape hloop).2.1 hpos
  · obtain ⟨j, e, rfl, rfl, hloop⟩ := h.exists_loopAt_of_iterates hfits hi
    obtain ⟨k, i, l, rfl, rfl, hl, ht⟩ := h.exists_places hfits ho
    simp only [Nat.mul_le_mul_left_iff hpos, Nat.mul_lt_mul_left hpos]
    exact (h.respects haround hloop hl ht).2
  · obtain ⟨j, e, rfl, rfl, hloop⟩ := h.exists_loopAt_of_iterates hfits hi
    obtain ⟨j', e', rfl, rfl, hloop'⟩ := h.exists_loopAt_of_iterates hfits hi'
    have hnested := h.nested haround hloop hloop'
    simpa only [Nat.mul_le_mul_left_iff hpos] using hnested

end Looping

end

/-- The loops of the program of an expression have one entry each and are nested. -/
theorem Program.wellNested_of_compile {options : CompileOptions} {e : Expr} {p : Program}
    (h : compile options e = .ok p) : p.WellNested := by
  obtain ⟨hfits, rfl⟩ := compile_eq_ok_iff.1 h
  obtain ⟨-, hlines⟩ := Bool.and_eq_true_iff.1 hfits
  exact Looping.wellNested (List.all_eq_true.1 hlines)
    ((e.loops_lowerWhole options.macros).looping {})

/-- The expression `[[true]].map(x, x.all(y, y ? true : false))`. -/
def mapOfAllChoices : Expr :=
  .method (.list [.list [.literal (.bool true) ⟨2, 6⟩] ⟨1, 7⟩] ⟨0, 8⟩) "map"
    [.ident "x" ⟨13, 14⟩, .method (.ident "x" ⟨16, 17⟩) "all"
      [.ident "y" ⟨22, 23⟩, .conditional (.ident "y" ⟨25, 26⟩) (.literal (.bool true) ⟨29, 33⟩)
        (.literal (.bool false) ⟨36, 41⟩) ⟨25, 41⟩] ⟨16, 42⟩] ⟨0, 43⟩

/-- A loop in a loop, with a choice in the inner one. -/
theorem Program.wellNested_mapOfAllChoices : ∃ p, compile {} mapOfAllChoices = .ok p ∧
    p.WellNested ∧ p.Iterates 48 192 ∧ p.Iterates 84 168 := by
  have hcompile : compile {} mapOfAllChoices = .ok (mapOfAllChoices.assembly true).toProgram :=
    compile_of_fits (by decide +kernel)
  exact ⟨_, hcompile, wellNested_of_compile hcompile,
    ⟨_, (mapOfAllChoices.assembly true).fetch_toProgram (k := 8) rfl, rfl, rfl⟩,
    ⟨_, (mapOfAllChoices.assembly true).fetch_toProgram (k := 14) rfl, rfl, rfl⟩⟩

end ExprMachine
