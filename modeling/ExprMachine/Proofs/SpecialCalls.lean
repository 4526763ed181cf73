import ExprMachine.Proofs.Pools

/-!
# Calls with code of their own

A call is *special* if it has the shape of a comprehension or of a presence test
(`Expr.IsSpecial`). With macros it has code of its own, with records that no other code
has (`Opcode.isSpecial`); without them it is the call of a function like any other.

* Code has such a record exactly if macros are on and there is a special call among the
  nodes of the expression (`Expr.marks_lower`). It may be anywhere: if it is not special
  itself, the code of a node contains that of the expressions that it is made of.
* The code of an expression without special calls is the same with macros as without
  (`Expr.lower_congr_macros`).

So the programs of an expression with macros and without are one program exactly if it
has no special call (`compile_macros`).
-/

namespace ExprMachine

/-! ## Special calls -/

section

variable {β : Type} {function : String}

theorem presenceTest?_eq_some_iff {selections : List (Option (β × String))} {p : β × String} :
    presenceTest? function selections = some p ↔ function = "has" ∧ selections = [some p] := by
  match selections with
  | [] => simp [presenceTest?]
  | [none] => simp [presenceTest?]
  | [some q] => simp [presenceTest?]
  | none :: _ :: _ => simp [presenceTest?]
  | some _ :: _ :: _ => simp [presenceTest?]

/-- The names of the forms with one body. -/
def Comprehension.names : List String := ["all", "exists", "exists_one", "filter", "map"]

theorem Comprehension.isSome_ofBodies?_iff {bodies : List β} :
    (ofBodies? function bodies).isSome ↔
      (∃ b, bodies = [b] ∧ function ∈ names) ∨ ∃ p b, bodies = [p, b] ∧ function = "map" := by
  match bodies with
  | [] => simp [ofBodies?]
  | [b] =>
    simp only [ofBodies?, names]
    split_ifs <;> simp_all
  | [p, b] =>
    simp only [ofBodies?]
    split_ifs <;> simp_all
  | _ :: _ :: _ :: _ => simp [ofBodies?]

end

namespace Expr

/-- A call told by its shape. -/
inductive IsSpecial : Expr → Prop where
  /-- A presence test, `has(x.f)`. -/
  | presence {a operand : Expr} {field : String} {s s' : Span}
    (ha : a.unparen = .member operand field s') : IsSpecial (.call "has" [a] s)
  /-- A comprehension with one body, `t.all(x, b)` for instance. -/
  | one {target a b : Expr} {function x : String} {s s' : Span} (ha : a.unparen = .ident x s')
    (hfunction : function ∈ Comprehension.names) : IsSpecial (.method target function [a, b] s)
  /-- A comprehension with two bodies, `t.map(x, p, b)`. -/
  | two {target a p b : Expr} {x : String} {s s' : Span} (ha : a.unparen = .ident x s') :
    IsSpecial (.method target "map" [a, p, b] s)

section

variable {e operand : Expr} {field x : String}

theorem selected?_eq_some_iff :
    e.selected? = some (operand, field) ↔ ∃ s, e.unparen = .member operand field s := by
  fun_induction selected? e with
  | case1 inner s ih => rw [ih, unparen]
  | case2 operand' field' s => simp [unparen]
  | case3 e hparen hmember =>
    constructor
    · rintro ⟨⟩
    · rintro ⟨s, h⟩
      cases e <;> simp_all [unparen]

theorem asIdent?_eq_some_iff : e.asIdent? = some x ↔ ∃ s, e.unparen = .ident x s := by
  rw [asIdent?]
  cases e.unparen <;> simp

end

variable {macros : Bool} {function : String} {args : List Expr} (target : Expr) (s : Span)

/-- With macros, the calls that are special are taken for presence tests, -/
theorem isSome_presence?_iff :
    (presence? macros function args).isSome ↔ macros ∧ (call function args s).IsSpecial := by
  constructor
  · intro h
    obtain ⟨p, hp⟩ := Option.isSome_iff_exists.1 h
    obtain ⟨a, rfl, ha⟩ := args_of_presence? hp
    obtain ⟨s', ha⟩ := selected?_eq_some_iff.1 ha
    obtain ⟨hmacros, htest⟩ := Option.ite_none_right_eq_some.1 hp
    obtain ⟨rfl, -⟩ := presenceTest?_eq_some_iff.1 htest
    exact ⟨hmacros, .presence ha⟩
  · rintro ⟨rfl, ⟨ha⟩⟩
    rw [presence?, List.map_singleton, selected?_eq_some_iff.2 ⟨_, ha⟩]
    rfl

/-- and the calls with a target that are special for comprehensions. -/
theorem isSome_loop?_iff :
    (loop? macros function args).isSome ↔ macros ∧ (method target function args s).IsSpecial := by
  have hloop (x : String) (a : Expr) (bodies : List Expr) (ha : a.asIdent? = some x) :
      (loop? macros function (a :: bodies)).isSome ↔
        macros ∧ (Comprehension.ofBodies? function bodies).isSome := by
    rw [loop?, Comprehension.ofCall?, List.head?_cons, Option.bind_some, ha, List.tail_cons]
    cases macros <;> cases Comprehension.ofBodies? function bodies <;> simp
  constructor
  · intro h
    obtain ⟨⟨x, form⟩, hp⟩ := Option.isSome_iff_exists.1 h
    obtain ⟨a, rfl, ha⟩ := args_of_loop? hp
    obtain ⟨s', hs'⟩ := asIdent?_eq_some_iff.1 ha
    obtain ⟨hmacros, hform⟩ := (hloop _ _ _ ha).1 h
    refine ⟨hmacros, ?_⟩
    rcases Comprehension.isSome_ofBodies?_iff.1 hform with ⟨b, hb, hfunction⟩ | ⟨p, b, hb, rfl⟩
    · rw [hb]
      exact .one hs' hfunction
    · rw [hb]
      exact .two hs'
  · rintro ⟨hmacros, hspecial⟩
    rcases hspecial with _ | ⟨ha, hfunction⟩ | ha
    · exact (hloop _ _ _ (asIdent?_eq_some_iff.2 ⟨_, ha⟩)).2
        ⟨hmacros, Comprehension.isSome_ofBodies?_iff.2 (.inl ⟨_, rfl, hfunction⟩)⟩
    · exact (hloop _ _ _ (asIdent?_eq_some_iff.2 ⟨_, ha⟩)).2
        ⟨hmacros, Comprehension.isSome_ofBodies?_iff.2 (.inr ⟨_, _, rfl, rfl⟩)⟩

instance : DecidablePred IsSpecial := fun e =>
  match e with
  | .call function args s =>
    decidable_of_iff (presence? true function args).isSome (by simp [isSome_presence?_iff s])
  | .method target function args s =>
    decidable_of_iff (loop? true function args).isSome (by simp [isSome_loop?_iff target s])
  | .literal .. | .list .. | .map .. | .message .. | .unary .. | .binary .. | .conditional ..
  | .member .. | .index .. | .ident .. | .paren .. => .isFalse nofun

/-- Whether there is a special call among the nodes of an expression. -/
def hasSpecial (e : Expr) : Bool := e.nodes.any fun n => n.IsSpecial

theorem hasSpecial_eq (e : Expr) :
    e.hasSpecial = (e.children.any hasSpecial || decide e.IsSpecial) := by
  rw [hasSpecial, nodes_eq, List.any_append, List.any_flatMap, List.any_cons, List.any_nil,
    Bool.or_false]
  rfl

theorem hasSpecial_eq_false_iff {e : Expr} :
    e.hasSpecial = false ↔ ∀ n ∈ e.nodes, ¬ n.IsSpecial := by
  simp [hasSpecial]

end Expr

/-! ## Special records -/

/-- The records that the code of special calls has. -/
@[simp] def Opcode.isSpecial : Opcode → Bool
  | .hasField | .iterInit | .iterNext | .scopePush | .scopePop | .bindVar | .listAppend => true
  | _ => false

namespace Build

variable {α β : Type}

/-- Whether the piece has a special record, on every draft. -/
class Marks (x : Build α) (special : outParam Bool) : Prop where
  any_lines : ∀ d : Draft, (x d).lines.any (fun l => l.opcode.isSpecial) = special

export Marks (any_lines)

theorem Marks.of_eq {x : Build α} {b b' : Bool} [h : Marks x b'] (hb : b' = b) : Marks x b :=
  hb ▸ h

instance (a : α) : Marks (pure a : Build α) false := ⟨fun _ => rfl⟩

instance (x : Build α) (f : α → Build β) (b b' : Bool) [hx : Marks x b]
    [hf : ∀ a, Marks (f a) b'] : Marks (x >>= f) (b || b') where
  any_lines d := by rw [lines_bind, List.any_append, hx.any_lines, (hf _).any_lines]

/-- A piece with a special record has one whatever follows. -/
theorem Marks.before {x : Build α} (hx : Marks x true) (f : α → Build β) :
    Marks (x >>= f) true where
  any_lines d := by rw [lines_bind, List.any_append, hx.any_lines, Bool.true_or]

instance (n : Nat) : Marks (block n) false := ⟨fun _ => rfl⟩

instance : Marks fresh false := ⟨fun _ => rfl⟩

instance (s : String) : Marks (string s) false := ⟨fun _ => rfl⟩

instance (v : Value) : Marks (constant v) false := ⟨fun _ => rfl⟩

instance (names : List String) : Marks (fields names) false := ⟨fun _ => rfl⟩

instance (opcode : Opcode) (dst op1 op2 op3 : Nat) (s : Span) :
    Marks (emit opcode dst op1 op2 op3 s) opcode.isSpecial :=
  ⟨fun _ => Bool.or_false _⟩

instance (opcode : Opcode) (dst op1 op2 op3 : Nat → Nat) (s : Span) (x : Build α) (b : Bool)
    [hx : Marks x b] :
    Marks (skipping (fun t i => ⟨opcode, dst t, op1 t, op2 t, op3 t, i⟩) s x)
      (opcode.isSpecial || b) where
  any_lines d := by rw [skipping_apply, List.any_cons, hx.any_lines]

instance (opcode : Opcode) (tested : Nat) (s : Span) (x : Build α) (b : Bool) [Marks x b] :
    Marks (jumpOver opcode tested s x) (opcode.isSpecial || b) :=
  inferInstanceAs (Marks (skipping _ s x) _)

end Build

namespace Lowering

open Build

variable (s : Span)

instance (l : Literal) : Marks (literal l s) false := by
  rw [literal]
  match l with
  | .null | .bool true | .bool false => exact .of_eq rfl
  | .int _ | .uint _ | .double _ | .string _ | .bytes _ => exact .of_eq rfl

theorem marks_moveAll (regs : List Nat) (base : Nat) : Marks (moveAll base s regs) false := by
  induction regs generalizing base with
  | nil => exact inferInstanceAs (Marks (pure ()) false)
  | cons r rest ih =>
    have := ih (base + 1)
    rw [moveAll]
    exact .of_eq rfl

instance (base : Nat) (regs : List Nat) : Marks (moveAll base s regs) false :=
  marks_moveAll s regs base

instance (regs : List Nat) : Marks (consecutive regs s) false := by
  rw [consecutive]
  exact .of_eq rfl

instance (opcode : Opcode) (regs : List Nat) (count : Nat) :
    Marks (aggregate opcode regs count s) opcode.isSpecial := by
  rw [aggregate]
  exact .of_eq (by simp)

instance (typeName : String) (names : List String) (regs : List Nat) :
    Marks (message typeName names regs s) false := by
  rw [message]
  exact .of_eq rfl

instance (function : String) (regs : List Nat) : Marks (call function regs s) false := by
  rw [call]
  exact .of_eq rfl

section

variable (x y : Build Nat) (b b' : Bool) [Marks x b] [Marks y b']

instance (opcode : Opcode) (field : String) :
    Marks (select opcode x field s) (b || opcode.isSpecial) := by
  rw [select]
  exact .of_eq (by simp)

instance (op : BinaryOperator) : Marks (shortCircuit op x y s) (b || b') := by
  rw [shortCircuit]
  split <;> exact .of_eq (by simp)

instance (op : BinaryOperator) : Marks (strict op x y s) (b || b') := by
  rw [strict]
  exact .of_eq (by simp)

instance (result : Nat) : Marks (branch result x s) b := by
  rw [branch]
  exact .of_eq (by simp)

end

instance (condition : Body) (whenTrue whenFalse : Build Nat) (b b₁ b₂ : Bool)
    [Marks condition.build b] [Marks whenTrue b₁] [Marks whenFalse b₂] :
    Marks (choose condition whenTrue whenFalse s) (b || b₁ || b₂) := by
  rw [choose_eq]
  exact .of_eq (by simp [Bool.or_assoc])

/-- Every comprehension begins with a special record after its target. -/
theorem marks_comprehension (target : Build Nat) (b : Bool) [Marks target b] (x : String)
    (form : Comprehension Body) : Marks (comprehension target x form s) true := by
  have hinit (iterator source : Nat) : Marks (do
      emit .iterInit iterator source 0 0 s
      rounds x form iterator s) true :=
    .before (inferInstanceAs (Marks (emit .iterInit iterator source 0 0 s) _)) _
  rw [comprehension_eq]
  exact .of_eq (Bool.or_true b)

end Lowering

/-! ## The code of expressions -/

open Build Lowering

variable {macros : Bool}

theorem Expr.marks_of_children {x : Build Nat} {e : Expr} {b : Bool} [h : Marks x b]
    (hspecial : macros → ¬ e.IsSpecial) (hb : b = e.children.any fun c => macros && c.hasSpecial) :
    Marks x (macros && e.hasSpecial) := by
  refine h.of_eq (hb.trans ?_)
  cases macros with
  | false => simp
  | true => simp [hasSpecial_eq e, hspecial rfl]

theorem marks_lowerAll (es : List Expr)
    (h : ∀ e ∈ es, Marks (e.lower macros) (macros && e.hasSpecial)) :
    Marks (lowerAll macros es) (es.any fun e => macros && e.hasSpecial) := by
  induction es with
  | nil => exact inferInstanceAs (Marks (pure []) false)
  | cons e rest ih =>
    have := h e List.mem_cons_self
    have := ih fun e he => h e (List.mem_cons_of_mem _ he)
    rw [lowerAll]
    exact .of_eq (by simp)

/-- The code of an expression has a special record if macros are on and there is a special
    call in the expression, and only then. -/
theorem Expr.marks_lower (macros : Bool) (e : Expr) :
    Marks (e.lower macros) (macros && e.hasSpecial) := by
  induction e using Expr.induct with
  | step e ih =>
    cases e with
    | literal l s =>
      rw [lower]
      exact marks_of_children (by rintro - ⟨⟩) (by simp [parts])
    | ident name s =>
      rw [lower]
      exact marks_of_children (by rintro - ⟨⟩) (by simp [parts])
    | list items s =>
      have := marks_lowerAll items ih
      rw [lower]
      exact marks_of_children (by rintro - ⟨⟩) (by simp [parts])
    | map entries s =>
      have := marks_lowerAll (entries.flatMap fun p : Expr × Expr => [p.1, p.2]) ih
      rw [lower, lowerEntries_eq]
      exact marks_of_children (by rintro - ⟨⟩) (by simp [parts])
    | message typeName fields s =>
      have := marks_lowerAll (fields.map Prod.snd) ih
      rw [lower, lowerFields_eq]
      exact marks_of_children (by rintro - ⟨⟩) (by simp [parts])
    | unary op operand s =>
      have := ih operand (by simp [parts])
      rw [lower]
      cases op <;> exact marks_of_children (by rintro - ⟨⟩) (by simp [parts, unaryOpcode])
    | binary op left right s =>
      have := ih left (by simp [parts])
      have := ih right (by simp [parts])
      rw [lower]
      split <;> exact marks_of_children (by rintro - ⟨⟩) (by simp [parts])
    | conditional c whenTrue whenFalse s =>
      have := ih c (by simp [parts])
      have := ih whenTrue (by simp [parts])
      have := ih whenFalse (by simp [parts])
      rw [lower]
      exact marks_of_children (by rintro - ⟨⟩) (by simp [parts, Bool.or_assoc])
    | member operand field s =>
      have := ih operand (by simp [parts])
      rw [lower]
      exact marks_of_children (by rintro - ⟨⟩) (by simp [parts])
    | index operand position s =>
      have := ih operand (by simp [parts])
      have := ih position (by simp [parts])
      rw [lower]
      exact marks_of_children (by rintro - ⟨⟩) (by simp [parts])
    | call function args s =>
      rw [lower_call]
      split
      · rename_i operand field hp
        -- The code is that of the operand, which is no child, so `marks_of_children` is of no use.
        have := ih operand (mem_parts_of_presence? hp)
        obtain ⟨rfl, hspecial⟩ := (isSome_presence?_iff s).1 (Option.isSome_of_eq_some hp)
        exact .of_eq (by simp [hasSpecial_eq, hspecial])
      · rename_i hp
        have := marks_lowerAll args fun a ha => ih a (List.mem_append_left _ ha)
        refine marks_of_children (fun hmacros hspecial => ?_) (by simp)
        simpa [hp] using (isSome_presence?_iff s).2 ⟨hmacros, hspecial⟩
    | method target function args s =>
      have := ih target List.mem_cons_self
      rw [lower_method]
      split
      · rename_i x form hf
        obtain ⟨rfl, hspecial⟩ :=
          (isSome_loop?_iff target s).1 (Option.isSome_of_eq_some hf)
        have := marks_comprehension s (target.lower true) _ x (form.map (body true))
        exact .of_eq (by simp [hasSpecial_eq, hspecial])
      · rename_i hf
        have := marks_lowerAll args fun a ha => ih a (List.mem_cons_of_mem _ ha)
        refine marks_of_children (fun hmacros hspecial => ?_) (by simp [parts])
        simpa [hf] using (isSome_loop?_iff target s).2 ⟨hmacros, hspecial⟩
    | paren inner s =>
      have := ih inner (by simp [parts])
      rw [lower]
      exact marks_of_children (by rintro - ⟨⟩) (by simp [parts])

theorem lowerAll_congr_macros (es : List Expr) (h : ∀ e ∈ es, e.lower true = e.lower false) :
    lowerAll true es = lowerAll false es := by
  induction es with
  | nil => rfl
  | cons e rest ih =>
    rw [lowerAll, lowerAll, h e List.mem_cons_self,
      ih fun e he => h e (List.mem_cons_of_mem _ he)]

theorem Expr.mem_parts_of_mem_children {e c : Expr} (h : c ∈ e.children) : c ∈ e.parts := by
  cases e with
  | call function args s => exact List.mem_append_left _ h
  | _ => exact h

/-- Without special calls, the code is the same with macros as without. -/
theorem Expr.lower_congr_macros {e : Expr} (h : e.hasSpecial = false) :
    e.lower true = e.lower false := by
  induction e using Expr.induct with
  | step e ih =>
    rw [hasSpecial_eq, Bool.or_eq_false_iff, decide_eq_false_iff_not, List.any_eq_false] at h
    obtain ⟨hchildren, hspecial⟩ := h
    have hlower : ∀ c ∈ e.children, c.lower true = c.lower false := fun c hc =>
      ih c (mem_parts_of_mem_children hc) (Bool.eq_false_iff.2 (hchildren c hc))
    cases e with
    | literal l s => rw [lower, lower]
    | ident name s => rw [lower, lower]
    | list items s => rw [lower, lower, lowerAll_congr_macros items hlower]
    | map entries s =>
      rw [lower, lower, lowerEntries_eq, lowerEntries_eq,
        lowerAll_congr_macros (entries.flatMap fun p : Expr × Expr => [p.1, p.2]) hlower]
    | message typeName fields s =>
      rw [lower, lower, lowerFields_eq, lowerFields_eq,
        lowerAll_congr_macros (fields.map Prod.snd) hlower]
    | unary op operand s => rw [lower, lower, hlower operand (by simp [parts])]
    | binary op left right s =>
      rw [lower, lower, hlower left (by simp [parts]), hlower right (by simp [parts])]
    | conditional c whenTrue whenFalse s =>
      rw [lower, lower, hlower c (by simp [parts]), hlower whenTrue (by simp [parts]),
        hlower whenFalse (by simp [parts])]
    | member operand field s => rw [lower, lower, hlower operand (by simp [parts])]
    | index operand position s =>
      rw [lower, lower, hlower operand (by simp [parts]), hlower position (by simp [parts])]
    | call function args s =>
      -- A call that is not special is a call of a function, whether macros are on or not.
      have hnone : presence? true function args = none := by
        rw [← Option.not_isSome_iff_eq_none, isSome_presence?_iff s]
        exact fun h => hspecial h.2
      rw [lower_call, lower_call, hnone, lowerAll_congr_macros args hlower]
      rfl
    | method target function args s =>
      have hnone : loop? true function args = none := by
        rw [← Option.not_isSome_iff_eq_none, isSome_loop?_iff target s]
        exact fun h => hspecial h.2
      rw [lower_method, lower_method, hnone, hlower target List.mem_cons_self,
        lowerAll_congr_macros args fun a ha => hlower a (List.mem_cons_of_mem _ ha)]
      rfl
    | paren inner s => rw [lower, lower, hlower inner (by simp [parts])]

/-! ## Programs -/

/-- What holds of a record of some lines holds of a line. -/
theorem any_located (f : Instruction → Bool) (place : Nat) (lines : List Line) :
    (located place lines).any (fun r => f r.2) = lines.any fun l => f l.toInstruction := by
  rw [← Function.comp_def f Prod.snd, ← List.any_map, map_snd_located, List.any_map]
  rfl

/-- The program of an expression has a special record if macros are on and there is a special
    call in the expression, and only then. -/
theorem exists_any_isSpecial {options : CompileOptions} {e : Expr} {p : Program}
    (h : compile options e = .ok p) :
    ∃ rs, p.decodeAll = .ok rs ∧
      rs.any (fun r => r.2.opcode.isSpecial) = (options.macros && e.hasSpecial) := by
  obtain ⟨-, rfl⟩ := compile_eq_ok_iff.1 h
  have := e.marks_lower options.macros
  have hwhole : Marks (e.lowerWhole options.macros) (options.macros && e.hasSpecial) := by
    rw [Expr.lowerWhole]
    exact .of_eq (Bool.or_false _)
  refine ⟨_, Program.decodeAll_of_layout (Assembly.layout_toProgram _), ?_⟩
  exact (any_located (·.opcode.isSpecial) 0 _).trans (hwhole.any_lines {})

/-- Macros are opportunistic.

    * An expression without special calls is compiled in the same way with macros as without.
    * Its programs with macros and without are the same only if it has no special call.
    * Its program without macros has no record of the code of special calls. -/
theorem compile_macros (e : Expr) :
    ((∀ n ∈ e.nodes, ¬ n.IsSpecial) → compile ⟨true⟩ e = compile ⟨false⟩ e) ∧
      (∀ p p', compile ⟨true⟩ e = .ok p → compile ⟨false⟩ e = .ok p' →
        (p = p' ↔ ∀ n ∈ e.nodes, ¬ n.IsSpecial)) ∧
      ∀ p, compile ⟨false⟩ e = .ok p →
        ∃ rs, p.decodeAll = .ok rs ∧ ∀ r ∈ rs, r.2.opcode.isSpecial = false := by
  have hcongr (h : ∀ n ∈ e.nodes, ¬ n.IsSpecial) : compile ⟨true⟩ e = compile ⟨false⟩ e := by
    have hlower := Expr.lower_congr_macros (Expr.hasSpecial_eq_false_iff.2 h)
    rw [compile, compile, Expr.assembly, Expr.assembly, Expr.lowerWhole, Expr.lowerWhole, hlower]
  refine ⟨hcongr, fun p p' hp hp' => ⟨?_, fun h => ?_⟩, fun p hp => ?_⟩
  · rintro rfl
    obtain ⟨rs, hrs, hany⟩ := exists_any_isSpecial hp
    obtain ⟨rs', hrs', hany'⟩ := exists_any_isSpecial hp'
    obtain rfl := Except.ok.inj (hrs.symm.trans hrs')
    rw [← Expr.hasSpecial_eq_false_iff]
    exact hany.symm.trans hany'
  · exact Except.ok.inj (hp.symm.trans ((hcongr h).trans hp'))
  · obtain ⟨rs, hrs, hany⟩ := exists_any_isSpecial hp
    exact ⟨rs, hrs, fun r hr => Bool.eq_false_iff.2 (List.any_eq_false.1 hany r hr)⟩

/-- The expression `xs.all(1, has(x))`, whose calls have not quite the shape of special ones. -/
def nearMisses : Expr :=
  .method (.ident "xs" ⟨0, 2⟩) "all" [.literal (.int 1) ⟨7, 8⟩,
    .call "has" [.ident "x" ⟨14, 15⟩] ⟨10, 16⟩] ⟨0, 17⟩

/-- The expression `f(-xs.map((x), x))`, with a special call in an argument. -/
def buriedLoop : Expr :=
  .call "f" [.unary .negate (.method (.ident "xs" ⟨3, 5⟩) "map"
    [.paren (.ident "x" ⟨11, 12⟩) ⟨10, 13⟩, .ident "x" ⟨15, 16⟩] ⟨3, 17⟩) ⟨2, 17⟩] ⟨0, 18⟩

/-- Calls that are nearly special are compiled like any other, and a special call counts
    wherever it is. -/
theorem compile_macros_buriedLoop :
    (∃ p, compile ⟨true⟩ nearMisses = .ok p ∧ compile ⟨false⟩ nearMisses = .ok p) ∧
      ∃ q q', compile ⟨true⟩ buriedLoop = .ok q ∧ compile ⟨false⟩ buriedLoop = .ok q' ∧ q ≠ q' ∧
        ∃ rs, q'.decodeAll = .ok rs ∧ ∀ r ∈ rs, r.2.opcode.isSpecial = false := by
  have hp : compile ⟨true⟩ nearMisses = .ok (nearMisses.assembly true).toProgram :=
    compile_of_fits (by decide +kernel)
  have hq : compile ⟨true⟩ buriedLoop = .ok (buriedLoop.assembly true).toProgram :=
    compile_of_fits (by decide +kernel)
  have hq' : compile ⟨false⟩ buriedLoop = .ok (buriedLoop.assembly false).toProgram :=
    compile_of_fits (by decide +kernel)
  have hmisses : ∀ n ∈ nearMisses.nodes, ¬ n.IsSpecial := by decide
  have hburied : ¬ ∀ n ∈ buriedLoop.nodes, ¬ n.IsSpecial := by decide
  obtain ⟨hcongr, -⟩ := compile_macros nearMisses
  obtain ⟨-, hiff, hoff⟩ := compile_macros buriedLoop
  exact ⟨⟨_, hp, (hcongr hmisses).symm.trans hp⟩, _, _, hq, hq',
    fun h => hburied ((hiff _ _ hq hq').1 h), hoff _ hq'⟩

end ExprMachine
