import ExprMachine.Proofs.Readable
import ExprMachine.Proofs.Structured

/-!
# Parentheses and spans

The *skeleton* of an expression is what is left of it without parentheses and
without spans (`Expr.skeleton`). Expressions with one skeleton have the same
code: the records of their programs differ in the spans that they are attributed
to, and in nothing else (`compile_congr_skeleton`).

* What a call is, a presence test, a comprehension or a call of a function, is
  told from the skeletons of its arguments (`Expr.presence?_skeleton`,
  `Expr.loop?_skeleton`).
* Two ways to build code *match* if they build the same but for spans, on drafts
  that are the same but for spans (`Build.Matches`). Pieces match that are
  composed from matching ones, so the code of an expression matches that of its
  skeleton (`Expr.matches_skeleton`).
-/

namespace ExprMachine

/-! ## Skeletons -/

mutual

/-- The expression without parentheses and without spans. -/
def Expr.skeleton : Expr → Expr
  | .literal l _ => .literal l .none
  | .list items _ => .list (skeletons items) .none
  | .map entries _ => .map (entrySkeletons entries) .none
  | .message typeName fields _ => .message typeName (fieldSkeletons fields) .none
  | .unary op operand _ => .unary op operand.skeleton .none
  | .binary op left right _ => .binary op left.skeleton right.skeleton .none
  | .conditional c whenTrue whenFalse _ =>
    .conditional c.skeleton whenTrue.skeleton whenFalse.skeleton .none
  | .member operand field _ => .member operand.skeleton field .none
  | .index operand position _ => .index operand.skeleton position.skeleton .none
  | .ident name _ => .ident name .none
  | .call function args _ => .call function (skeletons args) .none
  | .method target function args _ => .method target.skeleton function (skeletons args) .none
  | .paren inner _ => inner.skeleton

/-- The skeletons of the expressions of a list. -/
def skeletons : List Expr → List Expr
  | [] => []
  | e :: rest => e.skeleton :: skeletons rest

/-- The skeletons of keys and values. -/
def entrySkeletons : List (Expr × Expr) → List (Expr × Expr)
  | [] => []
  | (key, value) :: rest => (key.skeleton, value.skeleton) :: entrySkeletons rest

/-- The skeletons of the values of fields. -/
def fieldSkeletons : List (String × Expr) → List (String × Expr)
  | [] => []
  | (name, value) :: rest => (name, value.skeleton) :: fieldSkeletons rest

end

theorem skeletons_eq (es : List Expr) : skeletons es = es.map Expr.skeleton := by
  induction es with
  | nil => rfl
  | cons e rest ih => simp only [skeletons, List.map_cons, ih]

theorem entrySkeletons_eq (entries : List (Expr × Expr)) :
    entrySkeletons entries = entries.map fun p => (p.1.skeleton, p.2.skeleton) := by
  induction entries with
  | nil => rfl
  | cons p rest ih => simp only [entrySkeletons, List.map_cons, ih]

theorem fieldSkeletons_eq (fields : List (String × Expr)) :
    fieldSkeletons fields = fields.map fun p => (p.1, p.2.skeleton) := by
  induction fields with
  | nil => rfl
  | cons p rest ih => simp only [fieldSkeletons, List.map_cons, ih]

namespace Expr

/-- A name in parentheses is a name. -/
theorem asIdent?_skeleton (e : Expr) : e.skeleton.asIdent? = e.asIdent? := by
  unfold asIdent?
  fun_induction unparen e with
  | case1 inner s ih => rwa [skeleton]
  | case2 e h => cases e <;> first | rfl | exact absurd rfl (h _ _)

/-- What is selected is told through parentheses. -/
theorem selected?_skeleton (e : Expr) :
    e.skeleton.selected? = e.selected?.map fun p => (p.1.skeleton, p.2) := by
  fun_induction selected? e with
  | case1 inner s ih => rwa [skeleton]
  | case2 => rfl
  | case3 e hparen hmember => cases e <;> first | rfl | simp at hparen hmember

variable (macros : Bool) (function : String) (args : List Expr)

/-- Whether a call is a presence test is told from the skeletons of its arguments. -/
theorem presence?_skeleton : presence? macros function (args.map skeleton) =
    (presence? macros function args).map fun p => (p.1.skeleton, p.2) := by
  have hselected : (args.map skeleton).map selected? =
      (args.map selected?).map (Option.map fun p => (p.1.skeleton, p.2)) := by
    rw [List.map_map, List.map_map]
    exact List.map_congr_left fun e _ => selected?_skeleton e
  rw [presence?, presence?, hselected, presenceTest?_map]
  cases macros <;> rfl

/-- So is whether a call with a target is a comprehension. -/
theorem loop?_skeleton : loop? macros function (args.map skeleton) =
    (loop? macros function args).map fun p => (p.1, p.2.map skeleton) := by
  have hident : (args.map skeleton).head?.bind asIdent? = args.head?.bind asIdent? := by
    cases args with
    | nil => rfl
    | cons e rest => exact asIdent?_skeleton e
  have hcall : Comprehension.ofCall? function (args.map skeleton).head? (args.map skeleton).tail =
      Comprehension.ofCall? function args.head? (args.tail.map skeleton) := by
    rw [Comprehension.ofCall?, Comprehension.ofCall?, hident, List.map_tail]
  rw [loop?, loop?, hcall, Comprehension.ofCall?_map]
  cases macros <;> rfl

end Expr

/-! ## Pieces that match -/

/-- The line without its span. -/
def Line.unspanned (l : Line) : Line := { l with span := 0 }

/-- The draft without its pool of spans. -/
def Draft.unspanned (d : Draft) : Draft := { d with spans := [] }

/-- The piece without the spans of its records and without its pool of spans. -/
def Piece.unspanned {α : Type} (x : Piece α) : Piece α :=
  ⟨x.value, x.lines.map Line.unspanned, x.draft.unspanned⟩

namespace Build

variable {α β : Type}

/-- The two ways to build code build the same on the same drafts, but for spans. -/
class Matches (x y : Build α) : Prop where
  congr : ∀ {d e : Draft}, d.unspanned = e.unspanned → (x d).unspanned = (y e).unspanned

namespace Matches

variable {x y z : Build α}

theorem symm (h : Matches x y) : Matches y x where
  congr hd := (h.congr hd.symm).symm

theorem trans (h : Matches x y) (h' : Matches y z) : Matches x z where
  congr hd := (h.congr hd).trans (h'.congr rfl)

end Matches

instance (a : α) : Matches (pure a : Build α) (pure a) where
  congr h := congrArg (Piece.mk a []) h

instance (x y : Build α) (f g : α → Build β) [hxy : Matches x y] [hfg : ∀ a, Matches (f a) (g a)] :
    Matches (x >>= f) (y >>= g) where
  congr {d e} h := by
    obtain ⟨hvalue, hlines, hdraft⟩ := Piece.mk.inj (hxy.congr h)
    obtain ⟨hvalue', hlines', hdraft'⟩ := Piece.mk.inj ((hfg (x d).value).congr hdraft)
    rw [hvalue] at hvalue' hlines' hdraft'
    rw [Piece.unspanned, Piece.unspanned, value_bind, lines_bind, draft_bind, value_bind,
      lines_bind, draft_bind, List.map_append, List.map_append, hvalue, hlines, hvalue', hlines',
      hdraft']

instance (n : Nat) : Matches (block n) (block n) where
  congr h := congrArg (block n) h

instance : Matches fresh fresh := inferInstanceAs (Matches (block 1) (block 1))

instance (s : String) : Matches (string s) (string s) where
  congr h := congrArg (string s) h

instance (v : Value) : Matches (constant v) (constant v) where
  congr h := congrArg (constant v) h

instance (names : List String) : Matches (fields names) (fields names) where
  congr h := congrArg (fields names) h

instance : Matches here here where
  congr h := congrArg here h

instance (opcode : Opcode) (dst op1 op2 op3 : Nat) (s s' : Span) :
    Matches (emit opcode dst op1 op2 op3 s) (emit opcode dst op1 op2 op3 s') where
  congr h := congrArg (fun d : Draft => Piece.mk () [⟨opcode, dst, op1, op2, op3, 0⟩]
    { d with records := d.records + 1 }) h

/-- A record takes one place, whatever its span. -/
theorem unspanned_reserved {d e : Draft} (h : d.unspanned = e.unspanned) (s s' : Span) :
    (reserved d s).unspanned = (reserved e s').unspanned :=
  congrArg (fun d : Draft => { d with records := d.records + 1 }) h

instance (opcode : Opcode) (dst op1 op2 op3 : Nat → Nat) (s s' : Span) (x y : Build α)
    [hxy : Matches x y] :
    Matches (skipping (fun t i => ⟨opcode, dst t, op1 t, op2 t, op3 t, i⟩) s x)
      (skipping (fun t i => ⟨opcode, dst t, op1 t, op2 t, op3 t, i⟩) s' y) where
  congr h := by
    obtain ⟨hvalue, hlines, hdraft⟩ := Piece.mk.inj (hxy.congr (unspanned_reserved h s s'))
    -- The target of the jump depends on how many records there are, and on nothing else.
    have hrecords := congrArg Draft.records hdraft
    rw [skipping_apply, skipping_apply, Piece.unspanned, Piece.unspanned, hvalue, hdraft]
    simp only [Draft.unspanned] at hrecords
    simp only [List.map_cons, hlines, Line.unspanned, hrecords]

instance (opcode : Opcode) (tested : Nat) (s s' : Span) (x y : Build α) [Matches x y] :
    Matches (jumpOver opcode tested s x) (jumpOver opcode tested s' y) :=
  inferInstanceAs (Matches (skipping _ s x) (skipping _ s' y))

end Build

/-! ## The code of expressions -/

namespace Lowering

open Build

variable (s s' : Span)

instance (l : Literal) : Matches (literal l s) (literal l s') := by
  rw [literal, literal]
  match l with
  | .null | .bool true | .bool false | .int _ | .uint _ | .double _ | .string _ | .bytes _ =>
    exact inferInstance

/-- One record for each register, on both sides. -/
theorem matches_moveAll (regs : List Nat) (base : Nat) :
    Matches (moveAll base s regs) (moveAll base s' regs) := by
  induction regs generalizing base with
  | nil => exact inferInstanceAs (Matches (pure ()) (pure ()))
  | cons r rest ih =>
    have := ih (base + 1)
    rw [moveAll, moveAll]
    exact inferInstance

instance (base : Nat) (regs : List Nat) : Matches (moveAll base s regs) (moveAll base s' regs) :=
  matches_moveAll s s' regs base

instance (regs : List Nat) : Matches (consecutive regs s) (consecutive regs s') := by
  rw [consecutive, consecutive]
  exact inferInstance

instance (opcode : Opcode) (regs : List Nat) (count : Nat) :
    Matches (aggregate opcode regs count s) (aggregate opcode regs count s') := by
  rw [aggregate, aggregate]
  exact inferInstance

instance (typeName : String) (names : List String) (regs : List Nat) :
    Matches (message typeName names regs s) (message typeName names regs s') := by
  rw [message, message]
  exact inferInstance

instance (function : String) (regs : List Nat) :
    Matches (call function regs s) (call function regs s') := by
  rw [call, call]
  exact inferInstance

section

variable (x x' y y' : Build Nat) [Matches x x'] [Matches y y']

instance (opcode : Opcode) (field : String) :
    Matches (select opcode x field s) (select opcode x' field s') := by
  rw [select, select]
  exact inferInstance

instance (op : BinaryOperator) : Matches (shortCircuit op x y s) (shortCircuit op x' y' s') := by
  rw [shortCircuit, shortCircuit]
  exact inferInstance

instance (op : BinaryOperator) : Matches (strict op x y s) (strict op x' y' s') := by
  rw [strict, strict]
  exact inferInstance

instance (result : Nat) : Matches (branch result x s) (branch result x' s') := by
  rw [branch, branch]
  exact inferInstance

end

instance (condition condition' : Body) (whenTrue whenTrue' whenFalse whenFalse' : Build Nat)
    [Matches condition.build condition'.build] [Matches whenTrue whenTrue']
    [Matches whenFalse whenFalse'] :
    Matches (choose condition whenTrue whenFalse s)
      (choose condition' whenTrue' whenFalse' s') := by
  rw [choose_eq, choose_eq]
  exact inferInstance

instance (body body' : Body) (role : ConditionRole) [Matches body.build body'.build] :
    Matches (guarded body role) (guarded body' role) := by
  rw [guarded, guarded]
  exact inferInstance

section

variable {β : Type} (form : Comprehension β) {f g : β → Body}

instance (acc : Nat) : Matches (start (form.map f) acc s) (start (form.map g) acc s') := by
  cases form <;> exact inferInstanceAs (Matches (emit _ _ _ _ _ _) (emit _ _ _ _ _ _))

/-- The bodies of loops match if their clauses do. -/
theorem matches_loopBody (h : ∀ b ∈ form.bodies, Matches (f b).build (g b).build)
    (acc item head : Nat) :
    Matches (loopBody (form.map f) acc item head s) (loopBody (form.map g) acc item head s') := by
  cases form with
  | all b | «exists» b | existsOne b | filter b | transform b =>
    have := h b (List.mem_singleton_self b)
    rw [Comprehension.map, Comprehension.map, loopBody, loopBody]
    exact inferInstance
  | filterTransform p b =>
    have := h p List.mem_cons_self
    have := h b (List.mem_cons_of_mem p (List.mem_singleton_self b))
    rw [Comprehension.map, Comprehension.map, loopBody, loopBody]
    exact inferInstance

theorem matches_loop (x : String) (h : ∀ b ∈ form.bodies, Matches (f b).build (g b).build)
    (iterator acc : Nat) :
    Matches (loop x (form.map f) iterator acc s) (loop x (form.map g) iterator acc s') := by
  have := matches_loopBody s s' form h
  simp only [loop, turn]
  exact inferInstance

theorem matches_rounds (x : String) (h : ∀ b ∈ form.bodies, Matches (f b).build (g b).build)
    (iterator : Nat) :
    Matches (rounds x (form.map f) iterator s) (rounds x (form.map g) iterator s') := by
  have := matches_loop s s' form x h
  -- The search for instances stays small if the pieces are grouped from the left.
  simp only [rounds, ← bind_assoc]
  exact inferInstance

theorem matches_comprehension (target target' : Build Nat) [Matches target target'] (x : String)
    (h : ∀ b ∈ form.bodies, Matches (f b).build (g b).build) :
    Matches (comprehension target x (form.map f) s) (comprehension target' x (form.map g) s') := by
  have := matches_rounds s s' form x h
  rw [comprehension_eq, comprehension_eq]
  exact inferInstance

end

end Lowering

open Build Lowering

/-- Code for a list of expressions matches item by item. -/
theorem matches_lowerAll (macros : Bool) (es : List Expr)
    (h : ∀ e ∈ es, Matches (e.lower macros) (e.skeleton.lower macros)) :
    Matches (lowerAll macros es) (lowerAll macros (es.map Expr.skeleton)) := by
  induction es with
  | nil => exact inferInstanceAs (Matches (pure []) (pure []))
  | cons e rest ih =>
    have := h e List.mem_cons_self
    have := ih fun e he => h e (List.mem_cons_of_mem _ he)
    rw [List.map_cons, lowerAll, lowerAll]
    exact inferInstance

/-- The code of an expression matches that of its skeleton. -/
theorem Expr.matches_skeleton (macros : Bool) (e : Expr) :
    Matches (e.lower macros) (e.skeleton.lower macros) := by
  induction e using Expr.induct with
  | step e ih =>
    cases e with
    | literal l s =>
      rw [skeleton, lower, lower]
      exact inferInstance
    | ident name s =>
      rw [skeleton, lower, lower]
      exact inferInstance
    | list items s =>
      have := matches_lowerAll macros items ih
      rw [skeleton, skeletons_eq, lower, lower]
      exact inferInstance
    | map entries s =>
      have hparts : (entries.map fun p => (p.1.skeleton, p.2.skeleton)).flatMap
          (fun p => [p.1, p.2]) = (entries.flatMap fun p => [p.1, p.2]).map skeleton := by
        rw [List.flatMap_map, List.map_flatMap]
        rfl
      have := matches_lowerAll macros (entries.flatMap fun p : Expr × Expr => [p.1, p.2]) ih
      rw [skeleton, entrySkeletons_eq, lower, lower, lowerEntries_eq, lowerEntries_eq, hparts,
        List.length_map]
      exact inferInstance
    | message typeName fields s =>
      have hparts : (fields.map fun p => (p.1, p.2.skeleton)).map Prod.snd =
          (fields.map Prod.snd).map skeleton := by
        rw [List.map_map, List.map_map]
        rfl
      have hnames : (fields.map fun p => (p.1, p.2.skeleton)).map Prod.fst =
          fields.map Prod.fst := by
        rw [List.map_map]
        rfl
      have := matches_lowerAll macros (fields.map Prod.snd) ih
      rw [skeleton, fieldSkeletons_eq, lower, lower, lowerFields_eq, lowerFields_eq, hparts, hnames]
      exact inferInstance
    | unary op operand s =>
      have := ih operand (by simp [parts])
      rw [skeleton, lower, lower]
      exact inferInstance
    | binary op left right s =>
      have := ih left (by simp [parts])
      have := ih right (by simp [parts])
      rw [skeleton, lower, lower]
      split <;> exact inferInstance
    | conditional c whenTrue whenFalse s =>
      have := ih c (by simp [parts])
      have := ih whenTrue (by simp [parts])
      have := ih whenFalse (by simp [parts])
      rw [skeleton, lower, lower]
      exact inferInstance
    | member operand field s =>
      have := ih operand (by simp [parts])
      rw [skeleton, lower, lower]
      exact inferInstance
    | index operand position s =>
      have := ih operand (by simp [parts])
      have := ih position (by simp [parts])
      rw [skeleton, lower, lower]
      exact inferInstance
    | call function args s =>
      rw [skeleton, skeletons_eq, lower_call, lower_call, presence?_skeleton]
      cases hp : presence? macros function args with
      | some p =>
        obtain ⟨operand, field⟩ := p
        have := ih operand (mem_parts_of_presence? hp)
        exact inferInstanceAs (Matches (select .hasField (operand.lower macros) field s)
          (select .hasField (operand.skeleton.lower macros) field .none))
      | none =>
        have := matches_lowerAll macros args fun a ha => ih a (List.mem_append_left _ ha)
        simp only [Option.map_none]
        exact inferInstance
    | method target function args s =>
      have := ih target List.mem_cons_self
      rw [skeleton, skeletons_eq, lower_method, lower_method, loop?_skeleton]
      cases hf : loop? macros function args with
      | some p =>
        obtain ⟨x, form⟩ := p
        have hform : (form.map skeleton).map (body macros) = form.map fun e =>
            e.skeleton.body macros := by cases form <;> rfl
        have := matches_comprehension s .none form (f := body macros)
          (g := fun e => e.skeleton.body macros) (target.lower macros)
          (target.skeleton.lower macros) x fun e he =>
            ih e (List.mem_cons_of_mem _ (mem_args_of_loop? hf e he))
        simp only [Option.map_some, hform]
        exact this
      | none =>
        have := matches_lowerAll macros args fun a ha => ih a (List.mem_cons_of_mem _ ha)
        simp only [Option.map_none]
        exact inferInstance
    | paren inner s => exact ih inner (by simp [parts])

/-! ## Programs -/

/-- Expressions with one skeleton have the same code, but for spans. -/
theorem Expr.unspanned_lowerWhole (macros : Bool) {e e' : Expr} (h : e.skeleton = e'.skeleton) :
    (e.lowerWhole macros {}).unspanned = (e'.lowerWhole macros {}).unspanned := by
  have : Matches (e.lower macros) (e'.lower macros) :=
    (e.matches_skeleton macros).trans (h ▸ (e'.matches_skeleton macros).symm)
  have hwhole : Matches (e.lowerWhole macros) (e'.lowerWhole macros) := by
    rw [lowerWhole, lowerWhole]
    exact inferInstance
  exact hwhole.congr rfl

/-- Lines that differ in their spans only are records that agree in all else. -/
theorem forall₂_located {lines lines' : List Line}
    (h : lines.map Line.unspanned = lines'.map Line.unspanned) (place : Nat) :
    List.Forall₂ (fun r r' => r.1 = r'.1 ∧ r.2.opcode = r'.2.opcode ∧ r.2.slots = r'.2.slots)
      (located place lines) (located place lines') := by
  induction lines generalizing lines' place with
  | nil =>
    obtain rfl := List.map_eq_nil_iff.1 h.symm
    exact .nil
  | cons l rest ih =>
    obtain ⟨l', rest', rfl, hl, hrest⟩ := List.map_eq_cons_iff.1 h.symm
    obtain ⟨hopcode, hdst, hop1, hop2, hop3, -⟩ := Line.mk.inj hl
    refine .cons ⟨rfl, hopcode.symm, ?_⟩ (ih hrest.symm _)
    simp only [Line.toInstruction, Instruction.slots, hdst, hop1, hop2, hop3]

/-- Parentheses and spans do not affect code. The programs of expressions that differ
    in nothing else have the same constants, names, fields of messages and registers, and
    their records, one by one, the same opcodes and operands. -/
theorem compile_congr_skeleton {options : CompileOptions} {e e' : Expr} {p p' : Program}
    (h : e.skeleton = e'.skeleton) (hp : compile options e = .ok p)
    (hp' : compile options e' = .ok p') :
    p.constants = p'.constants ∧ p.strings = p'.strings ∧
      p.messageFields = p'.messageFields ∧ p.registers = p'.registers ∧
      ∃ rs rs', p.decodeAll = .ok rs ∧ p'.decodeAll = .ok rs' ∧
        List.Forall₂ (fun r r' => r.1 = r'.1 ∧ r.2.opcode = r'.2.opcode ∧ r.2.slots = r'.2.slots)
          rs rs' := by
  obtain ⟨-, rfl⟩ := compile_eq_ok_iff.1 hp
  obtain ⟨-, rfl⟩ := compile_eq_ok_iff.1 hp'
  obtain ⟨-, hlines, hdraft⟩ := Piece.mk.inj (Expr.unspanned_lowerWhole options.macros h)
  obtain ⟨-, hregisters, hconstants, hstrings, -, hfields⟩ := Draft.mk.inj hdraft
  refine ⟨congrArg List.toArray hconstants, congrArg List.toArray hstrings,
    congrArg List.toArray hfields, congrArg UInt32.ofNat hregisters, _, _,
    Program.decodeAll_of_layout (Assembly.layout_toProgram _),
    Program.decodeAll_of_layout (Assembly.layout_toProgram _), forall₂_located hlines 0⟩

/-- The expression `t.exists(x, has(x.f))`. -/
def existsPresent : Expr :=
  .method (.ident "t" ⟨0, 1⟩) "exists" [.ident "x" ⟨9, 10⟩,
    .call "has" [.member (.ident "x" ⟨16, 17⟩) "f" ⟨16, 19⟩] ⟨12, 20⟩] ⟨0, 21⟩

/-- The expression `(t).exists((x), (has(((x).f))))`. -/
def existsPresentParens : Expr :=
  .method (.paren (.ident "t" ⟨1, 2⟩) ⟨0, 3⟩) "exists" [.paren (.ident "x" ⟨12, 13⟩) ⟨11, 14⟩,
    .paren (.call "has" [.paren (.member (.paren (.ident "x" ⟨23, 24⟩) ⟨22, 25⟩) "f" ⟨22, 27⟩)
      ⟨21, 28⟩] ⟨17, 29⟩) ⟨16, 30⟩] ⟨0, 31⟩

/-- Parentheses around the variable of a comprehension and around the argument of a
    presence test. -/
theorem compile_existsPresentParens :
    existsPresent.skeleton = existsPresentParens.skeleton ∧
      ∃ p p', compile {} existsPresent = .ok p ∧ compile {} existsPresentParens = .ok p' ∧
        p.strings = p'.strings ∧ p.registers = p'.registers ∧
        ∃ rs rs', p.decodeAll = .ok rs ∧ p'.decodeAll = .ok rs' ∧
          List.Forall₂ (fun r r' => r.1 = r'.1 ∧ r.2.opcode = r'.2.opcode ∧ r.2.slots = r'.2.slots)
            rs rs' := by
  have hskeleton : existsPresent.skeleton = existsPresentParens.skeleton := by rfl
  have hcompile : compile {} existsPresent = .ok (existsPresent.assembly true).toProgram :=
    compile_of_fits (by decide +kernel)
  have hcompile' : compile {} existsPresentParens =
      .ok (existsPresentParens.assembly true).toProgram := compile_of_fits (by decide +kernel)
  obtain ⟨-, hstrings, -, hregisters, hrecords⟩ :=
    compile_congr_skeleton hskeleton hcompile hcompile'
  exact ⟨hskeleton, _, _, hcompile, hcompile', hstrings, hregisters, hrecords⟩

end ExprMachine
