import ExprMachine.Proofs.Nodes
import ExprMachine.Proofs.Readable
import ExprMachine.Proofs.Structured

/-!
# The pools of programs

Building code fills pools in two ways.

* Constants and field names are *appended*: every one is entered anew, and the
  records that refer to the entries do so one after another (`Appended`).
* Names and spans are *interned*: no one is entered twice, and every one that is
  entered is referred to (`Interned`).

Both compose, and a piece of code *files* some constants and field names if it
fills the pools in this way and with these (`Build.Files`). The code of an
expression files the constants and the field names found at its nodes, in their
order (`Expr.files_lower`), so the pools of its program have nothing else
(`pools_of_compile`).
-/

namespace ExprMachine

/-! ## Filling a pool -/

section

variable {α : Type}

/-- Entries are appended to a pool, and the new ones are referred to in turn. -/
structure Appended (pool : List α) (entries : List α) (refs : List Nat) (pool' : List α) :
    Prop where
  pool_eq : pool' = pool ++ entries
  refs_eq : refs = List.range' pool.length entries.length

/-- A pool without duplicates is extended to one, and the new entries are referred to. -/
structure Interned (pool : List α) (refs : List Nat) (pool' : List α) : Prop where
  nodup : pool.Nodup → pool'.Nodup
  mem_refs : ∀ k, pool.length ≤ k → k < pool'.length → k ∈ refs

variable {pool pool' pool'' entries entries' : List α} {refs refs' : List Nat}

namespace Appended

theorem refl (pool : List α) : Appended pool [] [] pool := ⟨(List.append_nil pool).symm, rfl⟩

/-- A single entry is referred to by the place behind the pool. -/
theorem singleton (pool : List α) (a : α) : Appended pool [a] [pool.length] (pool ++ [a]) :=
  ⟨rfl, rfl⟩

/-- Entries that are appended in turn are referred to in turn. -/
theorem trans (h : Appended pool entries refs pool')
    (h' : Appended pool' entries' refs' pool'') :
    Appended pool (entries ++ entries') (refs ++ refs') pool'' where
  pool_eq := by rw [h'.pool_eq, h.pool_eq, List.append_assoc]
  refs_eq := by
    rw [h.refs_eq, h'.refs_eq, h.pool_eq, List.length_append, List.length_append,
      List.range'_append_1]

/-- All entries of a pool that was empty are referred to in turn. -/
theorem refs_eq_range (h : Appended [] entries refs pool') : refs = List.range pool'.length := by
  rw [h.refs_eq, h.pool_eq, List.nil_append, List.range_eq_range']
  rfl

end Appended

namespace Interned

theorem refl (pool : List α) (refs : List Nat) : Interned pool refs pool :=
  ⟨id, fun _ hle hlt => absurd hle (Nat.not_le.2 hlt)⟩

/-- An entry that is new is referred to, and one that is not changes nothing. -/
theorem intern [DecidableEq α] (pool : List α) (a : α) :
    Interned pool [(intern pool a).1] (ExprMachine.intern pool a).2 := by
  rw [ExprMachine.intern]
  split
  · exact refl _ _
  · rename_i h
    have hnew : a ∉ pool := List.idxOf?_eq_none_iff.1 h
    refine ⟨fun hnodup => ?_, fun k hle hlt => ?_⟩
    · refine List.nodup_append.2 ⟨hnodup, List.pairwise_singleton _ a, fun b hb c hc => ?_⟩
      rintro rfl
      exact hnew (List.mem_singleton.1 hc ▸ hb)
    · rw [List.length_append, List.length_singleton] at hlt
      exact List.mem_singleton.2 (by omega)

theorem mono (h : Interned pool refs pool') (hsub : refs ⊆ refs') : Interned pool refs' pool' :=
  ⟨h.nodup, fun k hle hlt => hsub (h.mem_refs k hle hlt)⟩

/-- Entries interned first are referred to by the first references, and the others by the second. -/
theorem trans (h : Interned pool refs pool') (h' : Interned pool' refs' pool'') :
    Interned pool (refs ++ refs') pool'' where
  nodup hnodup := h'.nodup (h.nodup hnodup)
  mem_refs k hle hlt := by
    -- A new entry is new in the first pool or in the second one.
    rcases Nat.lt_or_ge k pool'.length with hlt' | hle'
    · exact List.mem_append_left _ (h.mem_refs k hle hlt')
    · exact List.mem_append_right _ (h'.mem_refs k hle' hlt)

end Interned

end

/-! ## References -/

/-- The names that a line refers to. -/
def Line.names (l : Line) : List Nat :=
  (l.opcode.layout.zip l.slots).filterMap fun o => if o.1 = .string then some o.2 else none

/-- The names of a line are those in its slots for names. -/
theorem Line.mem_names {l : Line} {k : Nat} :
    k ∈ l.names ↔ (.string, k) ∈ l.opcode.layout.zip l.slots := by
  simp [names]

/-- The constants that are loaded by some lines. -/
def loadsOf (lines : List Line) : List Nat :=
  (lines.filter fun l => l.opcode = .loadConst).map Line.op1

/-- The field names of the messages that are made by some lines. -/
def makesOf (lines : List Line) : List Nat :=
  (lines.filter fun l => l.opcode = .makeMessage).map Line.op2

/-- Records with the opcode refer to no constant and to no field names. -/
@[reducible] def Opcode.Silent : Opcode → Prop
  | .loadConst | .makeMessage => False
  | _ => True

/-- For an opcode at hand, `Opcode.Silent` is reduced by the search for instances. -/
instance Opcode.fact_silent : Fact True := ⟨trivial⟩

/-- The pools of a draft are filled with some constants and field names, and the lines
    in between refer to what is new in them. -/
structure Draft.Filed (d : Draft) (values : List Value) (fields : List (List String))
    (lines : List Line) (e : Draft) : Prop where
  constants : Appended d.constants values (loadsOf lines) e.constants
  messageFields : Appended d.messageFields fields (makesOf lines) e.messageFields
  strings : Interned d.strings (lines.flatMap Line.names) e.strings
  spans : Interned d.spans (lines.map Line.span) e.spans

namespace Draft.Filed

variable {d e f : Draft} {values values' : List Value} {fields fields' : List (List String)}
  {lines lines' : List Line}

theorem refl (d : Draft) : d.Filed [] [] [] d :=
  ⟨.refl _, .refl _, .refl _ _, .refl _ _⟩

/-- Code after code fills the pools with what both have. -/
theorem trans (h : d.Filed values fields lines e) (h' : e.Filed values' fields' lines' f) :
    d.Filed (values ++ values') (fields ++ fields') (lines ++ lines') f where
  constants := by
    rw [loadsOf, List.filter_append, List.map_append]
    exact h.constants.trans h'.constants
  messageFields := by
    rw [makesOf, List.filter_append, List.map_append]
    exact h.messageFields.trans h'.messageFields
  strings := by
    rw [List.flatMap_append]
    exact h.strings.trans h'.strings
  spans := by
    rw [List.map_append]
    exact h.spans.trans h'.spans

end Draft.Filed

namespace Build

variable {α β : Type}

/-- The piece enters some constants and field names into the pools, and its records
    refer to all that it enters. -/
class Files (x : Build α) (values : outParam (List Value))
    (fields : outParam (List (List String))) : Prop where
  filed : ∀ d : Draft, d.Filed values fields (x d).lines (x d).draft

export Files (filed)

/-- What a piece files may be written in another way. -/
theorem Files.of_eq {x : Build α} {values values' : List Value}
    {fields fields' : List (List String)} [h : Files x values' fields'] (hv : values' = values)
    (hf : fields' = fields) : Files x values fields :=
  hv ▸ hf ▸ h

/-- On every draft, the piece has a record that refers to a name. -/
class Names (i : Nat) (x : Build α) : Prop where
  names : ∀ d : Draft, i ∈ (x d).lines.flatMap Line.names

section

variable (i : Nat) (x : Build α) (f : α → Build β)

instance [h : Names i x] : Names i (x >>= f) where
  names d := by
    rw [lines_bind, List.flatMap_append]
    exact List.mem_append_left _ (h.names d)

instance [h : ∀ a, Names i (f a)] : Names i (x >>= f) where
  names d := by
    rw [lines_bind, List.flatMap_append]
    exact List.mem_append_right _ ((h _).names _)

variable (dst a b : Nat) (s : Span)

instance : Names i (emit .loadVar dst i 0 0 s) := ⟨fun _ => List.mem_singleton_self i⟩

instance : Names i (emit .memberAccess dst a i 0 s) := ⟨fun _ => List.mem_singleton_self i⟩

instance : Names i (emit .hasField dst a i 0 s) := ⟨fun _ => List.mem_singleton_self i⟩

instance : Names i (emit .call dst i a b s) := ⟨fun _ => List.mem_singleton_self i⟩

instance : Names i (emit .makeMessage dst a b i s) := ⟨fun _ => List.mem_singleton_self i⟩

instance : Names i (emit .bindVar 0 i a 0 s) := ⟨fun _ => List.mem_singleton_self i⟩

end

instance (a : α) : Files (pure a : Build α) [] [] := ⟨fun d => .refl d⟩

instance (x : Build α) (f : α → Build β) (values values' : List Value)
    (fields fields' : List (List String)) [hx : Files x values fields]
    [hf : ∀ a, Files (f a) values' fields'] :
    Files (x >>= f) (values ++ values') (fields ++ fields') :=
  ⟨fun d => (hx.filed d).trans ((hf _).filed _)⟩

instance (n : Nat) : Files (block n) [] [] :=
  ⟨fun _ => ⟨.refl _, .refl _, .refl _ _, .refl _ _⟩⟩

instance : Files fresh [] [] := inferInstanceAs (Files (block 1) [] [])

instance : Files here [] [] := ⟨fun d => .refl d⟩

/-- A record that is silent only refers to its span. -/
theorem filed_reserved (opcode : Opcode) [h : Fact opcode.Silent] (d : Draft) (s : Span)
    (dst op1 op2 op3 : Nat) :
    d.Filed [] [] [⟨opcode, dst, op1, op2, op3, (intern d.spans s).1⟩] (reserved d s) := by
  have hloads : loadsOf [⟨opcode, dst, op1, op2, op3, (intern d.spans s).1⟩] = [] := by
    cases opcode <;> first | rfl | exact h.out.elim
  have hmakes : makesOf [⟨opcode, dst, op1, op2, op3, (intern d.spans s).1⟩] = [] := by
    cases opcode <;> first | rfl | exact h.out.elim
  exact ⟨hloads ▸ .refl _, hmakes ▸ .refl _, .refl _ _, .intern _ _⟩

instance (opcode : Opcode) [Fact opcode.Silent] (dst op1 op2 op3 : Nat) (s : Span) :
    Files (emit opcode dst op1 op2 op3 s) [] [] :=
  ⟨fun d => filed_reserved opcode d s dst op1 op2 op3⟩

instance (opcode : Opcode) [Fact opcode.Silent] (dst op1 op2 op3 : Nat → Nat) (s : Span)
    (x : Build α) (values : List Value) (fields : List (List String)) [hx : Files x values fields] :
    Files (skipping (fun t i => ⟨opcode, dst t, op1 t, op2 t, op3 t, i⟩) s x) values fields where
  filed d := by
    rw [skipping_apply]
    exact (filed_reserved opcode d s _ _ _ _).trans (hx.filed (reserved d s))

instance (opcode : Opcode) [Fact opcode.Silent] (tested : Nat) (s : Span) (x : Build α)
    (values : List Value) (fields : List (List String)) [Files x values fields] :
    Files (jumpOver opcode tested s x) values fields :=
  inferInstanceAs (Files (skipping _ s x) values fields)

/-- A name is entered for a record that refers to it. -/
instance (name : String) (f : Nat → Build β) (values : List Value) (fields : List (List String))
    [hf : ∀ i, Files (f i) values fields] [hi : ∀ i, Names i (f i)] :
    Files (string name >>= f) values fields where
  filed d := by
    have hnext := (hf (string name d).value).filed (string name d).draft
    have hmem := (hi (string name d).value).names (string name d).draft
    refine ⟨hnext.constants, hnext.messageFields, ?_, hnext.spans⟩
    refine ((Interned.intern d.strings name).trans hnext.strings).mono fun k hk => ?_
    rcases List.mem_append.1 hk with hk | hk
    · exact List.mem_singleton.1 hk ▸ hmem
    · exact hk

/-- A constant is entered for the record that loads it. -/
instance (v : Value) (dst : Nat) (s : Span) :
    Files (do
      let i ← constant v
      emit .loadConst dst i 0 0 s
      pure dst : Build Nat) [v] [] :=
  ⟨fun _ => ⟨.singleton _ v, .refl _, .refl _ _, .intern _ s⟩⟩

/-- So are field names for the record that makes a message of them. -/
instance (names : List String) (typeName : String) (base : Nat) (s : Span) :
    Files (do
      let layout ← fields names
      let name ← string typeName
      let dst ← fresh
      emit .makeMessage dst base layout name s
      pure dst : Build Nat) [] [names] :=
  ⟨fun _ => ⟨.refl _, .singleton _ names, .intern _ typeName, .intern _ s⟩⟩

end Build

/-! ## The code of constructs -/

/-- The value of a literal that has no record of its own. -/
def Literal.constant? : Literal → Option Value
  | .null | .bool _ => none
  | l => some l.value

namespace Lowering

open Build

variable (s : Span)

instance (l : Literal) : Files (literal l s) l.constant?.toList [] := by
  rw [literal]
  match l with
  | .null | .bool true | .bool false => exact .of_eq rfl rfl
  | .int _ | .uint _ | .double _ | .string _ | .bytes _ => exact .of_eq rfl rfl

instance (op : UnaryOperator) : Fact (unaryOpcode op).Silent := by
  cases op <;> exact inferInstanceAs (Fact True)

theorem files_moveAll (regs : List Nat) (base : Nat) : Files (moveAll base s regs) [] [] := by
  induction regs generalizing base with
  | nil => exact inferInstanceAs (Files (pure ()) [] [])
  | cons r rest ih =>
    have := ih (base + 1)
    rw [moveAll]
    exact .of_eq rfl rfl

instance (base : Nat) (regs : List Nat) : Files (moveAll base s regs) [] [] :=
  files_moveAll s regs base

instance (regs : List Nat) : Files (consecutive regs s) [] [] := by
  rw [consecutive]
  exact .of_eq rfl rfl

instance (opcode : Opcode) [Fact opcode.Silent] (regs : List Nat) (count : Nat) :
    Files (aggregate opcode regs count s) [] [] := by
  rw [aggregate]
  exact .of_eq rfl rfl

instance (typeName : String) (names : List String) (regs : List Nat) :
    Files (message typeName names regs s) [] [names] := by
  rw [message]
  exact .of_eq rfl rfl

instance (function : String) (regs : List Nat) : Files (call function regs s) [] [] := by
  rw [call]
  exact .of_eq rfl rfl

section

variable (x y : Build Nat) (values values' : List Value) (fields fields' : List (List String))
  [Files x values fields] [Files y values' fields']

instance (opcode : Opcode) [Fact opcode.Silent] (field : String)
    [∀ dst src name, Names name (emit opcode dst src name 0 s)] :
    Files (select opcode x field s) values fields := by
  rw [select]
  exact .of_eq (by simp) (by simp)

instance (op : BinaryOperator) :
    Files (shortCircuit op x y s) (values ++ values') (fields ++ fields') := by
  rw [shortCircuit]
  split <;> exact .of_eq (by simp) (by simp)

instance (op : BinaryOperator) :
    Files (strict op x y s) (values ++ values') (fields ++ fields') := by
  rw [strict]
  exact .of_eq (by simp) (by simp)

instance (result : Nat) : Files (branch result x s) values fields := by
  rw [branch]
  exact .of_eq (by simp) (by simp)

end

instance (condition : Body) (whenTrue whenFalse : Build Nat) (vs vs₁ vs₂ : List Value)
    (fs fs₁ fs₂ : List (List String)) [Files condition.build vs fs] [Files whenTrue vs₁ fs₁]
    [Files whenFalse vs₂ fs₂] :
    Files (choose condition whenTrue whenFalse s) (vs ++ vs₁ ++ vs₂) (fs ++ fs₁ ++ fs₂) := by
  rw [choose_eq]
  exact .of_eq (by simp) (by simp)

instance (body : Body) (role : ConditionRole) (values : List Value) (fields : List (List String))
    [Files body.build values fields] : Files (guarded body role) values fields := by
  rw [guarded]
  exact .of_eq (by simp) (by simp)

section

variable {β : Type} (form : Comprehension β) {f : β → Body} {values : β → List Value}
  {fields : β → List (List String)}

instance (acc : Nat) : Files (start (form.map f) acc s) [] [] := by
  cases form <;> exact inferInstanceAs (Files (emit _ _ _ _ _ _) [] [])

/-- The body of a loop files what its clauses do, in turn. -/
theorem files_loopBody (h : ∀ b ∈ form.bodies, Files (f b).build (values b) (fields b))
    (acc item head : Nat) :
    Files (loopBody (form.map f) acc item head s) (form.bodies.flatMap values)
      (form.bodies.flatMap fields) := by
  cases form with
  | all b | «exists» b | existsOne b | filter b | transform b =>
    have := h b (List.mem_singleton_self b)
    rw [Comprehension.map, loopBody]
    exact .of_eq (by simp [Comprehension.bodies]) (by simp [Comprehension.bodies])
  | filterTransform p b =>
    have := h p List.mem_cons_self
    have := h b (List.mem_cons_of_mem p (List.mem_singleton_self b))
    rw [Comprehension.map, loopBody]
    exact .of_eq (by simp [Comprehension.bodies]) (by simp [Comprehension.bodies])

theorem files_loop (x : String) (h : ∀ b ∈ form.bodies, Files (f b).build (values b) (fields b))
    (iterator acc : Nat) :
    Files (loop x (form.map f) iterator acc s) (form.bodies.flatMap values)
      (form.bodies.flatMap fields) := by
  have := files_loopBody s form h
  simp only [loop, turn]
  exact .of_eq (by simp) (by simp)

theorem files_rounds (x : String) (h : ∀ b ∈ form.bodies, Files (f b).build (values b) (fields b))
    (iterator : Nat) :
    Files (rounds x (form.map f) iterator s) (form.bodies.flatMap values)
      (form.bodies.flatMap fields) := by
  have := files_loop s form x h
  -- The search for instances stays small if the pieces are grouped from the left.
  simp only [rounds, ← bind_assoc]
  exact .of_eq (by simp) (by simp)

/-- A comprehension files what its target does, and then what its clauses do. -/
theorem files_comprehension (target : Build Nat) {vs : List Value} {fs : List (List String)}
    [Files target vs fs] (x : String)
    (h : ∀ b ∈ form.bodies, Files (f b).build (values b) (fields b)) :
    Files (comprehension target x (form.map f) s) (vs ++ form.bodies.flatMap values)
      (fs ++ form.bodies.flatMap fields) := by
  have := files_rounds s form x h
  rw [comprehension_eq]
  exact .of_eq (by simp) (by simp)

end

end Lowering

/-! ## The code of expressions -/

namespace Expr

/-- The constant that a node has. -/
@[simp] def constant? : Expr → Option Value
  | .literal l _ => l.constant?
  | _ => none

/-- The field names that a node has. -/
@[simp] def fieldNames? : Expr → Option (List String)
  | .message _ fields _ => some (fields.map Prod.fst)
  | _ => none

/-- Only literals have constants. -/
theorem passes_constant? : Passes constant? :=
  ⟨fun _ _ => rfl, fun _ _ => rfl, fun _ _ _ => rfl, fun _ _ _ => rfl, fun _ _ _ _ => rfl⟩

/-- Only messages have field names. -/
theorem passes_fieldNames? : Passes fieldNames? :=
  ⟨fun _ _ => rfl, fun _ _ => rfl, fun _ _ _ => rfl, fun _ _ _ => rfl, fun _ _ _ _ => rfl⟩

end Expr

open Build Lowering

/-- A piece files for an expression what its children and then its node have. -/
theorem Expr.files_of_children {x : Build Nat} {e : Expr} {values : List Value}
    {fields : List (List String)} [h : Files x values fields]
    (hv : values = e.children.flatMap (gather constant?) ++ e.constant?.toList)
    (hf : fields = e.children.flatMap (gather fieldNames?) ++ e.fieldNames?.toList) :
    Files x (e.gather constant?) (e.gather fieldNames?) := by
  rw [gather_eq, gather_eq]
  exact .of_eq hv hf

/-- Several expressions file what each of them does, one after another. -/
theorem files_lowerAll (macros : Bool) (es : List Expr)
    (h : ∀ e ∈ es, Files (e.lower macros) (e.gather Expr.constant?) (e.gather Expr.fieldNames?)) :
    Files (lowerAll macros es) (es.flatMap (Expr.gather Expr.constant?))
      (es.flatMap (Expr.gather Expr.fieldNames?)) := by
  induction es with
  | nil => exact inferInstanceAs (Files (pure []) [] [])
  | cons e rest ih =>
    have := h e List.mem_cons_self
    have := ih fun e he => h e (List.mem_cons_of_mem _ he)
    rw [lowerAll]
    exact .of_eq (by simp) (by simp)

/-- The code of an expression files the constants and the field names of its nodes. -/
theorem Expr.files_lower (macros : Bool) (e : Expr) :
    Files (e.lower macros) (e.gather constant?) (e.gather fieldNames?) := by
  induction e using Expr.induct with
  | step e ih =>
    cases e with
    | literal l s =>
      rw [lower]
      exact files_of_children (by simp [parts]) (by simp [parts])
    | ident name s =>
      rw [lower]
      exact files_of_children (by simp [parts]) (by simp [parts])
    | list items s =>
      have := files_lowerAll macros items ih
      rw [lower]
      exact files_of_children (by simp [parts]) (by simp [parts])
    | map entries s =>
      have := files_lowerAll macros (entries.flatMap fun p : Expr × Expr => [p.1, p.2]) ih
      rw [lower, lowerEntries_eq]
      exact files_of_children (by simp [parts]) (by simp [parts])
    | message typeName fields s =>
      have := files_lowerAll macros (fields.map Prod.snd) ih
      rw [lower, lowerFields_eq]
      exact files_of_children (by simp [parts]) (by simp [parts])
    | unary op operand s =>
      have := ih operand (by simp [parts])
      rw [lower]
      exact files_of_children (by simp [parts]) (by simp [parts])
    | binary op left right s =>
      have := ih left (by simp [parts])
      have := ih right (by simp [parts])
      rw [lower]
      split <;> exact files_of_children (by simp [parts]) (by simp [parts])
    | conditional c whenTrue whenFalse s =>
      have := ih c (by simp [parts])
      have := ih whenTrue (by simp [parts])
      have := ih whenFalse (by simp [parts])
      rw [lower]
      exact files_of_children (by simp [parts]) (by simp [parts])
    | member operand field s =>
      have := ih operand (by simp [parts])
      rw [lower]
      exact files_of_children (by simp [parts]) (by simp [parts])
    | index operand position s =>
      have := ih operand (by simp [parts])
      have := ih position (by simp [parts])
      rw [lower]
      exact files_of_children (by simp [parts]) (by simp [parts])
    | call function args s =>
      rw [lower_call]
      split
      · rename_i operand field hp
        have := ih operand (mem_parts_of_presence? hp)
        -- The selection in a presence test is no node of its own, but it has nothing to file.
        rw [gather_presence passes_constant? s hp, gather_presence passes_fieldNames? s hp]
        exact inferInstance
      · have := files_lowerAll macros args fun a ha => ih a (List.mem_append_left _ ha)
        exact files_of_children (by simp) (by simp)
    | method target function args s =>
      have := ih target List.mem_cons_self
      rw [lower_method]
      split
      · rename_i x form hf
        rw [gather_loop passes_constant? target s hf, gather_loop passes_fieldNames? target s hf]
        exact files_comprehension s form (target.lower macros) x fun e he =>
          ih e (List.mem_cons_of_mem _ (mem_args_of_loop? hf e he))
      · have := files_lowerAll macros args fun a ha => ih a (List.mem_cons_of_mem _ ha)
        exact files_of_children (by simp [parts]) (by simp [parts])
    | paren inner s =>
      rw [gather_paren passes_constant?, gather_paren passes_fieldNames?]
      exact ih inner (by simp [parts])

/-- So does the code with the record that ends it. -/
theorem Expr.files_lowerWhole (macros : Bool) (e : Expr) :
    Files (e.lowerWhole macros) (e.gather constant?) (e.gather fieldNames?) := by
  have := e.files_lower macros
  rw [lowerWhole]
  exact .of_eq (by simp) (by simp)

/-! ## Programs -/

section

variable {lines : List Line} {l : Line}

/-- The records of lines do not depend on where they are. -/
theorem map_snd_located (place : Nat) (lines : List Line) :
    (located place lines).map Prod.snd = lines.map Line.toInstruction := by
  induction lines generalizing place with
  | nil => rfl
  | cons l rest ih => rw [located, List.map_cons, ih, List.map_cons]

/-- The record of a line is among those of the lines. -/
theorem exists_mem_located (hl : l ∈ lines) (place : Nat) :
    ∃ r ∈ located place lines, r.2 = l.toInstruction := by
  have hmem := List.mem_map_of_mem (f := Line.toInstruction) hl
  rwa [← map_snd_located place, List.mem_map] at hmem

/-- What a line refers to in a slot, its record does. -/
theorem Line.exists_mem_operands {operand : Operand} {n : Nat}
    (h : (operand, n) ∈ l.opcode.layout.zip l.slots) :
    ∃ slot, (slot, operand, UInt32.ofNat n) ∈ l.toInstruction.operands := by
  obtain ⟨slot, hslot⟩ := List.mem_iff_getElem?.1 h
  obtain ⟨hoperand, hn⟩ := List.getElem?_zip_eq_some.1 hslot
  have hlt : slot < 4 := (List.getElem?_eq_some_iff.1 hn).1
  refine ⟨slot, List.mem_iff_getElem?.2 ⟨slot, ?_⟩⟩
  have hslots : l.toInstruction.slots = l.slots.map UInt32.ofNat := rfl
  rw [Instruction.operands, List.getElem?_zip_eq_some, List.getElem?_zip_eq_some, hslots,
    List.getElem?_map, hn]
  exact ⟨List.getElem?_range hlt, hoperand, rfl⟩

/-- The operands of the records with an opcode are those of the lines with it. -/
theorem map_filter_located (opcode : Opcode) (f : Instruction → Nat) (g : Line → Nat)
    (hfg : ∀ l ∈ lines, f l.toInstruction = g l) (place : Nat) :
    ((located place lines).filter fun r => r.2.opcode = opcode).map (fun r => f r.2) =
      (lines.filter fun l => l.opcode = opcode).map g := by
  calc _ = (((located place lines).map Prod.snd).filter fun i => i.opcode = opcode).map f := by
        rw [List.filter_map, List.map_map]
        rfl
    _ = (lines.filter fun l => l.opcode = opcode).map fun l => f l.toInstruction := by
        rw [map_snd_located, List.filter_map, List.map_map]
        rfl
    _ = _ := List.map_congr_left fun l hl => hfg l (List.mem_of_mem_filter hl)

end

open Program

/-- The pools of the program of an expression.

    * No name and no span is there twice, and every one is referred to by a record.
    * The constants are those of the expression, from the left to the right, and the
      records that load a constant load one after another.
    * The lists of field names are those of the messages in the expression, each after
      those of the messages that it is made of, and the records that make a message
      refer to one after another. -/
theorem pools_of_compile {options : CompileOptions} {e : Expr} {p : Program}
    (h : compile options e = .ok p) :
    ∃ rs, p.decodeAll = .ok rs ∧
      (p.strings.toList.Nodup ∧ ∀ k < p.strings.size, ∃ r ∈ rs, ∃ slot n,
        (slot, .string, n) ∈ r.2.operands ∧ n.toNat = k) ∧
      (p.spans.toList.Nodup ∧ ∀ k < p.spans.size, ∃ r ∈ rs, r.2.span.toNat = k) ∧
      (p.constants.toList = e.gather Expr.constant? ∧
        (rs.filter fun r => r.2.opcode = .loadConst).map (fun r => r.2.op1.toNat) =
          List.range p.constants.size) ∧
      p.messageFields.toList = e.gather Expr.fieldNames? ∧
        (rs.filter fun r => r.2.opcode = .makeMessage).map (fun r => r.2.op2.toNat) =
          List.range p.messageFields.size := by
  obtain ⟨hfits, rfl⟩ := compile_eq_ok_iff.1 h
  have hfits : ∀ l ∈ (e.lowerWhole options.macros {}).lines, l.fits :=
    List.all_eq_true.1 (Bool.and_eq_true_iff.1 hfits).2
  have hfiled := (e.files_lowerWhole options.macros).filed {}
  refine ⟨_, decodeAll_of_layout (Assembly.layout_toProgram _),
    ⟨hfiled.strings.nodup .nil, fun k hk => ?_⟩, ⟨hfiled.spans.nodup .nil, fun k hk => ?_⟩,
    ⟨hfiled.constants.pool_eq, ?_⟩, hfiled.messageFields.pool_eq, ?_⟩
  · -- Every name has been entered for a record that refers to it.
    obtain ⟨l, hl, hk⟩ := List.mem_flatMap.1 (hfiled.strings.mem_refs k (Nat.zero_le k) hk)
    obtain ⟨r, hr, hi⟩ := exists_mem_located hl 0
    obtain ⟨slot, hslot⟩ := Line.exists_mem_operands (Line.mem_names.1 hk)
    rw [← hi] at hslot
    refine ⟨r, hr, slot, _, hslot, toNat_ofNat_of_lt ?_⟩
    exact Line.lt_of_mem_slots (hfits l hl) (List.of_mem_zip (Line.mem_names.1 hk)).2
  · -- So has every span.
    obtain ⟨l, hl, rfl⟩ := List.mem_map.1 (hfiled.spans.mem_refs k (Nat.zero_le k) hk)
    obtain ⟨r, hr, hi⟩ := exists_mem_located hl 0
    refine ⟨r, hr, ?_⟩
    rw [hi]
    exact toNat_ofNat_of_lt (Line.fits_iff.1 (hfits l hl)).1
  · have hop1 : ∀ l ∈ (e.lowerWhole options.macros {}).lines, l.toInstruction.op1.toNat = l.op1 :=
      fun l hl => toNat_ofNat_of_lt (Line.fits_iff.1 (hfits l hl)).2.2.1
    exact (map_filter_located .loadConst (·.op1.toNat) Line.op1 hop1 0).trans
      hfiled.constants.refs_eq_range
  · have hop2 : ∀ l ∈ (e.lowerWhole options.macros {}).lines, l.toInstruction.op2.toNat = l.op2 :=
      fun l hl => toNat_ofNat_of_lt (Line.fits_iff.1 (hfits l hl)).2.2.2.1
    exact (map_filter_located .makeMessage (·.op2.toNat) Line.op2 hop2 0).trans
      hfiled.messageFields.refs_eq_range

/-- The expression `P{a: [1, x.exists(y, y == 1)], b: P{a: "x"}}`. -/
def nestedMessages : Expr :=
  .message "P" [
    ("a", .list [.literal (.int 1) ⟨6, 7⟩, .method (.ident "x" ⟨9, 10⟩) "exists" [
      .ident "y" ⟨18, 19⟩, .binary .equals (.ident "y" ⟨21, 22⟩) (.literal (.int 1) ⟨26, 27⟩)
        ⟨21, 27⟩] ⟨9, 28⟩] ⟨5, 29⟩),
    ("b", .message "P" [("a", .literal (.string "x") ⟨39, 42⟩)] ⟨34, 43⟩)] ⟨0, 44⟩

/-- The constant written twice is entered twice, and the name of the type once. -/
theorem pools_nestedMessages : ∃ p rs, compile {} nestedMessages = .ok p ∧
    p.decodeAll = .ok rs ∧ p.strings.toList.Nodup ∧ p.spans.toList.Nodup ∧
    p.constants.toList = [.int 1, .int 1, .string "x"] ∧
    (rs.filter fun r => r.2.opcode = .loadConst).map (fun r => r.2.op1.toNat) = [0, 1, 2] ∧
    p.messageFields.toList = [["a"], ["a", "b"]] ∧
    (rs.filter fun r => r.2.opcode = .makeMessage).map (fun r => r.2.op2.toNat) = [0, 1] := by
  have hcompile : compile {} nestedMessages = .ok (nestedMessages.assembly true).toProgram :=
    compile_of_fits (by decide +kernel)
  obtain ⟨rs, hrs, ⟨hstrings, -⟩, ⟨hspans, -⟩, ⟨hconstants, hloads⟩, hfields, hmakes⟩ :=
    pools_of_compile hcompile
  have hconstants : (nestedMessages.assembly true).toProgram.constants.toList =
      [.int 1, .int 1, .string "x"] := hconstants.trans rfl
  have hfields : (nestedMessages.assembly true).toProgram.messageFields.toList =
      [["a"], ["a", "b"]] := hfields.trans rfl
  rw [← Array.length_toList, hconstants] at hloads
  rw [← Array.length_toList, hfields] at hmakes
  exact ⟨_, rs, hcompile, hrs, hstrings, hspans, hconstants, hloads, hfields, hmakes⟩

end ExprMachine
