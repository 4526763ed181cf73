import ExprMachine.Proofs.Subexpressions

/-!
# How drafts grow

Building code only ever adds to a draft: no register is handed out twice, no
entry of a pool is moved or lost, and the records counted are those emitted. A
piece of which this holds on every draft is *lawful* (`Build.Lawful`).

Leaving room for records and placing them are not lawful by themselves; jumping
over a piece, and a choice between two, are lawful as a whole. So is all code of
expressions (`Expr.valued_lower`).
-/

namespace ExprMachine

/-! ## Pools -/

section

variable {α : Type} [DecidableEq α] (pool : List α) (a : α)

/-- Interning only adds behind what a pool has. -/
theorem prefix_intern : pool <+: (intern pool a).2 := by
  rw [intern]
  split
  · exact List.prefix_rfl
  · exact List.prefix_append _ _

/-- An element is found in the pool at the place that it has been given. -/
theorem getElem?_intern : (intern pool a).2[(intern pool a).1]? = some a := by
  rw [intern]
  split
  · rename_i i h
    obtain ⟨hi, ha, -⟩ := List.idxOf?_eq_some_iff.1 h
    rw [List.getElem?_eq_getElem hi, ha]
  · simp

/-- The place that is given out is one of the pool. -/
theorem intern_lt_length : (intern pool a).1 < (intern pool a).2.length :=
  (List.getElem?_eq_some_iff.1 (getElem?_intern pool a)).1

end

/-- What a list holds at a place, every list that it is a prefix of holds there. -/
theorem getElem?_mono {α : Type} {l l' : List α} (h : l <+: l') {i : Nat} {a : α}
    (hi : l[i]? = some a) : l'[i]? = some a := by
  obtain ⟨r, rfl⟩ := h
  rw [List.getElem?_append_left (List.getElem?_eq_some_iff.1 hi).1, hi]

/-! ## The order of drafts -/

/-- All that a draft has, a later one has. -/
structure Draft.Precedes (d e : Draft) : Prop where
  registers : d.registers ≤ e.registers
  constants : d.constants <+: e.constants
  strings : d.strings <+: e.strings
  spans : d.spans <+: e.spans
  messageFields : d.messageFields <+: e.messageFields

namespace Draft.Precedes

variable {d e f : Draft}

/-- A draft has what it has. -/
theorem refl (d : Draft) : d.Precedes d :=
  ⟨Nat.le_refl _, List.prefix_rfl, List.prefix_rfl, List.prefix_rfl, List.prefix_rfl⟩

/-- What is kept twice in turn is kept. -/
theorem trans (h : d.Precedes e) (h' : e.Precedes f) : d.Precedes f where
  registers := Nat.le_trans h.registers h'.registers
  constants := h.constants.trans h'.constants
  strings := h.strings.trans h'.strings
  spans := h.spans.trans h'.spans
  messageFields := h.messageFields.trans h'.messageFields

end Draft.Precedes

/-! ## Lawful pieces -/

namespace Build

variable {α β : Type}

/-- The piece adds to every draft, and counts the records that it emits. -/
class Lawful (x : Build α) : Prop where
  precedes : ∀ d : Draft, d.Precedes (x d).draft
  records : ∀ d : Draft, (x d).draft.records = d.records + (x d).lines.length

export Lawful (precedes records)

section

variable (x : Build α) (f : α → Build β) (d : Draft)

@[simp] theorem value_bind : ((x >>= f) d).value = (f (x d).value (x d).draft).value := rfl

@[simp] theorem lines_bind :
    ((x >>= f) d).lines = (x d).lines ++ (f (x d).value (x d).draft).lines := rfl

@[simp] theorem draft_bind : ((x >>= f) d).draft = (f (x d).value (x d).draft).draft := rfl

@[simp] theorem pure_apply (a : α) : (pure a : Build α) d = ⟨a, [], d⟩ := rfl

/-- The draft once room has been left for a record. -/
def reserved (s : Span) : Draft :=
  { d with spans := (intern d.spans s).2, records := d.records + 1 }

/-- A record with room left for it stands before the piece that it skips, with the place after the
    piece. -/
theorem skipping_apply (line : Nat → Nat → Line) (s : Span) :
    skipping line s x d =
      ⟨(x (reserved d s)).value,
        line (stride * (x (reserved d s)).draft.records) (intern d.spans s).1 ::
          (x (reserved d s)).lines,
        (x (reserved d s)).draft⟩ := by
  show Piece.mk _ (_ :: _ ++ []) _ = _
  rw [List.append_nil]
  rfl

/-- The room that is left counts as a record. -/
theorem records_reserved (s : Span) : (reserved d s).records = d.records + 1 := rfl

/-- Leaving room for a record loses nothing. -/
theorem precedes_reserved (s : Span) : d.Precedes (reserved d s) where
  registers := Nat.le_refl _
  constants := List.prefix_rfl
  strings := List.prefix_rfl
  spans := prefix_intern _ _
  messageFields := List.prefix_rfl

end

instance (a : α) : Lawful (pure a : Build α) where
  precedes d := .refl d
  records _ := rfl

instance (x : Build α) (f : α → Build β) [Lawful x] [∀ a, Lawful (f a)] : Lawful (x >>= f) where
  precedes d := (precedes d).trans (precedes _)
  records d := by
    rw [draft_bind, records, records (x := x), lines_bind, List.length_append, Nat.add_assoc]

instance (n : Nat) : Lawful (block n) where
  precedes d := { Draft.Precedes.refl d with registers := Nat.le_add_right _ _ }
  records _ := rfl

instance : Lawful fresh := inferInstanceAs (Lawful (block 1))

instance (s : String) : Lawful (string s) where
  precedes d := { Draft.Precedes.refl d with strings := prefix_intern _ _ }
  records _ := rfl

instance (v : Value) : Lawful (constant v) where
  precedes d := { Draft.Precedes.refl d with constants := List.prefix_append _ _ }
  records _ := rfl

instance (names : List String) : Lawful (fields names) where
  precedes d := { Draft.Precedes.refl d with messageFields := List.prefix_append _ _ }
  records _ := rfl

instance : Lawful here where
  precedes d := .refl d
  records _ := rfl

instance (opcode : Opcode) (dst op1 op2 op3 : Nat) (s : Span) :
    Lawful (emit opcode dst op1 op2 op3 s) where
  precedes d := precedes_reserved d s
  records _ := rfl

instance (line : Nat → Nat → Line) (s : Span) (x : Build α) [Lawful x] :
    Lawful (skipping line s x) where
  precedes d := by
    rw [skipping_apply]
    exact (precedes_reserved d s).trans (precedes _)
  records d := by
    rw [skipping_apply]
    show (x (reserved d s)).draft.records = d.records + ((x (reserved d s)).lines.length + 1)
    rw [records, records_reserved, Nat.add_right_comm, Nat.add_assoc]

instance (opcode : Opcode) (tested : Nat) (s : Span) (x : Build α) [Lawful x] :
    Lawful (jumpOver opcode tested s x) :=
  inferInstanceAs (Lawful (skipping _ s x))

/-- The piece is lawful and yields a certain register, whatever the draft. -/
class Returns (r : outParam Nat) (x : Build Nat) : Prop extends Lawful x where
  value_eq : ∀ d : Draft, (x d).value = r

/-- The piece is lawful and yields a register that it has handed out. -/
class Valued (x : Build Nat) : Prop extends Lawful x where
  le_value : ∀ d : Draft, d.registers ≤ (x d).value
  value_lt : ∀ d : Draft, (x d).value < (x d).draft.registers

export Valued (le_value value_lt)

instance (r : Nat) : Returns r (pure r : Build Nat) where
  value_eq _ := rfl

instance (r : Nat) (x : Build α) (f : α → Build Nat) [Lawful x] [∀ a, Returns r (f a)] :
    Returns r (x >>= f) where
  value_eq _ := Returns.value_eq (x := f _) _

instance (x : Build α) (f : α → Build Nat) [Lawful x] [∀ a, Valued (f a)] : Valued (x >>= f) where
  le_value d := Nat.le_trans (precedes (x := x) d).registers (le_value (x := f _) _)
  value_lt _ := value_lt (x := f _) _

instance (f : Nat → Build Nat) [∀ r, Returns r (f r)] : Valued (fresh >>= f) where
  le_value d := by
    rw [value_bind, Returns.value_eq]
    exact Nat.le_refl _
  value_lt d := by
    rw [value_bind, Returns.value_eq]
    exact (precedes (x := f (fresh d).value) (fresh d).draft).registers

end Build

/-! ## The code of expressions -/

namespace Lowering

open Build

instance (l : Literal) (s : Span) : Valued (literal l s) := by
  rw [literal]
  match l with
  | .null | .bool true | .bool false | .int _ | .uint _ | .double _ | .string _ | .bytes _ =>
    exact inferInstance

/-- Moving registers into a row is lawful, by induction on the registers. -/
theorem lawful_moveAll (s : Span) (regs : List Nat) (base : Nat) :
    Lawful (moveAll base s regs) := by
  induction regs generalizing base with
  | nil => exact inferInstanceAs (Lawful (pure ()))
  | cons r rest ih =>
    have := ih (base + 1)
    rw [moveAll]
    exact inferInstance

instance (base : Nat) (s : Span) (regs : List Nat) : Lawful (moveAll base s regs) :=
  lawful_moveAll s regs base

instance (regs : List Nat) (s : Span) : Lawful (consecutive regs s) := by
  rw [consecutive]
  exact inferInstance

instance (opcode : Opcode) (regs : List Nat) (count : Nat) (s : Span) :
    Valued (aggregate opcode regs count s) := by
  rw [aggregate]
  exact inferInstance

instance (typeName : String) (names : List String) (regs : List Nat) (s : Span) :
    Valued (message typeName names regs s) := by
  rw [message]
  exact inferInstance

instance (function : String) (regs : List Nat) (s : Span) : Valued (call function regs s) := by
  rw [call]
  exact inferInstance

section

variable (x y : Build Nat) [Lawful x] [Lawful y] (s : Span)

instance (opcode : Opcode) (field : String) : Valued (select opcode x field s) := by
  rw [select]
  exact inferInstance

instance (op : BinaryOperator) : Valued (shortCircuit op x y s) := by
  rw [shortCircuit]
  exact inferInstance

instance (op : BinaryOperator) : Valued (strict op x y s) := by
  rw [strict]
  exact inferInstance

end

/-- A branch of a choice: its value is moved into the register of the result. -/
def branch (result : Nat) (x : Build Nat) (s : Span) : Build Unit := do
  let v ← x
  emit .move result v 0 0 s

instance (result : Nat) (x : Build Nat) (s : Span) [Lawful x] : Lawful (branch result x s) := by
  rw [branch]
  exact inferInstance

/-- A choice is a jump over each of its branches, the first one to the record
    after the second jump. -/
theorem choose_eq (condition : Body) (whenTrue whenFalse : Build Nat) (s : Span) :
    choose condition whenTrue whenFalse s = (do
      let test ← condition.build
      emit .condCheck 0 test ConditionRole.conditional.tag.toNat 0 condition.span
      let result ← fresh
      skipping (fun target i => ⟨.jumpIfFalse, test, target + stride, 0, 0, i⟩) s
        (branch result whenTrue s)
      skipping (fun target i => ⟨.jump, 0, target, 0, 0, i⟩) s (branch result whenFalse s)
      pure result) := by
  -- The records are the same on both sides, put together in another order.
  funext d
  show Piece.mk _ (_ ++ (_ ++ (_ :: _ ++ _ :: _ ++ []))) _ =
    Piece.mk _ (_ ++ (_ ++ ((_ :: _ ++ []) ++ (_ :: _ ++ [] ++ [])))) _
  simp only [List.append_nil]
  rfl

instance (condition : Body) (whenTrue whenFalse : Build Nat) (s : Span)
    [Lawful condition.build] [Lawful whenTrue] [Lawful whenFalse] :
    Valued (choose condition whenTrue whenFalse s) := by
  rw [choose_eq]
  exact inferInstance

instance (body : Body) (role : ConditionRole) [Lawful body.build] :
    Lawful (guarded body role) := by
  rw [guarded]
  exact inferInstance

/-- The end of a turn that is decided: the result is loaded, and the code goes on
    past its end. -/
def decided (stop : Bool) (acc : Nat) (s : Span) : Build Unit := do
  emit (if stop then .loadTrue else .loadFalse) acc 0 0 0 s
  jumpOver .jump 0 s (pure ())

/-- The code of the forms that seek an item for which the predicate gives
    `stop`. -/
def seek (p : Body) (stop : Bool) (acc head : Nat) (s : Span) : Build Unit := do
  let v ← guarded p .predicate
  emit (if stop then .jumpIfFalse else .jumpIfTrue) v head 0 0 s
  decided stop acc s

/-- The code of `exists_one` for an item that passes the test. -/
def count (acc head : Nat) (s : Span) : Build Unit := do
  emit .condCheck 0 acc ConditionRole.predicate.tag.toNat 0 s
  jumpOver .jumpIfTrue acc s do
    emit .loadTrue acc 0 0 0 s
    emit .jump 0 head 0 0 s
  emit .loadFalse acc 0 0 0 s

/-- The code that goes back to the head unless an item passes a test. -/
def keeping (p : Body) (role : ConditionRole) (head : Nat) (s : Span) (x : Build Unit) :
    Build Unit := do
  let v ← guarded p role
  emit .jumpIfFalse v head 0 0 s
  x

/-- The code that appends a register and goes back to the head. -/
def append (acc r head : Nat) (s : Span) : Build Unit := do
  emit .listAppend acc r 0 0 s
  emit .jump 0 head 0 0 s

instance (stop : Bool) (acc : Nat) (s : Span) : Lawful (decided stop acc s) := by
  rw [decided]
  exact inferInstance

instance (acc head : Nat) (s : Span) : Lawful (count acc head s) := by
  rw [count]
  exact inferInstance

instance (acc r head : Nat) (s : Span) : Lawful (append acc r head s) := by
  rw [append]
  exact inferInstance

instance {β : Type} (form : Comprehension β) (acc : Nat) (s : Span) :
    Lawful (start form acc s) := by
  cases form <;> exact inferInstanceAs (Lawful (emit _ _ _ _ _ _))

/-- The body of a loop is lawful if the clauses of its form are. -/
theorem lawful_loopBody (form : Comprehension Body) (h : ∀ b ∈ form.bodies, Lawful b.build)
    (acc item head : Nat) (s : Span) : Lawful (loopBody form acc item head s) := by
  cases form with
  | all b | «exists» b | existsOne b | filter b | transform b =>
    have := h b (List.mem_singleton_self b)
    rw [loopBody]
    exact inferInstance
  | filterTransform p b =>
    have := h p List.mem_cons_self
    have := h b (List.mem_cons_of_mem p (List.mem_singleton_self b))
    rw [loopBody]
    exact inferInstance

/-- What a loop does for one item: it is bound, and the body follows. -/
def turn (x : String) (form : Comprehension Body) (acc item head : Nat) (s : Span) :
    Build Unit := do
  let name ← string x
  emit .bindVar 0 name item 0 s
  loopBody form acc item head s

/-- The loop of a comprehension, from the record that gives the next item to the
    end of the code for it. -/
def loop (x : String) (form : Comprehension Body) (iterator acc : Nat) (s : Span) :
    Build Unit := do
  let head ← here
  let item ← fresh
  skipping (fun exit i => ⟨.iterNext, item, iterator, exit, 0, i⟩) s (turn x form acc item head s)

/-- A comprehension over the items of an iterator: its loop between the records
    that begin and end it. -/
def rounds (x : String) (form : Comprehension Body) (iterator : Nat) (s : Span) : Build Nat := do
  let acc ← fresh
  start form acc s
  emit .scopePush 0 0 0 0 s
  loop x form iterator acc s
  emit .scopePop 0 0 0 0 s
  let result ← fresh
  emit .move result acc 0 0 s
  pure result

/-- A comprehension is its target, the record that begins to iterate, and its rounds. -/
theorem comprehension_eq (target : Build Nat) (x : String) (form : Comprehension Body) (s : Span) :
    comprehension target x form s = (do
      let source ← target
      let iterator ← fresh
      emit .iterInit iterator source 0 0 s
      rounds x form iterator s) := by
  simp only [rounds, loop, bind_assoc]
  rfl

theorem lawful_turn (x : String) (form : Comprehension Body)
    (h : ∀ b ∈ form.bodies, Lawful b.build) (acc item head : Nat) (s : Span) :
    Lawful (turn x form acc item head s) := by
  have := lawful_loopBody form h
  rw [turn]
  exact inferInstance

theorem lawful_loop (x : String) (form : Comprehension Body)
    (h : ∀ b ∈ form.bodies, Lawful b.build) (iterator acc : Nat) (s : Span) :
    Lawful (loop x form iterator acc s) := by
  have := lawful_turn x form h
  rw [loop]
  exact inferInstance

/-- The rounds of a comprehension yield a register handed out for their result. -/
theorem valued_rounds (x : String) (form : Comprehension Body)
    (h : ∀ b ∈ form.bodies, Lawful b.build) (iterator : Nat) (s : Span) :
    Valued (rounds x form iterator s) := by
  have := lawful_loop x form h
  rw [rounds]
  exact inferInstance

/-- A comprehension is lawful if its target and the clauses of its form are. -/
theorem valued_comprehension (target : Build Nat) (x : String) (form : Comprehension Body)
    (s : Span) [Lawful target] (h : ∀ b ∈ form.bodies, Lawful b.build) :
    Valued (comprehension target x form s) := by
  have := valued_rounds x form h
  rw [comprehension_eq]
  exact inferInstance

end Lowering

open Build Lowering

/-- The codes of several expressions are lawful, one after the other. -/
theorem lawful_lowerAll (macros : Bool) (es : List Expr)
    (h : ∀ e ∈ es, Lawful (e.lower macros)) : Lawful (lowerAll macros es) := by
  induction es with
  | nil => exact inferInstanceAs (Lawful (pure []))
  | cons e rest ih =>
    have := h e List.mem_cons_self
    have := ih fun e he => h e (List.mem_cons_of_mem _ he)
    rw [lowerAll]
    exact inferInstance

/-- The code of every expression is lawful, and its value is in a register of its own. -/
instance Expr.valued_lower (macros : Bool) (e : Expr) : Valued (e.lower macros) := by
  induction e using Expr.induct with
  | step e ih =>
    cases e with
    | literal l s => exact inferInstanceAs (Valued (Lowering.literal l s))
    | ident name s =>
      rw [lower]
      exact inferInstance
    | list items s =>
      have := lawful_lowerAll macros items fun a ha => (ih a ha).toLawful
      rw [lower]
      exact inferInstance
    | map entries s =>
      have : Lawful (lowerAll macros (entries.flatMap fun p => [p.1, p.2])) :=
        lawful_lowerAll macros _ fun a ha => (ih a ha).toLawful
      rw [lower, lowerEntries_eq]
      exact inferInstance
    | message typeName fields s =>
      have : Lawful (lowerAll macros (fields.map Prod.snd)) :=
        lawful_lowerAll macros _ fun a ha => (ih a ha).toLawful
      rw [lower, lowerFields_eq]
      exact inferInstance
    | unary op operand s =>
      have := ih operand (by simp [parts])
      rw [lower]
      exact inferInstance
    | binary op left right s =>
      have := ih left (by simp [parts])
      have := ih right (by simp [parts])
      rw [lower]
      split <;> exact inferInstance
    | conditional c whenTrue whenFalse s =>
      have := ih c (by simp [parts])
      have := ih whenTrue (by simp [parts])
      have := ih whenFalse (by simp [parts])
      rw [lower]
      exact inferInstance
    | member operand field s =>
      have := ih operand (by simp [parts])
      rw [lower]
      exact inferInstance
    | index operand position s =>
      have := ih operand (by simp [parts])
      have := ih position (by simp [parts])
      rw [lower]
      exact inferInstance
    | call function args s =>
      rw [lower_call]
      split
      · -- A presence test is the code of the operand that its argument selects
        -- from, and the argument itself is not built.
        rename_i operand field h
        have := ih operand (mem_parts_of_presence? h)
        exact inferInstance
      · have := lawful_lowerAll macros args fun a ha => (ih a (List.mem_append_left _ ha)).toLawful
        exact inferInstance
    | method target function args s =>
      have := ih target List.mem_cons_self
      rw [lower_method]
      split
      · rename_i x form h
        -- The bodies of the form are the codes of arguments of the call.
        refine valued_comprehension _ _ _ _ fun b hb => ?_
        obtain ⟨e, he, rfl⟩ := Comprehension.mem_bodies_map hb
        exact (ih e (List.mem_cons_of_mem _ (mem_args_of_loop? h e he))).toLawful
      · have := lawful_lowerAll macros args fun a ha => (ih a (List.mem_cons_of_mem _ ha)).toLawful
        exact inferInstance
    | paren inner s => exact ih inner (by simp [parts])

instance (macros : Bool) (es : List Expr) : Lawful (lowerAll macros es) :=
  lawful_lowerAll macros es fun e _ => (Expr.valued_lower macros e).toLawful

/-- So is the code of every body of a comprehension. -/
theorem lawful_bodies (macros : Bool) (form : Comprehension Expr) :
    ∀ b ∈ (form.map (Expr.body macros)).bodies, Lawful b.build := by
  intro b hb
  obtain ⟨e, -, rfl⟩ := Comprehension.mem_bodies_map hb
  exact (Expr.valued_lower macros e).toLawful

end ExprMachine
