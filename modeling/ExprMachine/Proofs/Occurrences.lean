import ExprMachine.Proofs.Appending
import ExprMachine.Proofs.RegisterFrames

/-!
# The parts of the code of an expression

While the code of an expression is built, the code of other expressions is built as part of it, each
on a draft of its own (`Build.IncludedIn`). The registers that the draft hands out on the way are
those of the part, and in the program of the whole expression the part keeps to them
(`Machine.frames_of_compile`).

Not all parts of an expression have code. A presence test has none of its argument but of the
operand that is selected from, and a comprehension none of the name that it binds
(`Expr.compiledParts`).
-/

namespace ExprMachine

open Build Lowering
open Relation (ReflTransGen)

/-! ## Pieces in pieces -/

/-- While a piece is built on a draft, another one is built on some draft, and its records are among
    those of the whole. -/
inductive Build.IncludedIn {β : Type} (y : Build β) (e : Draft) :
    {α : Type} → Build α → Draft → Prop where
  | self : y.IncludedIn e y e
  | left {α γ : Type} {x : Build α} {f : α → Build γ} {d : Draft} [∀ a, Lawful (f a)]
      (h : y.IncludedIn e x d) : y.IncludedIn e (x >>= f) d
  | right {α γ : Type} {x : Build α} {f : α → Build γ} {d : Draft} [Lawful x]
      (h : y.IncludedIn e (f (x d).value) (x d).draft) : y.IncludedIn e (x >>= f) d
  /-- The piece lies behind a record whose target is its end. -/
  | behind {α : Type} {x : Build α} {line : Nat → Nat → Line} {s : Span} {d : Draft}
      (h : y.IncludedIn e x (reserved d s)) : y.IncludedIn e (skipping line s x) d

namespace Build.IncludedIn

variable {α β γ : Type} {x : Build α} {y : Build β} {z : Build γ} {d d' e : Draft}

/-- What is in a program is there with all pieces of it. -/
theorem loads {p : Program} (h : y.IncludedIn e x d) (hl : p.Loads d (x d)) : p.Loads e (y e) := by
  induction h with
  | self => exact hl
  | left _ ih => exact ih hl.left
  | right _ ih => exact ih hl.right
  | behind _ ih =>
    rw [skipping_apply] at hl
    exact ih ⟨hl.holds.tail, hl.covers⟩

/-- What is built within a piece is built within all that the piece is built in. -/
theorem trans (hz : z.IncludedIn e y d') (hy : y.IncludedIn d' x d) : z.IncludedIn e x d := by
  induction hy with
  | self => exact hz
  | left _ ih => exact .left ih
  | right _ ih => exact .right ih
  | behind _ ih => exact .behind ih

end Build.IncludedIn

/-! ## The parts of constructs -/

namespace Lowering

variable (s : Span) (d : Draft)

section

variable {form : Comprehension Body} (hlawful : ∀ b ∈ form.bodies, Lawful b.build)
include hlawful

theorem includedIn_comprehension (target : Build Nat) [Lawful target] (x : String) :
    target.IncludedIn d (comprehension target x form s) d := by
  have := valued_rounds x form hlawful
  rw [comprehension_eq]
  exact .left .self

variable {b : Body} (hb : b ∈ form.bodies)
include hb

/-- Every clause has code in the body of the loop. -/
theorem exists_includedIn_loopBody (acc item head : Nat) :
    ∃ e, b.build.IncludedIn e (loopBody form acc item head s) d := by
  cases form with
  | all p | «exists» p | existsOne p | filter p =>
    obtain rfl := List.mem_singleton.1 hb
    have := hlawful b (List.mem_singleton_self b)
    exact ⟨d, .left (.left .self)⟩
  | transform p =>
    obtain rfl := List.mem_singleton.1 hb
    exact ⟨d, .left .self⟩
  | filterTransform p t =>
    have := hlawful p List.mem_cons_self
    have := hlawful t (List.mem_cons_of_mem p (List.mem_singleton_self t))
    rcases List.mem_pair.1 hb with rfl | rfl
    · exact ⟨d, .left (.left .self)⟩
    · exact ⟨_, .right (.right (.left .self))⟩

/-- The code of a body lies in the loop, behind the record that gives the next item. -/
theorem exists_includedIn_loop (x : String) (iterator acc : Nat) :
    ∃ e, b.build.IncludedIn e (loop x form iterator acc s) d :=
  (exists_includedIn_loopBody s _ hlawful hb acc _ _).imp fun _ h =>
    .right (.right (.behind (.right (.right h))))

theorem exists_includedIn_comprehension (target : Build Nat) [Lawful target] (x : String) :
    ∃ e, b.build.IncludedIn e (comprehension target x form s) d := by
  have := lawful_loop x form hlawful
  rw [comprehension_eq]
  exact (exists_includedIn_loop s _ hlawful hb x _ _).imp fun _ h =>
    .right (.right (.right (.right (.right (.right (.left h))))))

end

end Lowering

/-! ## The parts of expressions -/

/-- Each expression of a list has code among that of the list. -/
theorem exists_includedIn_lowerAll (macros : Bool) {es : List Expr} {a : Expr} (ha : a ∈ es)
    (d : Draft) : ∃ e, (a.lower macros).IncludedIn e (lowerAll macros es) d := by
  induction es generalizing d with
  | nil => cases ha
  | cons b rest ih =>
    rcases List.mem_cons.1 ha with rfl | ha
    · exact ⟨d, .left .self⟩
    · exact (ih ha _).imp fun _ h => .right (.left h)

namespace Expr

variable {macros : Bool} {a e : Expr}

/-- The expressions whose code is part of that of an expression. -/
def compiledParts (macros : Bool) : Expr → List Expr
  | .call function args _ =>
    match presence? macros function args with
    | some (operand, _) => [operand]
    | none => args
  | .method target function args _ =>
    match loop? macros function args with
    | some (_, form) => target :: form.bodies
    | none => target :: args
  | e => e.parts

/-- The code of an expression is built from that of its compiled parts. -/
theorem exists_includedIn_of_mem_compiledParts (h : a ∈ e.compiledParts macros) (d : Draft) :
    ∃ d', (a.lower macros).IncludedIn d' (e.lower macros) d := by
  cases e with
  | literal l s => cases h
  | ident name s => cases h
  | list items s =>
    rw [lower]
    exact (exists_includedIn_lowerAll macros h d).imp fun _ h => .left h
  | map entries s =>
    rw [lower, lowerEntries_eq]
    exact (exists_includedIn_lowerAll macros h d).imp fun _ h => .left h
  | message typeName fields s =>
    rw [lower, lowerFields_eq]
    exact (exists_includedIn_lowerAll macros h d).imp fun _ h => .left h
  | unary op operand s =>
    obtain rfl := List.mem_singleton.1 h
    rw [lower]
    exact ⟨d, .left .self⟩
  | binary op left right s =>
    rw [lower]
    rcases List.mem_pair.1 h with rfl | rfl
    · split
      · exact ⟨d, .left .self⟩
      · exact ⟨d, .left .self⟩
    · split
      · exact ⟨_, .right (.right (.right (.left (.behind (.left .self)))))⟩
      · exact ⟨_, .right (.left .self)⟩
  | conditional c whenTrue whenFalse s =>
    rw [lower, choose_eq]
    simp only [compiledParts, parts, List.mem_cons, List.not_mem_nil, or_false] at h
    rcases h with rfl | rfl | rfl
    · exact ⟨d, .left .self⟩
    · exact ⟨_, .right (.right (.right (.left (.behind (.left .self)))))⟩
    · exact ⟨_, .right (.right (.right (.right (.left (.behind (.left .self))))))⟩
  | member operand field s =>
    obtain rfl := List.mem_singleton.1 h
    rw [lower]
    exact ⟨d, .left .self⟩
  | index operand position s =>
    rw [lower]
    rcases List.mem_pair.1 h with rfl | rfl
    · exact ⟨d, .left .self⟩
    · exact ⟨_, .right (.left .self)⟩
  | call function args s =>
    rw [lower_call]
    rw [compiledParts] at h
    cases hp : presence? macros function args with
    | some p =>
      rw [hp] at h
      obtain rfl := List.mem_singleton.1 h
      exact ⟨d, .left .self⟩
    | none =>
      rw [hp] at h
      exact (exists_includedIn_lowerAll macros h d).imp fun _ h => .left h
  | method target function args s =>
    rw [lower_method]
    rw [compiledParts] at h
    cases hf : loop? macros function args with
    | some p =>
      obtain ⟨x, form⟩ := p
      rw [hf] at h
      have hlawful := lawful_bodies macros form
      rcases List.mem_cons.1 h with rfl | h
      · exact ⟨d, includedIn_comprehension s d hlawful (lower macros _) x⟩
      · have hbody : a.body macros ∈ (form.map (body macros)).bodies := by
          rw [Comprehension.bodies_map]
          exact List.mem_map_of_mem h
        exact exists_includedIn_comprehension s d hlawful hbody (target.lower macros) x
    | none =>
      rw [hf] at h
      rcases List.mem_cons.1 h with rfl | h
      · exact ⟨d, .left .self⟩
      · exact (exists_includedIn_lowerAll macros h _).imp fun _ h => .right (.left h)
  | paren inner s =>
    obtain rfl := List.mem_singleton.1 h
    rw [lower]
    exact ⟨d, .self⟩

/-- The code of an expression is built while that of another one is built. -/
def PartOf (macros : Bool) : Expr → Expr → Prop :=
  ReflTransGen fun a e => a ∈ e.compiledParts macros

/-- So is it from that of their parts. -/
theorem PartOf.exists_includedIn (h : a.PartOf macros e) (d : Draft) :
    ∃ d', (a.lower macros).IncludedIn d' (e.lower macros) d := by
  induction h generalizing d with
  | refl => exact ⟨d, .self⟩
  | tail _ hmem ih =>
    obtain ⟨d₁, h₁⟩ := exists_includedIn_of_mem_compiledParts hmem d
    obtain ⟨d₂, h₂⟩ := ih d₁
    exact ⟨d₂, h₂.trans h₁⟩

end Expr

/-! ## Programs -/

namespace Machine

variable {m : Machine} {options : CompileOptions} {e : Expr}

/-- The code of every part of an expression is built with registers of its own and leaves its value
    in one of them, and in the program of the expression its execution keeps to them. -/
theorem frames_of_compile (h : compile options e = .ok m.program) :
    (∀ a : Expr, a.PartOf options.macros e →
      ∃ d, (a.lower options.macros).IncludedIn d (e.lowerWhole options.macros) {}) ∧
    ∀ (a : Expr) (d : Draft),
      (a.lower options.macros).IncludedIn d (e.lowerWhole options.macros) {} →
        m.program.Loads d (a.lower options.macros d) ∧
        d.registers ≤ (a.lower options.macros d).value ∧
        (a.lower options.macros d).value < (a.lower options.macros d).draft.registers ∧
        m.Frames d (a.lower options.macros d) := by
  refine ⟨fun a ha => ?_, fun a d hincluded => ?_⟩
  · rw [Expr.lowerWhole]
    exact (ha.exists_includedIn {}).imp fun _ h => .left h
  · have hloads := hincluded.loads (loads_of_compile h)
    exact ⟨hloads, Valued.le_value d, Valued.value_lt d, frames_lower hloads⟩

/-- The expression `x.filter(y, y)`, which is a part of `mapOfFilter`. -/
def filterOfMap : Expr :=
  .method (.ident "x" ⟨25, 26⟩) "filter" [.ident "y" ⟨34, 35⟩, .ident "y" ⟨37, 38⟩] ⟨25, 39⟩

/-- Before the code of the inner loop, in the second turn of the outer one, whose list is under
    construction. -/
def secondTurn : State where
  pc := stride * 14
  registers := Array.replicate 19 none
  iterators := [(9, [])]
  pending := [(10, [.list [.bool true]])]
  idempotent := true
  openScopes := 1
  env := { inner := [[("x", .list [.bool false])]] }

theorem exists_includedIn_filterOfMap : ∃ d,
    (filterOfMap.lower true).IncludedIn d (mapOfFilter.lowerWhole true) {} ∧
      d.records = 14 ∧ d.registers = 12 ∧ (filterOfMap.lower true d).value = 17 ∧
      (filterOfMap.lower true d).draft.records = 27 ∧
      (filterOfMap.lower true d).draft.registers = 18 := by
  refine ⟨_, .left (.right (.right (.right (.right (.right (.right (.right (.right (.left
    (.behind (.right (.right (.left .self))))))))))))), ?_⟩
  decide +kernel

/-- The inner loop builds its list and leaves that of the outer loop as it is. -/
theorem frames_filterOfMap :
    compile {} mapOfFilter = .ok (bare (mapOfFilter.assembly true)).program ∧ ∃ d t,
      (filterOfMap.lower true).IncludedIn d (mapOfFilter.lowerWhole true) {} ∧
      (d.records = 14 ∧ d.registers = 12 ∧ (filterOfMap.lower true d).value = 17 ∧
        (filterOfMap.lower true d).draft.records = 27 ∧
        (filterOfMap.lower true d).draft.registers = 18) ∧
      (bare (mapOfFilter.assembly true)).Through d.records
        (filterOfMap.lower true d).draft.records secondTurn t ∧
      t.pc = stride * (filterOfMap.lower true d).draft.records ∧
      secondTurn.Framed d.registers (filterOfMap.lower true d).draft.registers t := by
  have hcompile : compile {} mapOfFilter = .ok (bare (mapOfFilter.assembly true)).program :=
    compile_of_fits (by decide +kernel)
  obtain ⟨d, hd, hplaces⟩ := exists_includedIn_filterOfMap
  have hframes : (bare (mapOfFilter.assembly true)).Frames d (filterOfMap.lower true d) :=
    ((frames_of_compile hcompile).2 filterOfMap d hd).2.2.2
  have hpc : secondTurn.pc = stride * d.records := by
    rw [hplaces.1]
    rfl
  have hsize : secondTurn.registers.size =
      (bare (mapOfFilter.assembly true)).program.registers.toNat := by decide +kernel
  have hpending (r : UInt32) (hr : d.registers ≤ r.toNat) : secondTurn.pending.get? r = none := by
    rw [hplaces.2.1] at hr
    have hne : (10 : UInt32) ≠ r := by
      rintro rfl
      exact absurd hr (by decide)
    simp [secondTurn, Entries.get?, hne]
  rcases hframes secondTurn hpc hsize fun r hr _ => hpending r hr with
    ⟨t, u, err, hthrough, -, hfails⟩ | ⟨t, ht⟩
  · -- The execution would fail, but from there it ends with a value.
    have hends : ((bare (mapOfFilter.assembly true)).run 30 secondTurn).any
        fun r => (Execution.ofResult r).result.isOk := by decide +kernel
    have hfailure : (bare (mapOfFilter.assembly true)).run 1 t = some (.error err u) := by
      rw [run, hfails]
    obtain ⟨k, hk⟩ := run_of_reaches hthrough.reaches hfailure
    obtain ⟨r, hr, hok⟩ := (Option.any_eq_true _ _).1 hends
    obtain rfl := run_unique hr hk
    cases hok
  · exact ⟨hcompile, d, t, hd, hplaces, ht⟩

end Machine

end ExprMachine
