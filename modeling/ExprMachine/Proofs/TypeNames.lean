import ExprMachine.MessageType
import Mathlib.Data.List.Induction
import Mathlib.Tactic.Common

/-!
# The names of message types

A catalog is made in steps that allow types, give names aliases and demand aliases or not. What
it knows is told by its history: of each kind of step the last one that is about a name counts,
and a name that has ever been given an alias stays marked (`TypeCatalog.Tells`, kept by each
step). So the history tells what a name stands for:

* What is resolved is the type that has been allowed last under its own name
  (`TypeCatalog.type?_of_resolve`).
* An alias comes before all else, and shadows the type whose name is spelled like it up to case.
* A type that is not shadowed is known by its name, or by an alias if these are demanded, unless
  all its aliases have been given to other names since (`TypeCatalog.Stranded`).
-/

namespace ExprMachine

namespace TypeCatalog

/-! ## Steps -/

/-- A step in the making of a catalog. -/
inductive Step where
  /-- Allows a type. -/
  | allow (name : String) (fields : List String)
  /-- Gives a name an alias. -/
  | addAlias (spelling canonical : String)
  /-- Demands aliases, or no longer. -/
  | enforce (enforced : Bool)
  deriving DecidableEq

/-- The catalog after a step. -/
def apply (c : TypeCatalog) : Step → TypeCatalog
  | .allow name fields => c.allow name fields
  | .addAlias spelling canonical => c.addAlias spelling canonical
  | .enforce enforced => c.enforceAliases enforced

/-- The catalog that steps make. -/
def ofSteps (steps : List Step) : TypeCatalog := steps.foldl apply {}

namespace Step

/-- The type that a step allows under a name. -/
def type? (name : String) : Step → Option MessageType
  | .allow name' fields => if name' = name then some ⟨name', fields⟩ else none
  | _ => none

/-- The name to which a step gives an alias of a spelling, whatever its case. -/
def canonical? (spelling : String) : Step → Option String
  | .addAlias spelling' canonical =>
    if Text.lowercase spelling' = Text.lowercase spelling then some canonical else none
  | _ => none

/-- Whether a step demands aliases, if it is about that. -/
def enforced? : Step → Option Bool
  | .enforce enforced => some enforced
  | _ => none

end Step

/-! ## The history of a catalog -/

/-- What the last step of some that tells it tells. -/
def last? {α : Type} (tell : Step → Option α) (steps : List Step) : Option α :=
  steps.reverse.findSome? tell

/-- The type that has been allowed last under a name. -/
def type? (steps : List Step) (name : String) : Option MessageType := last? (·.type? name) steps

/-- The name that has been given an alias of a spelling last. -/
def canonical? (steps : List Step) (spelling : String) : Option String :=
  last? (·.canonical? spelling) steps

/-- Whether aliases are demanded in the end. -/
def isEnforced (steps : List Step) : Bool := (last? Step.enforced? steps).getD false

/-- Whether a name has ever been given an alias. -/
def WasAliased (steps : List Step) (name : String) : Prop :=
  ∃ spelling, .addAlias spelling name ∈ steps

/-- Whether a name has been given aliases, and all of them have been given to other names
    since. -/
def Stranded (steps : List Step) (name : String) : Prop :=
  WasAliased steps name ∧ ∀ spelling, canonical? steps spelling ≠ some name

/-- Whether the spelling of a name is an alias of another name. -/
def Shadowed (steps : List Step) (name : String) : Prop :=
  ∃ canonical, canonical? steps name = some canonical ∧ canonical ≠ name

variable {c : TypeCatalog} {steps : List Step} {step : Step} {name spelling canonical : String}
  {t : MessageType}

theorem last?_concat {α : Type} (tell : Step → Option α) (steps : List Step) (step : Step) :
    last? tell (steps ++ [step]) = (tell step).or (last? tell steps) := by
  rw [last?, List.reverse_append, List.reverse_singleton, List.singleton_append,
    List.findSome?_cons, last?]
  cases tell step <;> rfl

theorem exists_mem_of_last? {α : Type} {tell : Step → Option α} {a : α}
    (h : last? tell steps = some a) : ∃ step ∈ steps, tell step = some a := by
  obtain ⟨step, hmem, hstep⟩ := List.exists_of_findSome?_eq_some h
  exact ⟨step, List.mem_reverse.1 hmem, hstep⟩

theorem wasAliased_concat :
    WasAliased (steps ++ [step]) name ↔
      WasAliased steps name ∨ ∃ spelling, step = .addAlias spelling name := by
  simp only [WasAliased, List.mem_append, List.mem_singleton, exists_or, eq_comm]

/-- A type has the name under which it is allowed. -/
theorem name_of_type? (h : type? steps name = some t) : t.name = name := by
  obtain ⟨step, -, hstep⟩ := exists_mem_of_last? h
  cases step with
  | allow name' fields =>
    rw [Step.type?] at hstep
    split_ifs at hstep with hname
    cases hstep
    exact hname
  | addAlias | enforce => cases hstep

/-- An alias that leads to a name has been given to it, up to case. -/
theorem exists_addAlias_of_canonical? (h : canonical? steps spelling = some canonical) :
    ∃ spelling', .addAlias spelling' canonical ∈ steps ∧
      Text.lowercase spelling' = Text.lowercase spelling := by
  obtain ⟨step, hmem, hstep⟩ := exists_mem_of_last? h
  cases step with
  | addAlias spelling' canonical' =>
    rw [Step.canonical?] at hstep
    split_ifs at hstep with hspelling
    cases hstep
    exact ⟨spelling', hmem, hspelling⟩
  | allow | enforce => cases hstep

/-- What a catalog knows is what the history of its making tells. -/
structure Tells (c : TypeCatalog) (steps : List Step) : Prop where
  /-- The types are those allowed last. -/
  types : ∀ name, c.types.get? name = type? steps name
  /-- The aliases lead to the names that have been given them last. -/
  aliases : ∀ spelling, c.aliases.get? (Text.lowercase spelling) = canonical? steps spelling
  /-- A name that has ever been given an alias is marked. -/
  aliased : ∀ name, name ∈ c.aliased ↔ WasAliased steps name
  /-- Aliases are demanded if they are in the end. -/
  enforced : c.enforced = isEnforced steps

/-- A step adds itself to the history. -/
theorem Tells.apply (h : c.Tells steps) (step : Step) : (c.apply step).Tells (steps ++ [step]) := by
  -- A step changes what it is about, and the other answers are those of the steps before it.
  cases step with
  | allow name' fields =>
    refine ⟨fun name => ?_, fun spelling => ?_, fun name => ?_, ?_⟩
    · rw [type?, last?_concat, ← type?, ← h.types]
      refine (Entries.get?_insert _ _ _ _).trans ?_
      rw [Step.type?]
      split_ifs <;> rfl
    · rw [canonical?, last?_concat]
      exact h.aliases spelling
    · rw [wasAliased_concat, or_iff_left (by simp)]
      exact h.aliased name
    · rw [isEnforced, last?_concat]
      exact h.enforced
  | addAlias spelling' canonical =>
    refine ⟨fun name => ?_, fun spelling => ?_, fun name => ?_, ?_⟩
    · rw [type?, last?_concat]
      exact h.types name
    · rw [canonical?, last?_concat, ← canonical?, ← h.aliases]
      refine (Entries.get?_insert _ _ _ _).trans ?_
      rw [Step.canonical?]
      split_ifs <;> rfl
    · have hstep : (∃ spelling, Step.addAlias spelling' canonical = .addAlias spelling name) ↔
          name = canonical := by simp [eq_comm]
      rw [wasAliased_concat, ← h.aliased, hstep, or_comm]
      exact List.mem_cons
    · rw [isEnforced, last?_concat]
      exact h.enforced
  | enforce enforced =>
    refine ⟨fun name => ?_, fun spelling => ?_, fun name => ?_, ?_⟩
    · rw [type?, last?_concat]
      exact h.types name
    · rw [canonical?, last?_concat]
      exact h.aliases spelling
    · rw [wasAliased_concat, or_iff_left (by simp)]
      exact h.aliased name
    · rw [isEnforced, last?_concat]
      rfl

theorem tells_ofSteps (steps : List Step) : (ofSteps steps).Tells steps := by
  induction steps using List.reverseRecOn with
  | nil => exact ⟨fun _ => rfl, fun _ => rfl, fun _ => by simp [ofSteps, WasAliased], rfl⟩
  | append_singleton steps step ih =>
    rw [ofSteps, List.foldl_append, ← ofSteps]
    exact ih.apply step

/-! ## Resolution -/

/-- An alias stands for what its name stands for, demanded or not. -/
theorem resolve_of_alias (h : c.aliases.get? (Text.lowercase spelling) = some canonical) :
    c.resolve spelling = c.types.get? canonical := by
  simp only [resolve, h]

/-- A name that is no alias stands for its own type, unless it is hidden. -/
theorem resolve_of_shown (h : c.aliases.get? (Text.lowercase name) = none)
    (hshown : c.enforced = true → name ∉ c.aliased) : c.resolve name = c.types.get? name := by
  have hnot : ¬(c.enforced && c.aliased.contains name) = true := by
    rw [Bool.and_eq_true, List.contains_iff_mem]
    exact fun hhidden => hshown hhidden.1 hhidden.2
  simp only [resolve, h, if_neg hnot]

/-- A type that a name stands for is the one that has been allowed last under its own name. -/
theorem type?_of_resolve (h : (ofSteps steps).resolve name = some t) :
    type? steps t.name = some t := by
  obtain ⟨canonical, hcanonical⟩ : ∃ canonical, (ofSteps steps).types.get? canonical = some t := by
    rw [resolve] at h
    split at h
    · exact ⟨_, h⟩
    · split_ifs at h
      exact ⟨_, h⟩
  rw [(tells_ofSteps steps).types] at hcanonical
  rw [name_of_type? hcanonical, hcanonical]

/-- Only a name that has been given an alias is hidden. -/
theorem mem_aliased_of_ne
    (h : (c.enforceAliases true).resolve name ≠ (c.enforceAliases false).resolve name) :
    name ∈ c.aliased := by
  by_contra hnot
  refine h ?_
  cases halias : c.aliases.get? (Text.lowercase name) with
  | none =>
    rw [resolve_of_shown (c := c.enforceAliases true) halias fun _ => hnot,
      resolve_of_shown (c := c.enforceAliases false) halias fun _ => hnot]
    rfl
  | some canonical =>
    rw [resolve_of_alias (c := c.enforceAliases true) halias,
      resolve_of_alias (c := c.enforceAliases false) halias]
    rfl

/-- The spellings of an alias lead to the same name. -/
theorem canonical?_congr {spelling' : String}
    (h : Text.lowercase spelling' = Text.lowercase spelling) :
    canonical? steps spelling' = canonical? steps spelling := by
  have htell : (fun step : Step => step.canonical? spelling') = (·.canonical? spelling) := by
    funext step
    cases step <;> simp only [Step.canonical?, h]
  rw [canonical?, canonical?, htell]

/-- A name that has been given an alias, and is not stranded, has an alias that leads to its
    type. -/
theorem exists_alias_of_not_stranded (ht : type? steps name = some t)
    (haliased : WasAliased steps name) (hnot : ¬Stranded steps name) :
    ∃ spelling, .addAlias spelling name ∈ steps ∧
      ∀ enforced, ((ofSteps steps).enforceAliases enforced).resolve spelling = some t := by
  obtain ⟨spelling, hspelling⟩ : ∃ spelling, canonical? steps spelling = some name := by
    by_contra hnone
    exact hnot ⟨haliased, not_exists.1 hnone⟩
  obtain ⟨spelling', hmem, hlower⟩ := exists_addAlias_of_canonical? hspelling
  refine ⟨spelling', hmem, fun enforced => ?_⟩
  have halias : (ofSteps steps).aliases.get? (Text.lowercase spelling') = some name := by
    rw [(tells_ofSteps steps).aliases, canonical?_congr hlower, hspelling]
  have hresolve := resolve_of_alias (c := (ofSteps steps).enforceAliases enforced) halias
  exact hresolve.trans (((tells_ofSteps steps).types name).trans ht)

/-- A name that is not shadowed stands for its type if aliases are not demanded, or if it has
    never been given one. -/
theorem resolve_of_not_shadowed (ht : type? steps name = some t) (hnot : ¬Shadowed steps name)
    (hshown : isEnforced steps = true → ¬WasAliased steps name) :
    (ofSteps steps).resolve name = some t := by
  have htells := tells_ofSteps steps
  rw [← ht, ← htells.types]
  cases hcanonical : canonical? steps name with
  | none =>
    refine resolve_of_shown ((htells.aliases name).trans hcanonical) ?_
    rwa [htells.enforced, htells.aliased]
  | some canonical =>
    have hown : canonical = name := by
      by_contra hother
      exact hnot ⟨canonical, hcanonical, hother⟩
    rw [hown] at hcanonical
    exact resolve_of_alias ((htells.aliases name).trans hcanonical)

/-- An allowed type is known, unless an alias of another name shadows its name or its name is
    stranded: by its name if aliases are not demanded, and by its name or an alias if they are.
    Demanding aliases changes what the name stands for only while an alias leads to the type. A
    name that is an alias stands for what the alias leads to. -/
theorem resolve_allowed (ht : type? steps name = some t) :
    t.name = name ∧
    (isEnforced steps = false → ¬Shadowed steps name → (ofSteps steps).resolve name = some t) ∧
    (isEnforced steps = true → ¬Shadowed steps name ∨ WasAliased steps name →
      ¬Stranded steps name →
      (ofSteps steps).resolve name = some t ∨
      ∃ spelling canonical, .addAlias spelling canonical ∈ steps ∧
        (ofSteps steps).resolve spelling = some t) ∧
    (¬Stranded steps name →
      ((ofSteps steps).enforceAliases true).resolve name ≠
        ((ofSteps steps).enforceAliases false).resolve name →
      ∃ spelling, .addAlias spelling name ∈ steps ∧
        ∀ enforced, ((ofSteps steps).enforceAliases enforced).resolve spelling = some t) ∧
    ∀ canonical, canonical? steps name = some canonical →
      (ofSteps steps).resolve name = type? steps canonical := by
  have htells := tells_ofSteps steps
  refine ⟨name_of_type? ht, fun hoff hshadow => ?_, fun _ hreach hstranded => ?_,
    fun hstranded hne => ?_, fun canonical hcanonical => ?_⟩
  · refine resolve_of_not_shadowed ht hshadow fun hon => ?_
    exact absurd (hoff.symm.trans hon) Bool.false_ne_true
  · by_cases haliased : WasAliased steps name
    · obtain ⟨spelling, hmem, hresolve⟩ := exists_alias_of_not_stranded ht haliased hstranded
      exact .inr ⟨spelling, name, hmem, hresolve (ofSteps steps).enforced⟩
    · exact .inl (resolve_of_not_shadowed ht (hreach.resolve_right haliased) fun _ => haliased)
  · have haliased := (htells.aliased name).1 (mem_aliased_of_ne hne)
    exact exists_alias_of_not_stranded ht haliased hstranded
  · rw [← htells.types]
    exact resolve_of_alias ((htells.aliases name).trans hcanonical)

/-- Steps that allow a type, give it an alias and demand aliases. -/
def demanding : List Step :=
  [.allow "acme.Point" ["x", "y"], .addAlias "Point" "acme.Point", .enforce true]

/-- The name of the type is hidden, and its alias leads to it. -/
theorem resolve_allowed_demanding :
    type? demanding "acme.Point" = some ⟨"acme.Point", ["x", "y"]⟩ ∧
    isEnforced demanding = true ∧ (ofSteps demanding).resolve "acme.Point" = none ∧
    ∃ spelling, .addAlias spelling "acme.Point" ∈ demanding ∧
      ∀ enforced, ((ofSteps demanding).enforceAliases enforced).resolve spelling =
        some ⟨"acme.Point", ["x", "y"]⟩ := by
  have ht : type? demanding "acme.Point" = some ⟨"acme.Point", ["x", "y"]⟩ := by decide +kernel
  have hstranded : ¬Stranded demanding "acme.Point" := fun h => h.2 "Point" (by decide +kernel)
  have hne : ((ofSteps demanding).enforceAliases true).resolve "acme.Point" ≠
      ((ofSteps demanding).enforceAliases false).resolve "acme.Point" := by decide +kernel
  exact ⟨ht, by decide +kernel, by decide +kernel, (resolve_allowed ht).2.2.2.1 hstranded hne⟩

/-- Steps that allow a type and give another name an alias that is spelled like it. -/
def shadowing : List Step := [.allow "point" [], .addAlias "Point" "shape"]

/-- Steps that demand aliases when the only alias of a type has been given to another. -/
def stranding : List Step :=
  [.allow "point" [], .allow "shape" [], .addAlias "p" "point", .addAlias "p" "shape",
    .enforce true]

/-- A shadowed type is not known although aliases are not demanded, and a stranded one is known
    neither by its name nor by an alias if they are. -/
theorem resolve_shadowing_stranding :
    type? shadowing "point" = some ⟨"point", []⟩ ∧ isEnforced shadowing = false ∧
    (ofSteps shadowing).resolve "point" = none ∧
    type? stranding "point" = some ⟨"point", []⟩ ∧ isEnforced stranding = true ∧
    (ofSteps stranding).resolve "point" = none ∧
    ∀ spelling canonical, .addAlias spelling canonical ∈ stranding →
      (ofSteps stranding).resolve spelling ≠ some ⟨"point", []⟩ := by
  refine ⟨by decide +kernel, by decide +kernel, by decide +kernel, by decide +kernel,
    by decide +kernel, by decide +kernel, fun spelling canonical hmem => ?_⟩
  obtain rfl : spelling = "p" := by
    simp only [stranding, List.mem_cons, reduceCtorEq, Step.addAlias.injEq, List.not_mem_nil,
      or_false, false_or] at hmem
    exact hmem.elim And.left And.left
  decide +kernel

end TypeCatalog

end ExprMachine
