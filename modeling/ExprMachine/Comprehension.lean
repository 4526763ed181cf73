import ExprMachine.Expr

/-!
# Comprehensions and presence tests

Some calls are not calls of functions. They are told by their shape alone.

A call with a target is a *comprehension* if its first argument is, under
parentheses, a variable, and if its name and its further arguments, the
*bodies*, are those of one of six forms:

* `t.all(x, p)`: whether every item `x` of `t` satisfies `p`;
* `t.exists(x, p)`: whether some item does;
* `t.exists_one(x, p)`: whether exactly one item does;
* `t.filter(x, p)`: the items that do;
* `t.map(x, e)`: the values of `e` for the items;
* `t.map(x, p, e)`: the values of `e` for the items that satisfy `p`.

A call without a target is a *presence test*, `has(x.f)`, if its name is `has`
and its only argument is, under parentheses, the selection of a field.

The forms are stated for bodies of any type, so that they serve for the
expressions themselves and for what is made of them alike.
-/

namespace ExprMachine

/-- A form of comprehension with its bodies. -/
inductive Comprehension (β : Type) where
  /-- Whether all items satisfy the predicate. -/
  | all (predicate : β)
  /-- Whether some item satisfies the predicate. -/
  | exists (predicate : β)
  /-- Whether exactly one item satisfies the predicate. -/
  | existsOne (predicate : β)
  /-- The items that satisfy the predicate. -/
  | filter (predicate : β)
  /-- The transformed items. -/
  | transform (body : β)
  /-- The transformed items among those that satisfy the predicate. -/
  | filterTransform (predicate body : β)
  deriving DecidableEq, Repr

namespace Comprehension

variable {β γ : Type}

/-- The form with a name and bodies. -/
def ofBodies? (function : String) : List β → Option (Comprehension β)
  | [b] =>
    if function = "all" then some (.all b)
    else if function = "exists" then some (.exists b)
    else if function = "exists_one" then some (.existsOne b)
    else if function = "filter" then some (.filter b)
    else if function = "map" then some (.transform b)
    else none
  | [p, b] => if function = "map" then some (.filterTransform p b) else none
  | _ => none

/-- The variable and the form of a call with a target that has the shape of a
    comprehension. -/
def ofCall? (function : String) (firstArg : Option Expr) (bodies : List β) :
    Option (String × Comprehension β) :=
  match firstArg.bind Expr.asIdent?, ofBodies? function bodies with
  | some x, some form => some (x, form)
  | _, _ => none

/-- The form with its bodies replaced. -/
def map (f : β → γ) : Comprehension β → Comprehension γ
  | .all p => .all (f p)
  | .exists p => .exists (f p)
  | .existsOne p => .existsOne (f p)
  | .filter p => .filter (f p)
  | .transform b => .transform (f b)
  | .filterTransform p b => .filterTransform (f p) (f b)

/-- The form depends on the number of the bodies only. -/
theorem ofBodies?_map (f : β → γ) (function : String) (bodies : List β) :
    ofBodies? function (bodies.map f) = (ofBodies? function bodies).map (map f) := by
  match bodies with
  | [] => rfl
  | [b] => simp only [List.map, ofBodies?]; repeat' split <;> try rfl
  | [p, b] => simp only [List.map, ofBodies?]; split <;> rfl
  | _ :: _ :: _ :: _ => rfl

end Comprehension

/-- The selection tested by a call without a target that has the shape of a
    presence test, given what each argument selects. -/
def presenceTest? {β : Type} (function : String) (selections : List (Option (β × String))) :
    Option (β × String) :=
  match selections with
  | [some s] => if function = "has" then some s else none
  | _ => none

end ExprMachine
