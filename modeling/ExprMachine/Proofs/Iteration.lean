import ExprMachine.Evaluation

/-!
# Comprehensions as loops

A comprehension is evaluated by recursion on its items; its code builds the
result up item by item. The two agree because every form of comprehension is a
loop with a result so far, which a *turn* for an item replaces or declares to be
decided (`Evaluation.iterate`):

* `all` and `exists` start from a boolean and are decided by the first item of
  the other kind (`Evaluation.seekTurn`);
* `exists_one` remembers whether an item has been found, and is decided by the
  second one (`Evaluation.singleTurn`);
* the forms that give a list append to it and are never decided
  (`Evaluation.collectTurn`).
-/

namespace ExprMachine.Evaluation

variable {β : Type} (test : Value → Evaluation Bool) (items : List Value)

/-- Takes a turn for every item, until the result is decided. -/
def iterate (turn : β → Value → Evaluation (β × Bool)) (b : β) : List Value → Evaluation β
  | [] => pure b
  | v :: rest => do
    let (c, decided) ← turn b v
    if decided then pure c else iterate turn c rest

/-- The turn that is decided by an item for which the test gives `stop`. -/
def seekTurn (stop : Bool) (b : Bool) (v : Value) : Evaluation (Bool × Bool) := do
  if (← test v) = stop then pure (stop, true) else pure (b, false)

/-- The turn that is decided by the second item that passes the test. -/
def singleTurn (found : Bool) (v : Value) : Evaluation (Bool × Bool) := do
  if ← test v then
    if found then pure (false, true) else pure (true, false)
  else pure (found, false)

/-- The turn that appends the result for the item, if it has one. -/
def collectTurn (f : Value → Evaluation (Option Value)) (results : List Value) (v : Value) :
    Evaluation (List Value × Bool) := do
  let r ← f v
  pure (results ++ r.toList, false)

/-- Whether all items pass is sought until one does not. -/
theorem allOf_eq_iterate : allOf test items = iterate (seekTurn test false) true items := by
  induction items with
  | nil => rfl
  | cons v rest ih =>
    rw [allOf, iterate, seekTurn, bind_assoc]
    refine bind_congr fun passes => ?_
    cases passes with
    | true => exact ih
    | false => rfl

/-- Whether some item passes is sought until one does. -/
theorem someOf_eq_iterate : someOf test items = iterate (seekTurn test true) false items := by
  induction items with
  | nil => rfl
  | cons v rest ih =>
    rw [someOf, iterate, seekTurn, bind_assoc]
    refine bind_congr fun passes => ?_
    cases passes with
    | true => rfl
    | false => exact ih

/-- Whether exactly one item passes is decided by the second one that does. -/
theorem oneOf_eq_iterate (found : Bool) :
    oneOf test found items = iterate (singleTurn test) found items := by
  induction items generalizing found with
  | nil => rfl
  | cons v rest ih =>
    rw [oneOf, iterate, singleTurn, bind_assoc]
    refine bind_congr fun passes => ?_
    cases passes with
    | true =>
      cases found with
      | true => rfl
      | false => exact ih true
    | false => exact ih found

/-- A loop that collects goes on from the results that there are. -/
theorem iterate_collectTurn (f : Value → Evaluation (Option Value)) (results : List Value) :
    iterate (collectTurn f) results items = (results ++ ·) <$> collect f items := by
  induction items generalizing results with
  | nil =>
    show pure results = _
    rw [collect, map_pure, List.append_nil]
  | cons v rest ih =>
    rw [collect, iterate, collectTurn, bind_assoc, map_bind]
    refine bind_congr fun r => ?_
    rw [pure_bind]
    show iterate (collectTurn f) (results ++ r.toList) rest = _
    rw [ih]
    simp only [map_eq_pure_bind, bind_assoc, pure_bind, List.append_assoc]

/-- A list is collected by a loop that starts from none of its items. -/
theorem collect_eq_iterate (f : Value → Evaluation (Option Value)) :
    collect f items = iterate (collectTurn f) [] items := by
  rw [iterate_collectTurn]
  exact (id_map _).symm

/-! ## The forms of comprehension -/

/-- Whether a value passes a predicate, which has to be a boolean. -/
def passes (role : ConditionRole) (span : Span) (predicate : Value → Evaluation Value) (v : Value) :
    Evaluation Bool := do condition role span (← predicate v)

/-- The turn of the forms that keep the items that pass a test. -/
theorem collectTurn_keep (f : Value → Evaluation Value) (results : List Value) (v : Value) :
    collectTurn (fun item => do
      if ← test item then return some (← f item) else return none) results v =
    (do
      if ← test v then do
        let w ← f v
        pure (results ++ [w], false)
      else pure (results, false)) := by
  rw [collectTurn, bind_assoc]
  refine bind_congr fun c => ?_
  cases c with
  | true => simp
  | false => simp

section

variable (env : Environment) (x : String) (p b : Clause)

/-- What a clause evaluates to for an item. -/
def inside (c : Clause) (v : Value) : Evaluation Value := c.eval (env.push.bind x v)

/-- The form `all` is a loop that starts from `true` and seeks an item that fails. -/
theorem comprehend_all : comprehend env x (.all p) items =
    .bool <$> iterate (seekTurn (passes .predicate p.span (inside env x p)) false) true items := by
  rw [← allOf_eq_iterate, map_eq_pure_bind]
  rfl

theorem comprehend_exists : comprehend env x (.exists p) items =
    .bool <$> iterate (seekTurn (passes .predicate p.span (inside env x p)) true) false items := by
  rw [← someOf_eq_iterate, map_eq_pure_bind]
  rfl

/-- The form `exists_one` is a loop that starts without an item that passes. -/
theorem comprehend_existsOne : comprehend env x (.existsOne p) items =
    .bool <$> iterate (singleTurn (passes .predicate p.span (inside env x p))) false items := by
  rw [← oneOf_eq_iterate, map_eq_pure_bind]
  rfl

/-- The form `filter` is a loop that collects items as they are. -/
theorem comprehend_filter : comprehend env x (.filter p) items =
    .list <$> iterate (collectTurn fun item => do
      if ← passes .filter p.span (inside env x p) item then return some (← pure item)
      else return none) [] items := by
  rw [← collect_eq_iterate, map_eq_pure_bind]
  show (collect _ items >>= _) = _
  congr 2
  funext item
  refine bind_congr fun c => ?_
  cases c <;> rfl

theorem comprehend_transform : comprehend env x (.transform b) items =
    .list <$> iterate (collectTurn fun item => do return some (← inside env x b item)) []
      items := by
  rw [← collect_eq_iterate, map_eq_pure_bind]
  rfl

/-- The form `map` with a predicate is a loop that collects what its body makes of items. -/
theorem comprehend_filterTransform : comprehend env x (.filterTransform p b) items =
    .list <$> iterate (collectTurn fun item => do
      if ← passes .filter p.span (inside env x p) item then
        return some (← inside env x b item)
      else return none) [] items := by
  rw [← collect_eq_iterate, map_eq_pure_bind]
  rfl

end

end ExprMachine.Evaluation
