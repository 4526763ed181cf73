import ExprMachine.Proofs.Concatenation
import ExprMachine.Proofs.Denotation
import ExprMachine.Proofs.FreeVariables

/-!
# The forms of comprehension agree

What the forms of comprehension give for some items is told by two functions: which items
pass the predicate, and what the body gives for an item.

* `filter` gives the items that pass (`Evaluation.denotes_filter_iff`), and `map` what the
  body gives for all items, or for those that pass.
* `all`, `exists` and `exists_one` tell whether all items pass, whether one does, and
  whether exactly one does, although they may leave items untested.

So the items that a filter keeps tell the results of the other forms with the same
predicate, and a comprehension that filters and transforms gives what transforming the
items that a filter keeps gives (`Machine.comprehensions_agree`). The two do not take the
items in the same order: the one transforms an item before it tests the next one.
-/

namespace ExprMachine

namespace Evaluation

variable {items : List Value}

/-! ## Loops -/

section

variable {test : Value → Evaluation Bool} {pass : Value → Bool}
  (h : ∀ v ∈ items, (test v).Denotes (pass v))
include h

theorem denotes_allOf : (allOf test items).Denotes (items.all pass) := by
  induction items with
  | nil => exact denotes_pure_iff.2 rfl
  | cons v rest ih =>
    obtain ⟨hv, hrest⟩ := List.forall_mem_cons.1 h
    rw [allOf, List.all_cons]
    refine hv.bind ?_
    rcases pass v
    · exact denotes_pure_iff.2 rfl
    · exact ih hrest

theorem denotes_someOf : (someOf test items).Denotes (items.any pass) := by
  induction items with
  | nil => exact denotes_pure_iff.2 rfl
  | cons v rest ih =>
    obtain ⟨hv, hrest⟩ := List.forall_mem_cons.1 h
    rw [someOf, List.any_cons]
    refine hv.bind ?_
    rcases pass v
    · exact ih hrest
    · exact denotes_pure_iff.2 rfl

theorem denotes_oneOf (found : Bool) :
    (oneOf test found items).Denotes (decide (found.toNat + items.countP pass = 1)) := by
  induction items generalizing found with
  | nil =>
    refine denotes_pure_iff.2 ?_
    rcases found <;> rfl
  | cons v rest ih =>
    obtain ⟨hv, hrest⟩ := List.forall_mem_cons.1 h
    rw [oneOf, List.countP_cons]
    refine hv.bind ?_
    rcases pass v
    · exact ih hrest found
    · rcases found
      · rw [if_pos rfl, Bool.toNat_false, Nat.zero_add, Nat.add_comm]
        exact ih hrest true
      · -- Two items pass, whatever follows.
        refine denotes_pure_iff.2 (decide_eq_false ?_).symm
        rw [Bool.toNat_true, if_pos rfl]
        omega

end

section

variable {f : Value → Evaluation (Option Value)} {g : Value → Option Value} {rs : List Value}

theorem denotes_collect (h : ∀ v ∈ items, (f v).Denotes (g v)) :
    (collect f items).Denotes (items.filterMap g) := by
  induction items with
  | nil => exact denotes_pure_iff.2 rfl
  | cons v rest ih =>
    obtain ⟨hv, hrest⟩ := List.forall_mem_cons.1 h
    rw [collect, List.filterMap_cons]
    refine hv.bind ((ih hrest).bind (denotes_pure_iff.2 ?_))
    rcases g v <;> rfl

variable [∀ v, Steady (f v)]

theorem exists_denotes_of_collect (h : (collect f items).Denotes rs) :
    ∀ v ∈ items, ∃ r, (f v).Denotes r := by
  induction items generalizing rs with
  | nil => exact nofun
  | cons v rest ih =>
    rw [collect] at h
    obtain ⟨r, hr, h⟩ := denotes_bind_iff.1 h
    obtain ⟨rs', hrs, -⟩ := denotes_bind_iff.1 h
    exact List.forall_mem_cons.2 ⟨⟨r, hr⟩, ih hrs⟩

/-- What is collected has been given item by item. -/
theorem denotes_collect_iff : (collect f items).Denotes rs ↔
    ∃ g, (∀ v ∈ items, (f v).Denotes (g v)) ∧ rs = items.filterMap g := by
  constructor
  · intro h
    have hitems := exists_denotes_of_collect h
    choose! g hg using hitems
    exact ⟨g, hg, h.eq (denotes_collect hg)⟩
  · rintro ⟨g, hg, rfl⟩
    exact denotes_collect hg

end

theorem all_eq_length_filter (pass : Value → Bool) (items : List Value) :
    items.all pass = decide ((items.filter pass).length = items.length) := by
  rw [Bool.eq_iff_iff, decide_eq_true_iff, List.all_eq_true, List.length_filter_eq_length_iff]

theorem any_eq_length_filter (pass : Value → Bool) (items : List Value) :
    items.any pass = decide (0 < (items.filter pass).length) := by
  rw [Bool.eq_iff_iff, decide_eq_true_iff, List.any_eq_true, List.length_pos_iff_exists_mem]
  simp only [List.mem_filter]

/-! ## The forms -/

/-- The result for an item, if it passes a test. -/
def keep (test : Value → Evaluation Bool) (f : Value → Evaluation Value) (v : Value) :
    Evaluation (Option Value) := do
  if ← test v then return some (← f v) else return none

section

variable {test : Value → Evaluation Bool} {f : Value → Evaluation Value}
  [∀ v, Steady (test v)] [∀ v, Steady (f v)]

instance (v : Value) : Steady (keep test f v) := by
  rw [keep]
  exact inferInstance

theorem denotes_keep_iff {v : Value} {r : Option Value} : (keep test f v).Denotes r ↔
    ∃ passes, (test v).Denotes passes ∧
      if passes then ∃ w, (f v).Denotes w ∧ some w = r else none = r := by
  rw [keep, denotes_bind_iff]
  refine exists_congr fun passes => and_congr_right fun _ => ?_
  rcases passes
  · exact denotes_pure_iff
  · exact denotes_bind_iff.trans (exists_congr fun w => and_congr_right fun _ => denotes_pure_iff)

/-- What is collected of the items that pass a test is what is given for each of them. -/
theorem denotes_collect_keep_iff {rs : List Value} : (collect (keep test f) items).Denotes rs ↔
    ∃ (pass : Value → Bool) (value : Value → Value), (∀ v ∈ items, (test v).Denotes (pass v)) ∧
      (∀ v ∈ items.filter pass, (f v).Denotes (value v)) ∧
      rs = (items.filter pass).map value := by
  have hresults : ∀ (pass : Value → Bool) (value : Value → Value), (items.filter pass).map value =
      items.filterMap fun v => if pass v then some (value v) else none := by
    intro pass value
    rw [← List.filterMap_eq_map, List.filterMap_filter]
    rfl
  rw [denotes_collect_iff]
  constructor
  · rintro ⟨g, hg, rfl⟩
    -- Which items pass, and what comes of those that do, is chosen for all items at once.
    replace hg := fun v hv => denotes_keep_iff.1 (hg v hv)
    choose! pass hpass hresult using hg
    refine ⟨pass, fun v => (g v).getD .null, hpass, fun v hv => ?_, ?_⟩
    · obtain ⟨hv, hp⟩ := List.mem_filter.1 hv
      have hresult := hresult v hv
      rw [if_pos hp] at hresult
      obtain ⟨w, hw, hr⟩ := hresult
      show (f v).Denotes ((g v).getD .null)
      rwa [← hr]
    · rw [hresults]
      refine List.filterMap_congr fun v hv => ?_
      have hresult := hresult v hv
      rcases hp : pass v <;> rw [hp] at hresult
      · exact hresult.symm
      · obtain ⟨w, -, hr⟩ := hresult
        rw [← hr]
        rfl
  · rintro ⟨pass, value, hpass, hvalue, rfl⟩
    refine ⟨fun v => if pass v then some (value v) else none, fun v hv => ?_, hresults pass value⟩
    refine denotes_keep_iff.2 ⟨pass v, hpass v hv, ?_⟩
    rcases hp : pass v
    · simp [hp]
    · simpa [hp] using hvalue v (List.mem_filter.2 ⟨hv, hp⟩)

end

section

variable {role : ConditionRole} {span : Span} {predicate : Value → Evaluation Value}
  {pass : Value → Bool}

/-- A predicate is a boolean for every item, which tells whether the item passes. -/
def Judges (predicate : Value → Evaluation Value) (pass : Value → Bool) (items : List Value) :
    Prop := ∀ v ∈ items, (predicate v).Denotes (.bool (pass v))

/-- The role of a predicate shows in its errors only. -/
theorem denotes_passes_iff {v : Value} {b : Bool} [Steady (predicate v)] :
    (passes role span predicate v).Denotes b ↔ (predicate v).Denotes (.bool b) := by
  rw [passes, denotes_bind_iff]
  constructor
  · rintro ⟨w, hw, hb⟩
    rcases w with _ | c | _
    case bool => rwa [← denotes_pure_iff.1 hb]
    all_goals exact nomatch hb true
  · exact fun h => ⟨_, h, denotes_pure_iff.2 rfl⟩

theorem Judges.passes [∀ v, Steady (predicate v)] (h : Judges predicate pass items)
    (role : ConditionRole) (span : Span) :
    ∀ v ∈ items, (Evaluation.passes role span predicate v).Denotes (pass v) :=
  fun v hv => denotes_passes_iff.2 (h v hv)

end

section

variable (env : Environment) (x : String) (p b : Clause)

instance (c : Clause) [∀ env, Steady (c.eval env)] (v : Value) : Steady (inside env x c v) :=
  inferInstanceAs (Steady (c.eval _))

instance (role : ConditionRole) (span : Span) (predicate : Value → Evaluation Value)
    [∀ v, Steady (predicate v)] (v : Value) : Steady (passes role span predicate v) := by
  rw [passes]
  exact inferInstance

variable {env x p b} {pass : Value → Bool} {w : Value} [∀ env, Steady (p.eval env)]

section

variable (h : Judges (inside env x p) pass items)
include h

theorem denotes_all : (comprehend env x (.all p) items).Denotes (.bool (items.all pass)) :=
  (denotes_allOf (h.passes _ _)).bind (denotes_pure_iff.2 rfl)

theorem denotes_exists : (comprehend env x (.exists p) items).Denotes (.bool (items.any pass)) :=
  (denotes_someOf (h.passes _ _)).bind (denotes_pure_iff.2 rfl)

theorem denotes_existsOne :
    (comprehend env x (.existsOne p) items).Denotes (.bool (items.countP pass = 1)) := by
  refine (denotes_oneOf (h.passes _ _) false).bind (denotes_pure_iff.2 ?_)
  rw [Bool.toNat_false, Nat.zero_add]

end

/-- A filter keeps the items that pass. -/
theorem denotes_filter_iff : (comprehend env x (.filter p) items).Denotes w ↔
    ∃ pass, Judges (inside env x p) pass items ∧ w = .list (items.filter pass) := by
  have hkeep : (fun item => do
      return if ← passes .filter p.span (inside env x p) item then some item else none) =
        keep (passes .filter p.span (inside env x p)) pure := by
    funext item
    refine bind_congr fun passes => ?_
    rcases passes <;> rfl
  show ((do return .list (← collect (fun item => do
    return if ← passes .filter p.span (inside env x p) item then some item else none) items) :
      Evaluation Value)).Denotes w ↔ _
  simp only [hkeep, denotes_bind_iff, denotes_collect_keep_iff, denotes_passes_iff,
    denotes_pure_iff]
  constructor
  · rintro ⟨rs, ⟨pass, value, hpass, hvalue, rfl⟩, rfl⟩
    refine ⟨pass, hpass, congrArg _ ?_⟩
    exact (List.map_congr_left fun v hv => (hvalue v hv).symm).trans (List.map_id _)
  · rintro ⟨pass, hpass, rfl⟩
    exact ⟨_, ⟨pass, id, hpass, fun _ _ => rfl, (List.map_id _).symm⟩, rfl⟩

theorem denotes_transform_iff [∀ env, Steady (b.eval env)] :
    (comprehend env x (.transform b) items).Denotes w ↔
      ∃ value : Value → Value, (∀ v ∈ items, (inside env x b v).Denotes (value v)) ∧
        w = .list (items.map value) := by
  show ((do return .list (← collect (fun item => do return some (← inside env x b item)) items) :
      Evaluation Value)).Denotes w ↔ _
  simp only [denotes_bind_iff, denotes_collect_iff, denotes_pure_iff]
  constructor
  · rintro ⟨rs, ⟨g, hg, rfl⟩, rfl⟩
    choose! value hvalue using hg
    refine ⟨value, fun v hv => (hvalue v hv).1, congrArg _ ?_⟩
    rw [← List.filterMap_eq_map]
    exact List.filterMap_congr fun v hv => (hvalue v hv).2.symm
  · rintro ⟨value, hvalue, rfl⟩
    refine ⟨_, ⟨fun v => some (value v), fun v hv => ⟨_, hvalue v hv, rfl⟩, ?_⟩, rfl⟩
    exact (congrFun List.filterMap_eq_map items).symm

theorem denotes_filterTransform_iff [∀ env, Steady (b.eval env)] :
    (comprehend env x (.filterTransform p b) items).Denotes w ↔
      ∃ (pass : Value → Bool) (value : Value → Value), Judges (inside env x p) pass items ∧
        (∀ v ∈ items.filter pass, (inside env x b v).Denotes (value v)) ∧
        w = .list ((items.filter pass).map value) := by
  show ((do return .list (← collect (keep (passes .filter p.span (inside env x p))
    (inside env x b)) items) : Evaluation Value)).Denotes w ↔ _
  simp only [denotes_bind_iff, denotes_collect_keep_iff, denotes_passes_iff, denotes_pure_iff]
  constructor
  · rintro ⟨rs, ⟨pass, value, hpass, hvalue, rfl⟩, rfl⟩
    exact ⟨pass, value, hpass, hvalue, rfl⟩
  · rintro ⟨pass, value, hpass, hvalue, rfl⟩
    exact ⟨_, ⟨pass, value, hpass, hvalue, rfl⟩, rfl⟩

end

end Evaluation

/-! ## Expressions -/

/-- The items of a value do not depend on the span that its failure is attributed to. -/
theorem Value.items_eq_ok {v : Value} {items : List Value} {s : Span} (h : v.items s = .ok items)
    (s' : Span) : v.items s' = .ok items := by
  rcases v <;> first | exact h | cases h

namespace Comprehension

open Evaluation

variable {h : Host} {env : Environment} {form : Comprehension Expr} {x : String} {target : Expr}
  {s s' : Span} {w : Value}

instance (e : Expr) (env : Environment) : Steady ((e.clause h true).eval env) :=
  Expr.steady_eval h true e env

/-- What a comprehension denotes is told by its target, and by its form for the items. -/
theorem denotes_callOn_iff : ((form.callOn x target s s').eval h true env).Denotes w ↔
    ∃ v items, (target.eval h true env).Denotes v ∧ v.items s' = .ok items ∧
      (comprehend env x (form.map (Expr.clause h true)) items).Denotes w := by
  have := steady_comprehend env x (form.map (Expr.clause h true)) fun c hc env' => by
    obtain ⟨e, -, rfl⟩ := mem_bodies_map hc
    exact Expr.steady_eval h true e env'
  simp only [eval_callOn, denotes_bind_iff, denotes_ofResult_iff]
  constructor
  · rintro ⟨v, hv, items, hitems, hw⟩
    exact ⟨v, items, hv, hitems, hw⟩
  · rintro ⟨v, items, hv, hitems, hw⟩
    exact ⟨v, hv, items, hitems, hw⟩

/-- The variable of a comprehension denotes the item in its bodies. -/
theorem denotes_inside_ident (v : Value) :
    (inside env x ((Expr.ident x s).clause h true) v).Denotes v := by
  show ((Expr.ident x s).eval h true (env.push.bind x v)).Denotes v
  rw [Expr.eval, Environment.get?_bind_push_self]
  exact denotes_pure_iff.2 rfl

variable {p e : Expr} {u u' u₁ u₁' : Span}

/-- Filtering and transforming at once denotes what transforming the result of a filter
    denotes. -/
theorem denotes_filterTransform_iff_transform_filter :
    (((filterTransform p e).callOn x target u u').eval h true env).Denotes w ↔
      (((transform e).callOn x ((filter p).callOn x target s s') u₁ u₁').eval h true env).Denotes
        w := by
  constructor
  · intro hw
    obtain ⟨v, items, hv, hitems, hw⟩ := denotes_callOn_iff.1 hw
    obtain ⟨pass, value, hpass, hvalue, rfl⟩ := denotes_filterTransform_iff.1 hw
    have hfilter : (((filter p).callOn x target s s').eval h true env).Denotes
        (.list (items.filter pass)) :=
      denotes_callOn_iff.2 ⟨v, items, hv, Value.items_eq_ok hitems s',
        denotes_filter_iff.2 ⟨pass, hpass, rfl⟩⟩
    exact denotes_callOn_iff.2 ⟨_, _, hfilter, rfl, denotes_transform_iff.2 ⟨value, hvalue, rfl⟩⟩
  · intro hw
    obtain ⟨l, kept, hl, hkept, hw⟩ := denotes_callOn_iff.1 hw
    obtain ⟨v, items, hv, hitems, hl⟩ := denotes_callOn_iff.1 hl
    obtain ⟨pass, hpass, rfl⟩ := denotes_filter_iff.1 hl
    obtain rfl := Except.ok.inj hkept
    obtain ⟨value, hvalue, rfl⟩ := denotes_transform_iff.1 hw
    exact denotes_callOn_iff.2 ⟨v, items, hv, Value.items_eq_ok hitems u',
      denotes_filterTransform_iff.2 ⟨pass, value, hpass, hvalue, rfl⟩⟩

end Comprehension

/-- Every program that an expression has returns a value. -/
def Expr.Returns (h : Host) (env : Environment) (e : Expr) (v : Value) : Prop :=
  ∀ p, compile {} e = .ok p → Machine.Returns (h.machine p) env v

section

variable {h : Host} {env : Environment} {x : String} {target p : Expr} {v : Value}
  {items : List Value}

/-- A form returns what it comes to for the items of its target. -/
theorem Expr.Returns.callOn {form : Comprehension Expr} {s s' : Span} {w : Value}
    (hv : (target.eval h true env).Denotes v) (hitems : v.items s' = .ok items)
    (hw : (Evaluation.comprehend env x (form.map (Expr.clause h true)) items).Denotes w) :
    (form.callOn x target s s').Returns h env w := by
  intro q hq
  exact (Machine.returns_iff_denotes hq).2
    (Comprehension.denotes_callOn_iff.2 ⟨v, items, hv, hitems, hw⟩)

end

namespace Machine

open Comprehension Evaluation

/-- The forms of comprehension agree.

    If the items that a filter keeps are `kept`, then with the same target, variable and
    predicate `all` tells whether these are as many as the target has items, `exists`
    whether there are any and `exists_one` whether there is exactly one, and `map` with the
    variable as its body gives them. Filtering and transforming in one comprehension
    succeeds exactly if transforming the result of a filter does, with the same value. -/
theorem comprehensions_agree (h : Host) (env : Environment) (target p e : Expr) (x : String)
    (s s' : Span) :
    (∀ t f v kept, compile {} target = .ok t →
      compile {} ((Comprehension.filter p).callOn x target s s') = .ok f →
      Returns (h.machine t) env v → Returns (h.machine f) env (.list kept) →
      ∃ items, v.items s' = .ok items ∧ ∀ u u' u'',
        ((Comprehension.all p).callOn x target u u').Returns h env
          (.bool (kept.length = items.length)) ∧
        ((Comprehension.exists p).callOn x target u u').Returns h env (.bool (0 < kept.length)) ∧
        ((Comprehension.existsOne p).callOn x target u u').Returns h env
          (.bool (kept.length = 1)) ∧
        ((Comprehension.filterTransform p (.ident x u'')).callOn x target u u').Returns h env
          (.list kept)) ∧
    ∀ u u' u₁ u₁' q q',
      compile {} ((Comprehension.filterTransform p e).callOn x target u u') = .ok q →
      compile {} ((Comprehension.transform e).callOn x
        ((Comprehension.filter p).callOn x target s s') u₁ u₁') = .ok q' →
      ∀ v, Returns (h.machine q) env v ↔ Returns (h.machine q') env v := by
  constructor
  · intro t f v kept ht hf hv hkept
    replace hv := (returns_iff_denotes ht).1 hv
    obtain ⟨v', items, hv', hitems, hkept⟩ :=
      denotes_callOn_iff.1 ((returns_iff_denotes hf).1 hkept)
    obtain rfl := hv.eq hv'
    -- The filter has a value, so the predicate has one for every item, and `pass` tells which. The
    -- other forms are told by it too.
    obtain ⟨pass, hpass, hkept⟩ := denotes_filter_iff.1 hkept
    obtain rfl := Value.list.inj hkept
    refine ⟨items, hitems, fun u u' u'' => ?_⟩
    have hform {form : Comprehension Expr} {w w' : Value}
        (hw : (comprehend env x (form.map (Expr.clause h true)) items).Denotes w) (heq : w = w') :
        (form.callOn x target u u').Returns h env w' :=
      .callOn hv (Value.items_eq_ok hitems u') (heq ▸ hw)
    refine ⟨hform (denotes_all hpass) ?_, hform (denotes_exists hpass) ?_,
      hform (denotes_existsOne hpass) ?_, hform (denotes_filterTransform_iff.2
        ⟨pass, id, hpass, fun v _ => denotes_inside_ident v, rfl⟩) ?_⟩
    · rw [all_eq_length_filter]
    · rw [any_eq_length_filter]
    · rw [List.countP_eq_length_filter]
    · rw [List.map_id]
  · intro u u' u₁ u₁' q q' hq hq' w
    rw [returns_iff_denotes hq, returns_iff_denotes hq']
    exact denotes_filterTransform_iff_transform_filter

/-- The predicate `m[x]`. -/
def valueAtKey : Expr := .index (.ident "m" ⟨20, 21⟩) (.ident "x" ⟨22, 23⟩) ⟨20, 24⟩

/-- A form of comprehension over the keys of `m`. -/
def overKeys (form : Comprehension Expr) : Expr :=
  form.callOn "x" (.ident "m" ⟨0, 1⟩) ⟨17, 18⟩ ⟨0, 25⟩

/-- The values of the keys that a filter keeps. -/
def valuesOfFiltered : Expr :=
  (Comprehension.transform valueAtKey).callOn "x" (overKeys (.filter valueAtKey)) ⟨30, 31⟩ ⟨0, 40⟩

/-- The variable `m`, a map with keys of every kind. -/
def flagsHost : Environment :=
  .ofVariables
    [("m", .map [(.int 1, .bool true), (.uint 2, .bool false), (.string "k", .bool true)])]

/-- Two of three keys pass, which the second one that passes decides for `exists_one`, and
    `map` gives the values of these two. -/
theorem comprehensions_agree_overKeys :
    ∃ q r, compile {} (overKeys (.existsOne valueAtKey)) = .ok q ∧
      Returns { registry := RegistryBuilder.empty.build, program := q } flagsHost (.bool false) ∧
      compile {} (overKeys (.filterTransform valueAtKey valueAtKey)) = .ok r ∧
      Returns { registry := RegistryBuilder.empty.build, program := r } flagsHost
        (.list [.bool true, .bool true]) := by
  let h : Host := ⟨RegistryBuilder.empty.build, none⟩
  have ht : compile {} (.ident "m" ⟨0, 1⟩) =
      .ok ((Expr.ident "m" ⟨0, 1⟩).assembly true).toProgram :=
    compile_of_fits (by decide +kernel)
  have hf : compile {} (overKeys (.filter valueAtKey)) =
      .ok ((overKeys (.filter valueAtKey)).assembly true).toProgram :=
    compile_of_fits (by decide +kernel)
  have hq : compile {} (overKeys (.existsOne valueAtKey)) =
      .ok ((overKeys (.existsOne valueAtKey)).assembly true).toProgram :=
    compile_of_fits (by decide +kernel)
  have hr : compile {} (overKeys (.filterTransform valueAtKey valueAtKey)) =
      .ok ((overKeys (.filterTransform valueAtKey valueAtKey)).assembly true).toProgram :=
    compile_of_fits (by decide +kernel)
  have hr' : compile {} valuesOfFiltered = .ok (valuesOfFiltered.assembly true).toProgram :=
    compile_of_fits (by decide +kernel)
  have hv : Returns (h.machine ((Expr.ident "m" ⟨0, 1⟩).assembly true).toProgram) flagsHost
      (.map [(.int 1, .bool true), (.uint 2, .bool false), (.string "k", .bool true)]) :=
    (returns_iff_denotes ht).2 fun _ => rfl
  have hkept : Returns (h.machine ((overKeys (.filter valueAtKey)).assembly true).toProgram)
      flagsHost (.list [.int 1, .string "k"]) :=
    (returns_iff_denotes hf).2 fun _ => rfl
  have hvalues : Returns (h.machine (valuesOfFiltered.assembly true).toProgram) flagsHost
      (.list [.bool true, .bool true]) :=
    (returns_iff_denotes hr').2 fun _ => rfl
  obtain ⟨hforms, hmaps⟩ :=
    comprehensions_agree h flagsHost (.ident "m" ⟨0, 1⟩) valueAtKey valueAtKey "x" ⟨17, 18⟩ ⟨0, 25⟩
  obtain ⟨items, -, hforms⟩ := hforms _ _ _ _ ht hf hv hkept
  obtain ⟨-, -, hone, -⟩ := hforms ⟨17, 18⟩ ⟨0, 25⟩ ⟨20, 21⟩
  exact ⟨_, _, hq, hone _ hq, hr, (hmaps _ _ _ _ _ _ hr hr' _).2 hvalues⟩

end Machine

end ExprMachine
