import Mathlib.Data.List.Forall2
import ExprMachine.Proofs.Concatenation
import ExprMachine.Proofs.Numbers
import ExprMachine.Proofs.Separated

/-!
# Equality is symmetric

Two maps are equal if they have the same number of keys and each key of the first finds an
equal value in the second. This looks at the second map only for what the keys of the
first stand for. Where these are different things, nothing of the second map is left over,
and the second map equals the first (`Value.equals_symm`).

So equality is symmetric among separated values, and `x == y` and `y == x` are the same
boolean (`Value.equals_comm`). It is not symmetric among all values (`Value.equals_twinned`):
two keys for one integer may both find the same key of the other map.
-/

namespace ExprMachine

/-- Whether values of a kind are equal to those only that are the same. -/
def Kind.isStrict : Kind → Bool
  | .null | .bool | .string | .bytes | .message => true
  | .int | .uint | .double | .list | .map => false

namespace Value

variable {as bs : List Value}

/-! ## Comparing parts -/

theorem sameItems_iff : sameItems as bs ↔ List.Forall₂ (fun v w => v.same w) as bs := by
  induction as generalizing bs with
  | nil => cases bs <;> simp [sameItems]
  | cons v as ih => cases bs <;> simp [sameItems, ih]

theorem equalItems_iff : equalItems as bs ↔ List.Forall₂ (fun v w => v.equals w) as bs := by
  induction as generalizing bs with
  | nil => cases bs <;> simp [equalItems]
  | cons v as ih => cases bs <;> simp [equalItems, ih]

/-- Strict equality finds each entry of the one map at its key in the other. -/
theorem sameEntries_iff {es : Entries MapKey Value} {t : Entries MapKey Value} :
    sameEntries es t ↔ ∀ e ∈ es, ∃ w, t.get? e.1 = some w ∧ e.2.same w := by
  induction es with
  | nil => simp [sameEntries]
  | cons e rest ih =>
    rw [sameEntries, Bool.and_eq_true, ih, List.forall_mem_cons]
    cases Entries.get? t e.1 <;> simp

theorem sameFields_iff {fs : Entries String Value} {t : Entries String Value} :
    sameFields fs t ↔ ∀ f ∈ fs, ∃ w, t.get? f.1 = some w ∧ f.2.same w := by
  induction fs with
  | nil => simp [sameFields]
  | cons e rest ih =>
    rw [sameFields, Bool.and_eq_true, ih, List.forall_mem_cons]
    cases Entries.get? t e.1 <;> simp

/-- Equality finds each entry of the one map at its key or the twin of that in the other. -/
theorem equalEntries_iff {es : Entries MapKey Value} {t : Entries MapKey Value} :
    equalEntries es t ↔ ∀ e ∈ es, ∃ w, MapKey.lookup? t e.1 = some w ∧ e.2.equals w := by
  induction es with
  | nil => simp [equalEntries]
  | cons e rest ih =>
    rw [equalEntries, Bool.and_eq_true, ih, List.forall_mem_cons]
    cases MapKey.lookup? t e.1 <;> simp

end Value

/-! ## Symmetry -/

theorem Double.compare_swap (a b : Double) : b.compare a = (a.compare b).map Ordering.swap := by
  rw [compare, compare, Bool.or_comm]
  split
  · rfl
  · exact congrArg some Std.OrientedCmp.eq_swap

/-- Numbers that are compared the other way round are ordered the other way round. -/
theorem Number.compare_swap (x y : Number) : y.compare x = (x.compare y).map Ordering.swap := by
  cases x with
  | integer i =>
    cases y with
    | integer j => exact congrArg some Std.OrientedCmp.eq_swap
    | double d => exact Double.compare_swap _ _
  | double d => cases y <;> exact Double.compare_swap _ _

theorem Number.compare_eq_some_eq_comm (x y : Number) :
    (x.compare y == some .eq) = (y.compare x == some .eq) := by
  rw [compare_swap x y]
  rcases x.compare y with _ | (_ | _ | _) <;> rfl

namespace Value

variable {a b : Value}

/-- A relation between lists is symmetric if it is between their items. -/
theorem forall₂_symm {R : Value → Value → Prop} {as bs : List Value}
    (h : ∀ v ∈ as, ∀ w, R v w → R w v) (hR : List.Forall₂ R as bs) : List.Forall₂ R bs as :=
  ((List.forall₂_and_left _ _).2 ⟨h, hR⟩).flip.imp fun _ _ h => h.1 _ h.2

/-- Sameness is symmetric. -/
theorem same_symm {a b : Value} (ha : a.everywhere hasDistinctKeys) (h : a.same b) : b.same a := by
  induction a using induct generalizing b with
  | step a ih =>
    have ih : ∀ v ∈ a.parts, ∀ w, v.same w → w.same v := fun v hv w =>
      ih v hv ((everywhere_iff.1 ha).2 v hv)
    cases a with
    | list as =>
      cases b with
      | list bs => exact sameItems_iff.2 (forall₂_symm ih (sameItems_iff.1 h))
      | _ => cases h
    | map as =>
      cases b with
      | map bs =>
        simp only [same, Bool.and_eq_true, beq_iff_eq] at h ⊢
        obtain ⟨hlength, h⟩ := h
        have hback := Entries.forall_get?_symm (R := fun v w => v.same w) (nodup_keys_of_map ha)
          (Nat.le_of_eq hlength.symm) (fun e he => ih e.2 (List.mem_map_of_mem he))
          (sameEntries_iff.1 h)
        exact ⟨hlength.symm, sameEntries_iff.2 hback⟩
      | _ => cases h
    | message s as =>
      cases b with
      | message t bs =>
        simp only [same, Bool.and_eq_true, beq_iff_eq] at h ⊢
        obtain ⟨⟨hname, hlength⟩, h⟩ := h
        have hback := Entries.forall_get?_symm (R := fun v w => v.same w)
          (nodup_keys_of_message ha) (Nat.le_of_eq hlength.symm)
          (fun e he => ih e.2 (List.mem_map_of_mem he)) (sameFields_iff.1 h)
        exact ⟨⟨hname.symm, hlength.symm⟩, sameFields_iff.2 hback⟩
      | _ => cases h
    | double d =>
      cases b with
      | double d' =>
        rw [same] at h ⊢
        exact (Number.compare_eq_some_eq_comm (.double d) (.double d')).symm.trans h
      | _ => cases h
    | null | bool | int | uint | string | bytes => cases b <;> simp_all [same]

/-- Only numbers equal a number. -/
theorem exists_number_of_equals {a b : Value} {x : Number} (hx : a.number? = some x)
    (h : a.equals b) : ∃ y, b.number? = some y := by
  cases a <;> cases hx <;> cases b <;> first | exact ⟨_, rfl⟩ | cases h

/-- Where one of two values is strict, equality does not look through kinds. -/
theorem equals_eq_same {a b : Value} (ha : a.kind.isStrict) :
    a.equals b = a.same b ∧ b.equals a = b.same a := by
  cases a with
  | null | bool | string | bytes | message => cases b <;> exact ⟨rfl, rfl⟩
  | int | uint | double | list | map => cases ha

/-- Equal entries are found by what their keys stand for. -/
theorem covers_of_equalEntries {as bs : Entries MapKey Value} (h : equalEntries as bs) :
    Entries.Covers MapKey.norm (fun v w => v.equals w) as bs := by
  intro e he
  obtain ⟨w, hlookup, hw⟩ := equalEntries_iff.1 h e he
  obtain ⟨e', he', hkey, rfl⟩ := MapKey.exists_mem_of_lookup? hlookup
  exact ⟨e', he', hkey, hw⟩

theorem equalEntries_of_covers {as bs : Entries MapKey Value}
    (hnodup : (bs.keys.map MapKey.norm).Nodup)
    (h : Entries.Covers MapKey.norm (fun v w => v.equals w) as bs) : equalEntries as bs := by
  refine equalEntries_iff.2 fun e he => ?_
  obtain ⟨e', he', hkey, hw⟩ := h e he
  refine ⟨e'.2, ?_, hw⟩
  rw [MapKey.lookup?_eq_get?_view hnodup, Entries.get?_view_eq_some_iff hnodup]
  exact ⟨e', he', hkey, rfl⟩

/-- Equality is symmetric where the keys of the first value are told apart. -/
theorem equals_symm {a b : Value} (ha : a.Separated) (h : a.equals b) : b.equals a := by
  induction a using induct generalizing b with
  | step a ih =>
    have ih : ∀ v ∈ a.parts, ∀ w, v.equals w → w.equals v := fun v hv w => ih v hv (ha.part hv)
    by_cases hstrict : a.kind.isStrict
    · rw [(equals_eq_same hstrict).1] at h
      rw [(equals_eq_same hstrict).2]
      exact same_symm ha.distinct h
    · cases a with
      | list as =>
        cases b with
        | list bs => exact equalItems_iff.2 (forall₂_symm ih (equalItems_iff.1 h))
        | _ => cases h
      | map as =>
        cases b with
        | map bs =>
          simp only [equals, Bool.and_eq_true, beq_iff_eq] at h ⊢
          obtain ⟨hlength, h⟩ := h
          -- Nothing of the second map is left over, as it has no more keys than the first.
          have hback : Entries.Covers MapKey.norm (fun v w => v.equals w) bs as :=
            (covers_of_equalEntries h).symm ha.nodup_norm (Nat.le_of_eq hlength.symm)
              fun e he => ih e.2 (List.mem_map_of_mem he)
          exact ⟨hlength.symm, equalEntries_of_covers ha.nodup_norm hback⟩
        | _ => cases h
      | int | uint | double =>
        obtain ⟨y, hy⟩ := exists_number_of_equals rfl h
        rw [equals_of_number rfl hy, Number.compare_eq_some_eq_comm] at h
        rwa [equals_of_number hy rfl]
      | null | bool | string | bytes | message => exact absurd rfl hstrict

end Value

/-! ## Programs that compare -/

theorem Kind.mem_all (k : Kind) : k ∈ Kind.all := by
  cases k <;> decide

section

variable {r : Registry} (h : r.Extends Standard.registry) (a b : Value) (span : Span)
include h

/-- The operators `==` and `!=` act on all values. -/
theorem Registry.Extends.equality_values {op : BinaryOperator} {whenEqual : Bool}
    (hd : .binary (Standard.equality op whenEqual) ∈ Standard.descriptors) :
    r.applyBinary op.index a b span = .ok (.bool (a.equals b == whenEqual)) := by
  have hpair : (a.kind, b.kind) ∈ Standard.allPairs :=
    List.mem_flatMap.2 ⟨_, a.kind.mem_all, List.mem_map_of_mem b.kind.mem_all⟩
  exact h.applyBinary hd a b (List.mem_map_of_mem hpair) span

/-- The standard operator `==` is equality for values of all kinds. -/
theorem Registry.Extends.equals_values :
    r.applyBinary BinaryOperator.equals.index a b span = .ok (.bool (a.equals b)) := by
  have hequality : .binary (Standard.equality .equals true) ∈ Standard.descriptors :=
    List.mem_of_getElem? (i := 9) rfl
  rw [h.equality_values a b span hequality, beq_true]

end

/-- The expression `x == y`. The spans of its nodes are `s`. -/
def Expr.comparison (x y : String) (s : Nat → Span) : Expr :=
  .binary .equals (.ident x (s 0)) (.ident y (s 1)) (s 2)

namespace Machine

variable {h : Host} {options : CompileOptions} {p : Program} {x y : String} {s : Nat → Span}
  {env : Environment} {a b : Value}

/-- With the standard operator `==`, the program of `x == y` gives whether the values of the
    variables are equal, whatever else is registered. -/
theorem exists_execute_comparison (hext : h.registry.Extends Standard.registry)
    (hp : compile options (.comparison x y s) = .ok p) (hx : env.get? x = some a)
    (hy : env.get? y = some b) :
    ∃ fuel, (h.machine p).execute fuel env = some ⟨.ok (.bool (a.equals b)), true, env⟩ := by
  have hundecided : (a.asBool?.any fun c => Evaluation.deciding .equals = some c) = false := by
    simp [Evaluation.deciding]
  have heval : (Expr.comparison x y s).eval h options.macros env = pure (.bool (a.equals b)) := by
    simp only [Expr.comparison, Expr.eval, hx, hy, Evaluation.binary, pure_bind, hundecided,
      hext.equals_values]
    rfl
  obtain ⟨fuel, hfuel⟩ := exists_execute_eq (m := h.machine p) hp env
  rw [heval] at hfuel
  exact ⟨fuel, hfuel⟩

end Machine

namespace Value

/-- Equality is symmetric where the keys of both values are told apart, and the programs of
    `x == y` and `y == x` give the same boolean. -/
theorem equals_comm {a b : Value} (ha : a.Separated) (hb : b.Separated) :
    a.equals b = b.equals a ∧
      ∀ {h : Host} {options : CompileOptions} {p q : Program} {x y : String} {s s' : Nat → Span}
        {env : Environment}, h.registry.Extends Standard.registry →
        compile options (.comparison x y s) = .ok p →
        compile options (.comparison y x s') = .ok q →
        env.get? x = some a → env.get? y = some b →
        ∃ c fuel fuel', (h.machine p).execute fuel env = some ⟨.ok (.bool c), true, env⟩ ∧
          (h.machine q).execute fuel' env = some ⟨.ok (.bool c), true, env⟩ := by
  have hcomm : a.equals b = b.equals a := Bool.eq_iff_iff.2 ⟨equals_symm ha, equals_symm hb⟩
  refine ⟨hcomm, fun hext hp hq hx hy => ?_⟩
  obtain ⟨fuel, hfuel⟩ := Machine.exists_execute_comparison hext hp hx hy
  obtain ⟨fuel', hfuel'⟩ := Machine.exists_execute_comparison hext hq hy hx
  rw [← hcomm] at hfuel'
  exact ⟨a.equals b, fuel, fuel', hfuel, hfuel'⟩

/-- A list of a map with an integer and a string as keys. -/
def signedRow : Value :=
  .list [.map [(.int 1, .uint 2), (.string "k", .message "T" [("f", .null), ("g", .bool true)])]]

/-- The same list with its keys in another order and under other kinds. -/
def unsignedRow : Value :=
  .list [.map [(.string "k", .message "T" [("g", .bool true), ("f", .null)]), (.uint 1, .int 2)]]

/-- The variables `x` and `y`, each with a row. -/
def rows : Environment := .ofVariables [("x", signedRow), ("y", unsignedRow)]

/-- The program of a comparison of two variables. -/
def comparing (x y : String) : Program :=
  ((Expr.comparison x y fun _ => ⟨0, 6⟩).assembly true).toProgram

/-- Keys and fields are found in another order, and keys under another kind. -/
theorem equals_comm_rows :
    signedRow.equals unsignedRow = unsignedRow.equals signedRow ∧
      ∃ c fuel fuel',
        Machine.execute { registry := Standard.registry, program := comparing "x" "y" } fuel rows =
          some ⟨.ok (.bool c), true, rows⟩ ∧
        Machine.execute { registry := Standard.registry, program := comparing "y" "x" } fuel' rows =
          some ⟨.ok (.bool c), true, rows⟩ := by
  have hsigned : signedRow.Separated := ⟨by decide, by decide⟩
  have hunsigned : unsignedRow.Separated := ⟨by decide, by decide⟩
  have hp : compile {} (.comparison "x" "y" fun _ => ⟨0, 6⟩) = .ok (comparing "x" "y") :=
    compile_of_fits (by decide +kernel)
  have hq : compile {} (.comparison "y" "x" fun _ => ⟨0, 6⟩) = .ok (comparing "y" "x") :=
    compile_of_fits (by decide +kernel)
  obtain ⟨hcomm, hprograms⟩ := equals_comm hsigned hunsigned
  exact ⟨hcomm, hprograms (h := ⟨Standard.registry, none⟩) (fun _ _ _ h => h) hp hq rfl rfl⟩

/-- A map with the integer `1` as a key of both kinds. -/
def twinned : Value := .map [(.int 1, .string "x"), (.uint 1, .string "x")]

/-- A map with the integers `1` and `2` as keys. -/
def untwinned : Value := .map [(.int 1, .string "x"), (.int 2, .string "y")]

/-- Both keys of the first map find the first key of the second map, whose second key finds
    nothing. -/
theorem equals_twinned :
    twinned.everywhere hasDistinctKeys ∧ untwinned.everywhere hasDistinctKeys ∧
      twinned.equals untwinned = true ∧ untwinned.equals twinned = false := by
  decide

end Value

end ExprMachine
