import ExprMachine.Proofs.NumberOrder

/-!
# Comparisons

Six operators compare values. The orders act on two values that are *comparable*
(`Value.Comparable`): two numbers, or two booleans, strings or byte sequences. They accept some
of the outcomes of one comparison, and `==` asks for one of them (`Value.equals_eq_compare`),
although it has an implementation of its own and acts on all values.

* Unless one of the values is a NaN, the comparison has an outcome, and exactly one of `<`, `==`
  and `>` is true. Beside a NaN, only `!=` is.
* Values that are not doubles are ordered by their *ordinals* (`Value.ordinals`), so that `<` is
  transitive among them. A comparison with a double rounds integers, and they may be equal to
  one double without being equal.
-/

namespace ExprMachine

/-! ## Comparable values -/

/-- Whether a number is a NaN. -/
def Number.isNaN : Number → Bool
  | .integer _ => false
  | .double d => d.isNaN

namespace Value

/-- Whether a value is a NaN. -/
def isNaN : Value → Bool
  | .double d => d.isNaN
  | _ => false

/-- The values on which the orders act. -/
inductive Comparable : Value → Value → Prop
  /-- Two booleans. -/
  | bools (p q : Bool) : Comparable (.bool p) (.bool q)
  /-- Two strings. -/
  | strings (s t : String) : Comparable (.string s) (.string t)
  /-- Two byte sequences. -/
  | bytes (s t : List UInt8) : Comparable (.bytes s) (.bytes t)
  /-- Two numbers of any kinds. -/
  | numbers {a b : Value} {x y : Number} (ha : a.number? = some x) (hb : b.number? = some y) :
      Comparable a b

variable {a b c : Value}

/-- The ordered pairs of kinds are those of comparable values. -/
theorem comparable_iff : Comparable a b ↔ (a.kind, b.kind) ∈ Standard.orderedPairs := by
  constructor
  · rintro (_ | _ | _ | ⟨ha, hb⟩)
    · exact List.mem_of_getElem? (i := 0) rfl
    · exact List.mem_of_getElem? (i := 4) rfl
    · exact List.mem_of_getElem? (i := 5) rfl
    · cases a <;> cases ha <;> cases b <;> cases hb <;> simp [kind, Standard.orderedPairs]
  · intro h
    cases a with
    | bool p =>
      cases b with
      | bool q => exact .bools p q
      | _ => simp [kind, Standard.orderedPairs] at h
    | string s =>
      cases b with
      | string t => exact .strings s t
      | _ => simp [kind, Standard.orderedPairs] at h
    | bytes s =>
      cases b with
      | bytes t => exact .bytes s t
      | _ => simp [kind, Standard.orderedPairs] at h
    | int | uint | double =>
      cases b with
      | int | uint | double => exact .numbers rfl rfl
      | _ => simp [kind, Standard.orderedPairs] at h
    | _ => simp [kind, Standard.orderedPairs] at h

theorem Comparable.symm (h : Comparable a b) : Comparable b a := by
  cases h with
  | bools p q => exact .bools q p
  | strings s t => exact .strings t s
  | bytes s t => exact .bytes t s
  | numbers ha hb => exact .numbers hb ha

theorem Comparable.trans (h : Comparable a b) (h' : Comparable b c) : Comparable a c := by
  cases h with
  | numbers ha hb =>
    cases h' with
    | numbers _ hc => exact .numbers ha hc
    | _ => cases hb
  | _ =>
    cases h' with
    | numbers hb _ => cases hb
    | _ => constructor

theorem isNaN_of_number? {x : Number} (hx : a.number? = some x) : a.isNaN = x.isNaN := by
  cases a <;> cases hx <;> rfl

end Value

/-! ## Outcomes -/

theorem Number.isNaN_toDouble {x : Number} (hx : ∀ i, x = .integer i → i.natAbs < 2 ^ 64) :
    x.toDouble.isNaN = x.isNaN := by
  cases x with
  | double d => rfl
  | integer i =>
    have hfinite := of_decide_eq_true (Double.ofInt_spec (hx i rfl)).1
    exact decide_eq_false (Nat.lt_asymm hfinite)

theorem Number.isSome_compare {x y : Number} (hx : ∀ i, x = .integer i → i.natAbs < 2 ^ 64)
    (hy : ∀ i, y = .integer i → i.natAbs < 2 ^ 64) :
    (x.compare y).isSome = !(x.isNaN || y.isNaN) := by
  have hdoubles (d d' : Double) : (d.compare d').isSome = !(d.isNaN || d'.isNaN) := by
    rw [Double.compare]
    cases d.isNaN || d'.isNaN <;> rfl
  rw [← isNaN_toDouble hx, ← isNaN_toDouble hy]
  -- Two integers are compared as they are, all other numbers as doubles.
  cases x with
  | double d => cases y <;> exact hdoubles _ _
  | integer i =>
    cases y with
    | double d => exact hdoubles _ _
    | integer j => rw [isNaN_toDouble hx, isNaN_toDouble hy]; rfl

namespace Value

variable {a b : Value} (h : Comparable a b)
include h

/-- The comparison has an outcome unless one of the values is a NaN. -/
theorem isSome_compare : (a.compare b).isSome = !(a.isNaN || b.isNaN) := by
  cases h with
  | numbers ha hb =>
    rw [compare_of_number ha hb, isNaN_of_number? ha, isNaN_of_number? hb]
    exact Number.isSome_compare (natAbs_lt_of_number? ha) (natAbs_lt_of_number? hb)
  | _ => rfl

theorem compare_swap : b.compare a = (a.compare b).map Ordering.swap := by
  cases h with
  | numbers ha hb =>
    rw [compare_of_number ha hb, compare_of_number hb ha]
    exact Number.compare_swap _ _
  | _ => exact congrArg some Std.OrientedCmp.eq_swap

/-- Comparable values are equal in the language if the comparison says so. -/
theorem equals_eq_compare : a.equals b = (a.compare b == some .eq) := by
  cases h with
  | numbers ha hb => rw [equals_of_number ha hb, compare_of_number ha hb]
  | _ =>
    rw [(equals_eq_same rfl).1, Bool.eq_iff_iff]
    simp [same, compare]

end Value

/-! ## Ordinals -/

namespace Value

/-- What a value that is not a double is ordered by, from the first one on: for a string its
    code points, and for a byte sequence its bytes. -/
def ordinals : Value → List ℤ
  | .bool p => [if p then 1 else 0]
  | .int i => [i.toInt]
  | .uint u => [u.toNat]
  | .string s => s.toList.map fun c => (c.toNat : ℤ)
  | .bytes bs => bs.map fun b => (b.toNat : ℤ)
  | _ => []

theorem compare_strings_eq_lt_iff (s t : String) :
    Ord.compare s t = .lt ↔ (string s).ordinals < (string t).ordinals := by
  have hchars : StrictMono fun c : Char => (c.toNat : ℤ) := fun c d h =>
    Int.ofNat_lt.2 (UInt32.lt_iff_toNat_lt.1 h)
  -- Code points keep the order of characters, and so do lists of them.
  have hmap : StrictMono (List.map fun c : Char => (c.toNat : ℤ)) := fun cs ds h =>
    List.map_lt hchars h
  rw [compare_lt_iff_lt, String.lt_iff_toList_lt]
  exact hmap.lt_iff_lt.symm

theorem compare_bytes_eq_lt_iff (s t : List UInt8) :
    Ord.compare s t = .lt ↔ (bytes s).ordinals < (bytes t).ordinals := by
  show List.compareLex Ord.compare s t = .lt ↔
    s.map (fun b => (b.toNat : ℤ)) < t.map fun b => (b.toNat : ℤ)
  induction s generalizing t with
  | nil => cases t <;> simp [List.compareLex]
  | cons b s ih =>
    cases t with
    | nil => simp [List.compareLex]
    | cons b' t =>
      -- The first bytes that differ decide, by what they denote.
      have hbyte : Ord.compare b b' = .lt ↔ (b.toNat : ℤ) < b'.toNat := by
        rw [Std.compare_eq_lt, UInt8.lt_iff_toNat_lt, Int.ofNat_lt]
      have hsame : Ord.compare b b' = .eq ↔ (b.toNat : ℤ) = b'.toNat := by
        rw [Std.LawfulEqCmp.compare_eq_iff_eq, ← UInt8.toNat_inj, Int.natCast_inj]
      rw [List.compareLex_cons_cons, List.map_cons, List.map_cons, List.cons_lt_cons_iff,
        Ordering.then_eq_lt, ih, hbyte, hsame]

variable {a b c : Value}

/-- A number that is not a double has what it denotes as its ordinal. -/
theorem exists_integer_of_number? (ha : a.kind ≠ .double) {x : Number}
    (hx : a.number? = some x) : ∃ i, x = .integer i ∧ a.ordinals = [i] := by
  cases a with
  | int i | uint u =>
    cases hx
    exact ⟨_, rfl, rfl⟩
  | double d => exact absurd rfl ha
  | _ => cases hx

/-- Values that are not doubles are ordered by their ordinals. -/
theorem compare_eq_lt_iff (h : Comparable a b) (ha : a.kind ≠ .double) (hb : b.kind ≠ .double) :
    a.compare b = some .lt ↔ a.ordinals < b.ordinals := by
  cases h with
  | bools p q => cases p <;> cases q <;> decide
  | strings s t => exact Option.some_inj.trans (compare_strings_eq_lt_iff s t)
  | bytes s t => exact Option.some_inj.trans (compare_bytes_eq_lt_iff s t)
  | numbers hx hy =>
    obtain ⟨i, rfl, hi⟩ := exists_integer_of_number? ha hx
    obtain ⟨j, rfl, hj⟩ := exists_integer_of_number? hb hy
    rw [compare_of_number hx hy, hi, hj, Number.compare, Option.some_inj, compare_lt_iff_lt,
      List.cons_lt_cons_iff]
    simp

end Value

/-! ## Operators -/

namespace Registry

/-- What an operator tells of two values, wherever it stands. -/
def Tells (r : Registry) (op : BinaryOperator) (a b : Value) (t : Bool) : Prop :=
  ∀ span, r.applyBinary op.index a b span = .ok (.bool t)

variable {r : Registry} {op : BinaryOperator} {a b : Value}

theorem Tells.eq {t t' : Bool} (h : r.Tells op a b t) (h' : r.Tells op a b t') : t = t' :=
  Value.bool.inj (Except.ok.inj ((h ⟨0, 0⟩).symm.trans (h' ⟨0, 0⟩)))

variable (h : r.Extends Standard.registry)
include h

/-- An order tells whether it accepts the outcome. -/
theorem Extends.tells_ordering {accept : Ordering → Bool}
    (hd : .binary (Standard.ordering op accept) ∈ Standard.descriptors)
    (hpair : (a.kind, b.kind) ∈ Standard.orderedPairs) :
    r.Tells op a b (((a.compare b).map accept).getD false) :=
  h.applyBinary hd a b (List.mem_map_of_mem hpair)

/-- Values that are not doubles are less if their ordinals are. -/
theorem Extends.tells_less (hpair : (a.kind, b.kind) ∈ Standard.orderedPairs)
    (ha : a.kind ≠ .double) (hb : b.kind ≠ .double) :
    r.Tells .less a b (decide (a.ordinals < b.ordinals)) := by
  have hless : .binary (Standard.ordering .less (· == .lt)) ∈ Standard.descriptors :=
    List.mem_of_getElem? (i := 5) rfl
  have hiff := Value.compare_eq_lt_iff (Value.comparable_iff.2 hpair) ha hb
  convert h.tells_ordering hless hpair using 1
  rw [Bool.eq_iff_iff, decide_eq_true_eq, ← hiff]
  rcases a.compare b with _ | _ | _ | _ <;> decide

end Registry

/-- The six operators that compare are consistent with each other.

    * Of values that are not NaN, exactly one of `a < b`, `a == b` and `a > b` is true, and the
      other three are put together from these. Beside a NaN, only `!=` is true.
    * `a < b` tells what `b > a` does.
    * Among values that are not doubles, `<` is the order of their ordinals, and transitive. -/
theorem Standard.comparisons_consistent {r : Registry} (hext : r.Extends Standard.registry) :
    (∀ a b : Value, (a.kind, b.kind) ∈ orderedPairs → ∃ lt le gt ge eq ne : Bool,
      (r.Tells .less a b lt ∧ r.Tells .lessEquals a b le ∧ r.Tells .greater a b gt ∧
        r.Tells .greaterEquals a b ge ∧ r.Tells .equals a b eq ∧ r.Tells .notEquals a b ne) ∧
      r.Tells .greater b a lt ∧
      (a.isNaN = false → b.isNaN = false →
        [lt, eq, gt].count true = 1 ∧ le = (lt || eq) ∧ ge = (gt || eq) ∧ ne = !eq) ∧
      (a.isNaN ∨ b.isNaN →
        lt = false ∧ le = false ∧ gt = false ∧ ge = false ∧ eq = false ∧ ne = true)) ∧
    (∀ a b : Value, (a.kind, b.kind) ∈ orderedPairs → a.kind ≠ .double → b.kind ≠ .double →
      r.Tells .less a b (decide (a.ordinals < b.ordinals))) ∧
    (∀ a b c : Value, (a.kind, b.kind) ∈ orderedPairs → (b.kind, c.kind) ∈ orderedPairs →
      a.kind ≠ .double → b.kind ≠ .double → c.kind ≠ .double →
      r.Tells .less a b true → r.Tells .less b c true →
        (a.kind, c.kind) ∈ orderedPairs ∧ r.Tells .less a c true) := by
  have hless : .binary (ordering .less (· == .lt)) ∈ descriptors :=
    List.mem_of_getElem? (i := 5) rfl
  have hlessEquals : .binary (ordering .lessEquals (· != .gt)) ∈ descriptors :=
    List.mem_of_getElem? (i := 6) rfl
  have hgreater : .binary (ordering .greater (· == .gt)) ∈ descriptors :=
    List.mem_of_getElem? (i := 7) rfl
  have hgreaterEquals : .binary (ordering .greaterEquals (· != .lt)) ∈ descriptors :=
    List.mem_of_getElem? (i := 8) rfl
  have hnotEquals : .binary (equality .notEquals false) ∈ descriptors :=
    List.mem_of_getElem? (i := 10) rfl
  refine ⟨fun a b hpair => ?_, fun a b hpair => hext.tells_less hpair,
    fun a b c hab hbc ha hb hc hlt hlt' => ?_⟩
  · have hcomparable := Value.comparable_iff.2 hpair
    have hflipped := hext.tells_ordering hgreater (Value.comparable_iff.1 hcomparable.symm)
    have hsome := Value.isSome_compare hcomparable
    rw [Value.compare_swap hcomparable] at hflipped
    refine ⟨_, _, _, _, _, _, ⟨hext.tells_ordering hless hpair,
      hext.tells_ordering hlessEquals hpair, hext.tells_ordering hgreater hpair,
      hext.tells_ordering hgreaterEquals hpair, hext.equals_values a b,
      fun span => hext.equality_values a b span hnotEquals⟩, ?_, ?_, ?_⟩
    · convert hflipped using 1
      rcases a.compare b with _ | _ | _ | _ <;> rfl
    · -- There is an outcome, and it decides each of the operators.
      intro ha hb
      rw [ha, hb] at hsome
      obtain ⟨o, ho⟩ := Option.isSome_iff_exists.1 hsome
      rw [Value.equals_eq_compare hcomparable, ho]
      cases o <;> decide
    · intro hnan
      rw [← Bool.or_eq_true_iff, ← Bool.not_eq_false', ← hsome] at hnan
      rw [Value.equals_eq_compare hcomparable,
        Option.isNone_iff_eq_none.1 (Option.isSome_eq_false_iff.1 hnan)]
      decide
  · have hac := (Value.comparable_iff.2 hab).trans (Value.comparable_iff.2 hbc)
    have hpair := Value.comparable_iff.1 hac
    have hlt := of_decide_eq_true ((hext.tells_less hab ha hb).eq hlt)
    have hlt' := of_decide_eq_true ((hext.tells_less hbc hb hc).eq hlt')
    have htold := hext.tells_less hpair ha hc
    rw [decide_eq_true (lt_trans hlt hlt')] at htold
    exact ⟨hpair, htold⟩

/-- Integers of both kinds are ordered by what they denote, and a NaN is unlike any of them. -/
theorem Standard.comparisons_consistent_mixed :
    registry.Tells .less (.int (-1)) (.uint 3) true ∧
      registry.Tells .less (.int (-1)) (.int 4) true ∧
      registry.Tells .notEquals (.double .nan) (.uint 3) true := by
  obtain ⟨hall, hless, htrans⟩ :=
    comparisons_consistent (r := registry) (fun _ _ _ hfind => hfind)
  have hlow : registry.Tells .less (.int (-1)) (.uint 3) true :=
    hless _ _ (by decide) (by decide) (by decide)
  have hhigh : registry.Tells .less (.uint 3) (.int 4) true :=
    hless _ _ (by decide) (by decide) (by decide)
  obtain ⟨-, hboth⟩ := htrans _ _ _ (by decide) (by decide) (by decide) (by decide) (by decide)
    hlow hhigh
  obtain ⟨lt, le, gt, ge, eq, ne, ⟨-, -, -, -, -, hne⟩, -, -, hnan⟩ :=
    hall (.double .nan) (.uint 3) (by decide)
  obtain ⟨-, -, -, -, -, rfl⟩ := hnan (.inl (by decide))
  exact ⟨hlow, hboth, hne⟩

end ExprMachine
