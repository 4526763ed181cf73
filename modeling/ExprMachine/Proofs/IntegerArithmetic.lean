import Mathlib.Algebra.Ring.Int.Defs
import ExprMachine.Proofs.Lookups

/-!
# Exact arithmetic

Each of the two kinds of integers has its own range (`IntegerKind.Fits`), and a value of the
kind for every integer in it. The standard operators compute with the integers that values
denote, and a result is given exactly or not at all (`IntegerKind.Computes`).

* `+`, `-` and `*` give the exact result, or overflow if the kind does not have it; and so does
  `-` with one operand.
* A divisor of zero fails. Otherwise `/` truncates toward zero, `%` leaves what has the sign of
  the dividend, and both overflow together, where the quotient does.

The product of a quotient by the divisor lies between zero and the dividend
(`tdiv_mul_between`), and so does the remainder. So neither overflows where the quotient
fits, and `(a / b) * b + a % b` is `a` (`Standard.exact_arithmetic`).
-/

namespace ExprMachine

/-- The kinds of integers of 64 bits. -/
inductive IntegerKind where
  /-- The signed integers. -/
  | int
  /-- The unsigned integers. -/
  | uint
  deriving DecidableEq

namespace IntegerKind

/-- The integers that a kind has. -/
def Fits : IntegerKind → ℤ → Prop
  | .int, i => -2 ^ 63 ≤ i ∧ i < 2 ^ 63
  | .uint, i => 0 ≤ i ∧ i < 2 ^ 64

/-- The integer that a value of the kind denotes. -/
def integer? : IntegerKind → Value → Option ℤ
  | .int, .int i => some i.toInt
  | .uint, .uint u => some u.toNat
  | _, _ => none

/-- The name of the kind, as errors give it. -/
def name : IntegerKind → String
  | .int => "int"
  | .uint => "uint"

/-- The result of an operation is an integer if the kind has it, and an overflow of the
    operation otherwise. -/
structure Computes (k : IntegerKind) (r : Except EvalError Value) (span : Span)
    (operation : String) (i : ℤ) : Prop where
  value : k.Fits i → ∃ v, r = .ok v ∧ k.integer? v = some i
  overflow : ¬ k.Fits i → r = .error ⟨span, .overflow (k.name ++ " " ++ operation)⟩

variable {k : IntegerKind} {v w : Value} {a b i : ℤ}

/-- What a value denotes is an integer that its kind has. -/
theorem fits_of_integer? (h : k.integer? v = some i) : k.Fits i := by
  cases k <;> cases v <;> cases h
  · exact ⟨Int64.le_toInt _, Int64.toInt_lt _⟩
  · exact ⟨Int.natCast_nonneg _, by exact_mod_cast UInt64.toNat_lt _⟩

/-- A kind has one value for an integer. -/
theorem integer?_injective (hv : k.integer? v = some i) (hw : k.integer? w = some i) : v = w := by
  cases k <;> cases v <;> cases hv <;> cases w <;> simp [integer?] at hw
  · exact congrArg Value.int (Int64.toInt_inj.1 hw.symm)
  · exact congrArg Value.uint (UInt64.toNat_inj.1 (by exact_mod_cast hw.symm))

/-- A kind has all that lies between zero and an integer that it has. -/
theorem Fits.between (ha : k.Fits a) (h : 0 ≤ i ∧ i ≤ a ∨ a ≤ i ∧ i ≤ 0) : k.Fits i := by
  cases k <;> simp only [Fits] at * <;> omega

/-! ## Standard handlers -/

/-- The kind as one of all kinds. -/
def kind : IntegerKind → Kind
  | .int => .int
  | .uint => .uint

/-- Reads an integer of the kind. -/
def read : IntegerKind → Span → Value → Except EvalError ℤ
  | .int => Standard.intOf
  | .uint => Standard.uintOf

/-- The position of the kind among those that an operator for integers acts on. -/
def position : IntegerKind → Nat
  | .int => 0
  | .uint => 1

/-- An exact result as a value of the kind. -/
def result : IntegerKind → Span → String → ℤ → Except EvalError Value
  | .int => Standard.intResult
  | .uint => Standard.uintResult

theorem kind_of_integer? (h : k.integer? v = some i) : v.kind = k.kind := by
  cases k <;> cases v <;> cases h <;> rfl

theorem read_eq (h : k.integer? v = some i) (span : Span) : k.read span v = .ok i := by
  cases k <;> cases v <;> cases h <;> rfl

/-- An exact result becomes a value of the kind, or an overflow. -/
theorem computes_result (k : IntegerKind) (span : Span) (operation : String) (i : ℤ) :
    k.Computes (k.result span (k.name ++ " " ++ operation) i) span operation i := by
  cases k with
  | int =>
    have hfits : Standard.fitsInt i ↔ IntegerKind.int.Fits i := by
      simp only [Standard.fitsInt, Fits, Bool.and_eq_true, decide_eq_true_eq,
        Int64.toInt_minValue, Int64.toInt_maxValue]
      omega
    constructor
    · intro h
      refine ⟨_, if_pos (hfits.2 h), congrArg some (Int64.toInt_ofInt_of_le h.1 h.2)⟩
    · exact fun h => if_neg (mt hfits.1 h)
  | uint =>
    have hfits : Standard.fitsUInt i ↔ IntegerKind.uint.Fits i := by
      simp [Standard.fitsUInt, Fits, UInt64.size]
    constructor
    · rintro ⟨hnonneg, hlt⟩
      refine ⟨_, if_pos (hfits.2 ⟨hnonneg, hlt⟩), congrArg some ?_⟩
      rw [UInt64.toNat_ofNat_of_lt' (by simp only [UInt64.size]; omega)]
      exact Int.toNat_of_nonneg hnonneg
    · exact fun h => if_neg (mt hfits.1 h)

/-- A kind has a value for each of its integers. -/
theorem exists_integer?_eq (h : k.Fits i) : ∃ v, k.integer? v = some i :=
  let ⟨v, _, hv⟩ := (k.computes_result ⟨0, 0⟩ "" i).value h
  ⟨v, hv⟩

/-- Where the result is an integer, it is the value that denotes the integer. -/
theorem Computes.eq_ok {r : Except EvalError Value} {span : Span} {operation : String}
    (h : k.Computes r span operation i) (hv : k.integer? v = some i) : r = .ok v := by
  obtain ⟨w, hr, hw⟩ := h.value (fits_of_integer? hv)
  rw [hr, integer?_injective hw hv]

end IntegerKind

/-! ## Division -/

section

variable (a : ℤ) {b : ℤ}

/-- A remainder lies between zero and the dividend. -/
theorem tmod_between (b : ℤ) : 0 ≤ a.tmod b ∧ a.tmod b ≤ a ∨ a ≤ a.tmod b ∧ a.tmod b ≤ 0 := by
  have habs : (a.tmod b).natAbs ≤ a.natAbs := by
    rw [Int.natAbs_tmod]
    exact Nat.mod_le _ _
  -- The sign is that of the dividend.
  rcases Int.le_total 0 a with ha | ha
  · have := Int.tmod_nonneg b ha
    omega
  · have := Int.tmod_nonneg b (Int.neg_nonneg_of_nonpos ha)
    rw [Int.neg_tmod] at this
    omega

/-- The product of the quotient by the divisor is what the remainder leaves of the dividend. -/
theorem tdiv_mul_between (b : ℤ) :
    0 ≤ a.tdiv b * b ∧ a.tdiv b * b ≤ a ∨ a ≤ a.tdiv b * b ∧ a.tdiv b * b ≤ 0 := by
  have hsum := Int.tdiv_mul_add_tmod a b
  have hmod := tmod_between a b
  omega

/-- A remainder is less than the divisor, whatever their signs are. -/
theorem natAbs_tmod_lt (hb : b ≠ 0) : (a.tmod b).natAbs < b.natAbs := by
  rw [Int.natAbs_tmod]
  exact Nat.mod_lt _ (Int.natAbs_pos.2 hb)

theorem tmod_eq_zero_or_sign_eq (b : ℤ) : a.tmod b = 0 ∨ (a.tmod b).sign = a.sign := by
  rw [← Int.sign_eq_zero_iff_zero, Int.sign_tmod]
  split
  · exact .inl rfl
  · exact .inr rfl

end

/-! ## Operators -/

namespace Registry.Extends

variable {r : Registry} (h : r.Extends Standard.registry) (span : Span) {k : IntegerKind}
  {left right : Value} {a b : ℤ} (hleft : k.integer? left = some a)
  (hright : k.integer? right = some b)
include h hleft hright

/-- A standard operator on two integers computes with what they denote. -/
theorem applyBinary_integers {d : BinaryDescriptor} (hd : .binary d ∈ Standard.descriptors)
    {compute : Span → ℤ → ℤ → Except EvalError Value}
    (hcompute : d.overloads[k.position]? =
      some ((k.kind, k.kind), Standard.onIntegers k.read compute)) :
    r.applyBinary d.operator.index left right span = compute span a b := by
  have hhandler : ((left.kind, right.kind), Standard.onIntegers k.read compute) ∈ d.overloads := by
    rw [IntegerKind.kind_of_integer? hleft, IntegerKind.kind_of_integer? hright]
    exact List.mem_of_getElem? hcompute
  rw [h.applyBinary hd left right hhandler, Standard.onIntegers, IntegerKind.read_eq hleft,
    IntegerKind.read_eq hright]
  rfl

/-- An operator that is one operation on integers computes it for both kinds. -/
theorem computes_of_overload {d : BinaryDescriptor} (hd : .binary d ∈ Standard.descriptors)
    {operation : String} {f : ℤ → ℤ → ℤ}
    (hoverload : d.overloads[k.position]? = some ((k.kind, k.kind),
      Standard.onIntegers k.read fun span a b =>
        k.result span (k.name ++ " " ++ operation) (f a b))) :
    k.Computes (r.applyBinary d.operator.index left right span) span operation (f a b) := by
  rw [h.applyBinary_integers span hleft hright hd hoverload]
  exact k.computes_result span operation (f a b)

theorem computes_add :
    k.Computes (r.applyBinary BinaryOperator.add.index left right span) span "addition"
      (a + b) := by
  have hadd : .binary Standard.add ∈ Standard.descriptors :=
    List.mem_of_getElem? (i := 0) rfl
  exact h.computes_of_overload span hleft hright hadd (by cases k <;> rfl)

theorem computes_subtract :
    k.Computes (r.applyBinary BinaryOperator.subtract.index left right span) span "subtraction"
      (a - b) := by
  have hsubtract : .binary Standard.subtract ∈ Standard.descriptors :=
    List.mem_of_getElem? (i := 1) rfl
  exact h.computes_of_overload span hleft hright hsubtract (by cases k <;> rfl)

theorem computes_multiply :
    k.Computes (r.applyBinary BinaryOperator.multiply.index left right span) span
      "multiplication" (a * b) := by
  have hmultiply : .binary Standard.multiply ∈ Standard.descriptors :=
    List.mem_of_getElem? (i := 2) rfl
  exact h.computes_of_overload span hleft hright hmultiply (by cases k <;> rfl)

theorem applyBinary_divide :
    r.applyBinary BinaryOperator.divide.index left right span =
      Standard.quotient k.result (k.name ++ " " ++ "division") span a b := by
  have hdivide : .binary Standard.divide ∈ Standard.descriptors :=
    List.mem_of_getElem? (i := 3) rfl
  exact h.applyBinary_integers span hleft hright hdivide (by cases k <;> rfl)

theorem applyBinary_modulo :
    r.applyBinary BinaryOperator.modulo.index left right span =
      Standard.remainder k.result (k.name ++ " " ++ "modulus") span a b := by
  have hmodulo : .binary Standard.modulo ∈ Standard.descriptors :=
    List.mem_of_getElem? (i := 4) rfl
  exact h.applyBinary_integers span hleft hright hmodulo (by cases k <;> rfl)

/-- A quotient is truncated toward zero. -/
theorem computes_divide (hb : b ≠ 0) :
    k.Computes (r.applyBinary BinaryOperator.divide.index left right span) span "division"
      (a.tdiv b) := by
  rw [h.applyBinary_divide span hleft hright, Standard.quotient, if_neg hb]
  exact k.computes_result span "division" (a.tdiv b)

/-- A remainder is computed where the quotient fits. -/
theorem computes_modulo (hb : b ≠ 0) (hquotient : k.Fits (a.tdiv b)) :
    k.Computes (r.applyBinary BinaryOperator.modulo.index left right span) span "modulus"
      (a.tmod b) := by
  obtain ⟨v, hv, -⟩ := (k.computes_result span "modulus" (a.tdiv b)).value hquotient
  rw [h.applyBinary_modulo span hleft hright, Standard.remainder, if_neg hb, hv]
  exact k.computes_result span "modulus" (a.tmod b)

/-- A remainder overflows where the quotient does. -/
theorem modulo_overflows (hb : b ≠ 0) (hquotient : ¬ k.Fits (a.tdiv b)) :
    r.applyBinary BinaryOperator.modulo.index left right span =
      .error ⟨span, .overflow (k.name ++ " " ++ "modulus")⟩ := by
  rw [h.applyBinary_modulo span hleft hright, Standard.remainder, if_neg hb,
    (k.computes_result span "modulus" (a.tdiv b)).overflow hquotient]
  rfl

end Registry.Extends

/-- `-` with one operand gives the exact negation of a signed integer, or overflows. -/
theorem Registry.Extends.computes_negate {r : Registry} (h : r.Extends Standard.registry)
    (span : Span) {v : Value} {a : ℤ} (hv : IntegerKind.int.integer? v = some a) :
    IntegerKind.int.Computes (r.applyUnary .negate v span) span "negation" (-a) := by
  have hnegate : .unary Standard.negate ∈ Standard.descriptors :=
    List.mem_of_getElem? (i := 14) rfl
  have happly : r.applyUnary .negate v span = Standard.intResult span "int negation" (-a) := by
    cases v with
    | int i =>
      cases hv
      exact h.applyUnary hnegate (.int i) (List.mem_of_getElem? (i := 0) rfl) span
    | _ => cases hv
  rw [happly]
  exact IntegerKind.int.computes_result span "negation" (-a)

/-! ## Expressions -/

namespace Expr

/-- The expression `(x / y) * y + x % y`. The spans of its nodes are `s`. -/
def division (x y : Expr) (s : Nat → Span) : Expr :=
  .binary .add
    (.binary .multiply (.paren (.binary .divide x y (s 0)) (s 1)) y (s 2))
    (.binary .modulo x y (s 3)) (s 4)

variable {h : Host} {macros : Bool} {env : Environment}

/-- What a strict operator gives for what its operands denote. -/
theorem denotes_binary {op : BinaryOperator} (hop : Evaluation.deciding op = none)
    {x y : Expr} {l r v : Value} {span : Span} (hx : (x.eval h macros env).Denotes l)
    (hy : (y.eval h macros env).Denotes r)
    (hv : h.registry.applyBinary op.index l r span = .ok v) :
    ((Expr.binary op x y span).eval h macros env).Denotes v := by
  have hundecided : (l.asBool?.any fun b => Evaluation.deciding op = some b) = false := by
    simp [hop]
  rw [eval, Evaluation.binary]
  refine hx.bind ?_
  -- The left operand decides nothing, so the right one is evaluated.
  rw [hundecided]
  exact hy.bind (Evaluation.denotes_ofResult_iff.2 hv)

/-- The quotient times the divisor is between zero and the dividend, and the sum is the
    dividend. So nothing overflows on the way back to the dividend. -/
theorem denotes_division (hext : h.registry.Extends Standard.registry) {k : IntegerKind}
    {l r : Value} {a b : ℤ} (hl : k.integer? l = some a) (hr : k.integer? r = some b)
    (hb : b ≠ 0) (hquotient : k.Fits (a.tdiv b)) {x y : Expr}
    (hx : (x.eval h macros env).Denotes l) (hy : (y.eval h macros env).Denotes r)
    (s : Nat → Span) : ((division x y s).eval h macros env).Denotes l := by
  have hfits := IntegerKind.fits_of_integer? hl
  obtain ⟨q, hq⟩ := IntegerKind.exists_integer?_eq hquotient
  obtain ⟨p, hp⟩ := IntegerKind.exists_integer?_eq (hfits.between (tdiv_mul_between a b))
  obtain ⟨m, hm⟩ := IntegerKind.exists_integer?_eq (hfits.between (tmod_between a b))
  have hsum : k.integer? l = some (a.tdiv b * b + a.tmod b) := by
    rw [hl, Int.tdiv_mul_add_tmod]
  -- From the inside out, each operator is applied to what its operands denote.
  have hdivide := denotes_binary rfl hx hy
    ((hext.computes_divide (s 0) hl hr hb).eq_ok hq)
  have hmultiply := denotes_binary rfl hdivide hy
    ((hext.computes_multiply (s 2) hq hr).eq_ok hp)
  have hmodulo := denotes_binary rfl hx hy
    ((hext.computes_modulo (s 3) hl hr hb hquotient).eq_ok hm)
  exact denotes_binary rfl hmultiply hmodulo
    ((hext.computes_add (s 4) hp hm).eq_ok hsum)

end Expr

/-- The standard operators compute exactly with the integers of a kind.

    * `+`, `-` and `*` give the exact result, or overflow if the kind does not have it. So does
      `-` with one operand, for the signed integers.
    * With a divisor of zero, `/` and `%` fail.
    * Otherwise they overflow if the quotient that is truncated toward zero does not fit.
    * If it does, they give it and a remainder less than the divisor, which is zero or has the
      sign of the dividend. And `(x / y) * y + x % y` gives the dividend. -/
theorem Standard.exact_arithmetic {h : Host} (hext : h.registry.Extends Standard.registry)
    (k : IntegerKind) {l r : Value} {a b : ℤ} (hl : k.integer? l = some a)
    (hr : k.integer? r = some b) :
    (∀ span,
      k.Computes (h.registry.applyBinary BinaryOperator.add.index l r span) span "addition"
        (a + b) ∧
      k.Computes (h.registry.applyBinary BinaryOperator.subtract.index l r span) span
        "subtraction" (a - b) ∧
      k.Computes (h.registry.applyBinary BinaryOperator.multiply.index l r span) span
        "multiplication" (a * b) ∧
      (k = .int → k.Computes (h.registry.applyUnary .negate l span) span "negation" (-a))) ∧
    (b = 0 → ∀ span,
      h.registry.applyBinary BinaryOperator.divide.index l r span =
        .error ⟨span, .divisionByZero⟩ ∧
      h.registry.applyBinary BinaryOperator.modulo.index l r span =
        .error ⟨span, .modulusByZero⟩) ∧
    (b ≠ 0 → ¬ k.Fits (a.tdiv b) → ∀ span,
      h.registry.applyBinary BinaryOperator.divide.index l r span =
        .error ⟨span, .overflow (k.name ++ " " ++ "division")⟩ ∧
      h.registry.applyBinary BinaryOperator.modulo.index l r span =
        .error ⟨span, .overflow (k.name ++ " " ++ "modulus")⟩) ∧
    (b ≠ 0 → k.Fits (a.tdiv b) → ∃ (quotient remainder : Value) (q m : ℤ),
      (∀ span,
        h.registry.applyBinary BinaryOperator.divide.index l r span = .ok quotient ∧
        h.registry.applyBinary BinaryOperator.modulo.index l r span = .ok remainder) ∧
      k.integer? quotient = some q ∧ k.integer? remainder = some m ∧
      q = a.tdiv b ∧ a = q * b + m ∧ m.natAbs < b.natAbs ∧ (m = 0 ∨ m.sign = a.sign) ∧
      ∀ (env : Environment) (x y : Expr) (s : Nat → Span),
        (x.eval h true env).Denotes l → (y.eval h true env).Denotes r →
        (Expr.division x y s).nodes.length ≤ 2 ^ 24 →
        (Expr.division x y s).Gives h env (.ok l)) := by
  refine ⟨fun span => ⟨?_, ?_, ?_, ?_⟩, fun hb span => ⟨?_, ?_⟩,
    fun hb hquotient span => ⟨?_, ?_⟩, fun hb hquotient => ?_⟩
  · exact hext.computes_add span hl hr
  · exact hext.computes_subtract span hl hr
  · exact hext.computes_multiply span hl hr
  · rintro rfl
    exact hext.computes_negate span hl
  · rw [hext.applyBinary_divide span hl hr, quotient, if_pos hb]
  · rw [hext.applyBinary_modulo span hl hr, remainder, if_pos hb]
  · exact (hext.computes_divide span hl hr hb).overflow hquotient
  · exact hext.modulo_overflows span hl hr hb hquotient
  · -- The remainder fits, for it is between zero and the dividend.
    have hfits := IntegerKind.fits_of_integer? hl
    obtain ⟨vq, hvq⟩ := IntegerKind.exists_integer?_eq hquotient
    obtain ⟨vm, hvm⟩ := IntegerKind.exists_integer?_eq (hfits.between (tmod_between a b))
    exact ⟨vq, vm, _, _, fun span => ⟨(hext.computes_divide span hl hr hb).eq_ok hvq,
      (hext.computes_modulo span hl hr hb hquotient).eq_ok hvm⟩, hvq, hvm, rfl,
      (Int.tdiv_mul_add_tmod a b).symm, natAbs_tmod_lt a hb, tmod_eq_zero_or_sign_eq a b,
      fun env x y s hx hy hsize =>
        Expr.gives_of_denotes hsize (Expr.denotes_division hext hl hr hb hquotient hx hy s)⟩

/-- The least signed integer divided by `-1` overflows, and so does what is left of it. Divided
    by `2`, it is the sum that it is for every dividend. -/
theorem Standard.exact_arithmetic_least :
    let h : Host := ⟨Standard.registry, none⟩
    let s : Nat → Span := fun _ => ⟨0, 6⟩
    h.registry.applyBinary BinaryOperator.divide.index (.int Int64.minValue) (.int (-1)) (s 0) =
        .error ⟨s 0, .overflow "int division"⟩ ∧
      h.registry.applyBinary BinaryOperator.modulo.index (.int Int64.minValue) (.int (-1)) (s 0) =
        .error ⟨s 0, .overflow "int modulus"⟩ ∧
      (Expr.division (.ident "x" (s 5)) (.literal (.int 2) (s 6)) s).Gives h
        (.ofVariables [("x", .int Int64.minValue)]) (.ok (.int Int64.minValue)) := by
  intro h s
  have hext : h.registry.Extends Standard.registry := fun _ _ _ hfind => hfind
  have hleast : IntegerKind.int.integer? (.int Int64.minValue) = some (-2 ^ 63) := by decide
  obtain ⟨-, -, hoverflows, -⟩ :=
    exact_arithmetic hext .int hleast (r := .int (-1)) (b := -1) (by decide)
  obtain ⟨-, -, -, hdivides⟩ :=
    exact_arithmetic hext .int hleast (r := .int 2) (b := 2) (by decide)
  have hquotient : ¬ IntegerKind.int.Fits ((-2 ^ 63 : ℤ).tdiv (-1)) := fun hfits =>
    absurd hfits.2 (by decide)
  obtain ⟨hdivide, hmodulo⟩ := hoverflows (by decide) hquotient (s 0)
  refine ⟨hdivide, hmodulo, ?_⟩
  obtain ⟨quotient, remainder, q, m, -, -, -, -, -, -, -, hgives⟩ :=
    hdivides (by decide) ⟨by decide, by decide⟩
  exact hgives _ _ _ s (Expr.denotes_ident rfl _) (Evaluation.denotes_pure_iff.2 rfl)
    (by simp [Expr.division, Expr.nodes])

end ExprMachine
