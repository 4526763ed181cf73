import ExprMachine.Proofs.Equality
import ExprMachine.Proofs.Rounding

/-!
# The order of numbers

Numbers are ordered by what they denote (`Number.denoted?`) as long as they are of one kind,
or integers. Beside a double, an integer takes part as the double that it becomes, which
keeps it on its side of every other double. It may only *blur* into one that it is not
(`Number.Blurs`), and to which no double is nearer (`Number.Blurs.nearest`).

So the order of numbers of any kinds is that of what they denote, and a NaN has no order and
no equal; but an integer equals the double that it blurs into (`Value.compare_numbers`).
-/

namespace ExprMachine

namespace Number

/-- The number or the infinity that is denoted, if it is not a NaN. -/
def denoted? : Number → Option Extended
  | .integer i => some (.ofRat i)
  | .double d => d.denoted?

/-- Whether a number is an integer of more than 53 bits and another one is the double that
    it becomes, without being that integer. -/
def Blurs : Number → Number → Prop
  | .integer i, .double d =>
    2 ^ 53 < i.natAbs ∧ (Double.ofInt i).denoted? = d.denoted? ∧
      d.denoted? ≠ denoted? (.integer i)
  | _, _ => False

end Number

namespace Double

theorem denoted?_of_isFinite {d : Double} (h : d.isFinite) :
    d.denoted? = some (.ofRat d.toRat) := by
  have hnan : ¬ d.isNaN := by
    simp only [isNaN, isFinite, decide_eq_true_eq] at *
    omega
  rw [denoted?, if_neg hnan, if_pos h]

section

variable {i : ℤ} (h : i.natAbs < 2 ^ 64) {d : Double}
include h

theorem denoted?_ofInt : (ofInt i).denoted? = some (.ofRat (ofInt i).toRat) :=
  denoted?_of_isFinite (ofInt_spec h).1

theorem toRat_ofInt_le (hd : i < d.toRat) : (ofInt i).toRat ≤ d.toRat := by
  by_contra! hlt
  have hnear := ofInt_nearest h d
  rw [abs_of_neg (sub_neg.2 (hd.trans hlt)), abs_of_neg (sub_neg.2 hd)] at hnear
  linarith

theorem le_toRat_ofInt (hd : d.toRat < i) : d.toRat ≤ (ofInt i).toRat := by
  by_contra! hlt
  have hnear := ofInt_nearest h d
  rw [abs_of_pos (sub_pos.2 (hlt.trans hd)), abs_of_pos (sub_pos.2 hd)] at hnear
  linarith

theorem toRat_ofInt_eq (hd : d.toRat = i) : (ofInt i).toRat = i := by
  have hnear := ofInt_nearest h d
  rw [hd, sub_self, abs_zero, abs_nonpos_iff, sub_eq_zero] at hnear
  exact hnear.symm

/-- An integer is on the same side of a double as the double that it becomes, unless it
    becomes that double. -/
theorem cmp_toRat_ofInt (hne : (ofInt i).toRat ≠ i → (ofInt i).toRat ≠ d.toRat) :
    cmp (ofInt i).toRat d.toRat = cmp (i : ℚ) d.toRat := by
  by_cases hi : (ofInt i).toRat = i
  · rw [hi]
  rcases lt_trichotomy (i : ℚ) d.toRat with hlt | heq | hgt
  · have hlt' := (toRat_ofInt_le h hlt).lt_of_ne (hne hi)
    rw [hlt.cmp_eq_lt, hlt'.cmp_eq_lt]
  · exact absurd (toRat_ofInt_eq h heq.symm) hi
  · have hgt' := (le_toRat_ofInt h hgt).lt_of_ne (hne hi).symm
    rw [hgt.cmp_eq_gt, hgt'.cmp_eq_gt]

end

end Double

namespace Number

variable {x y : Number}

/-- An integer blurs into a double only that no double is nearer to it. -/
theorem Blurs.nearest {i : ℤ} {d : Double} (h : (integer i).Blurs (double d))
    (hi : i.natAbs < 2 ^ 64) :
    d.isFinite ∧ ∀ d' : Double, |(i : ℚ) - d.toRat| ≤ |(i : ℚ) - d'.toRat| := by
  have hbecomes := h.2.1.symm
  rw [Double.denoted?_ofInt hi, Double.denoted?] at hbecomes
  split_ifs at hbecomes with hnan hfinite hnegative
  · have htoRat := Extended.ofRat_strictMono.injective (Option.some.inj hbecomes)
    refine ⟨hfinite, fun d' => ?_⟩
    rw [htoRat]
    exact Double.ofInt_nearest hi d'
  · exact absurd (Option.some.inj hbecomes) (Extended.bot_lt_ofRat _).ne
  · exact absurd (Option.some.inj hbecomes) (Extended.ofRat_lt_top _).ne'

theorem compare_of_blurs (h : x.Blurs y) (hx : ∀ i, x = .integer i → i.natAbs < 2 ^ 64) :
    x.compare y = some .eq ∧ x.denoted? ≠ y.denoted? := by
  cases x with
  | integer i =>
    cases y with
    | integer => cases h
    | double d =>
      obtain ⟨-, hbecomes, hne⟩ := h
      refine ⟨?_, hne.symm⟩
      rw [show compare (.integer i) (.double d) = (Double.ofInt i).compare d from rfl,
        Double.compare_eq, ← hbecomes,
        Double.denoted?_ofInt (hx i rfl), Option.map₂_some_some, cmp_self_eq_eq]
  | double => cases h

/-- An integer and a double into which it does not blur are ordered by what they denote. -/
theorem compare_integer_double {i : ℤ} {d : Double} (hi : i.natAbs < 2 ^ 64)
    (h : ¬ (integer i).Blurs (double d)) :
    (integer i).compare (double d) =
      Option.map₂ cmp (denoted? (.integer i)) (denoted? (.double d)) := by
  rw [show compare (.integer i) (.double d) = (Double.ofInt i).compare d from rfl,
    Double.compare_eq, Double.denoted?_ofInt hi, denoted?, denoted?]
  by_cases hfinite : d.isFinite
  · rw [Double.denoted?_of_isFinite hfinite, Option.map₂_some_some, Option.map₂_some_some,
      Extended.ofRat_strictMono.cmp_map_eq, Extended.ofRat_strictMono.cmp_map_eq,
      Double.cmp_toRat_ofInt hi]
    intro hne heq
    refine h ⟨?_, ?_, ?_⟩
    · exact not_le.1 fun hle => hne (Double.toRat_ofInt hle)
    · rw [Double.denoted?_ofInt hi, Double.denoted?_of_isFinite hfinite, heq]
    · rw [Double.denoted?_of_isFinite hfinite, denoted?, ← heq]
      exact fun hd => hne (Extended.ofRat_strictMono.injective (Option.some.inj hd))
  · -- Both the integer and the double that it becomes are between the infinities.
    rw [Double.denoted?, if_neg hfinite]
    split_ifs
    · rfl
    · rw [Option.map₂_some_some, Option.map₂_some_some, (Extended.bot_lt_ofRat _).cmp_eq_gt,
        (Extended.bot_lt_ofRat _).cmp_eq_gt]
    · rw [Option.map₂_some_some, Option.map₂_some_some, (Extended.ofRat_lt_top _).cmp_eq_lt,
        (Extended.ofRat_lt_top _).cmp_eq_lt]

theorem map₂_cmp_swap (e e' : Option Extended) :
    (Option.map₂ cmp e e').map Ordering.swap = Option.map₂ cmp e' e := by
  cases e <;> cases e' <;> simp [cmp_swap]

/-- Numbers that do not blur are ordered by what they denote. -/
theorem compare_eq_cmp (hx : ∀ i, x = .integer i → i.natAbs < 2 ^ 64)
    (hy : ∀ i, y = .integer i → i.natAbs < 2 ^ 64) (h : ¬ (x.Blurs y ∨ y.Blurs x)) :
    x.compare y = Option.map₂ cmp x.denoted? y.denoted? := by
  rw [not_or] at h
  cases x with
  | integer i =>
    cases y with
    | integer j =>
      rw [compare, denoted?, denoted?, Option.map₂_some_some,
        Extended.ofRat_strictMono.cmp_map_eq, Int.cast_strictMono.cmp_map_eq, cmp_eq_compare]
    | double d => exact compare_integer_double (hx i rfl) h.1
  | double d =>
    cases y with
    | integer j =>
      rw [compare_swap (.integer j), compare_integer_double (hy j rfl) h.2, map₂_cmp_swap]
    | double d' => exact Double.compare_eq d d'

end Number

namespace Value

theorem natAbs_lt_of_number? {a : Value} {x : Number} (hx : a.number? = some x) :
    ∀ i, x = .integer i → i.natAbs < 2 ^ 64 := by
  rintro i rfl
  cases a with
  | int j =>
    cases hx
    have hlt := j.toInt_lt
    have hle := j.le_toInt
    omega
  | uint u =>
    cases hx
    have hlt := u.toNat_lt
    omega
  | _ => cases hx

/-- Numbers of any kinds are ordered by what they denote, and equal if they denote the same;
    a NaN has no order and no equal. Only an integer that blurs into a double equals it
    without denoting the same. -/
theorem compare_numbers {a b : Value} {x y : Number} (hx : a.number? = some x)
    (hy : b.number? = some y) :
    (¬ (x.Blurs y ∨ y.Blurs x) →
      a.compare b = Option.map₂ cmp x.denoted? y.denoted? ∧
        (a.equals b ↔ ∃ e, x.denoted? = some e ∧ y.denoted? = some e)) ∧
    (x.Blurs y ∨ y.Blurs x →
      a.compare b = some .eq ∧ a.equals b ∧ x.denoted? ≠ y.denoted?) := by
  have hxlt := natAbs_lt_of_number? hx
  have hylt := natAbs_lt_of_number? hy
  rw [compare_of_number hx hy, equals_of_number hx hy, beq_iff_eq]
  refine ⟨fun h => ?_, fun h => ?_⟩
  · rw [Number.compare_eq_cmp hxlt hylt h]
    refine ⟨rfl, ?_⟩
    simp only [Option.map₂_eq_some_iff, cmp_eq_eq_iff]
    constructor
    · rintro ⟨e, e', he, he', rfl⟩
      exact ⟨e, he, he'⟩
    · rintro ⟨e, he, he'⟩
      exact ⟨e, e, he, he', rfl⟩
  · obtain ⟨hcompare, hne⟩ : x.compare y = some .eq ∧ x.denoted? ≠ y.denoted? := by
      -- Blurring takes the integer first, so one of the two pairs is compared the other way round.
      rcases h with h | h
      · exact Number.compare_of_blurs h hxlt
      · obtain ⟨hcompare, hne⟩ := Number.compare_of_blurs h hylt
        exact ⟨by rw [Number.compare_swap y, hcompare]; rfl, hne.symm⟩
    exact ⟨hcompare, hcompare, hne⟩

/-- The integer after `2^53`. -/
def pastPrecision : Value := .int 9007199254740993

/-- The double `2^53`. -/
def precision : Double := ⟨0x4340000000000000⟩

theorem toRat_precision : precision.toRat = 2 ^ 53 := by
  have hsignificand : precision.significand = 2 ^ 52 := by decide
  have hexponent : precision.exponent = 1 := by decide
  have hpositive : precision.isNegative = false := by decide
  rw [Double.toRat, hsignificand, hexponent, hpositive]
  norm_num

/-- The integer after `2^53` blurs into `2^53`, and is less than the infinity. -/
theorem compare_numbers_pastPrecision :
    pastPrecision.compare (.double precision) = some .eq ∧
      pastPrecision.equals (.double precision) = true ∧
      pastPrecision.compare (.double .infinity) =
        Option.map₂ cmp (some (Extended.ofRat 9007199254740993)) (some ⊤) := by
  have hblurs : (Number.integer 9007199254740993).Blurs (.double precision) := by
    refine ⟨by decide, congrArg _ (by decide), ?_⟩
    rw [Double.denoted?_of_isFinite (by decide), toRat_precision, Number.denoted?]
    intro h
    have heq := Extended.ofRat_strictMono.injective (Option.some.inj h)
    norm_num at heq
  have hblurred :=
    (compare_numbers (a := pastPrecision) (b := .double precision) rfl rfl).2 (.inl hblurs)
  have hclear : ¬ (Number.integer 9007199254740993).Blurs (.double .infinity) := by
    rintro ⟨-, h, -⟩
    rw [Double.denoted?_ofInt (by decide)] at h
    cases h
  refine ⟨hblurred.1, hblurred.2.1, ?_⟩
  exact ((compare_numbers (a := pastPrecision) (b := .double .infinity) rfl rfl).1
    (not_or.2 ⟨hclear, id⟩)).1

/-- The integer after `2^53` is greater than the double `2^53`, and equal to it all the
    same. -/
theorem equals_pastPrecision :
    pastPrecision.number? = some (.integer 9007199254740993) ∧
      (Value.double precision).number? = some (.double precision) ∧
      Option.map₂ cmp (Number.denoted? (.integer 9007199254740993)) precision.denoted? =
        some .gt ∧
      pastPrecision.compare (.double precision) = some .eq ∧
      pastPrecision.equals (.double precision) = true := by
  refine ⟨rfl, rfl, ?_, by decide, by decide⟩
  rw [Double.denoted?_of_isFinite (by decide), toRat_precision, Number.denoted?,
    Option.map₂_some_some, Extended.ofRat_strictMono.cmp_map_eq,
    (cmp_eq_gt_iff _ _).2 (by norm_num)]

end Value

end ExprMachine
