import ExprMachine.Proofs.IntegerArithmetic
import ExprMachine.Proofs.NumberOrder

/-!
# Doubles as integers

The functions `int` and `uint` give what is left of a double that is truncated toward zero
(`towardZero`), if the kind has it. They do not truncate to find that out, but compare the
double with others.

* The upper bounds are beyond the kind. An integer above zero is beyond what is left of a number
  if it is beyond the number itself (`towardZero_lt_iff`).
* The lower bounds are a matter of less than one (`le_towardZero_iff`). A number between `-1` and
  `0` is truncated to an unsigned integer. A number between `-2^63 - 1` and `-2^63` is truncated
  to a signed integer and would be rejected, but no double is there: those as large as that
  are integers (`Double.exists_eq_intCast`).
-/

namespace ExprMachine

/-! ## Truncation -/

/-- A rational number without the part after the point. -/
def towardZero (q : ℚ) : ℤ := if 0 ≤ q then ⌊q⌋ else ⌈q⌉

section

variable {q : ℚ} {n : ℤ}

theorem towardZero_neg (hq : 0 ≤ q) : towardZero (-q) = -⌊q⌋ := by
  rw [towardZero]
  split
  · obtain rfl : q = 0 := by linarith
    simp
  · exact Int.ceil_neg

theorem towardZero_lt_iff (hn : 0 < n) : towardZero q < n ↔ q < n := by
  rw [towardZero]
  split
  · exact Int.floor_lt
  · have hceil : ⌈q⌉ ≤ 0 := Int.ceil_le.2 (by push_cast; linarith)
    have hpos : (0 : ℚ) < n := Int.cast_pos.2 hn
    exact ⟨fun _ => by linarith, fun _ => by omega⟩

theorem le_towardZero_iff (hn : n ≤ 0) : n ≤ towardZero q ↔ n - 1 < q := by
  rw [towardZero]
  split
  · have hfloor : 0 ≤ ⌊q⌋ := Int.floor_nonneg.2 ‹_›
    have hnonpos : (n : ℚ) ≤ 0 := Int.cast_nonpos.2 hn
    exact ⟨fun _ => by linarith, fun _ => by omega⟩
  · exact Int.le_ceil_iff

end

namespace Double

variable {a b d : Double}

/-- What a double denotes, told by its sign, its significand and its exponent. -/
theorem toRat_of_fields (negative : Bool) (m : ℕ) (e : ℤ)
    (h : d.isNegative = negative ∧ d.significand = m ∧ d.exponent = e) :
    d.toRat = if negative then -(m * 2 ^ e : ℚ) else m * 2 ^ e := by
  obtain ⟨rfl, rfl, rfl⟩ := h
  rfl

/-- The absolute value is a quotient, which is rounded down by shifting. -/
theorem floor_absolute (d : Double) :
    ⌊(d.significand * 2 ^ d.exponent : ℚ)⌋ =
      ((d.significand <<< d.exponent.toNat) >>> (-d.exponent).toNat : ℕ) := by
  have hquotient : (d.significand * 2 ^ d.exponent : ℚ) =
      (d.significand * 2 ^ d.exponent.toNat : ℕ) / (2 ^ (-d.exponent).toNat : ℕ) := by
    obtain ⟨n, hn | hn⟩ := Int.eq_nat_or_neg d.exponent
    · simp [hn]
    · simp [hn, div_eq_mul_inv]
  rw [hquotient, Rat.floor_natCast_div_natCast, Nat.shiftRight_eq_div_pow, Nat.shiftLeft_eq]
  norm_cast

/-- A double is truncated as the number that it denotes is. -/
theorem truncate_eq (d : Double) : d.truncate = towardZero d.toRat := by
  have hnonneg : (0 : ℚ) ≤ d.significand * 2 ^ d.exponent := by positivity
  rw [truncate, toRat, ← floor_absolute]
  split
  · exact (towardZero_neg hnonneg).symm
  · exact (if_pos hnonneg).symm

/-- From the leading bit of the significands on, doubles are integers. -/
theorem exists_eq_intCast (h : leadingBit ≤ |d.toRat|) : ∃ i : ℤ, d.toRat = i := by
  have hpos : (0 : ℚ) < unitsPerOne := Nat.cast_pos.2 unitsPerOne_pos
  obtain ⟨k, hk⟩ | hlt := units_grid 1074 d.magnitude
  · have habs : (units d.magnitude : ℚ) / unitsPerOne = k := by
      rw [hk, ← unitsPerOne, Nat.cast_mul, mul_div_cancel_right₀ _ hpos.ne']
    rw [toRat, absolute_eq, habs]
    split
    · exact ⟨-k, by push_cast; rfl⟩
    · exact ⟨k, by push_cast; rfl⟩
  · -- Fewer units than that are less than the leading bit.
    rw [← unitsPerOne] at hlt
    rw [toRat_eq, abs_div, abs_of_pos hpos, ← Int.cast_abs, abs_signedUnits_rank,
      le_div_iff₀ hpos, Int.cast_natCast, ← Nat.cast_mul, Nat.cast_le] at h
    exact absurd h hlt.not_ge

/-! ## Comparisons -/

section

variable (ha : a.isFinite) (hb : b.isFinite)
include ha hb

theorem compare_of_isFinite : a.compare b = some (cmp a.toRat b.toRat) := by
  rw [compare_eq, denoted?_of_isFinite ha, denoted?_of_isFinite hb, Option.map₂_some_some,
    Extended.ofRat_strictMono.cmp_map_eq]

theorem isLess_iff : a.isLess b ↔ a.toRat < b.toRat := by
  simp [isLess, compare_of_isFinite ha hb]

theorem isAtMost_iff : a.isAtMost b ↔ a.toRat ≤ b.toRat := by
  simp [isAtMost, compare_of_isFinite ha hb, le_iff_lt_or_eq]

end

end Double

/-! ## The bounds of the kinds -/

namespace Standard

variable {d : Double}

theorem toRat_intLower : intLower.toRat = -2 ^ 63 := by
  rw [Double.toRat_of_fields true (2 ^ 52) 11 (by decide)]
  norm_num

theorem toRat_intUpper : intUpper.toRat = 2 ^ 63 := by
  rw [Double.toRat_of_fields false (2 ^ 52) 11 (by decide)]
  norm_num

theorem toRat_uintLower : uintLower.toRat = -1 := by
  rw [Double.toRat_of_fields true (2 ^ 52) (-52) (by decide)]
  norm_num

theorem toRat_uintUpper : uintUpper.toRat = 2 ^ 64 := by
  rw [Double.toRat_of_fields false (2 ^ 52) 12 (by decide)]
  norm_num

/-- A double that is truncated to the least signed integer is that integer. -/
theorem intLower_le_toRat_iff : -2 ^ 63 ≤ d.toRat ↔ (-2 ^ 63 : ℤ) ≤ towardZero d.toRat := by
  rw [le_towardZero_iff (by decide)]
  push_cast
  constructor
  · intro h
    linarith
  · intro h
    by_contra! hlt
    obtain ⟨i, hi⟩ := d.exists_eq_intCast (by
      rw [abs_of_neg (by linarith)]
      norm_num [Double.leadingBit]
      linarith)
    rw [hi] at h hlt
    have hlow : (-2 ^ 63 - 1 : ℤ) < i := by exact_mod_cast h
    have hhigh : i < -2 ^ 63 := by exact_mod_cast hlt
    omega

end Standard

/-! ## Conversions -/

namespace IntegerKind

variable {k : IntegerKind} {i : ℤ}

/-- The standard function that converts to the kind. -/
def conversion : IntegerKind → FunctionDescriptor
  | .int => Standard.toInt
  | .uint => Standard.toUInt

theorem conversion_mem (k : IntegerKind) : .function k.conversion ∈ Standard.descriptors := by
  cases k with
  | int => exact List.mem_of_getElem? (i := 17) rfl
  | uint => exact List.mem_of_getElem? (i := 18) rfl

theorem name_conversion (k : IntegerKind) : k.conversion.name = k.name := by
  cases k <;> rfl

/-- Whether the function converts a double. -/
def accepts : IntegerKind → Double → Bool
  | .int, d => d.isFinite && Standard.intLower.isAtMost d && d.isLess Standard.intUpper
  | .uint, d => d.isFinite && Standard.uintLower.isLess d && d.isLess Standard.uintUpper

/-- The value of the kind that is nearest to an integer. -/
def clamped : IntegerKind → ℤ → Value
  | .int, i => .int (Int64.ofIntClamp i)
  | .uint, i => .uint (UInt64.ofNatClamp i.toNat)

/-- The doubles that are converted are those that the kind has once they are truncated. -/
theorem accepts_iff (k : IntegerKind) (d : Double) :
    k.accepts d ↔ d.isFinite ∧ k.Fits (towardZero d.toRat) := by
  cases k with
  | int =>
    rw [accepts, Bool.and_assoc, Bool.and_eq_true, Bool.and_eq_true]
    refine and_congr_right fun hd => ?_
    rw [Double.isAtMost_iff (by decide) hd, Double.isLess_iff hd (by decide),
      Standard.toRat_intLower, Standard.toRat_intUpper, Standard.intLower_le_toRat_iff, Fits,
      towardZero_lt_iff (by decide)]
    norm_num
  | uint =>
    rw [accepts, Bool.and_assoc, Bool.and_eq_true, Bool.and_eq_true]
    refine and_congr_right fun hd => ?_
    rw [Double.isLess_iff (by decide) hd, Double.isLess_iff hd (by decide),
      Standard.toRat_uintLower, Standard.toRat_uintUpper, Fits, le_towardZero_iff le_rfl,
      towardZero_lt_iff (by decide)]
    norm_num

theorem integer?_clamped (h : k.Fits i) : k.integer? (k.clamped i) = some i := by
  cases k with
  | int =>
    exact congrArg some (Int64.toInt_ofIntClamp h.1 (Int.le_sub_one_of_lt h.2))
  | uint =>
    obtain ⟨hnonneg, hlt⟩ := h
    refine congrArg some ?_
    rw [UInt64.toNat_ofNatClamp_of_lt (by simp only [UInt64.size]; omega)]
    exact Int.toNat_of_nonneg hnonneg

end IntegerKind

/-- A double that is accepted is truncated, and every other one is an overflow. -/
theorem Registry.Extends.call_double {r : Registry} (h : r.Extends Standard.registry)
    (k : IntegerKind) (d : Double) (span : Span) :
    r.call k.name [.double d] span =
      if k.accepts d then .ok (k.clamped (towardZero d.toRat), true)
      else .error ⟨span, .overflow ("double to " ++ k.name ++ " conversion")⟩ := by
  have hhandler : ∃ handler, ([Kind.double], handler) ∈ k.conversion.overloads ∧
      handler [.double d] span = if k.accepts d then .ok (k.clamped d.truncate)
        else .error ⟨span, .overflow ("double to " ++ k.name ++ " conversion")⟩ := by
    cases k <;> exact ⟨_, List.mem_of_getElem? (i := 2) rfl, rfl⟩
  obtain ⟨handler, hmem, hhandler⟩ := hhandler
  rw [← k.name_conversion, h.call k.conversion_mem [.double d] hmem span, hhandler,
    d.truncate_eq, k.name_conversion]
  split
  · cases k <;> rfl
  · rfl

/-- The functions `int` and `uint` truncate a double that is a number toward zero and give that
    integer, if the kind has it. All others overflow: the NaNs, the infinities and the numbers
    out of range. A number between `-1` and `0` is the unsigned integer zero. -/
theorem Standard.converts_doubles {r : Registry} (hext : r.Extends Standard.registry)
    (k : IntegerKind) (d : Double) (span : Span) :
    (d.isFinite → k.Fits (towardZero d.toRat) →
      ∃ v, r.call k.name [.double d] span = .ok (v, true) ∧
        k.integer? v = some (towardZero d.toRat)) ∧
    (¬ (d.isFinite ∧ k.Fits (towardZero d.toRat)) → r.call k.name [.double d] span =
      .error ⟨span, .overflow ("double to " ++ k.name ++ " conversion")⟩) ∧
    (k = .uint → d.isFinite → -1 < d.toRat → d.toRat < 0 →
      r.call k.name [.double d] span = .ok (.uint 0, true)) := by
  have hcall := hext.call_double k d span
  refine ⟨fun hd hfits => ?_, fun hnot => ?_, ?_⟩
  · rw [if_pos ((k.accepts_iff d).2 ⟨hd, hfits⟩)] at hcall
    exact ⟨_, hcall, IntegerKind.integer?_clamped hfits⟩
  · rw [hcall, if_neg (mt (k.accepts_iff d).1 hnot)]
  · rintro rfl hd hlow hhigh
    -- What lies between `-1` and `0` is truncated to zero, which has no sign as an integer.
    have hzero : towardZero d.toRat = 0 := by
      have habove := (le_towardZero_iff (q := d.toRat) le_rfl).2 (by push_cast; linarith)
      have hbelow := (towardZero_lt_iff (q := d.toRat) one_pos).2 (by push_cast; linarith)
      omega
    have hfits : IntegerKind.uint.Fits (towardZero d.toRat) := by
      rw [hzero]
      exact ⟨le_rfl, by decide⟩
    rw [hcall, if_pos ((IntegerKind.accepts_iff .uint d).2 ⟨hd, hfits⟩), hzero]
    rfl

/-- The least signed integer is converted and its opposite is not, and a half below zero is
    zero. -/
theorem Standard.converts_doubles_limits :
    let half : Double := ⟨0xbfe0000000000000⟩
    (∃ v, registry.call "int" [.double intLower] ⟨0, 6⟩ = .ok (v, true) ∧
        IntegerKind.int.integer? v = some (-2 ^ 63)) ∧
      registry.call "int" [.double intUpper] ⟨0, 6⟩ =
        .error ⟨⟨0, 6⟩, .overflow "double to int conversion"⟩ ∧
      registry.call "uint" [.double half] ⟨0, 6⟩ = .ok (.uint 0, true) := by
  intro half
  have hext : registry.Extends registry := fun _ _ _ hfind => hfind
  have hleast : towardZero intLower.toRat = -2 ^ 63 := by
    rw [← Double.truncate_eq]
    decide
  have hopposite : towardZero intUpper.toRat = 2 ^ 63 := by
    rw [← Double.truncate_eq]
    decide
  have hhalf : half.toRat = -1 / 2 := by
    rw [Double.toRat_of_fields true (2 ^ 52) (-53) (by decide)]
    norm_num
  obtain ⟨hvalue, -, -⟩ := converts_doubles hext .int intLower ⟨0, 6⟩
  obtain ⟨-, hoverflow, -⟩ := converts_doubles hext .int intUpper ⟨0, 6⟩
  obtain ⟨-, -, hzero⟩ := converts_doubles hext .uint half ⟨0, 6⟩
  rw [hleast] at hvalue
  rw [hopposite] at hoverflow
  refine ⟨hvalue (by decide) ⟨by decide, by decide⟩, hoverflow fun h => absurd h.2.2 (by decide),
    hzero rfl (by decide) ?_ ?_⟩
  · rw [hhalf]
    norm_num
  · rw [hhalf]
    norm_num

end ExprMachine
