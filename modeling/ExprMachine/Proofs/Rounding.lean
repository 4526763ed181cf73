import ExprMachine.Proofs.DoubleOrder

/-!
# Rounding integers

A quotient is rounded to the integer nearest to it (`Double.roundQuotient_nearest`). The
doubles that are as large as an integer are multiples of one step, and all others are
smaller than the least of these (`Double.units_grid`), so that rounding the integer to a
multiple of the step gives the double nearest to it (`Double.ofInt_nearest`). An integer of
up to 53 bits is that double itself (`Double.toRat_ofInt`).
-/

namespace ExprMachine.Double

/-! ## Quotients -/

section

variable {num den k : Nat}

/-- A quotient is rounded down if at most half a divisor is left, and up if at least half is. -/
theorem roundQuotient_cases (num den : Nat) :
    roundQuotient num den = num / den ∧ 2 * (num % den) ≤ den ∨
      roundQuotient num den = num / den + 1 ∧ den ≤ 2 * (num % den) := by
  rw [roundQuotient]
  rcases h : Ord.compare (2 * (num % den)) den with _ | _ | _
  · exact .inl ⟨rfl, (Nat.compare_eq_lt.1 h).le⟩
  · have heq := Nat.compare_eq_eq.1 h
    by_cases heven : num / den % 2 = 0
    · exact .inl ⟨if_pos heven, heq.le⟩
    · exact .inr ⟨if_neg heven, heq.ge⟩
  · exact .inr ⟨rfl, (Nat.compare_eq_gt.1 h).le⟩

/-- Rounding does not lead below an integer that the quotient is not below. -/
theorem le_roundQuotient (hden : 0 < den) (h : k * den ≤ num) : k ≤ roundQuotient num den := by
  have hk := (Nat.le_div_iff_mul_le hden).2 h
  rcases roundQuotient_cases num den with ⟨hround, -⟩ | ⟨hround, -⟩ <;> omega

/-- Nor does it lead above one that the quotient is below. -/
theorem roundQuotient_le (hden : 0 < den) (h : num < k * den) : roundQuotient num den ≤ k := by
  have hk := (Nat.div_lt_iff_lt_mul hden).2 h
  rcases roundQuotient_cases num den with ⟨hround, -⟩ | ⟨hround, -⟩ <;> omega

/-- The rounded quotient is off by half a divisor at most. -/
theorem two_mul_abs_sub_roundQuotient_le (hden : 0 < den) :
    2 * |(num : ℤ) - roundQuotient num den * den| ≤ den := by
  have hdiv : (den : ℤ) * (num / den : ℕ) + (num % den : ℕ) = num :=
    mod_cast Nat.div_add_mod num den
  have hmod := Nat.mod_lt num hden
  rcases roundQuotient_cases num den with ⟨hround, hhalf⟩ | ⟨hround, hhalf⟩
  · have hrest : (num : ℤ) - roundQuotient num den * den = (num % den : ℕ) := by
      rw [hround]
      linarith
    rw [hrest, abs_of_nonneg (by omega)]
    omega
  · have hrest : (num : ℤ) - roundQuotient num den * den = (num % den : ℕ) - den := by
      rw [hround]
      push_cast at hdiv ⊢
      linarith
    rw [hrest, abs_of_nonpos (by omega)]
    omega

/-- No multiple of a divisor is nearer than that by the rounded quotient. -/
theorem roundQuotient_nearest (hden : 0 < den) (k : ℤ) :
    |(num : ℤ) - roundQuotient num den * den| ≤ |(num : ℤ) - k * den| := by
  rcases eq_or_ne k (roundQuotient num den) with rfl | hk
  · rfl
  -- Another multiple is a whole divisor away from the one that is half a divisor away.
  have hhalf : 2 * |(num : ℤ) - roundQuotient num den * den| ≤ den :=
    two_mul_abs_sub_roundQuotient_le hden
  have hwhole : (den : ℤ) ≤ |(roundQuotient num den - k) * den| := by
    rw [abs_mul, Nat.abs_cast]
    exact le_mul_of_one_le_left (by omega) (Int.one_le_abs (sub_ne_zero.2 hk.symm))
  have hapart : |(roundQuotient num den - k) * (den : ℤ)| ≤
      |(num : ℤ) - k * den| + |(num : ℤ) - roundQuotient num den * den| := by
    have h := abs_sub ((num : ℤ) - k * den) (num - roundQuotient num den * den)
    rwa [show ∀ x y z : ℤ, x - y - (x - z) = z - y by intros; ring, ← sub_mul] at h
  linarith

end

/-! ## Doubles around a number -/

/-- From a leading bit in a place on, all doubles are multiples of the step there. -/
theorem units_grid (e m : Nat) :
    (∃ k, units m = k * 2 ^ e) ∨ units m < leadingBit * 2 ^ e := by
  rcases Nat.lt_or_ge m (e * leadingBit + leadingBit) with hm | hm
  · rw [← units_add (e := e) le_rfl (by omega)]
    exact .inr (units_strictMono hm)
  · obtain ⟨e', r, hr, hr', rfl⟩ := exists_eq_add ((Nat.le_add_left _ _).trans hm)
    have he : e ≤ e' := by
      simp only [leadingBit] at *
      omega
    refine .inl ⟨r * 2 ^ (e' - e), ?_⟩
    rw [units_add hr hr'.le, Nat.mul_assoc, ← Nat.pow_add, Nat.sub_add_cancel he]

/-- A multiple of the step that is nearest to a number is the double nearest to it. -/
theorem units_nearest {N e r : Nat} (hr : leadingBit ≤ r) (hr' : r ≤ 2 * leadingBit)
    (hN : leadingBit * 2 ^ e ≤ N) (hnear : ∀ k : ℤ, |(N : ℤ) - r * 2 ^ e| ≤ |(N : ℤ) - k * 2 ^ e|)
    (m : Nat) : |(N : ℤ) - units (e * leadingBit + r)| ≤ |(N : ℤ) - units m| := by
  rw [units_add hr hr', Nat.cast_mul, Nat.cast_pow, Nat.cast_ofNat]
  obtain ⟨k, hk⟩ | hm := units_grid e m
  · rw [hk, Nat.cast_mul, Nat.cast_pow, Nat.cast_ofNat]
    exact hnear k
  · -- The double is below the least multiple, which is no more than the number.
    have hleast := hnear leadingBit
    zify at hN hm
    rw [abs_of_nonneg (sub_nonneg.2 hN)] at hleast
    rw [abs_of_nonneg (sub_nonneg.2 (hm.le.trans hN))]
    linarith

section

variable {negative : Bool} {m : Nat} (h : m < signBit)
include h

theorem toNat_ofMagnitude :
    (ofMagnitude negative m).bits.toNat = if negative then signBit + m else m := by
  refine UInt64.toNat_ofNat_of_lt' ?_
  simp only [signBit, UInt64.size] at *
  split <;> omega

/-- The bits of a magnitude and a sign give both of them back. -/
theorem magnitude_ofMagnitude : (ofMagnitude negative m).magnitude = m := by
  rw [magnitude, toNat_ofMagnitude h]
  split
  · rw [Nat.add_mod_left, Nat.mod_eq_of_lt h]
  · exact Nat.mod_eq_of_lt h

theorem isNegative_ofMagnitude : (ofMagnitude negative m).isNegative = negative := by
  rw [isNegative, toNat_ofMagnitude h]
  cases negative with
  | true => simp
  | false => simpa using h

end

/-! ## Integers -/

/-- In units, a power of two is the leading bit in its place. -/
theorem leadingBit_mul_two_pow (l : Nat) :
    leadingBit * 2 ^ (l + 1022) = 2 ^ l * unitsPerOne := by
  have hexponent : 52 + (l + 1022) = l + 1074 := by omega
  simp only [show leadingBit = 2 ^ 52 by decide, unitsPerOne, ← Nat.pow_add, hexponent]

theorem lt_leadingBit_mul (n : Nat) :
    n * unitsPerOne < 2 * leadingBit * 2 ^ (n.log2 + 1022) := by
  rw [Nat.mul_assoc, leadingBit_mul_two_pow, ← Nat.mul_assoc, ← Nat.pow_succ']
  exact Nat.mul_lt_mul_of_pos_right Nat.lt_log2_self unitsPerOne_pos

section

variable {n : Nat} (hn : n ≠ 0)
include hn

theorem leadingBit_mul_le : leadingBit * 2 ^ (n.log2 + 1022) ≤ n * unitsPerOne := by
  rw [leadingBit_mul_two_pow]
  exact Nat.mul_le_mul_right _ (Nat.log2_self_le hn)

/-- The leading bit of an integer is where its logarithm is. -/
theorem leadingExponent_one : leadingExponent n 1 = n.log2 := by
  have hshift : 1 <<< n.log2 ≤ n := by
    rw [Nat.one_shiftLeft]
    exact Nat.log2_self_le hn
  simpa [leadingExponent, show Nat.log2 1 = 0 from rfl] using hshift

/-- The quotient that is rounded is the number in units by the step of the doubles around
    it. -/
theorem nearest_one (negative : Bool) :
    ∃ num den c : Nat, 0 < c ∧ num * c = n * unitsPerOne ∧ den * c = 2 ^ (n.log2 + 1022) ∧
      nearest negative n 1 = ofMagnitude negative
        (min ((n.log2 + 1022) * leadingBit + roundQuotient num den) infinityMagnitude) := by
  refine ⟨n * 2 ^ (52 - n.log2), 2 ^ (n.log2 - 52), 2 ^ (1074 - (52 - n.log2)),
    Nat.two_pow_pos _, ?_, ?_, ?_⟩
  · rw [Nat.mul_assoc, two_pow_mul_eq_unitsPerOne (by omega)]
  · have hexponent : n.log2 - 52 + (1074 - (52 - n.log2)) = n.log2 + 1022 := by omega
    rw [← Nat.pow_add, hexponent]
  · have hstep : max ((n.log2 : ℤ) - 52) (-1074) = (n.log2 : ℤ) - 52 := max_eq_left (by omega)
    have hfield : ((n.log2 : ℤ) - 52 + 1074).toNat = n.log2 + 1022 := by omega
    have hright : (-((n.log2 : ℤ) - 52)).toNat = 52 - n.log2 := by omega
    have hleft : ((n.log2 : ℤ) - 52).toNat = n.log2 - 52 := by omega
    rw [nearest, if_neg hn, leadingExponent_one hn]
    simp only [hstep, hfield, hright, hleft, Nat.shiftLeft_eq, Nat.one_mul]

/-- An integer of 64 bits becomes a finite double of its sign. In units, none is nearer. -/
theorem nearest_one_spec (h : n < 2 ^ 64) (negative : Bool) :
    (nearest negative n 1).isNegative = negative ∧
      (nearest negative n 1).magnitude < infinityMagnitude ∧
      ∀ m, |(n * unitsPerOne : ℤ) - units (nearest negative n 1).magnitude| ≤
        |(n * unitsPerOne : ℤ) - units m| := by
  -- The quotient has 53 bits, or is the least number of 54 bits.
  obtain ⟨num, den, c, hc, hnum, hden, hnearest⟩ := nearest_one hn negative
  have hdenpos : 0 < den := Nat.pos_of_mul_pos_right (hden ▸ Nat.two_pow_pos _)
  have hleading := leadingBit_mul_le hn
  have hlow : leadingBit ≤ roundQuotient num den := by
    rw [← hden, ← hnum, ← Nat.mul_assoc] at hleading
    exact le_roundQuotient hdenpos (Nat.le_of_mul_le_mul_right hleading hc)
  have hhigh : roundQuotient num den ≤ 2 * leadingBit := by
    have hnext := lt_leadingBit_mul n
    rw [← hden, ← hnum, ← Nat.mul_assoc] at hnext
    exact roundQuotient_le hdenpos (Nat.lt_of_mul_lt_mul_right hnext)
  have hfinite : (n.log2 + 1022) * leadingBit + roundQuotient num den < infinityMagnitude := by
    have hlog : n.log2 < 64 := (Nat.log2_lt hn).2 h
    simp only [leadingBit, infinityMagnitude] at *
    omega
  have hsign := hfinite.trans (show infinityMagnitude < signBit by decide)
  rw [min_eq_left hfinite.le] at hnearest
  rw [hnearest, isNegative_ofMagnitude hsign, magnitude_ofMagnitude hsign]
  refine ⟨rfl, hfinite, ?_⟩
  rw [← Nat.cast_mul]
  refine units_nearest hlow hhigh hleading fun k => ?_
  have hstep : (2 ^ (n.log2 + 1022) : ℤ) = den * c := by exact_mod_cast hden.symm
  rw [← hnum, hstep, Nat.cast_mul, ← mul_assoc, ← mul_assoc, ← sub_mul, ← sub_mul, abs_mul, abs_mul]
  exact mul_le_mul_of_nonneg_right (roundQuotient_nearest hdenpos k) (abs_nonneg _)

end

theorem signedUnits_rank (d : Double) :
    signedUnits d.rank = if d.isNegative then -(units d.magnitude : ℤ) else units d.magnitude := by
  rw [rank]
  split
  · rw [signedUnits_neg, signedUnits_natCast]
  · rw [signedUnits_natCast]

theorem abs_signedUnits_rank (d : Double) : |signedUnits d.rank| = units d.magnitude := by
  rw [signedUnits_rank]
  split
  · rw [abs_neg, Nat.abs_cast]
  · rw [Nat.abs_cast]

/-- How far a double is from an integer, told in units. -/
theorem abs_sub_toRat (i : ℤ) (d : Double) :
    |(i : ℚ) - d.toRat| = (|i * unitsPerOne - signedUnits d.rank| : ℤ) / unitsPerOne := by
  have hpos : (0 : ℚ) < unitsPerOne := Nat.cast_pos.2 unitsPerOne_pos
  rw [toRat_eq, sub_div' hpos.ne', abs_div, abs_of_pos hpos]
  push_cast
  rfl

section

variable {i : ℤ} (h : i.natAbs < 2 ^ 64)
include h

/-- In units, an integer is as near to its double as to any magnitude. -/
theorem ofInt_spec :
    (ofInt i).isFinite ∧ ∀ m, |i * unitsPerOne - signedUnits (ofInt i).rank| ≤
      |(i.natAbs * unitsPerOne : ℤ) - units m| := by
  rcases eq_or_ne i 0 with rfl | hi
  · refine ⟨by decide, fun m => ?_⟩
    rw [show (ofInt 0).rank = 0 by decide, signedUnits, Int.sign_zero, zero_mul, zero_mul,
      sub_zero, abs_zero]
    exact abs_nonneg _
  obtain ⟨hsign, hfinite, hnear⟩ := nearest_one_spec (Int.natAbs_ne_zero.2 hi) h (decide (i < 0))
  refine ⟨decide_eq_true hfinite, fun m => ?_⟩
  rw [ofInt, signedUnits_rank, hsign]
  refine le_trans (le_of_eq ?_) (hnear m)
  rcases hi.lt_or_gt with hneg | hpos
  · rw [if_pos (decide_eq_true hneg), Int.ofNat_natAbs_of_nonpos hneg.le, ← abs_neg]
    congr 1
    ring
  · rw [if_neg (by simpa using hpos.le), Int.natAbs_of_nonneg hpos.le]

/-- An integer of 64 bits becomes a finite double. No double is nearer to it. -/
theorem ofInt_nearest (d : Double) : |(i : ℚ) - (ofInt i).toRat| ≤ |(i : ℚ) - d.toRat| := by
  rw [abs_sub_toRat, abs_sub_toRat]
  refine div_le_div_of_nonneg_right (Int.cast_le.2 ?_) (Nat.cast_nonneg _)
  calc |i * unitsPerOne - signedUnits (ofInt i).rank|
    _ ≤ |(i.natAbs * unitsPerOne : ℤ) - units d.magnitude| := (ofInt_spec h).2 _
    _ = |(|i * unitsPerOne| - |signedUnits d.rank|)| := by
      rw [abs_signedUnits_rank, abs_mul, Nat.abs_cast, Int.natCast_natAbs]
    _ ≤ |i * unitsPerOne - signedUnits d.rank| := abs_abs_sub_abs_le_abs_sub _ _

end

/-- An integer of up to 53 bits is a magnitude itself. -/
theorem exists_units_eq {n : Nat} (h : n ≤ 2 ^ 53) : ∃ m, units m = n * unitsPerOne := by
  rcases eq_or_ne n 0 with rfl | hn
  · exact ⟨0, by rw [Nat.zero_mul]; rfl⟩
  rcases h.eq_or_lt with rfl | hlt
  · refine ⟨(53 + 1022) * leadingBit + leadingBit, ?_⟩
    rw [units_add le_rfl (by decide), leadingBit_mul_two_pow]
  · have hlog : n.log2 ≤ 52 := Nat.lt_succ_iff.1 ((Nat.log2_lt hn).2 hlt)
    have hleading : leadingBit = 2 ^ n.log2 * 2 ^ (52 - n.log2) := by
      rw [← Nat.pow_add, Nat.add_sub_cancel' hlog]
      rfl
    refine ⟨(n.log2 + 1022) * leadingBit + n * 2 ^ (52 - n.log2), ?_⟩
    rw [units_add, Nat.mul_assoc, two_pow_mul_eq_unitsPerOne (by omega)]
    · rw [hleading]
      exact Nat.mul_le_mul_right _ (Nat.log2_self_le hn)
    · rw [hleading, ← Nat.mul_assoc, ← Nat.pow_succ']
      exact Nat.mul_le_mul_right _ Nat.lt_log2_self.le

/-- An integer of up to 53 bits becomes itself. -/
theorem toRat_ofInt {i : ℤ} (h : i.natAbs ≤ 2 ^ 53) : (ofInt i).toRat = i := by
  obtain ⟨m, hm⟩ := exists_units_eq h
  have hnear := (ofInt_spec (h.trans_lt (by decide))).2 m
  rw [hm, Nat.cast_mul, sub_self, abs_zero, abs_nonpos_iff, sub_eq_zero] at hnear
  have hpos : (0 : ℚ) < unitsPerOne := Nat.cast_pos.2 unitsPerOne_pos
  rw [toRat_eq, ← hnear, Int.cast_mul, Int.cast_natCast, mul_div_cancel_right₀ _ hpos.ne']

end ExprMachine.Double
