import Mathlib
import ExprMachine.Double

/-!
# The order of doubles

A double that is not a NaN denotes a rational number or an infinity (`Double.denoted?`).
Its bits without the sign count the doubles below it, and what they denote, in units of the
smallest double, grows with them (`Double.units`). So doubles are ordered by the numbers
that they denote (`Double.compare_eq`).
-/

namespace ExprMachine

/-- The rational numbers between two infinities. -/
abbrev Extended := WithBot (WithTop ℚ)

namespace Extended

/-- A rational number, which is between the infinities. -/
def ofRat (q : ℚ) : Extended := WithBot.some (WithTop.some q)

theorem ofRat_strictMono : StrictMono ofRat :=
  WithBot.coe_strictMono.comp WithTop.coe_strictMono

/-- Minus infinity is below every rational number. -/
theorem bot_lt_ofRat (q : ℚ) : ⊥ < ofRat q := WithBot.bot_lt_coe _

/-- Plus infinity is above every rational number. -/
theorem ofRat_lt_top (q : ℚ) : ofRat q < ⊤ := WithBot.coe_lt_coe.2 (WithTop.coe_lt_top q)

end Extended

namespace Double

/-- The rational number that a finite double denotes. -/
def toRat (d : Double) : ℚ :=
  let absolute : ℚ := d.significand * 2 ^ d.exponent
  if d.isNegative then -absolute else absolute

/-- The number or the infinity that a double denotes, if it is not a NaN. -/
def denoted? (d : Double) : Option Extended :=
  if d.isNaN then none
  else if d.isFinite then some (.ofRat d.toRat)
  else if d.isNegative then some ⊥
  else some ⊤

/-! ## Magnitudes in units -/

/-- How often the smallest double goes into one. -/
def unitsPerOne : Nat := 2 ^ 1074

theorem unitsPerOne_pos : 0 < unitsPerOne := pow_pos two_pos 1074

/-- A power of two and the one that completes it make up the units of one. -/
theorem two_pow_mul_eq_unitsPerOne {a b : Nat} (h : a + b = 1074) :
    2 ^ a * 2 ^ b = unitsPerOne := by
  rw [unitsPerOne, ← h, Nat.pow_add]

/-- What a magnitude denotes, in units of the smallest double. -/
def units (m : Nat) : Nat :=
  if m / leadingBit = 0 then m % leadingBit
  else (leadingBit + m % leadingBit) * 2 ^ (m / leadingBit - 1)

/-- A significand that is added to an exponent carries into it. -/
theorem units_add {e r : Nat} (h : leadingBit ≤ r) (h' : r ≤ 2 * leadingBit) :
    units (e * leadingBit + r) = r * 2 ^ e := by
  rcases h'.lt_or_eq with hlt | rfl
  · -- The significand stays below the next exponent.
    have hdiv : (e * leadingBit + r) / leadingBit = e + 1 := by
      simp only [leadingBit] at *
      omega
    have hmod : (e * leadingBit + r) % leadingBit = r - leadingBit := by
      simp only [leadingBit] at *
      omega
    rw [units, hdiv, hmod, if_neg e.succ_ne_zero, Nat.add_sub_cancel, Nat.add_sub_cancel' h]
  · -- It has become the first one of the next exponent.
    have hdiv : (e * leadingBit + 2 * leadingBit) / leadingBit = e + 2 := by
      rw [← Nat.add_mul, Nat.mul_div_cancel _ (by decide)]
    have hmod : (e * leadingBit + 2 * leadingBit) % leadingBit = 0 := by
      rw [← Nat.add_mul, Nat.mul_mod_left]
    rw [units, hdiv, hmod, if_neg (e + 1).succ_ne_zero, Nat.add_zero, Nat.succ_sub_one,
      Nat.pow_succ, Nat.mul_comm (2 ^ e), ← Nat.mul_assoc, Nat.mul_comm 2]

/-- A subnormal magnitude denotes as many units as it counts, and so does the first normal one. -/
theorem units_of_le {m : Nat} (h : m ≤ leadingBit) : units m = m := by
  rcases h.lt_or_eq with hlt | rfl
  · rw [units, if_pos (Nat.div_eq_of_lt hlt), Nat.mod_eq_of_lt hlt]
  · rfl

/-- A normal magnitude is an exponent and a significand with its leading bit. -/
theorem exists_eq_add {m : Nat} (h : leadingBit ≤ m) :
    ∃ e r, leadingBit ≤ r ∧ r < 2 * leadingBit ∧ m = e * leadingBit + r := by
  refine ⟨m / leadingBit - 1, leadingBit + m % leadingBit, ?_⟩
  simp only [leadingBit] at h ⊢
  omega

/-- Greater magnitudes denote more units, also where the exponent changes. -/
theorem units_strictMono : StrictMono units := by
  refine strictMono_nat_of_lt_succ fun m => ?_
  rcases Nat.lt_or_ge m leadingBit with hm | hm
  · rw [units_of_le hm.le, units_of_le hm]
    exact m.lt_succ_self
  · -- The next magnitude has the next significand, which may carry into the exponent.
    obtain ⟨e, r, hr, hr', rfl⟩ := exists_eq_add hm
    rw [Nat.add_assoc, units_add hr hr'.le, units_add (by omega) hr']
    exact Nat.mul_lt_mul_of_pos_right r.lt_succ_self (Nat.two_pow_pos e)

/-- What a signed magnitude denotes, in units of the smallest double. -/
def signedUnits (r : Int) : Int := r.sign * units r.natAbs

/-- Changing the sign changes that of the units only. -/
theorem signedUnits_neg (r : Int) : signedUnits (-r) = -signedUnits r := by
  rw [signedUnits, signedUnits, Int.sign_neg, Int.natAbs_neg, Int.neg_mul]

theorem signedUnits_natCast (m : Nat) : signedUnits m = units m := by
  cases m with
  | zero => rfl
  | succ m => rw [signedUnits, Int.sign_eq_one_of_pos (by omega), Int.one_mul, Int.natAbs_natCast]

/-- Signed magnitudes are ordered as what they denote. -/
theorem signedUnits_strictMono : StrictMono signedUnits := by
  refine strictMono_of_odd_strictMonoOn_nonneg signedUnits_neg fun r hr s hs hrs => ?_
  lift r to Nat using hr
  lift s to Nat using hs
  rw [signedUnits_natCast, signedUnits_natCast]
  exact Int.ofNat_lt.2 (units_strictMono (Int.ofNat_lt.1 hrs))

/-- The rank of a double is its magnitude with a sign. -/
theorem natAbs_rank (d : Double) : d.rank.natAbs = d.magnitude := by
  rw [rank]
  split <;> simp

/-- Significand and exponent denote the units of the magnitude. -/
theorem absolute_eq (d : Double) :
    (d.significand * 2 ^ d.exponent : ℚ) = units d.magnitude / unitsPerOne := by
  rw [units, significand, exponent, exponentField, fractionField, unitsPerOne, Nat.cast_pow,
    Nat.cast_ofNat]
  split
  · rw [zpow_neg, ← div_eq_mul_inv]
    rfl
  · rename_i h
    obtain ⟨e, he⟩ := Nat.exists_eq_succ_of_ne_zero h
    rw [he, Nat.succ_sub_one, show ((e.succ : ℕ) : ℤ) - 1075 = (e : ℤ) - (1074 : ℕ) by omega,
      zpow_sub₀ two_ne_zero, zpow_natCast, zpow_natCast, mul_div_assoc', Nat.cast_mul,
      Nat.cast_pow, Nat.cast_ofNat]

/-- A double denotes the units of its rank. -/
theorem toRat_eq (d : Double) : d.toRat = signedUnits d.rank / unitsPerOne := by
  rw [toRat, absolute_eq, rank]
  split
  · rw [signedUnits_neg, signedUnits_natCast, Int.cast_neg, Int.cast_natCast, neg_div]
  · rw [signedUnits_natCast, Int.cast_natCast]

/-! ## The order -/

/-- What a signed magnitude denotes up to those of the infinities. -/
def ofRank (r : Int) : Extended :=
  if r.natAbs < infinityMagnitude then .ofRat (signedUnits r / unitsPerOne)
  else if r < 0 then ⊥
  else ⊤

/-- The infinities too denote what their ranks do. -/
theorem denoted?_eq {d : Double} (h : ¬ d.isNaN) : d.denoted? = some (ofRank d.rank) := by
  rw [denoted?, if_neg h, ofRank, natAbs_rank, isFinite, toRat_eq]
  simp only [decide_eq_true_eq]
  split
  · rfl
  · rename_i hmagnitude
    have hinfinity : 0 < infinityMagnitude := by decide
    have hpos : 0 < d.magnitude := hinfinity.trans_le (not_lt.1 hmagnitude)
    rw [rank]
    split <;> simp [hpos]

/-- Up to those of the infinities, greater ranks denote more. -/
theorem ofRank_strictMonoOn : StrictMonoOn ofRank {r | r.natAbs ≤ infinityMagnitude} := by
  intro r hr s hs hrs
  rw [Set.mem_ofPred_eq] at hr hs
  rw [ofRank, ofRank]
  split_ifs with hr' hs' hneg hneg' hneg''
  · have hunits : (signedUnits r : ℚ) < signedUnits s := Int.cast_lt.2 (signedUnits_strictMono hrs)
    exact Extended.ofRat_strictMono
      (div_lt_div_of_pos_right hunits (Nat.cast_pos.2 unitsPerOne_pos))
  · omega
  · exact Extended.ofRat_lt_top _
  · exact Extended.bot_lt_ofRat _
  · omega
  · exact bot_lt_top
  all_goals omega

/-- Doubles are ordered by what they denote. -/
theorem compare_eq (a b : Double) : a.compare b = Option.map₂ cmp a.denoted? b.denoted? := by
  rw [compare]
  by_cases ha : a.isNaN
  · simp [ha, denoted?]
  by_cases hb : b.isNaN
  · simp [hb, denoted?]
  have hbound {d : Double} (hd : ¬ d.isNaN) : d.rank.natAbs ≤ infinityMagnitude := by
    rwa [natAbs_rank, ← not_lt, ← decide_eq_true_eq (p := infinityMagnitude < d.magnitude)]
  rw [denoted?_eq ha, denoted?_eq hb, Option.map₂_some_some,
    ofRank_strictMonoOn.cmp_map_eq (hbound ha) (hbound hb), cmp_eq_compare]
  simp [ha, hb]

end Double

end ExprMachine
