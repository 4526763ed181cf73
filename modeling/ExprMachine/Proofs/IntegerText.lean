import ExprMachine.Proofs.DoubleConversion

/-!
# Integers as text

A text writes an integer if it is one or more decimal digits after an optional sign
(`IntegerKind.Writes`). Only the signed integers have the sign `-`. The digits are added up from
the left, as in `Nat.ofDigitChars`.

* Reading stops at the first digit that makes the number too large. It never becomes smaller
  again, so that all digits are read if and only if the whole number is within the limit
  (`Text.readDigits_eq_ok_iff`).
* The limit below zero is one more than that above. So the texts that are read are those that write
  an integer of the kind (`IntegerKind.readText_eq_ok_iff`), and what is written for an integer is
  read as that integer (`IntegerKind.writes_toString`).
-/

namespace ExprMachine

/-! ## Digits -/

namespace Text

variable {limit value n : ℕ} {beyond : IntegerFault} {cs : List Char}

/-- One or more decimal digits. -/
def Digits (cs : List Char) : Prop := cs ≠ [] ∧ ∀ c ∈ cs, c.isDigit

theorem le_ofDigitChars (value : ℕ) (cs : List Char) : value ≤ Nat.ofDigitChars 10 cs value := by
  induction cs generalizing value with
  | nil => exact le_rfl
  | cons c cs ih =>
    rw [Nat.ofDigitChars_cons]
    exact le_trans (by omega) (ih _)

/-- Digits are read up to a limit if they are all digits of a number within it. -/
theorem readDigits_eq_ok_iff (h : value ≤ limit) :
    readDigits limit beyond value cs = .ok n ↔
      (∀ c ∈ cs, c.isDigit) ∧ Nat.ofDigitChars 10 cs value = n ∧ n ≤ limit := by
  induction cs generalizing value with
  | nil =>
    rw [readDigits, Nat.ofDigitChars_nil]
    constructor
    · rintro ⟨⟩
      exact ⟨nofun, rfl, h⟩
    · rintro ⟨-, rfl, -⟩
      rfl
  | cons c cs ih =>
    rw [readDigits, List.forall_mem_cons, Nat.ofDigitChars_cons]
    by_cases hdigit : c.isDigit
    · by_cases hnext : limit < 10 * value + (c.toNat - 48)
      · -- What has become too large stays so.
        have hle := le_ofDigitChars (10 * value + (c.toNat - 48)) cs
        simp only [hdigit, Bool.not_true, Bool.false_eq_true, if_false, if_pos hnext]
        constructor
        · rintro ⟨⟩
        · rintro ⟨-, rfl, hlimit⟩
          exact absurd (hle.trans hlimit) hnext.not_ge
      · simp only [hdigit, Bool.not_true, Bool.false_eq_true, if_false, if_neg hnext, true_and]
        exact ih (not_lt.1 hnext)
    · simp [hdigit]

theorem readNumber_eq_ok_iff : readNumber limit beyond cs = .ok n ↔
    Digits cs ∧ Nat.ofDigitChars 10 cs 0 = n ∧ n ≤ limit := by
  rw [readNumber, Digits]
  cases cs with
  | nil => simp
  | cons c cs => simp [readDigits_eq_ok_iff (Nat.zero_le limit)]

theorem digits_toDigits (n : ℕ) : Digits (Nat.toDigits 10 n) :=
  ⟨Nat.toDigits_ne_nil, fun _ => Nat.isDigit_of_mem_toDigits (by decide) (by decide)⟩

end Text

/-! ## Written integers -/

open Text

namespace IntegerKind

/-- The characters write an integer in a way that a kind has. -/
inductive Writes : IntegerKind → List Char → ℤ → Prop
  /-- Digits without a sign. -/
  | bare (k : IntegerKind) {cs : List Char} (h : Digits cs) :
    Writes k cs (Nat.ofDigitChars 10 cs 0)
  /-- Digits after `+`. -/
  | plus (k : IntegerKind) {cs : List Char} (h : Digits cs) :
    Writes k ('+' :: cs) (Nat.ofDigitChars 10 cs 0)
  /-- Digits after `-`. -/
  | minus {cs : List Char} (h : Digits cs) : Writes .int ('-' :: cs) (-Nat.ofDigitChars 10 cs 0)

variable {k : IntegerKind} {cs : List Char} {c : Char} {i : ℤ} {v : Value}

theorem not_writes_nil : ¬ k.Writes [] i := by
  intro hwrites
  cases hwrites with
  | bare _ h => exact h.1 rfl

theorem writes_minus_iff : k.Writes ('-' :: cs) i ↔
    k = .int ∧ Digits cs ∧ i = -Nat.ofDigitChars 10 cs 0 := by
  constructor
  · intro hwrites
    cases hwrites with
    | bare _ h => exact absurd (h.2 '-' List.mem_cons_self) (by decide)
    | minus h => exact ⟨rfl, h, rfl⟩
  · rintro ⟨rfl, h, rfl⟩
    exact .minus h

theorem writes_plus_iff : k.Writes ('+' :: cs) i ↔
    Digits cs ∧ i = Nat.ofDigitChars 10 cs 0 := by
  constructor
  · intro hwrites
    cases hwrites with
    | bare _ h => exact absurd (h.2 '+' List.mem_cons_self) (by decide)
    | plus _ h => exact ⟨h, rfl⟩
  · rintro ⟨h, rfl⟩
    exact .plus k h

theorem writes_bare_iff (hminus : k = .int → c ≠ '-') (hplus : c ≠ '+') :
    k.Writes (c :: cs) i ↔ Digits (c :: cs) ∧ i = Nat.ofDigitChars 10 (c :: cs) 0 := by
  constructor
  · intro hwrites
    cases hwrites with
    | bare _ h => exact ⟨h, rfl⟩
    | plus => exact absurd rfl hplus
    | minus => exact absurd rfl (hminus rfl)
  · rintro ⟨h, rfl⟩
    exact .bare k h

/-- What is written for an integer writes it. -/
theorem writes_toString (h : k.Fits i) : k.Writes (toString i).toList i := by
  cases i with
  | ofNat n =>
    have htext : (toString (Int.ofNat n)).toList = Nat.toDigits 10 n := Nat.toList_repr
    have hwrites := Writes.bare k (digits_toDigits n)
    rwa [Nat.ofDigitChars_ten_toDigits, ← htext] at hwrites
  | negSucc n =>
    cases k with
    | uint => exact absurd h.1 (by omega)
    | int =>
      have htext : (toString (Int.negSucc n)).toList = '-' :: Nat.toDigits 10 (n + 1) := by
        show ("-" ++ (n + 1).repr).toList = _
        rw [String.toList_append, Nat.toList_repr]
        rfl
      have hwrites := Writes.minus (digits_toDigits (n + 1))
      rwa [Nat.ofDigitChars_ten_toDigits, ← htext] at hwrites

/-! ## Reading -/

/-- Reads a text as a value of the kind. -/
def readText : IntegerKind → String → Except IntegerFault Value
  | .int, s => (readInt s).map .int
  | .uint, s => (readUInt s).map .uint

/-- Digits are read as a value if it is the integer that they make with their sign, as long as
    the limit is the right one for this sign. -/
theorem map_readNumber_eq_ok_iff {limit : ℕ} {beyond : IntegerFault} {α : Type} {f : ℕ → α}
    {make : α → Value} (signed : ℕ → ℤ)
    (hmake : ∀ n ≤ limit, k.integer? (make (f n)) = some (signed n))
    (hlimit : ∀ n, k.Fits (signed n) → n ≤ limit) :
    ((readNumber limit beyond cs).map f).map make = .ok v ↔
      Digits cs ∧ k.integer? v = some (signed (Nat.ofDigitChars 10 cs 0)) := by
  constructor
  · intro h
    cases hread : readNumber limit beyond cs with
    | error fault =>
      rw [hread] at h
      cases h
    | ok n =>
      rw [hread] at h
      cases h
      obtain ⟨hdigits, rfl, hle⟩ := readNumber_eq_ok_iff.1 hread
      exact ⟨hdigits, hmake _ hle⟩
  · rintro ⟨hdigits, hv⟩
    have hle := hlimit _ (fits_of_integer? hv)
    rw [readNumber_eq_ok_iff.2 ⟨hdigits, rfl, hle⟩]
    exact congrArg Except.ok (integer?_injective (hmake _ hle) hv)

theorem map_readNumber_int_iff {beyond : IntegerFault} :
    ((readNumber Int64.maxValue.toInt.natAbs beyond cs).map fun n : ℕ => Int64.ofInt n).map
        Value.int = .ok v ↔
      Digits cs ∧ integer? .int v = some (Nat.ofDigitChars 10 cs 0 : ℤ) := by
  refine map_readNumber_eq_ok_iff (fun n => n) (fun n hn => congrArg some ?_) fun n hfits => ?_
  · rw [Int64.toInt_maxValue] at hn
    exact Int64.toInt_ofInt_of_le (by omega) (by omega)
  · rw [Int64.toInt_maxValue]
    have := hfits.2
    omega

theorem map_readNumber_negated_iff {beyond : IntegerFault} :
    ((readNumber Int64.minValue.toInt.natAbs beyond cs).map fun n : ℕ => Int64.ofInt (-n)).map
        Value.int = .ok v ↔
      Digits cs ∧ integer? .int v = some (-Nat.ofDigitChars 10 cs 0 : ℤ) := by
  refine map_readNumber_eq_ok_iff (fun n => -n) (fun n hn => congrArg some ?_) fun n hfits => ?_
  · rw [Int64.toInt_minValue] at hn
    exact Int64.toInt_ofInt_of_le (by omega) (by omega)
  · rw [Int64.toInt_minValue]
    have := hfits.1
    omega

theorem map_readNumber_uint_iff {beyond : IntegerFault} :
    ((readNumber (UInt64.size - 1) beyond cs).map UInt64.ofNat).map Value.uint = .ok v ↔
      Digits cs ∧ integer? .uint v = some (Nat.ofDigitChars 10 cs 0 : ℤ) := by
  refine map_readNumber_eq_ok_iff (fun n => n) (fun n hn => congrArg some ?_) fun n hfits => ?_
  · have hsize : n < UInt64.size := by
      simp only [UInt64.size] at *
      omega
    exact congrArg Nat.cast (UInt64.toNat_ofNat_of_lt' hsize)
  · have := hfits.2
    simp only [UInt64.size]
    omega

/-- The texts that are read are those that write an integer of the kind, and they are read as
    that integer. -/
theorem readText_eq_ok_iff {s : String} :
    k.readText s = .ok v ↔ ∃ i, k.Writes s.toList i ∧ k.integer? v = some i := by
  cases k with
  | int =>
    rw [readText, readInt]
    generalize s.toList = cs
    split
    · simp [not_writes_nil, Except.map]
    · rw [map_readNumber_negated_iff]
      simp [writes_minus_iff, and_assoc]
    · rw [map_readNumber_int_iff]
      simp [writes_plus_iff, and_assoc]
    · -- Without a sign the first character has to be a digit already.
      rename_i hnil hminus hplus
      obtain ⟨c, cs, rfl⟩ := List.exists_cons_of_ne_nil hnil
      have hbare (i : ℤ) : Writes .int (c :: cs) i ↔ Digits (c :: cs) ∧ i = _ :=
        writes_bare_iff (fun _ h => hminus cs (h ▸ rfl)) fun h => hplus cs (h ▸ rfl)
      rw [map_readNumber_int_iff]
      simp [hbare, and_assoc]
  | uint =>
    rw [readText, readUInt]
    generalize s.toList = cs
    split
    · simp [not_writes_nil, Except.map]
    · rw [map_readNumber_uint_iff]
      simp [writes_plus_iff, and_assoc]
    · rename_i hnil hplus
      obtain ⟨c, cs, rfl⟩ := List.exists_cons_of_ne_nil hnil
      have hbare (i : ℤ) : Writes .uint (c :: cs) i ↔ Digits (c :: cs) ∧ i = _ :=
        writes_bare_iff nofun fun h => hplus cs (h ▸ rfl)
      rw [map_readNumber_uint_iff]
      simp [hbare, and_assoc]

/-- The fault of a text that is not read as a value of the kind. -/
def rejection : IntegerKind → String → IntegerFault → ArgumentFault
  | .int => .notInt
  | .uint => .notUInt

end IntegerKind

/-! ## Calls -/

namespace Registry.Extends

variable {r : Registry} (h : r.Extends Standard.registry) (k : IntegerKind) (span : Span)
include h

/-- A text is read, or rejected. -/
theorem call_text (s : String) : r.call k.name [.string s] span =
    match k.readText s with
    | .ok v => .ok (v, true)
    | .error fault => .error ⟨span, .invalidArgument (k.rejection s fault)⟩ := by
  have hhandler : ∃ handler, ([Kind.string], handler) ∈ k.conversion.overloads ∧
      handler [.string s] span = match k.readText s with
        | .ok v => .ok v
        | .error fault => .error ⟨span, .invalidArgument (k.rejection s fault)⟩ := by
    cases k with
    | int =>
      refine ⟨_, List.mem_of_getElem? (i := 3) rfl, ?_⟩
      simp only [Standard.onArgument, Standard.stringOf, IntegerKind.readText, bind, Except.bind]
      cases readInt s <;> rfl
    | uint =>
      refine ⟨_, List.mem_of_getElem? (i := 3) rfl, ?_⟩
      simp only [Standard.onArgument, Standard.stringOf, IntegerKind.readText, bind, Except.bind]
      cases readUInt s <;> rfl
  obtain ⟨handler, hmem, hhandler⟩ := hhandler
  rw [← k.name_conversion, h.call k.conversion_mem [.string s] hmem span, hhandler]
  have hidempotent : k.conversion.idempotent = true := by cases k <;> rfl
  rw [hidempotent]
  cases k.readText s <;> rfl

/-- An integer is written as all integers are. -/
theorem call_string {v : Value} {i : ℤ} (hv : k.integer? v = some i) :
    r.call "string" [v] span = .ok (.string (toString i), true) := by
  have htoText : .function Standard.toText ∈ Standard.descriptors :=
    List.mem_of_getElem? (i := 20) rfl
  cases k with
  | int =>
    cases v <;> cases hv
    exact h.call htoText [.int _] (List.mem_of_getElem? (i := 1) rfl) span
  | uint =>
    cases v <;> cases hv
    exact h.call htoText [.uint _] (List.mem_of_getElem? (i := 2) rfl) span

end Registry.Extends

/-- The functions `int` and `uint` read what the function `string` has written for an integer as
    that integer. They read a text if and only if it writes an integer of the kind, with digits
    after an optional sign, and give that integer. All other texts are rejected. -/
theorem Standard.converts_texts {r : Registry} (hext : r.Extends Standard.registry)
    (k : IntegerKind) (span : Span) :
    (∀ v i, k.integer? v = some i →
      r.call "string" [v] span = .ok (.string (toString i), true) ∧
      r.call k.name [.string (toString i)] span = .ok (v, true)) ∧
    (∀ s, (∃ result, r.call k.name [.string s] span = .ok result) ↔
      ∃ i, k.Writes s.toList i ∧ k.Fits i) ∧
    (∀ s i, k.Writes s.toList i → k.Fits i →
      ∃ v, r.call k.name [.string s] span = .ok (v, true) ∧ k.integer? v = some i) ∧
    (∀ s, (¬ ∃ i, k.Writes s.toList i ∧ k.Fits i) →
      ∃ fault, r.call k.name [.string s] span =
        .error ⟨span, .invalidArgument (k.rejection s fault)⟩) := by
  have hreads {s : String} {v : Value} {i : ℤ} (hs : k.Writes s.toList i)
      (hv : k.integer? v = some i) : r.call k.name [.string s] span = .ok (v, true) := by
    rw [hext.call_text k span, IntegerKind.readText_eq_ok_iff.2 ⟨i, hs, hv⟩]
  have hrejects {s : String} (hs : ¬ ∃ i, k.Writes s.toList i ∧ k.Fits i) :
      ∃ fault, r.call k.name [.string s] span =
        .error ⟨span, .invalidArgument (k.rejection s fault)⟩ := by
    rw [hext.call_text k span]
    cases hread : k.readText s with
    | error fault => exact ⟨fault, rfl⟩
    | ok v =>
      obtain ⟨i, hwrites, hv⟩ := IntegerKind.readText_eq_ok_iff.1 hread
      exact absurd ⟨i, hwrites, IntegerKind.fits_of_integer? hv⟩ hs
  refine ⟨fun v i hv => ⟨hext.call_string k span hv, ?_⟩, fun s => ⟨?_, ?_⟩, ?_, fun s => hrejects⟩
  · exact hreads (IntegerKind.writes_toString (IntegerKind.fits_of_integer? hv)) hv
  · -- What is not written as an integer of the kind is rejected, so this text is.
    rintro ⟨result, hok⟩
    by_contra hs
    obtain ⟨fault, herror⟩ := hrejects hs
    rw [hok] at herror
    cases herror
  · rintro ⟨i, hs, hfits⟩
    obtain ⟨v, hv⟩ := IntegerKind.exists_integer?_eq hfits
    exact ⟨_, hreads hs hv⟩
  · intro s i hs hfits
    obtain ⟨v, hv⟩ := IntegerKind.exists_integer?_eq hfits
    exact ⟨v, hreads hs hv, hv⟩

/-- The least signed integer is read back. Its digits are rejected without the sign, and zeros
    before the digits are not. -/
theorem Standard.converts_texts_least :
    (registry.call "string" [.int Int64.minValue] ⟨0, 6⟩ =
        .ok (.string "-9223372036854775808", true) ∧
      registry.call "int" [.string "-9223372036854775808"] ⟨0, 6⟩ =
        .ok (.int Int64.minValue, true)) ∧
      (∃ fault, registry.call "int" [.string "9223372036854775808"] ⟨0, 6⟩ =
        .error ⟨⟨0, 6⟩, .invalidArgument (.notInt "9223372036854775808" fault)⟩) ∧
      ∃ v, registry.call "int" [.string "+007"] ⟨0, 6⟩ = .ok (v, true) ∧
        IntegerKind.int.integer? v = some 7 := by
  have hext : registry.Extends registry := fun _ _ _ hfind => hfind
  obtain ⟨hback, -, hread, hreject⟩ := converts_texts hext .int ⟨0, 6⟩
  have hleast := hback (.int Int64.minValue) (-2 ^ 63) (by decide)
  have htext : toString (-2 ^ 63 : ℤ) = "-9223372036854775808" := by decide +kernel
  rw [htext] at hleast
  refine ⟨hleast, hreject _ ?_, hread "+007" 7 ?_ ?_⟩
  · rintro ⟨i, hwrites, hfits⟩
    obtain ⟨-, hi⟩ := (IntegerKind.writes_bare_iff (by decide) (by decide)).1 hwrites
    have hvalue : i = 2 ^ 63 := hi.trans (by decide +kernel)
    exact hfits.2.ne hvalue
  · have hdigits : Digits ['0', '0', '7'] := ⟨by decide, List.all_eq_true.1 (by decide)⟩
    exact .plus .int hdigits
  · exact ⟨by decide, by decide⟩

end ExprMachine
