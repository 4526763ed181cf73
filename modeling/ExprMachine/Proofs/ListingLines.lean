import ExprMachine.Program.Listing
import ExprMachine.Proofs.IntegerText

/-!
# The lines of a listing

A listing has one line for each record as long as nothing that a record shows breaks its line
(`Program.OneLinePerRecord`). Most of what is shown never does: numbers are written by their
digits, and strings between quotes, where a line feed is escaped. But the field names of a message
that is built, and the type and the field names of a message among the constants, are shown as
they are.

A text is *unbroken* if it holds no line feed. What is said of the parts of a text is collected in
lemmas for `simp`, from which follows when a value (`Value.unbroken_text_iff`), an operand
(`Program.unbroken_operandText_iff`) and a record (`Program.unbroken_contentAt_iff`) is shown
unbroken.
-/

namespace ExprMachine

/-! ## Unbroken texts -/

namespace Text

/-- The text holds no line feed. -/
def Unbroken (s : String) : Prop := '\n' ∉ s.toList

instance : DecidablePred Unbroken := fun s => inferInstanceAs (Decidable ('\n' ∉ s.toList))

variable {s t sep : String} {texts : List String} {cs : List Char}

/-- Texts put together are unbroken just if each of them is. -/
@[simp] theorem unbroken_append : Unbroken (s ++ t) ↔ Unbroken s ∧ Unbroken t := by
  simp [Unbroken, not_or]

@[simp] theorem unbroken_ofList : Unbroken (String.ofList cs) ↔ '\n' ∉ cs := by
  simp [Unbroken]

/-- Between separators that do not break lines, only the texts themselves can. -/
theorem unbroken_intercalate (hsep : Unbroken sep) :
    Unbroken (String.intercalate sep texts) ↔ ∀ s ∈ texts, Unbroken s := by
  induction texts with
  | nil => simp [Unbroken]
  | cons s rest ih =>
    cases rest with
    | nil => simp
    | cons t rest =>
      rw [String.intercalate_cons_cons, unbroken_append, unbroken_append, ih,
        List.forall_mem_cons (a := s)]
      simp only [hsep, and_true]

/-- An unbroken text counts no line feed. -/
theorem count_eq_zero_iff_unbroken : s.toList.count '\n' = 0 ↔ Unbroken s :=
  List.count_eq_zero

/-! ### Numbers -/

/-- The digits of a number in a base up to sixteen are none of the characters that break lines. -/
theorem newline_not_mem_toDigits {b : ℕ} (hb : 1 < b) (n : ℕ) : '\n' ∉ Nat.toDigits b n := by
  induction n using Nat.strongRecOn with
  | ind n ih =>
    rw [Nat.toDigits_eq_if hb]
    split
    · simp
    · have := ih (n / b) (Nat.div_lt_self (by omega) hb)
      simp [this]

@[simp] theorem unbroken_nat (n : ℕ) : Unbroken n.repr := by
  rw [Unbroken, Nat.toList_repr]
  exact newline_not_mem_toDigits (by decide) n

/-- An integer is written by a sign and digits. -/
@[simp] theorem unbroken_int (i : ℤ) : Unbroken i.repr := by
  cases i with
  | ofNat n => exact unbroken_nat n
  | negSucc n => exact unbroken_append.2 ⟨by decide, unbroken_nat (n + 1)⟩

/-! ### Quoted text -/

/-- No character is shown as a line feed, not even a line feed. -/
theorem newline_not_mem_escape (c : Char) : '\n' ∉ escape c := by
  have hdigits := newline_not_mem_toDigits (b := 16) (by decide) c.toNat
  by_cases hc : c = '\n'
  · subst hc
    decide
  · unfold escape
    split_ifs <;> simp [Ne.symm hc, hdigits]

/-- A string between quotes never breaks a line, whatever it holds. -/
@[simp] theorem unbroken_quote (s : String) : Unbroken (quote s) := by
  rw [quote, unbroken_ofList]
  simp [newline_not_mem_escape]

end Text

open Text

/-! ## Doubles -/

namespace Double

/-- A decimal is laid out by digits, a point, a sign and an exponent. -/
theorem newline_not_mem_layout (style : Style) (d : Decimal) : '\n' ∉ layout style d := by
  have hdigits := newline_not_mem_toDigits (b := 10) (by decide) d.digits
  have htake (k : ℕ) : '\n' ∉ (Nat.toDigits 10 d.digits).take k := fun h =>
    hdigits (List.mem_of_mem_take h)
  have hdrop (k : ℕ) : '\n' ∉ (Nat.toDigits 10 d.digits).drop k := fun h =>
    hdigits (List.mem_of_mem_drop h)
  have htail : '\n' ∉ (Nat.toDigits 10 d.digits).tail := fun h => hdigits (List.mem_of_mem_tail h)
  unfold layout
  dsimp only
  split
  · unfold layoutPositional
    dsimp only
    split_ifs <;> simp [hdigits, htake, hdrop]
  · have hexponent (e : ℤ) : '\n' ∉ e.repr.toList := unbroken_int e
    unfold layoutScientific
    dsimp only
    split_ifs <;> simp [htake, htail, hexponent]

/-- A double is shown unbroken, infinities and NaN as well. -/
@[simp] theorem unbroken_text (style : Style) (d : Double) : Unbroken (d.text style) := by
  have hlayout := newline_not_mem_layout style d.shortest
  unfold text
  dsimp only
  split
  · decide
  · rw [unbroken_ofList]
    split_ifs <;> simp [hlayout]

end Double

/-! ## Values -/

/-- Keys of maps are shown unbroken, as strings are quoted. -/
@[simp] theorem MapKey.unbroken_text (k : MapKey) : Unbroken k.text := by
  cases k with
  | int i => exact unbroken_int _
  | uint u => exact unbroken_append.2 ⟨unbroken_nat _, by decide⟩
  | string s => exact unbroken_quote s

namespace Value

theorem itemTexts_eq (items : List Value) : itemTexts items = items.map text := by
  induction items with
  | nil => rfl
  | cons v rest ih => rw [itemTexts, ih, List.map_cons]

theorem entryTexts_eq (entries : List (MapKey × Value)) :
    entryTexts entries = entries.map fun e => e.1.text ++ ": " ++ e.2.text := by
  induction entries with
  | nil => rfl
  | cons e rest ih => rw [entryTexts, ih, List.map_cons]

theorem fieldTexts_eq (fields : List (String × Value)) :
    fieldTexts fields = fields.map fun f => f.1 ++ ": " ++ f.2.text := by
  induction fields with
  | nil => rfl
  | cons f rest ih => rw [fieldTexts, ih, List.map_cons]

/-- The names that a value shows as they are, its parts left out, are unbroken. -/
def plainNames : Value → Bool
  | .message typeName fields => decide (Unbroken typeName ∧ ∀ f ∈ fields, Unbroken f.1)
  | _ => true

/-- Commas do not break lines. -/
theorem unbroken_separated {texts : List String} :
    Unbroken (separated texts) ↔ ∀ s ∈ texts, Unbroken s :=
  unbroken_intercalate (by decide)

/-- A value is shown unbroken if and only if the names of the types and fields of the messages
    in it are unbroken. -/
theorem unbroken_text_iff (v : Value) : Unbroken v.text ↔ v.everywhere plainNames := by
  have hcolon : Unbroken ": " := by decide
  have hopen : Unbroken "[" ∧ Unbroken "\x7b" := by decide
  have hclose : Unbroken "]" ∧ Unbroken "\x7d" := by decide
  induction v using Value.induct with
  | step v ih =>
    rw [everywhere_iff]
    cases v with
    | list items =>
      have ih : ∀ w ∈ items, Unbroken w.text ↔ w.everywhere plainNames := ih
      simp only [text, unbroken_append, unbroken_separated, itemTexts_eq, List.forall_mem_map,
        hopen, hclose, true_and, and_true, plainNames, parts]
      exact forall₂_congr ih
    | map entries =>
      have ih : ∀ e ∈ entries, Unbroken e.2.text ↔ e.2.everywhere plainNames := fun e he =>
        ih e.2 (List.mem_map_of_mem he)
      simp only [text, unbroken_append, unbroken_separated, entryTexts_eq, List.forall_mem_map,
        hopen, hclose, hcolon, MapKey.unbroken_text, true_and, and_true, plainNames, parts]
      exact forall₂_congr ih
    | message typeName fields =>
      have ih : ∀ f ∈ fields, Unbroken f.2.text ↔ f.2.everywhere plainNames := fun f hf =>
        ih f.2 (List.mem_map_of_mem hf)
      -- Here a name is printed as it is, which the keys of a map are not.
      simp only [text, unbroken_append, unbroken_separated, fieldTexts_eq, List.forall_mem_map,
        hopen, hclose, hcolon, and_true, plainNames, parts, decide_eq_true_eq, and_assoc]
      refine and_congr_right fun _ => ?_
      rw [← forall₂_and]
      exact forall₂_congr fun f hf => and_congr_right fun _ => ih f hf
    | bool b => cases b <;> simp only [text, plainNames, parts] <;> decide
    | uint | bytes =>
      have hmark : Unbroken "u" ∧ Unbroken "b" := by decide
      simp [text, plainNames, parts, hmark]
    | null => decide
    | int | double | string => simp [text, plainNames, parts]

end Value

/-! ## Records -/

namespace Program

variable {p : Program} {offset : ℕ} {i : Instruction}

/-- What an operand of a record shows as it is, is unbroken: the names in a constant, and the
    field names of a message. -/
def PlainOperand (p : Program) : Operand → UInt32 → Prop
  | .constant, n => ∀ v, p.constants[n.toNat]? = some v → v.everywhere Value.plainNames
  | .messageFields, n => ∀ names, p.messageFields[n.toNat]? = some names → ∀ s ∈ names, Unbroken s
  | _, _ => True

/-- An operand that refers to nothing is shown by its number. -/
theorem unbroken_unresolved {lead : String} (h : Unbroken lead) (n : UInt32) :
    Unbroken (unresolved lead n) := by
  have htail : Unbroken "(?)" := by decide
  simp [unresolved, h, htail]

/-- An operand is shown unbroken if and only if the names in it are. -/
theorem unbroken_operandText_iff (p : Program) (operand : Operand) (n : UInt32) :
    (∀ s ∈ p.operandText operand n, Unbroken s) ↔ p.PlainOperand operand n := by
  have hopen : Unbroken "#" ∧ Unbroken "(" ∧ Unbroken "[" := by decide
  have hclose : Unbroken ")" ∧ Unbroken "]" := by decide
  cases operand with
  | unused => simp [operandText, PlainOperand]
  -- Numbers have only digits, so that the mark before them decides.
  | register | target | count =>
    have hlead : Unbroken "r" ∧ Unbroken "@" := by decide
    simp [operandText, PlainOperand, hlead]
  | constant =>
    cases hv : p.constants[n.toNat]? with
    | none => simp [operandText, PlainOperand, hv, unbroken_unresolved, hopen]
    | some v =>
      simp [operandText, PlainOperand, hv, hopen, hclose, Value.unbroken_text_iff]
  | string =>
    have hlead : Unbroken "$" := by decide
    cases hs : p.string? n <;> simp [operandText, PlainOperand, hs, unbroken_unresolved, hlead]
  | operator =>
    have hlead : Unbroken "op" := by decide
    cases hop : BinaryOperator.ofIndex? n.toNat with
    | none => simp [operandText, PlainOperand, hop, unbroken_unresolved, hlead]
    | some op =>
      have hsymbol : Unbroken op.symbol := by cases op <;> decide
      simp [operandText, PlainOperand, hop, hsymbol]
  | role =>
    have hlead : Unbroken "role" := by decide
    have hwords : Unbroken "cond" ∧ Unbroken "predicate" ∧ Unbroken "filter" := by decide
    rcases hrole : ConditionRole.ofTag? n with _ | (_ | _ | _) <;>
      simp [operandText, PlainOperand, hrole, unbroken_unresolved, hlead, hwords]
  | messageFields =>
    have hlead : Unbroken "fields" := by decide
    cases hnames : p.messageFields[n.toNat]? with
    | none => simp [operandText, PlainOperand, hnames, unbroken_unresolved, hlead]
    | some names =>
      simp [operandText, PlainOperand, hnames, hopen, hclose,
        unbroken_intercalate (show Unbroken ", " by decide)]

/-- A record is shown unbroken if and only if each of its operands is. -/
theorem unbroken_recordText_iff :
    Unbroken (p.recordText i) ↔ ∀ o ∈ i.operands, p.PlainOperand o.2.1 o.2.2 := by
  have hmnemonic : Unbroken i.opcode.mnemonic := by cases i.opcode <;> decide
  simp only [recordText, unbroken_intercalate (show Unbroken " " by decide), List.forall_mem_cons,
    hmnemonic, true_and, List.mem_filterMap, forall_exists_index, and_imp,
    ← unbroken_operandText_iff]
  exact ⟨fun h o ho s hs => h s o ho hs, fun h s o ho hs => h o ho s hs⟩

/-- What the record at an offset is shown as, after the offset. -/
def contentAt (p : Program) (offset : ℕ) : String :=
  match p.fetch offset with
  | .ok i => p.recordText i
  | .error e => "<invalid: " ++ e.message ++ ">"

/-- The reason why a record cannot be decoded is told on the same line. -/
theorem unbroken_message (e : DecodeError) : Unbroken e.message := by
  have hlead : Unbroken "invalid opcode: " ∧ Unbroken "0x" ∧
      Unbroken "truncated instruction at offset " ∧ Unbroken "misaligned instruction offset " := by
    decide
  unfold DecodeError.message
  cases e with
  | illegalOpcode => decide
  | invalidOpcode w =>
    have hdigits := newline_not_mem_toDigits (b := 16) (by decide) w.toNat
    simp [hexWord, hlead, hdigits]
  | truncated | misaligned => simp [hlead]

/-- The record at an offset, if there is one, shows nothing that breaks its line. -/
def PlainAt (p : Program) (offset : ℕ) : Prop :=
  ∀ i, p.fetch offset = .ok i → ∀ o ∈ i.operands, p.PlainOperand o.2.1 o.2.2

theorem unbroken_contentAt_iff : Unbroken (p.contentAt offset) ↔ p.PlainAt offset := by
  unfold contentAt PlainAt
  cases hfetch : p.fetch offset with
  | ok i => simp [unbroken_recordText_iff]
  | error e =>
    have hframe : Unbroken "<invalid: " ∧ Unbroken ">" := by decide
    simp [hframe, unbroken_message]

/-! ## Listings -/

/-- An offset is written by its digits, after as many zeros as make them four. -/
theorem paddedOffset_digits (n : ℕ) : Digits (paddedOffset n).toList ∧
    4 ≤ (paddedOffset n).toList.length ∧ Nat.ofDigitChars 10 (paddedOffset n).toList 0 = n := by
  have hdigits := digits_toDigits n
  have hzeros (k : ℕ) (cs : List Char) :
      Nat.ofDigitChars 10 (List.replicate k '0' ++ cs) 0 = Nat.ofDigitChars 10 cs 0 := by
    induction k with
    | zero => rfl
    | succ k ih => rwa [List.replicate_succ, List.cons_append, Nat.ofDigitChars_cons]
  simp only [paddedOffset, String.toList_ofList]
  refine ⟨⟨by simp, fun c hc => ?_⟩, ?_, ?_⟩
  · rcases List.mem_append.1 hc with hc | hc
    · rw [List.eq_of_mem_replicate hc]
      rfl
    · exact hdigits.2 c hc
  · rw [List.length_append, List.length_replicate]
    omega
  · rw [hzeros, Nat.ofDigitChars_ten_toDigits]

/-- Digits and zeros do not break lines. -/
theorem unbroken_paddedOffset (n : ℕ) : Unbroken (paddedOffset n) := fun h =>
  absurd ((paddedOffset_digits n).1.2 _ h) (by decide)

/-- The listing is made of lines, one for each record, the last of which may be cut short. Each of
    them begins with the offset of its record. -/
def OneLinePerRecord (p : Program) : Prop :=
  ∃ lines : List String,
    p.listing = String.join (lines.map (· ++ "\n")) ∧
    lines.length = p.code.size ⌈/⌉ stride ∧
    ∀ (k : ℕ) (hk : k < lines.length), Unbroken lines[k] ∧
      (paddedOffset (stride * k) ++ "  ").toList <+: lines[k].toList

/-- There is an offset for every six words begun. -/
theorem length_offsets (p : Program) : p.offsets.length = p.code.size ⌈/⌉ stride := by
  rw [offsets, List.length_map, List.length_range, Nat.ceilDiv_eq_add_pred_div]
  rfl

theorem lineAt_eq (p : Program) (offset : ℕ) :
    p.lineAt offset = paddedOffset offset ++ "  " ++ p.contentAt offset ++ "\n" := rfl

/-- Every record ends one line, and what it shows may end more. -/
theorem count_lineAt (p : Program) (offset : ℕ) :
    (p.lineAt offset).toList.count '\n' = (p.contentAt offset).toList.count '\n' + 1 := by
  have hoffset := count_eq_zero_iff_unbroken.2 (unbroken_paddedOffset offset)
  simp [lineAt_eq, String.toList_append, List.count_append, hoffset]

/-- A listing has a line feed for each record and those that the records show. -/
theorem count_listing (p : Program) : p.listing.toList.count '\n' =
    (p.offsets.map fun offset => (p.contentAt offset).toList.count '\n').sum +
      p.code.size ⌈/⌉ stride := by
  rw [listing, String.toList_join, List.flatMap_map, List.count_flatMap]
  simp only [Function.comp_def, count_lineAt, List.sum_map_add, List.map_const', List.sum_replicate,
    length_offsets, smul_eq_mul, mul_one]

/-- With one line for each record, there are as many line feeds as records. -/
theorem OneLinePerRecord.count_listing (h : p.OneLinePerRecord) :
    p.listing.toList.count '\n' = p.code.size ⌈/⌉ stride := by
  obtain ⟨lines, hlisting, hlength, hlines⟩ := h
  have hcount (s : String) (hs : s ∈ lines) : (s ++ "\n").toList.count '\n' = 1 := by
    obtain ⟨k, hk, rfl⟩ := List.getElem_of_mem hs
    simp [String.toList_append, List.count_append, count_eq_zero_iff_unbroken.2 (hlines k hk).1]
  rw [hlisting, String.toList_join, List.flatMap_map, List.count_flatMap]
  simp only [Function.comp_def]
  rw [List.map_congr_left hcount, List.map_const', List.sum_replicate, smul_eq_mul, mul_one, hlength]

theorem OneLinePerRecord.plainAt (h : p.OneLinePerRecord) :
    ∀ offset ∈ p.offsets, p.PlainAt offset := by
  intro offset hoffset
  -- There are no more line feeds than records, and each record ends its line with one.
  have hsum := (Program.count_listing p).symm.trans h.count_listing
  have hnone := List.sum_eq_zero_iff.1 (Nat.add_eq_right.1 hsum)
  rw [← unbroken_contentAt_iff, ← count_eq_zero_iff_unbroken]
  exact hnone _ (List.mem_map_of_mem hoffset)

/-- Records that show nothing that breaks a line are listed on one line each. -/
theorem oneLinePerRecord_of_plainAt (h : ∀ offset ∈ p.offsets, p.PlainAt offset) :
    p.OneLinePerRecord := by
  have hgap : Unbroken "  " := by decide
  refine ⟨p.offsets.map fun offset => paddedOffset offset ++ "  " ++ p.contentAt offset, ?_, ?_,
    fun k hk => ?_⟩
  · rw [List.map_map]
    rfl
  · rw [List.length_map, length_offsets]
  · have hoffset : stride * k ∈ p.offsets := by
      rw [List.length_map, offsets, List.length_map, List.length_range] at hk
      exact List.mem_map_of_mem (List.mem_range.2 hk)
    have hcontent := unbroken_contentAt_iff.2 (h _ hoffset)
    simp only [offsets, List.getElem_map, List.getElem_range]
    exact ⟨by simp [unbroken_paddedOffset, hgap, hcontent], by simp [String.toList_append]⟩

/-- A program is listed with one line for each record if and only if nothing that one of its
    records shows as it is breaks a line. -/
theorem oneLinePerRecord_iff (p : Program) :
    p.OneLinePerRecord ↔ ∀ offset ∈ p.offsets, p.PlainAt offset :=
  ⟨OneLinePerRecord.plainAt, oneLinePerRecord_of_plainAt⟩

/-- A field name with a line feed breaks the line of the record that builds the message. -/
theorem not_oneLinePerRecord_of_field_name : ¬ Program.OneLinePerRecord
    { code := #[0x52, 0, 0, 0, 0, 0], strings := #["T"], spans := #[Span.none], registers := 1,
      messageFields := #[["a\nb"]] } := by
  intro h
  have hcount := h.count_listing
  revert hcount
  decide +kernel

/-- A program whose pools hold no name with a line feed, other than names that are quoted, is
    listed with one line for each record, whatever its words are. -/
theorem oneLinePerRecord_of_pools (hconstants : ∀ v ∈ p.constants, v.everywhere Value.plainNames)
    (hnames : ∀ names ∈ p.messageFields, ∀ s ∈ names, Unbroken s) : p.OneLinePerRecord := by
  refine oneLinePerRecord_of_plainAt fun _ _ i _ o _ => ?_
  unfold PlainOperand
  split
  · exact fun v hv => hconstants v (Array.mem_of_getElem? hv)
  · exact fun names h => hnames names (Array.mem_of_getElem? h)
  · trivial

end Program

end ExprMachine
