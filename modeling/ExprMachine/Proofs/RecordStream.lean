import Mathlib.Tactic.Common
import Mathlib.Data.List.Forall2
import ExprMachine.Program

/-!
# Streams of records

The words of a program are read as one record after another. All of them have the same
length, so a record is found by its place alone (`drop_flatMap_encode`), and reading is
the inverse of writing in both directions (`Program.decodeAll_iff_encode`):

* What has been written is read back, at the multiples of the length of a record.
* Words are read exactly if they are whole records, each of which begins with the
  number of an opcode, and writing what has been read gives the words back.

The numbers of the opcodes are those of one table (`Opcode.numbered`), which the
writer and the reader of a record agree on.
-/

namespace ExprMachine

/-! ## The numbers of opcodes -/

namespace Opcode

/-- The opcodes with their numbers. -/
def numbered : List (UInt32 × Opcode) :=
  [(0x01, .loadConst), (0x02, .loadVar), (0x03, .loadTrue), (0x04, .loadFalse),
    (0x05, .loadNull), (0x10, .negate), (0x11, .not), (0x12, .binaryOp),
    (0x20, .jumpIfFalse), (0x21, .jumpIfTrue), (0x22, .jump), (0x23, .condCheck),
    (0x30, .memberAccess), (0x31, .index), (0x32, .hasField), (0x40, .call),
    (0x50, .makeList), (0x51, .makeMap), (0x52, .makeMessage), (0x60, .iterInit),
    (0x61, .iterNext), (0x62, .scopePush), (0x63, .scopePop), (0x64, .bindVar),
    (0x65, .listAppend), (0x66, .intIncrement), (0x70, .move), (0xFE, .return)]

/-- An opcode is written as its number in the table. -/
theorem mem_numbered {w : UInt32} {op : Opcode} : (w, op) ∈ numbered ↔ op.word = w := by
  constructor
  · have hall : ∀ entry ∈ numbered, entry.2.word = entry.1 := by decide
    exact hall (w, op)
  · rintro rfl
    cases op <;> decide

/-- A number is read as its opcode in the table. -/
theorem ofWord_eq_ok_iff {w : UInt32} {op : Opcode} :
    ofWord w = .ok op ↔ (w, op) ∈ numbered := by
  rw [mem_numbered]
  constructor
  · exact word_of_ofWord
  · rintro rfl
    exact ofWord_word op

end Opcode

/-! ## Words of records -/

theorem length_encode (i : Instruction) : i.encode.length = stride := rfl

/-- Records have one length, so the words of a record are found by its place. -/
theorem drop_flatMap_encode (is : List Instruction) (k : Nat) :
    (is.flatMap Instruction.encode).drop (stride * k) = (is.drop k).flatMap Instruction.encode := by
  induction is generalizing k with
  | nil => simp
  | cons i rest ih =>
    cases k with
    | zero => rfl
    | succ k =>
      rw [List.flatMap_cons, List.drop_succ_cons, ← ih, Nat.mul_succ, Nat.add_comm,
        ← List.drop_drop, ← length_encode i, List.drop_left]

theorem length_flatMap_encode (is : List Instruction) :
    (is.flatMap Instruction.encode).length = stride * is.length := by
  induction is with
  | nil => rfl
  | cons i rest ih =>
    rw [List.flatMap_cons, List.length_append, ih, length_encode, List.length_cons, Nat.mul_succ,
      Nat.add_comm]

/-- Words fall apart into pieces of the length of a record, the last of which may be cut
    short. -/
theorem flatMap_take_drop (words : List UInt32) {count : Nat} (h : words.length ≤ stride * count) :
    (List.range count).flatMap (fun k => (words.drop (stride * k)).take stride) = words := by
  induction count generalizing words with
  | zero => simpa using h
  | succ count ih =>
    have hrest : (words.drop stride).length ≤ stride * count := by
      rw [List.length_drop]
      rw [Nat.mul_succ] at h
      omega
    have hpieces := ih (words.drop stride) hrest
    simp only [List.drop_drop] at hpieces
    rw [List.range_succ_eq_map, List.flatMap_cons, List.flatMap_map, Nat.mul_zero, List.drop_zero]
    simp only [Nat.succ_eq_add_one, Nat.mul_add_one, Nat.add_comm _ stride, hpieces]
    exact List.take_append_drop stride words

/-- Words are those of some records exactly if they are whole records that begin with
    the numbers of opcodes. -/
theorem exists_flatMap_encode_eq_iff (words : List UInt32) :
    (∃ is : List Instruction, is.flatMap Instruction.encode = words) ↔
      stride ∣ words.length ∧ ∀ k (h : stride * k < words.length),
        ∃ op, (words[stride * k], op) ∈ Opcode.numbered := by
  constructor
  · rintro ⟨is, rfl⟩
    refine ⟨⟨is.length, length_flatMap_encode is⟩, fun k h => ?_⟩
    have hk : k < is.length := by
      rw [length_flatMap_encode] at h
      exact Nat.lt_of_mul_lt_mul_left h
    have hdrop := drop_flatMap_encode is k
    rw [List.drop_eq_getElem_cons h, List.drop_eq_getElem_cons hk, List.flatMap_cons] at hdrop
    exact ⟨is[k].opcode, Opcode.mem_numbered.2 (List.cons.inj hdrop).1.symm⟩
  · rintro ⟨⟨count, hcount⟩, hops⟩
    induction count generalizing words with
    | zero => exact ⟨[], (List.length_eq_zero_iff.1 hcount).symm⟩
    | succ count ih =>
      -- The first six words are a record, and the others are `count` records.
      match words, hcount, hops with
      | code :: dst :: op1 :: op2 :: op3 :: span :: rest, hcount, hops =>
        obtain ⟨op, hop⟩ := hops 0 (by simp)
        have hrest : rest.length = stride * count := by
          simp only [List.length_cons, stride] at hcount ⊢
          omega
        have hops' : ∀ k (h : stride * k < rest.length),
            ∃ op, (rest[stride * k], op) ∈ Opcode.numbered := fun k h =>
          hops (k + 1) (by simp only [List.length_cons, stride] at h ⊢; omega)
        obtain ⟨is, rfl⟩ := ih rest hops' hrest
        refine ⟨⟨op, dst, op1, op2, op3, span⟩ :: is, ?_⟩
        rw [List.flatMap_cons, Instruction.encode, Opcode.mem_numbered.1 hop]
        rfl

/-! ## Reading programs -/

/-- Items are read one after another, each beside what it is read as, if all of them are
    read. -/
theorem mapM_pair_eq_ok_iff {α β ε : Type} {f : α → Except ε β} {l : List α}
    {rs : List (α × β)} :
    l.mapM (fun a => (f a).map fun b => (a, b)) = .ok rs ↔
      rs.map Prod.fst = l ∧ ∀ r ∈ rs, f r.1 = .ok r.2 := by
  induction l generalizing rs with
  | nil =>
    rw [List.mapM_nil, List.map_eq_nil_iff]
    constructor
    · intro h
      cases h
      exact ⟨rfl, nofun⟩
    · rintro ⟨rfl, -⟩
      rfl
  | cons a l ih =>
    rw [List.mapM_cons]
    constructor
    · intro h
      cases ha : f a with
      | error e =>
        rw [ha] at h
        cases h
      | ok b =>
        cases hl : l.mapM fun a => (f a).map fun b => (a, b) with
        | error e =>
          rw [ha, hl] at h
          cases h
        | ok bs =>
          rw [ha, hl] at h
          cases h
          obtain ⟨rfl, hbs⟩ := ih.1 hl
          exact ⟨rfl, List.forall_mem_cons.2 ⟨ha, hbs⟩⟩
    · rintro ⟨hfst, hrs⟩
      obtain ⟨⟨a', b⟩, bs, rfl, rfl, hbs⟩ := List.map_eq_cons_iff.1 hfst
      obtain ⟨hb, hall⟩ := List.forall_mem_cons.1 hrs
      rw [hb, ih.2 ⟨hbs, hall⟩]
      rfl

namespace Program

variable {p : Program} {is : List Instruction} {rs : List (Nat × Instruction)}

theorem fetch_eq_decode (k : Nat) : p.fetch (stride * k) =
    Instruction.decode ((p.code.toList.drop (stride * k)).take stride) (stride * k) := by
  rw [fetch, if_neg (by simp), Array.toList_extract, List.extract_eq_take_drop,
    Nat.add_sub_cancel_left]

/-- The records of a program are found at the multiples of their length, whatever
    words follow them. -/
theorem fetch_of_encode_append {rest : List UInt32}
    (h : p.code.toList = is.flatMap Instruction.encode ++ rest) {k : Nat}
    (hk : k < is.length) : p.fetch (stride * k) = .ok is[k] := by
  have hle : stride * k ≤ (is.flatMap Instruction.encode).length := by
    rw [length_flatMap_encode]
    exact Nat.mul_le_mul_left _ (Nat.le_of_lt hk)
  rw [fetch_eq_decode, h, List.drop_append_of_le_length hle, drop_flatMap_encode,
    List.drop_eq_getElem_cons hk, List.flatMap_cons, List.append_assoc, ← length_encode is[k],
    List.take_left]
  have hdecode := is[k].decode_encode [] (stride * k)
  rwa [List.append_nil] at hdecode

theorem fetch_of_encode (h : p.code.toList = is.flatMap Instruction.encode) {k : Nat}
    (hk : k < is.length) : p.fetch (stride * k) = .ok is[k] := by
  rw [← List.append_nil (is.flatMap Instruction.encode)] at h
  exact fetch_of_encode_append h hk

theorem decodeAll_eq_ok_iff : p.decodeAll = .ok rs ↔
    rs.map Prod.fst = p.offsets ∧ ∀ r ∈ rs, p.fetch r.1 = .ok r.2 :=
  mapM_pair_eq_ok_iff

theorem offsets_of_encode (h : p.code.toList = is.flatMap Instruction.encode) :
    p.offsets = (List.range is.length).map (stride * ·) := by
  have hcount : (p.code.size + (stride - 1)) / stride = is.length := by
    rw [← Array.length_toList, h, length_flatMap_encode, Nat.mul_add_div (by decide)]
    rfl
  rw [offsets, hcount]

/-- What has been written is read back. -/
theorem decodeAll_of_encode (h : p.code.toList = is.flatMap Instruction.encode) :
    p.decodeAll = .ok (p.offsets.zip is) := by
  have hlength : p.offsets.length = is.length := by
    rw [offsets_of_encode h, List.length_map, List.length_range]
  refine decodeAll_eq_ok_iff.2 ⟨List.map_fst_zip (Nat.le_of_eq hlength), fun r hr => ?_⟩
  obtain ⟨k, hk, rfl⟩ := List.getElem_of_mem hr
  rw [List.getElem_zip]
  simp only [offsets_of_encode h, List.getElem_map, List.getElem_range]
  exact fetch_of_encode h _

/-- Writing what has been read gives the words back. -/
theorem encode_of_decodeAll (h : p.decodeAll = .ok rs) :
    (rs.map Prod.snd).flatMap Instruction.encode = p.code.toList := by
  obtain ⟨hoffsets, hfetch⟩ := decodeAll_eq_ok_iff.1 h
  have hrecord : ∀ r ∈ rs, r.2.encode = (p.code.toList.drop r.1).take stride := by
    intro r hr
    have hmem : r.1 ∈ p.offsets := hoffsets ▸ List.mem_map_of_mem hr
    obtain ⟨k, -, hk⟩ := List.mem_map.1 hmem
    have hdecode := hfetch r hr
    rw [← hk, fetch_eq_decode] at hdecode
    rw [Instruction.encode_of_decode hdecode, ← hk, List.take_take, Nat.min_self]
  have hlength : p.code.toList.length ≤ stride * ((p.code.size + (stride - 1)) / stride) := by
    simp only [stride, Array.length_toList]
    omega
  calc (rs.map Prod.snd).flatMap Instruction.encode
      = rs.flatMap fun r => r.2.encode := List.flatMap_map ..
    _ = rs.flatMap fun r => (p.code.toList.drop r.1).take stride := List.flatMap_congr hrecord
    _ = p.offsets.flatMap fun offset => (p.code.toList.drop offset).take stride := by
      rw [← hoffsets, List.flatMap_map]
    _ = p.code.toList := by
      rw [offsets, List.flatMap_map]
      exact flatMap_take_drop _ hlength

/-- Reading and writing programs are inverse to each other. What has been written is read
    back, record after record. A program is read exactly if its words are whole records
    that begin with the numbers of opcodes, and writing what has been read gives its words
    back. -/
theorem decodeAll_iff_encode (p : Program) :
    (∀ is : List Instruction,
      { p with code := (is.flatMap Instruction.encode).toArray }.decodeAll =
        .ok (((List.range is.length).map (stride * ·)).zip is) ∧
      ∀ k (hk : k < is.length),
        { p with code := (is.flatMap Instruction.encode).toArray }.fetch (stride * k) =
          .ok is[k]) ∧
      ((∃ rs, p.decodeAll = .ok rs) ↔ stride ∣ p.code.size ∧
        ∀ k (h : stride * k < p.code.size), ∃ op, (p.code[stride * k], op) ∈ Opcode.numbered) ∧
      (∀ rs, p.decodeAll = .ok rs → rs.flatMap (fun r => r.2.encode) = p.code.toList) ∧
      ∀ w op, (Opcode.ofWord w = .ok op ↔ (w, op) ∈ Opcode.numbered) ∧
        (op.word = w ↔ (w, op) ∈ Opcode.numbered) := by
  refine ⟨fun is => ⟨?_, fun k hk => fetch_of_encode rfl hk⟩, ?_, fun rs h => ?_, fun w op =>
    ⟨Opcode.ofWord_eq_ok_iff, Opcode.mem_numbered.symm⟩⟩
  · rw [decodeAll_of_encode rfl, offsets_of_encode rfl]
  · have hread : (∃ rs, p.decodeAll = .ok rs) ↔
        ∃ is : List Instruction, is.flatMap Instruction.encode = p.code.toList :=
      ⟨fun ⟨_, h⟩ => ⟨_, encode_of_decodeAll h⟩, fun ⟨_, h⟩ => ⟨_, decodeAll_of_encode h.symm⟩⟩
    rw [hread, exists_flatMap_encode_eq_iff]
    rfl
  · rw [← encode_of_decodeAll h, List.flatMap_map]

end Program

end ExprMachine
