import ExprMachine.Proofs.Drafts
import ExprMachine.Proofs.RecordStream
import ExprMachine.Proofs.Steps

/-!
# Code in programs

A piece of code lies in a program at the place that its draft says, and the
program has the registers and the entries of the pools that it refers to
(`Program.Loads`). A program has been loaded with all pieces of a piece, so that
statements about code are made about each piece in the program as a whole.

An expression that has a program has been loaded into it (`loads_of_compile`).
-/

namespace ExprMachine

open Build

/-! ## Words -/

/-- A number that fits in a word is that word. -/
theorem toNat_ofNat_of_lt {n : Nat} (h : n < wordLimit) : (UInt32.ofNat n).toNat = n :=
  UInt32.toNat_ofNat_of_lt' h

theorem toNat_lt_wordLimit (w : UInt32) : w.toNat < wordLimit := w.toNat_lt_size

/-- A line fits if each of its numbers does. -/
theorem Line.fits_iff {l : Line} : l.fits ↔ l.span < wordLimit ∧ l.dst < wordLimit ∧
    l.op1 < wordLimit ∧ l.op2 < wordLimit ∧ l.op3 < wordLimit := by
  simp [fits, slots]

theorem Line.lt_of_mem_slots {l : Line} (hfits : l.fits) {n : Nat} (hn : n ∈ l.slots) :
    n < wordLimit :=
  of_decide_eq_true (List.all_eq_true.1 hfits n (List.mem_cons_of_mem _ hn))

/-! ## Assembled programs -/

namespace Assembly

variable (a : Assembly)

/-- The words of an assembled program are those of its lines, one after another. -/
theorem toList_code : a.toProgram.code.toList =
    (a.lines.map Line.toInstruction).flatMap Instruction.encode := by
  simp [toProgram, List.flatMap_map]

theorem size_code : a.toProgram.code.size = stride * a.lines.length := by
  rw [← Array.length_toList, toList_code, length_flatMap_encode, List.length_map]

/-- An assembled program has a record for each line. -/
theorem length_toProgram : a.toProgram.length = a.lines.length := by
  rw [Program.length, size_code]
  exact Nat.mul_div_cancel_left _ (by decide)

/-- The records of an assembled program are its lines. -/
theorem fetch_toProgram {k : Nat} {l : Line} (h : a.lines[k]? = some l) :
    a.toProgram.fetch (stride * k) = .ok l.toInstruction := by
  obtain ⟨hk, rfl⟩ := List.getElem?_eq_some_iff.1 h
  have hfetch := Program.fetch_of_encode a.toList_code (k := k) (by rwa [List.length_map])
  rwa [List.getElem_map] at hfetch

end Assembly

/-! ## Pieces in programs -/

/-- The program has the records of some lines, one after another from a place
    on, and all of them fit in words. -/
structure Program.Holds (p : Program) (place : Nat) (lines : List Line) : Prop where
  fits : ∀ l ∈ lines, l.fits
  fetch : ∀ (k : Nat) (l : Line), lines[k]? = some l →
    p.fetch (stride * (place + k)) = .ok l.toInstruction

namespace Program.Holds

variable {p : Program} {place : Nat} {l : Line} {xs ys : List Line}

/-- Lines at the front are where all of the lines are. -/
theorem left (h : p.Holds place (xs ++ ys)) : p.Holds place xs where
  fits l hl := h.fits l (List.mem_append_left _ hl)
  fetch k l hk := h.fetch k l (getElem?_mono (List.prefix_append _ _) hk)

/-- Lines at the back are behind those at the front. -/
theorem right (h : p.Holds place (xs ++ ys)) : p.Holds (place + xs.length) ys where
  fits l hl := h.fits l (List.mem_append_right _ hl)
  fetch k l hk := by
    rw [Nat.add_assoc]
    refine h.fetch _ l ?_
    rw [List.getElem?_append_right (Nat.le_add_right _ _), Nat.add_sub_cancel_left, hk]

theorem head (h : p.Holds place (l :: xs)) :
    l.fits ∧ p.fetch (stride * place) = .ok l.toInstruction :=
  ⟨h.fits l List.mem_cons_self, h.fetch 0 l rfl⟩

theorem tail (h : p.Holds place (l :: xs)) : p.Holds (place + 1) xs :=
  have h' : p.Holds place ([l] ++ xs) := h
  h'.right

end Program.Holds

/-- The program has all registers and all entries of the pools that a draft
    has. -/
structure Program.Covers (p : Program) (d : Draft) : Prop where
  registers : d.registers ≤ p.registers.toNat
  constants : d.constants <+: p.constants.toList
  strings : d.strings <+: p.strings.toList
  spans : d.spans <+: p.spans.toList
  messageFields : d.messageFields <+: p.messageFields.toList

namespace Program.Covers

variable {p : Program} {d e : Draft} {i r : Nat}

/-- What covers a draft covers every earlier one. -/
theorem of_precedes (h : p.Covers e) (hd : d.Precedes e) : p.Covers d where
  registers := Nat.le_trans hd.registers h.registers
  constants := hd.constants.trans h.constants
  strings := hd.strings.trans h.strings
  spans := hd.spans.trans h.spans
  messageFields := hd.messageFields.trans h.messageFields

theorem lt_wordLimit (h : p.Covers d) (hr : r < d.registers) : r < wordLimit :=
  Nat.lt_of_lt_of_le hr (Nat.le_trans h.registers (Nat.le_of_lt (toNat_lt_wordLimit _)))

/-- The word for a register of the draft is that register. -/
theorem toNat_register (h : p.Covers d) (hr : r < d.registers) : (UInt32.ofNat r).toNat = r :=
  toNat_ofNat_of_lt (h.lt_wordLimit hr)

/-- A constant of the draft is found in the program by its word. -/
theorem constant (h : p.Covers d) (hi : i < wordLimit) {v : Value}
    (hv : d.constants[i]? = some v) : p.constants[(UInt32.ofNat i).toNat]? = some v := by
  rw [toNat_ofNat_of_lt hi, ← Array.getElem?_toList]
  exact getElem?_mono h.constants hv

/-- A name of the draft is found in the program by its word. -/
theorem string (h : p.Covers d) (hi : i < wordLimit) {name : String}
    (hv : d.strings[i]? = some name) : p.string? (.ofNat i) = some name := by
  rw [Program.string?, toNat_ofNat_of_lt hi, ← Array.getElem?_toList]
  exact getElem?_mono h.strings hv

theorem fields (h : p.Covers d) (hi : i < wordLimit) {names : List String}
    (hv : d.messageFields[i]? = some names) :
    p.messageFields[(UInt32.ofNat i).toNat]? = some names := by
  rw [toNat_ofNat_of_lt hi, ← Array.getElem?_toList]
  exact getElem?_mono h.messageFields hv

/-- A span of the draft is found in the program by its word. -/
theorem span (h : p.Covers d) (hi : i < wordLimit) {s : Span}
    (hv : d.spans[i]? = some s) : p.span (.ofNat i) = s := by
  rw [Program.span, toNat_ofNat_of_lt hi, ← Array.getElem?_toList,
    getElem?_mono h.spans hv]
  rfl

end Program.Covers

/-- The program contains a piece that has been built on a draft. -/
structure Program.Loads {α : Type} (p : Program) (d : Draft) (piece : Piece α) : Prop where
  holds : p.Holds d.records piece.lines
  covers : p.Covers piece.draft

namespace Program.Loads

variable {p : Program} {d : Draft} {α β : Type} {x : Build α} {f : α → Build β}

/-- The first of two pieces is in the program. -/
theorem left [∀ a, Lawful (f a)] (h : p.Loads d ((x >>= f) d)) : p.Loads d (x d) where
  holds := h.holds.left
  covers := h.covers.of_precedes (precedes (x := f _) _)

/-- The second of two pieces is in the program. -/
theorem right [Lawful x] (h : p.Loads d ((x >>= f) d)) :
    p.Loads (x d).draft (f (x d).value (x d).draft) where
  holds := by
    rw [records]
    exact h.holds.right
  covers := h.covers

end Program.Loads

/-- An expression has a program if all parts of it fit in words. -/
theorem compile_eq_ok_iff {options : CompileOptions} {e : Expr} {p : Program} :
    compile options e = .ok p ↔
      (e.assembly options.macros).fits ∧ (e.assembly options.macros).toProgram = p := by
  rw [compile, Assembly.assemble]
  split <;> simp_all

/-- An assembly that fits is the program. -/
theorem compile_of_fits {options : CompileOptions} {e : Expr}
    (h : (e.assembly options.macros).fits) :
    compile options e = .ok (e.assembly options.macros).toProgram :=
  compile_eq_ok_iff.2 ⟨h, rfl⟩

/-- The program of an expression contains its code. -/
theorem loads_of_compile {options : CompileOptions} {e : Expr} {p : Program}
    (h : compile options e = .ok p) : p.Loads {} (e.lowerWhole options.macros {}) := by
  obtain ⟨hfits, rfl⟩ := compile_eq_ok_iff.1 h
  obtain ⟨hregisters, hlines⟩ := Bool.and_eq_true_iff.1 hfits
  refine ⟨⟨fun l hl => List.all_eq_true.1 hlines l hl, fun k l hk => ?_⟩, ?_⟩
  · rw [Nat.zero_add]
    exact Assembly.fetch_toProgram _ hk
  · refine ⟨?_, List.prefix_rfl, List.prefix_rfl, List.prefix_rfl, List.prefix_rfl⟩
    exact Nat.le_of_eq (toNat_ofNat_of_lt (of_decide_eq_true hregisters)).symm

end ExprMachine
