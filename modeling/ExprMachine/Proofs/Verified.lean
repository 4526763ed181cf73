import ExprMachine.Proofs.SoundExpressions

/-!
# Programs of expressions are verified

The program of an expression passes every check but those of its size. Its layout
is that of the lines that have been built, of which all but the last are sound;
so its faults are those of lines that are well formed, and there are none
(`Program.faults_of_compile`).
-/

namespace ExprMachine

open Build

namespace Program

variable {p : Program} {d : Draft} {l : Line} {operand : Operand} {n : Nat}

theorem indexFaults_eq_nil (pool : Pool) (hn : n < wordLimit) (h : n < p.poolSize pool)
    (offset : Nat) : p.indexFaults offset pool (.ofNat n) = [] := by
  simp [indexFaults, faultIf, toNat_ofNat_of_lt hn, h]

/-- What a slot may hold in a draft is no fault in a program that has all of the
    draft. -/
theorem slotFaults_eq_nil (hp : p.Covers d) (hn : n < wordLimit) (h : d.Admits operand n)
    (offset slot : Nat) : p.slotFaults offset slot operand (.ofNat n) = [] := by
  cases operand with
  | unused =>
    obtain rfl : n = 0 := h
    rfl
  | register =>
    have hlt := Nat.lt_of_lt_of_le h hp.registers
    simp [slotFaults, faultIf, UInt32.le_iff_toNat_le, toNat_ofNat_of_lt hn, hlt]
  | constant =>
    have hlt := Nat.lt_of_lt_of_le h hp.constants.length_le
    exact indexFaults_eq_nil .constants hn hlt offset
  | string =>
    have hlt := Nat.lt_of_lt_of_le h hp.strings.length_le
    exact indexFaults_eq_nil .strings hn hlt offset
  | messageFields =>
    have hlt := Nat.lt_of_lt_of_le h hp.messageFields.length_le
    exact indexFaults_eq_nil .messageFields hn hlt offset
  | operator =>
    obtain ⟨op, rfl⟩ := h
    simp [slotFaults, faultIf, toNat_ofNat_of_lt hn, BinaryOperator.ofIndex?_index]
  | role =>
    obtain ⟨role, rfl⟩ := h
    simp [slotFaults, faultIf, ConditionRole.ofTag?_tag]
  | target | count => rfl

/-- The operands of a record are those of the line that it has been made from. -/
theorem exists_of_mem_operands (h : l.WellFormed d) {slot : Nat} {w : UInt32}
    (hm : (slot, operand, w) ∈ l.toInstruction.operands) :
    ∃ n ∈ l.slots, w = .ofNat n ∧ d.Admits operand n := by
  have hslots : l.toInstruction.slots = l.slots.map UInt32.ofNat := rfl
  have hzip := (List.of_mem_zip hm).2
  rw [hslots, List.zip_map_right] at hzip
  obtain ⟨⟨o, n⟩, hmem, heq⟩ := List.mem_map.1 hzip
  cases heq
  exact ⟨n, (List.of_mem_zip hmem).2, rfl, (List.forall₂_iff_zip.1 h.slots).2 hmem⟩

/-- The run of registers that a record reads has been handed out. -/
theorem run_le (hp : p.Covers d) (hfits : l.fits) (h : d.HasRun l) {first count : Nat}
    (hrun : p.registerRun? l.toInstruction = some (first, count)) :
    first + count ≤ p.registers.toNat := by
  obtain ⟨-, -, h₁, h₂, h₃⟩ := Line.fits_iff.1 hfits
  have hop₁ : l.toInstruction.op1.toNat = l.op1 := toNat_ofNat_of_lt h₁
  have hop₂ : l.toInstruction.op2.toNat = l.op2 := toNat_ofNat_of_lt h₂
  have hop₃ : l.toInstruction.op3.toNat = l.op3 := toNat_ofNat_of_lt h₃
  refine Nat.le_trans ?_ hp.registers
  rw [registerRun?, hop₁, hop₂, hop₃] at hrun
  split at hrun
  case h_5 => cases hrun
  -- A message has as many values as there are names in the pool.
  case h_4 hop =>
    have hop : l.opcode = .makeMessage := hop
    simp only [Draft.HasRun, hop] at h
    obtain ⟨names, hnames, hle⟩ := h
    have hfields : p.messageFields[l.op2]? = some names := by
      rw [← Array.getElem?_toList]
      exact getElem?_mono hp.messageFields hnames
    rw [hfields] at hrun
    cases hrun
    exact hle
  all_goals
    rename_i hop
    have hop : l.opcode = _ := hop
    cases hrun
    simpa only [Draft.HasRun, hop] using h

theorem runFaults_eq_nil (hp : p.Covers d) (hfits : l.fits) (h : d.HasRun l) (offset : Nat) :
    p.runFaults offset l.toInstruction = [] := by
  rw [runFaults]
  split
  · rename_i first count hrun
    have hle := run_le hp hfits h hrun
    simp [faultIf, hle]
  · rfl

/-- A record that is well formed in a draft has no faults in a program that has
    all of the draft. -/
theorem referenceFaults_eq_nil (hp : p.Covers d) (hfits : l.fits) (h : l.WellFormed d)
    (offset : Nat) : p.referenceFaults offset l.toInstruction = [] := by
  have hspan : l.span < p.poolSize .spans := Nat.lt_of_lt_of_le h.span hp.spans.length_le
  refine List.append_eq_nil_iff.2 ⟨List.append_eq_nil_iff.2 ⟨?_, ?_⟩, ?_⟩
  · refine List.flatMap_eq_nil_iff.2 fun ⟨slot, operand, w⟩ hm => ?_
    obtain ⟨n, hn, rfl, hadmits⟩ := exists_of_mem_operands h hm
    exact slotFaults_eq_nil hp (Line.lt_of_mem_slots hfits hn) hadmits offset slot
  · exact indexFaults_eq_nil .spans (Line.fits_iff.1 hfits).1 hspan offset
  · exact runFaults_eq_nil hp hfits h.run offset

/-- The targets of a record lead to records if there are more than those before
    the end of the draft. -/
theorem targetFaults_eq_nil {lines : List Line} (hfits : l.fits) (h : l.WellFormed d)
    (hd : d.records < lines.length) (offset : Nat) :
    (Layout.ofLines lines).targetFaults offset l.toInstruction = [] := by
  refine List.flatMap_eq_nil_iff.2 fun ⟨slot, operand, w⟩ hm => ?_
  obtain ⟨n, hn, rfl, hadmits⟩ := exists_of_mem_operands h hm
  cases operand with
  | target =>
    obtain ⟨k, hk, rfl⟩ := hadmits
    have hindex : (Layout.ofLines lines).indexOf? (UInt32.ofNat (stride * k)).toNat = some k := by
      rw [toNat_ofNat_of_lt (Line.lt_of_mem_slots hfits hn),
        Layout.indexOf?_ofLines (Nat.lt_of_le_of_lt hk hd)]
    simp only [hindex]
    rfl
  | _ => rfl

end Program

/-! ## Programs -/

/-- An assembly is made of sound code and a record that returns. All its records
    refer to what a draft has, which ends where the sound code does. -/
structure Assembly.Closes (a : Assembly) (lines : List Line) (last : Line) (d : Draft) : Prop where
  lines_eq : a.lines = lines ++ [last]
  returns : last.opcode = .return
  structured : Structured 0 lines
  records : d.records = lines.length
  wellFormed : ∀ l ∈ lines ++ [last], l.WellFormed d

namespace Assembly.Closes

open Program

variable {a : Assembly} {lines : List Line} {last : Line} {d : Draft}
  (h : a.Closes lines last d) (hfits : a.fits)
include h

theorem layout : a.toProgram.layout = .ofLines (lines ++ [last]) := by
  rw [layout_toProgram, h.lines_eq]

theorem nestingFaults_eq_nil : nestingFaults 0 a.toProgram.layout.records = [] := by
  have hscope : last.opcode.isScope = false := congrArg Opcode.isScope h.returns
  rw [h.layout, Layout.ofLines, located_append, h.structured.nestingFaults_append]
  exact nestingFaults_cons hscope 0 _ []

include hfits

theorem line_fits {l : Line} (hl : l ∈ lines ++ [last]) : l.fits := by
  rw [← h.lines_eq] at hl
  exact List.all_eq_true.1 (Bool.and_eq_true_iff.1 hfits).2 l hl

theorem layoutFaults_eq_nil : a.toProgram.layoutFaults = [] := by
  have hend : (Layout.ofLines (lines ++ [last])).endFaults = [] := by
    have hlast : last.toInstruction.opcode = .return := h.returns
    rw [Layout.endFaults, Layout.ofLines, located_append]
    simp [located, faultIf, hlast]
  have hd : d.records < (lines ++ [last]).length := by
    rw [h.records, List.length_append]
    exact Nat.lt_succ_self _
  rw [layoutFaults, readFaults_toProgram, h.layout, List.nil_append]
  refine List.append_eq_nil_iff.2 ⟨hend, List.flatMap_eq_nil_iff.2 fun r hr => ?_⟩
  obtain ⟨offset, i⟩ := r
  obtain ⟨l, hl, rfl⟩ := Layout.mem_of_mem_records hr
  exact targetFaults_eq_nil (h.line_fits hfits hl) (h.wellFormed l hl) hd offset

theorem guardFaults_eq_nil : a.toProgram.layout.guardFaults = [] := by
  rw [h.layout]
  refine Layout.guardFaults_ofLines (fun l hl => ?_) h.structured ?_
  · exact h.line_fits hfits (List.mem_append_left _ hl)
  · rw [h.returns]
    rfl

theorem referenceFaults_eq_nil (hp : a.toProgram.Covers d) :
    (a.toProgram.layout.records.flatMap fun (offset, i) => a.toProgram.referenceFaults offset i) =
      [] := by
  rw [h.layout]
  refine List.flatMap_eq_nil_iff.2 fun r hr => ?_
  obtain ⟨offset, i⟩ := r
  obtain ⟨l, hl, rfl⟩ := Layout.mem_of_mem_records hr
  exact Program.referenceFaults_eq_nil hp (h.line_fits hfits hl) (h.wellFormed l hl) offset

end Assembly.Closes

/-- The assembly of an expression closes its code. -/
theorem Expr.exists_closes_assembly (macros : Bool) (e : Expr) :
    ∃ (lines : List Line) (last : Line) (d : Draft), (e.assembly macros).Closes lines last d ∧
      ∀ p : Program, p.Covers (e.lowerWhole macros {}).draft → p.Covers d := by
  have hsound := e.sound_lower macros {}
  let d := (e.lower macros {}).draft
  -- The last record adds to the pools, but no target refers to the place after it.
  let d' : Draft := { d with spans := (intern d.spans e.span).2 }
  have hg : d.Grows d' := ⟨{ Draft.Precedes.refl d with spans := prefix_intern _ _ }, Nat.le_refl _⟩
  let last : Line := ⟨.return, 0, (e.lower macros {}).value, 0, 0, (intern d.spans e.span).1⟩
  refine ⟨(e.lower macros {}).lines, last, d', ⟨rfl, rfl, hsound.structured, ?_, fun l hl => ?_⟩,
    fun p hp => ?_⟩
  · exact (records (x := e.lower macros) {}).trans (Nat.zero_add _)
  · rcases List.mem_append.1 hl with hl | hl
    · exact (hsound.wellFormed l hl).mono hg
    · obtain rfl := List.mem_singleton.1 hl
      exact ⟨slots rfl rfl hsound.post rfl rfl, intern_lt_length _ _, trivial⟩
  · exact ⟨hp.registers, hp.constants, hp.strings, hp.spans, hp.messageFields⟩

namespace Program

variable {options : CompileOptions} {e : Expr} {p : Program}

/-- The program of an expression can be read and has no faults but those of its
    size, so that it is sound if it has none of these. -/
theorem faults_of_compile (h : compile options e = .ok p) :
    p.layoutFaults = [] ∧ p.layout.readable ∧
      (p.layout.records.flatMap fun (offset, i) => p.referenceFaults offset i) = [] ∧
      p.layout.guardFaults = [] ∧ nestingFaults 0 p.layout.records = [] ∧
      (p.isSound ↔ p.sizeFaults = []) := by
  have hcovers := (loads_of_compile h).covers
  obtain ⟨hfits, rfl⟩ := compile_eq_ok_iff.1 h
  obtain ⟨lines, last, d, hcloses, hd⟩ := e.exists_closes_assembly options.macros
  have hlayout := hcloses.layoutFaults_eq_nil hfits
  have hreferences := hcloses.referenceFaults_eq_nil hfits (hd _ hcovers)
  have hguards := hcloses.guardFaults_eq_nil hfits
  have hnesting := hcloses.nestingFaults_eq_nil
  have hreadable : (e.assembly options.macros).toProgram.layout.readable := by
    rw [hcloses.layout]
    rfl
  refine ⟨hlayout, hreadable, hreferences, hguards, hnesting, ?_⟩
  rw [isSound, faults, if_pos hreadable, recordFaults, hlayout, hreferences, hguards, hnesting,
    List.append_nil, List.append_nil, List.append_nil, List.append_nil, List.isEmpty_iff]

/-- The expression `[[]].map(x, x.exists(y, y && z) ? {} : f())`. -/
def choiceInMap : Expr :=
  .method (.list [.list [] ⟨1, 3⟩] ⟨0, 4⟩) "map"
    [.ident "x" ⟨9, 10⟩, .conditional
      (.method (.ident "x" ⟨12, 13⟩) "exists"
        [.ident "y" ⟨21, 22⟩,
          .binary .logicalAnd (.ident "y" ⟨24, 25⟩) (.ident "z" ⟨29, 30⟩) ⟨24, 30⟩] ⟨12, 31⟩)
      (.map [] ⟨34, 36⟩) (.call "f" [] ⟨39, 42⟩) ⟨12, 42⟩] ⟨0, 43⟩

/-- A loop in a loop, jumps of every sort, and runs without registers. -/
theorem isSound_choiceInMap : ∃ p, compile {} choiceInMap = .ok p ∧ p.isSound := by
  have hcompile : compile {} choiceInMap = .ok (choiceInMap.assembly true).toProgram :=
    compile_of_fits (by decide +kernel)
  have hsize : (choiceInMap.assembly true).toProgram.sizeFaults = [] := by decide +kernel
  obtain ⟨-, -, -, -, -, hsound⟩ := faults_of_compile hcompile
  exact ⟨_, hcompile, hsound.2 hsize⟩

end Program

end ExprMachine
