import ExprMachine.Program.Verification
import ExprMachine.Proofs.Loading

/-!
# The structure of code

The records of an expression are not in any order. A scope that is entered is
left at the end of the code inside it, and a conditional jump stands where
something makes sure that it sees a boolean: after a check of its register, or
before an operand that `&&` or `||` joins to it (`Structured`).

The structure is told from the records one by one, so it is a grammar, and what
is asked of the jumps and the scopes of a program holds of structured code by
induction (`Structured.guardFaults_eq_nil`, `Structured.nestingFaults_append`).
-/

namespace ExprMachine

/-- The records that enter and leave scopes. -/
def Opcode.isScope : Opcode → Bool
  | .scopePush | .scopePop => true
  | _ => false

/-- The records that may stand anywhere. -/
def Opcode.isPlain (op : Opcode) : Bool := !op.isConditionalJump && !op.isScope

theorem Opcode.isScope_of_isConditionalJump {op : Opcode} (h : op.isConditionalJump) :
    op.isScope = false := by
  cases op <;> first | rfl | cases h

/-- A record that checks that a register holds a boolean. -/
structure Line.Checks (l : Line) (r : Nat) : Prop where
  opcode : l.opcode = .condCheck
  op1 : l.op1 = r

/-- A record that applies `&&` or `||`, with the result in a register. -/
structure Line.Joins (l : Line) (r : Nat) : Prop where
  opcode : l.opcode = .binaryOp
  dst : l.dst = r
  op2 : (BinaryOperator.ofIndex? l.op2).any BinaryOperator.isShortCircuit

/-- Code that is structured, from a place on. -/
inductive Structured : Nat → List Line → Prop where
  | nil {place : Nat} : Structured place []
  | append {place : Nat} {xs ys : List Line} (hx : Structured place xs)
      (hy : Structured (place + xs.length) ys) : Structured place (xs ++ ys)
  | plain {place : Nat} {l : Line} (h : l.opcode.isPlain) : Structured place [l]
  | checked {place : Nat} {check jump : Line} (hcheck : check.Checks jump.dst)
      (hjump : jump.opcode.isConditionalJump) : Structured place [check, jump]
  | joined {place : Nat} {jump join : Line} {xs : List Line} (hx : Structured (place + 1) xs)
      (hjump : jump.opcode.isConditionalJump) (hop1 : jump.op1 = stride * (place + xs.length + 2))
      (hjoin : join.Joins jump.dst) : Structured place (jump :: (xs ++ [join]))
  | scope {place : Nat} {enter leave : Line} {xs : List Line} (hx : Structured (place + 1) xs)
      (henter : enter.opcode = .scopePush) (hleave : leave.opcode = .scopePop) :
      Structured place (enter :: (xs ++ [leave]))

/-- The records of some lines, from a place on, with their offsets. -/
def located : Nat → List Line → List (Nat × Instruction)
  | _, [] => []
  | place, l :: rest => (stride * place, l.toInstruction) :: located (place + 1) rest

section

variable (place : Nat) (xs ys : List Line)

theorem located_append :
    located place (xs ++ ys) = located place xs ++ located (place + xs.length) ys := by
  induction xs generalizing place with
  | nil => rfl
  | cons l rest ih =>
    rw [List.cons_append, located, ih, located, List.cons_append, List.length_cons, Nat.add_assoc,
      Nat.add_comm 1]

theorem getElem?_located (k : Nat) :
    (located place xs)[k]? = xs[k]?.map fun l => (stride * (place + k), l.toInstruction) := by
  induction xs generalizing place k with
  | nil => rfl
  | cons l rest ih =>
    cases k with
    | zero => rfl
    | succ k =>
      rw [located, List.getElem?_cons_succ, ih, List.getElem?_cons_succ, Nat.add_assoc,
        Nat.add_comm 1]

theorem length_located : (located place xs).length = xs.length := by
  induction xs generalizing place with
  | nil => rfl
  | cons l rest ih => rw [located, List.length_cons, ih, List.length_cons]

end

/-! ## Layouts -/

/-- The layout of lines that are the records of a program. -/
def Program.Layout.ofLines (lines : List Line) : Program.Layout := ⟨located 0 lines, true⟩

namespace Program.Layout

variable {lines : List Line} {k : Nat}

theorem record?_ofLines (lines : List Line) (k : Nat) :
    (ofLines lines).record? k = lines[k]?.map Line.toInstruction := by
  rw [record?, ofLines, getElem?_located, Option.map_map]
  rfl

theorem indexOf?_ofLines (h : k < lines.length) :
    (ofLines lines).indexOf? (stride * k) = some k := by
  have hpos : 0 < stride := by decide
  rw [indexOf?, Nat.mul_mod_right, Nat.mul_div_cancel_left k hpos, ofLines, length_located,
    if_pos ⟨rfl, h⟩]

theorem exists_of_getElem?_records {offset : Nat} {i : Instruction}
    (h : (ofLines lines).records[k]? = some (offset, i)) :
    ∃ l, lines[k]? = some l ∧ i = l.toInstruction := by
  rw [ofLines, getElem?_located] at h
  obtain ⟨l, hl, heq⟩ := Option.map_eq_some_iff.1 h
  cases heq
  exact ⟨l, hl, rfl⟩

theorem mem_of_mem_records {offset : Nat} {i : Instruction}
    (h : (offset, i) ∈ (ofLines lines).records) : ∃ l ∈ lines, i = l.toInstruction := by
  obtain ⟨k, hk⟩ := List.mem_iff_getElem?.1 h
  obtain ⟨l, hl, hi⟩ := exists_of_getElem?_records hk
  exact ⟨l, List.mem_of_getElem? hl, hi⟩

end Program.Layout

/-- Reading the records of lines one after another, from a place on. -/
theorem filterMap_range'_eq_located (lines : List Line) (place : Nat)
    (g : Nat → Option (Nat × Instruction)) (h : ∀ (k : Nat) (l : Line), lines[k]? = some l →
      g (place + k) = some (stride * (place + k), l.toInstruction)) :
    (List.range' place lines.length).filterMap g = located place lines := by
  induction lines generalizing place with
  | nil => rfl
  | cons l rest ih =>
    have hhead : g place = some (stride * place, l.toInstruction) := h 0 l rfl
    have htail : (List.range' (place + 1) rest.length).filterMap g = located (place + 1) rest := by
      refine ih _ fun k m hk => ?_
      have hnext := h (k + 1) m hk
      rwa [Nat.add_comm k, ← Nat.add_assoc] at hnext
    rw [List.length_cons, List.range'_succ, List.filterMap_cons_some hhead, htail, located]

namespace Assembly

open Program

variable (a : Assembly)

theorem filterMap_wholeOffsets {α : Type} (g : Nat → Option α) :
    a.toProgram.wholeOffsets.filterMap g =
      (List.range a.lines.length).filterMap fun k => g (stride * k) := by
  rw [wholeOffsets, length_toProgram, List.filterMap_map]
  rfl

theorem fetch_wholeOffsets {offset : Nat} (h : offset ∈ a.toProgram.wholeOffsets) :
    ∃ i, a.toProgram.fetch offset = .ok i := by
  rw [wholeOffsets, length_toProgram] at h
  obtain ⟨k, hk, rfl⟩ := List.mem_map.1 h
  have hk := List.mem_range.1 hk
  exact ⟨_, fetch_toProgram a (List.getElem?_eq_getElem hk)⟩

/-- All records of an assembled program can be read. -/
theorem readFaults_toProgram : a.toProgram.readFaults = [] := by
  rw [readFaults, size_code, Nat.mul_mod_right, List.append_eq_nil_iff]
  refine ⟨rfl, List.filterMap_eq_nil_iff.2 fun offset h => ?_⟩
  obtain ⟨i, hi⟩ := fetch_wholeOffsets a h
  rw [hi]

/-- The layout of an assembled program is that of its lines. -/
theorem layout_toProgram : a.toProgram.layout = .ofLines a.lines := by
  have hreadable : a.toProgram.layout.readable = true := by
    simp only [layout, a.size_code, Nat.mul_mod_right, decide_true, Bool.true_and, List.all_eq_true]
    intro offset h
    obtain ⟨i, hi⟩ := fetch_wholeOffsets a h
    rw [hi]
    rfl
  have hrecords : a.toProgram.layout.records = located 0 a.lines := by
    rw [layout, filterMap_wholeOffsets, List.range_eq_range']
    refine filterMap_range'_eq_located _ _ _ fun k l hk => ?_
    rw [Nat.zero_add, fetch_toProgram a hk]
  rw [Layout.ofLines, ← hrecords, ← hreadable]

end Assembly

/-! ## Guards -/

/-- A conditional jump, at a place among some lines, is guarded. -/
def Guarded (place : Nat) (lines : List Line) (k : Nat) (jump : Line) : Prop :=
  ∃ (j : Nat) (l : Line), lines[j]? = some l ∧
    (j + 1 = k ∧ l.Checks jump.dst ∨ jump.op1 = stride * (place + j + 1) ∧ l.Joins jump.dst)

namespace Guarded

variable {place k : Nat} {xs ys : List Line} {jump : Line}

theorem left (h : Guarded place xs k jump) : Guarded place (xs ++ ys) k jump := by
  obtain ⟨j, l, hl, h⟩ := h
  exact ⟨j, l, getElem?_mono (List.prefix_append _ _) hl, h⟩

theorem right (h : Guarded (place + xs.length) ys k jump) :
    Guarded place (xs ++ ys) (xs.length + k) jump := by
  obtain ⟨j, l, hl, h⟩ := h
  refine ⟨xs.length + j, l, ?_, ?_⟩
  · rw [List.getElem?_append_right (Nat.le_add_right _ _), Nat.add_sub_cancel_left, hl]
  · rwa [Nat.add_assoc, Nat.add_left_cancel_iff, ← Nat.add_assoc]

/-- What is guarded in some code is guarded where the code is enclosed. -/
theorem enclosed {l m : Line} (h : Guarded (place + 1) xs k jump) :
    Guarded place (l :: (xs ++ [m])) (k + 1) jump := by
  have h' : Guarded place ([l] ++ (xs ++ [m])) (1 + k) jump := h.left.right
  rwa [Nat.add_comm] at h'

end Guarded

/-- What is found between two lines is one of them or lies between them. -/
theorem getElem?_enclosed {xs : List Line} {l m n : Line} {k : Nat}
    (h : (l :: (xs ++ [m]))[k]? = some n) :
    k = 0 ∧ l = n ∨ (∃ i, k = i + 1 ∧ xs[i]? = some n) ∨ m = n := by
  cases k with
  | zero => exact .inl ⟨rfl, Option.some.inj h⟩
  | succ i =>
    rw [List.getElem?_cons_succ] at h
    rcases Nat.lt_or_ge i xs.length with hlt | hge
    · rw [List.getElem?_append_left hlt] at h
      exact .inr (.inl ⟨i, rfl, h⟩)
    · rw [List.getElem?_append_right hge] at h
      exact .inr (.inr (List.mem_singleton.1 (List.mem_of_getElem? h)).symm)

namespace Structured

variable {place : Nat} {lines : List Line}

/-- The conditional jumps of structured code are guarded. -/
theorem guarded (h : Structured place lines) {k : Nat} {jump : Line} (hk : lines[k]? = some jump)
    (hjump : jump.opcode.isConditionalJump) : Guarded place lines k jump := by
  induction h generalizing k with
  | nil => cases hk
  | @append place xs ys _ _ ihx ihy =>
    rcases Nat.lt_or_ge k xs.length with hlt | hge
    · rw [List.getElem?_append_left hlt] at hk
      exact (ihx hk).left
    · obtain ⟨k, rfl⟩ := Nat.exists_eq_add_of_le hge
      rw [List.getElem?_append_right hge, Nat.add_sub_cancel_left] at hk
      exact (ihy hk).right
  | plain hplain =>
    obtain rfl := List.mem_singleton.1 (List.mem_of_getElem? hk)
    simp [Opcode.isPlain, hjump] at hplain
  | @checked place check _ hcheck _ =>
    match k with
    | 0 =>
      obtain rfl := Option.some.inj hk
      rw [hcheck.opcode] at hjump
      cases hjump
    | 1 =>
      obtain rfl := Option.some.inj hk
      exact ⟨0, check, rfl, .inl ⟨rfl, hcheck⟩⟩
    | _ + 2 => cases hk
  | @joined place jump' join xs hx _ hop1 hjoin ih =>
    rcases getElem?_enclosed hk with ⟨rfl, rfl⟩ | ⟨i, rfl, hi⟩ | rfl
    · -- The record before the target is the last one.
      refine ⟨xs.length + 1, join, List.getElem?_concat_length, .inr ⟨?_, hjoin⟩⟩
      rw [hop1, Nat.add_assoc, Nat.add_assoc]
    · exact (ih hi).enclosed
    · rw [hjoin.opcode] at hjump
      cases hjump
  | scope hx henter hleave ih =>
    rcases getElem?_enclosed hk with ⟨-, rfl⟩ | ⟨i, rfl, hi⟩ | rfl
    · rw [henter] at hjump
      cases hjump
    · exact (ih hi).enclosed
    · rw [hleave] at hjump
      cases hjump

end Structured

namespace Program.Layout

variable {lines : List Line} {l : Line} {k : Nat}

/-- A jump that is guarded by a line is guarded by its record, if another line
    follows them. -/
theorem isGuarded_ofLines (last : Line) (hfits : ∀ l ∈ lines, l.fits) (hl : lines[k]? = some l)
    (h : Guarded 0 lines k l) : (ofLines (lines ++ [last])).isGuarded k l.toInstruction := by
  obtain ⟨j, g, hg, h⟩ := h
  have hrecord : (ofLines (lines ++ [last])).record? j = some g.toInstruction := by
    rw [record?_ofLines, getElem?_mono (List.prefix_append _ _) hg, Option.map_some]
  obtain ⟨hj, -⟩ := List.getElem?_eq_some_iff.1 hg
  rcases h with ⟨rfl, hcheck⟩ | ⟨hop1, hjoin⟩
  · have hchecks : checks g.toInstruction l.toInstruction.dst := by
      simp [checks, Line.toInstruction, hcheck.opcode, hcheck.op1]
    simp [isGuarded, before?, hrecord, hchecks]
  · have htarget : l.toInstruction.op1.toNat = stride * (j + 1) := by
      rw [← Nat.zero_add j, ← hop1]
      exact toNat_ofNat_of_lt (Line.fits_iff.1 (hfits l (List.mem_of_getElem? hl))).2.2.1
    have hindex : (ofLines (lines ++ [last])).indexOf? (stride * (j + 1)) = some (j + 1) :=
      indexOf?_ofLines (by simpa using hj)
    have hop2 : g.toInstruction.op2.toNat = g.op2 :=
      toNat_ofNat_of_lt (Line.fits_iff.1 (hfits g (List.mem_of_getElem? hg))).2.2.2.1
    have hjoins : joins g.toInstruction l.toInstruction.dst := by
      rw [joins, hop2, hjoin.op2]
      simp [Line.toInstruction, hjoin.opcode, hjoin.dst]
    simp [isGuarded, htarget, hindex, before?, hrecord, hjoins]

/-- The conditional jumps of structured code are guarded in the layout. -/
theorem guardFaults_ofLines {last : Line} (hfits : ∀ l ∈ lines, l.fits) (h : Structured 0 lines)
    (hlast : last.opcode.isPlain) : (ofLines (lines ++ [last])).guardFaults = [] := by
  refine List.flatMap_eq_nil_iff.2 fun ⟨⟨offset, i⟩, k⟩ hk => ?_
  obtain ⟨l, hl, rfl⟩ := exists_of_getElem?_records (List.mk_mem_zipIdx_iff_getElem?.1 hk)
  by_cases hjump : l.opcode.isConditionalJump
  · -- The last record is no jump, so this one lies in the structured code.
    have hk : k < lines.length := by
      refine Nat.lt_of_not_le fun hle => ?_
      rw [List.getElem?_append_right hle] at hl
      obtain rfl := List.mem_singleton.1 (List.mem_of_getElem? hl)
      simp [Opcode.isPlain, hjump] at hlast
    rw [List.getElem?_append_left hk] at hl
    have hguarded := isGuarded_ofLines last hfits hl (h.guarded hl hjump)
    simp [faultIf, hguarded]
  · simp [faultIf, Line.toInstruction, hjump]

end Program.Layout

/-! ## Scopes -/

open Program

theorem nestingFaults_cons {l : Line} (h : l.opcode.isScope = false) (depth offset : Nat)
    (rest : List (Nat × Instruction)) :
    nestingFaults depth ((offset, l.toInstruction) :: rest) = nestingFaults depth rest := by
  have hop : l.toInstruction.opcode = l.opcode := rfl
  simp only [nestingFaults, hop]
  split <;> simp_all [Opcode.isScope]

/-- Structured code has left all scopes that it has entered. -/
theorem Structured.nestingFaults_append {place : Nat} {lines : List Line}
    (h : Structured place lines) (depth : Nat) (rest : List (Nat × Instruction)) :
    nestingFaults depth (located place lines ++ rest) = nestingFaults depth rest := by
  induction h generalizing depth rest with
  | nil => rfl
  | append _ _ ihx ihy => rw [located_append, List.append_assoc, ihx, ihy]
  | plain hplain => exact nestingFaults_cons (by simp_all [Opcode.isPlain]) _ _ _
  | checked hcheck hjump =>
    have hop : (_ : Line).opcode.isScope = false := congrArg Opcode.isScope hcheck.opcode
    exact (nestingFaults_cons hop _ _ _).trans
      (nestingFaults_cons (Opcode.isScope_of_isConditionalJump hjump) _ _ _)
  | joined hx hjump _ hjoin ih =>
    have hop : (_ : Line).opcode.isScope = false := congrArg Opcode.isScope hjoin.opcode
    rw [located, located_append, List.cons_append, List.append_assoc,
      nestingFaults_cons (Opcode.isScope_of_isConditionalJump hjump), ih]
    exact nestingFaults_cons hop _ _ _
  | @scope place enter leave xs hx henter hleave ih =>
    have henter : enter.toInstruction.opcode = .scopePush := henter
    have hleave : leave.toInstruction.opcode = .scopePop := hleave
    rw [located, located_append, List.cons_append, List.append_assoc]
    simp only [nestingFaults, henter, ih, located, List.cons_append, hleave, List.nil_append]

end ExprMachine
