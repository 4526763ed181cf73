import Mathlib.Data.List.Forall2
import Mathlib.Tactic.Choose
import ExprMachine.Program.Verification
import ExprMachine.Proofs.Steps

/-!
# What sound programs are

The checks of a program answer with lists of faults. That these are empty says
of the records what executing them relies on: they can all be fetched, they
refer to what the program has (`Program.Refers`), their targets are records, and
the last one returns (`Program.Checked`).

Nothing else is known of a sound program; it may come from anywhere.
-/

namespace ExprMachine.Program

variable {p : Program}

/-- What a slot of a record may hold. -/
def Has (p : Program) (operand : Operand) (n : UInt32) : Prop :=
  match operand with
  | .unused => n = 0
  | .register => n.toNat < p.registers.toNat
  | .constant => n.toNat < p.constants.size
  | .string => n.toNat < p.strings.size
  | .messageFields => n.toNat < p.messageFields.size
  | .operator => (BinaryOperator.ofIndex? n.toNat).isSome
  | .role => (ConditionRole.ofTag? n).isSome
  | .target => ∃ k < p.length, n.toNat = stride * k
  | .count => True

/-- A record refers to what the program has. -/
structure Refers (p : Program) (i : Instruction) : Prop where
  slots : List.Forall₂ p.Has i.opcode.layout i.slots
  run : ∀ first count, p.registerRun? i = some (first, count) → 0 < count →
    first + count ≤ p.registers.toNat

/-- The records of a program, by their places, can be fetched and refer to what
    the program has, and the last one returns. -/
structure Checked (p : Program) (record : Nat → Instruction) : Prop where
  size : p.code.size = stride * p.length
  pos : 0 < p.length
  fetch : ∀ k < p.length, p.fetch (stride * k) = .ok (record k)
  refers : ∀ k < p.length, p.Refers (record k)
  returns : (record (p.length - 1)).opcode = .return

theorem faultIf_eq_nil {condition : Bool} {fault : Fault} :
    faultIf condition fault = [] ↔ condition = false := by
  cases condition <;> simp [faultIf]

/-- A slot without faults holds what it may hold. Targets are checked apart. -/
theorem has_of_slotFaults {operand : Operand} {n : UInt32} {offset slot : Nat}
    (h : p.slotFaults offset slot operand n = []) (htarget : operand = .target → p.Has .target n) :
    p.Has operand n := by
  cases operand with
  | target => exact htarget rfl
  | count => trivial
  | unused => simpa [Has, slotFaults, faultIf_eq_nil] using h
  | register => simpa [Has, slotFaults, faultIf_eq_nil, UInt32.lt_iff_toNat_lt] using h
  | constant | string | messageFields =>
    exact Nat.lt_of_not_le (of_decide_eq_false (faultIf_eq_nil.1 h))
  | operator | role => simpa [Has, slotFaults, faultIf_eq_nil, Option.isSome_iff_ne_none] using h

/-! ## Layouts -/

/-- The layout has the records of a program in their places, if all can be fetched. -/
theorem records_layout {record : Nat → Instruction}
    (h : ∀ k < p.length, p.fetch (stride * k) = .ok (record k)) :
    p.layout.records = (List.range p.length).map fun k => (stride * k, record k) := by
  simp only [layout, wholeOffsets, List.filterMap_map]
  rw [← List.filterMap_eq_map]
  refine List.filterMap_congr fun k hk => ?_
  simp [h k (List.mem_range.1 hk)]

/-- The records of a program that can be read, by their places. -/
theorem exists_records (h : p.readFaults = []) : ∃ record : Nat → Instruction,
    (∀ k < p.length, p.fetch (stride * k) = .ok (record k)) ∧
      p.layout.records = (List.range p.length).map fun k => (stride * k, record k) := by
  have hread : ∀ offset ∈ p.wholeOffsets, ∃ i, p.fetch offset = .ok i := by
    intro offset hoffset
    have hnone := List.filterMap_eq_nil_iff.1 (List.append_eq_nil_iff.1 h).2 offset hoffset
    split at hnone
    · exact ⟨_, ‹_›⟩
    · cases hnone
  -- Beyond the end of the program, any record will do.
  have hplace : ∀ k, ∃ i, k < p.length → p.fetch (stride * k) = .ok i := by
    intro k
    by_cases hk : k < p.length
    · obtain ⟨i, hi⟩ := hread (stride * k) (List.mem_map.2 ⟨k, List.mem_range.2 hk, rfl⟩)
      exact ⟨i, fun _ => hi⟩
    · exact ⟨⟨.return, 0, 0, 0, 0, 0⟩, fun hk' => absurd hk' hk⟩
  choose record hrecord using hplace
  exact ⟨record, hrecord, records_layout hrecord⟩

theorem readable_of_readFaults (h : p.readFaults = []) : p.layout.readable := by
  obtain ⟨hsize, -⟩ := List.append_eq_nil_iff.1 h
  obtain ⟨record, hfetch, -⟩ := exists_records h
  have hsize : p.code.size % stride = 0 := by simpa [faultIf_eq_nil] using hsize
  simp only [layout, hsize, decide_true, Bool.true_and, List.all_eq_true]
  intro offset hoffset
  obtain ⟨k, hk, rfl⟩ := List.mem_map.1 hoffset
  rw [hfetch k (List.mem_range.1 hk)]
  rfl

/-- The last record of a layout without faults returns. -/
theorem returns_of_endFaults {n : Nat} {record : Nat → Instruction} {l : Layout}
    (h : l.endFaults = [])
    (hrecords : l.records = (List.range n).map fun k => (stride * k, record k)) :
    0 < n ∧ (record (n - 1)).opcode = .return := by
  have hlast := faultIf_eq_nil.1 h
  rw [hrecords] at hlast
  cases n with
  | zero => simp at hlast
  | succ n => simpa [List.range_succ] using hlast

/-- Every slot is an operand, with a number. -/
theorem exists_mem_operands {i : Instruction} {operand : Operand} {n : UInt32}
    (h : (operand, n) ∈ i.opcode.layout.zip i.slots) : ∃ slot, (slot, operand, n) ∈ i.operands := by
  have hlength : (i.opcode.layout.zip i.slots).length ≤ (List.range 4).length := by
    rw [List.length_zip, i.opcode.length_layout]
    exact Nat.min_le_left _ _
  rw [← List.map_snd_zip hlength] at h
  obtain ⟨⟨slot, _⟩, hslot, rfl⟩ := List.mem_map.1 h
  exact ⟨slot, hslot⟩

/-- The targets of a record without faults are records. -/
theorem has_of_targetFaults {offset : Nat} {i : Instruction} {n : UInt32}
    (hlength : p.layout.records.length = p.length) (h : p.layout.targetFaults offset i = [])
    (hn : (Operand.target, n) ∈ i.opcode.layout.zip i.slots) : p.Has .target n := by
  obtain ⟨slot, hslot⟩ := exists_mem_operands hn
  have hnone : (p.layout.indexOf? n.toNat).isNone = false :=
    faultIf_eq_nil.1 (List.flatMap_eq_nil_iff.1 h _ hslot)
  rw [Layout.indexOf?, hlength] at hnone
  split at hnone
  · rename_i hindex
    exact ⟨n.toNat / stride, hindex.2, (Nat.mul_div_cancel' (Nat.dvd_of_mod_eq_zero hindex.1)).symm⟩
  · cases hnone

/-- A record without faults refers to what the program has. -/
theorem refers_of_faults {offset : Nat} {i : Instruction}
    (hlength : p.layout.records.length = p.length) (htargets : p.layout.targetFaults offset i = [])
    (h : p.referenceFaults offset i = []) : p.Refers i := by
  obtain ⟨hfirst, hrun⟩ := List.append_eq_nil_iff.1 h
  obtain ⟨hslots, -⟩ := List.append_eq_nil_iff.1 hfirst
  refine ⟨List.forall₂_iff_zip.2 ⟨i.opcode.length_layout, fun {operand n} hn => ?_⟩, ?_⟩
  · obtain ⟨slot, hslot⟩ := exists_mem_operands hn
    refine has_of_slotFaults (List.flatMap_eq_nil_iff.1 hslots _ hslot) fun hoperand => ?_
    rw [hoperand] at hn
    exact has_of_targetFaults hlength htargets hn
  · intro first count hfirst hcount
    rw [runFaults, hfirst] at hrun
    simpa [faultIf_eq_nil, hcount] using hrun

/-- All that the checks say of a sound program. -/
theorem exists_checked (h : p.isSound) : ∃ record, p.Checked record := by
  have hfaults : p.faults = [] := List.isEmpty_iff.1 h
  obtain ⟨hfirst, hrecordFaults⟩ := List.append_eq_nil_iff.1 hfaults
  obtain ⟨-, hlayout⟩ := List.append_eq_nil_iff.1 hfirst
  obtain ⟨hread, hflow⟩ := List.append_eq_nil_iff.1 hlayout
  have hreadable := readable_of_readFaults hread
  rw [if_pos hreadable] at hflow hrecordFaults
  obtain ⟨hend, htargets⟩ := List.append_eq_nil_iff.1 hflow
  obtain ⟨hfirst, -⟩ := List.append_eq_nil_iff.1 hrecordFaults
  obtain ⟨hreferences, -⟩ := List.append_eq_nil_iff.1 hfirst
  obtain ⟨record, hfetch, hrecords⟩ := exists_records hread
  obtain ⟨hpos, hreturns⟩ := returns_of_endFaults hend hrecords
  refine ⟨record, ⟨?_, hpos, hfetch, fun k hk => ?_, hreturns⟩⟩
  · have hsize : p.code.size % stride = 0 := by
      simpa [faultIf_eq_nil] using (List.append_eq_nil_iff.1 hread).1
    exact (Nat.mul_div_cancel' (Nat.dvd_of_mod_eq_zero hsize)).symm
  · have hmem : (stride * k, record k) ∈ p.layout.records := by
      rw [hrecords]
      exact List.mem_map.2 ⟨k, List.mem_range.2 hk, rfl⟩
    refine refers_of_faults ?_ (List.flatMap_eq_nil_iff.1 htargets _ hmem)
      (List.flatMap_eq_nil_iff.1 hreferences _ hmem)
    rw [hrecords, List.length_map, List.length_range]

end ExprMachine.Program
