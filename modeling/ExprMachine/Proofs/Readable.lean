import ExprMachine.Proofs.RecordStream
import ExprMachine.Proofs.SoundPrograms

/-!
# What the checks read

The words of a program are read in three ways:

* one record at a time, at the offset that an execution has come to (`Program.fetch`);
* all records one after another, up to the first error (`Program.decodeAll`);
* all whole records for the checks, those that cannot be decoded left out
  (`Program.layout`).

The three see the same records (`Program.layout_iff_decodeAll`). A program of which
one way of reading leaves something out is refused by the others: words beyond the
last whole record and records that cannot be decoded are what keeps a program from
being readable, and each is a fault of its own (`Program.unread`).
-/

namespace ExprMachine.Program

variable {p : Program} {rs : List (Nat × Instruction)}

/-! ## Offsets -/

theorem mem_wholeOffsets {offset : Nat} :
    offset ∈ p.wholeOffsets ↔ ∃ k < p.length, offset = stride * k := by
  simp [wholeOffsets, eq_comm]

theorem pairwise_wholeOffsets (p : Program) : p.wholeOffsets.Pairwise (· < ·) := by
  refine List.pairwise_map.2 (List.pairwise_lt_range.imp fun {j k} h => ?_)
  exact Nat.mul_lt_mul_of_pos_left h (by decide)

/-- If no words are left over, the offsets of all records are those of the whole ones. -/
theorem offsets_eq_wholeOffsets (h : stride ∣ p.code.size) : p.offsets = p.wholeOffsets := by
  obtain ⟨n, hn⟩ := h
  have hlength : p.length = n := by
    rw [length, hn]
    exact Nat.mul_div_cancel_left n (by decide)
  have hcount : (p.code.size + (stride - 1)) / stride = n := by
    rw [hn, Nat.mul_add_div (by decide)]
    rfl
  rw [offsets, wholeOffsets, hlength, hcount]

/-- A program whose records can all be read has no words left over. -/
theorem dvd_size_of_decodeAll (h : p.decodeAll = .ok rs) : stride ∣ p.code.size := by
  refine ⟨rs.length, ?_⟩
  rw [← Array.length_toList, ← encode_of_decodeAll h, length_flatMap_encode, List.length_map]

/-- A record is found at whole records only. -/
theorem exists_place_of_fetch (h : stride ∣ p.code.size) {offset : Nat} {i : Instruction}
    (hi : p.fetch offset = .ok i) : ∃ k < p.length, offset = stride * k := by
  have hlt := lt_size_of_fetch hi
  have haligned : offset % stride = 0 := by
    rw [fetch] at hi
    by_contra hne
    rw [if_pos hne] at hi
    cases hi
  refine ⟨offset / stride, Nat.div_lt_div_of_lt_of_dvd h hlt, ?_⟩
  exact (Nat.mul_div_cancel' (Nat.dvd_of_mod_eq_zero haligned)).symm

/-! ## Readable programs -/

theorem readable_iff : p.layout.readable ↔
    stride ∣ p.code.size ∧ ∀ offset ∈ p.wholeOffsets, ∃ i, p.fetch offset = .ok i := by
  have hok : ∀ offset, (p.fetch offset).isOk = true ↔ ∃ i, p.fetch offset = .ok i := by
    intro offset
    cases p.fetch offset <;> simp [Except.isOk, Except.toBool]
  simp only [layout, Bool.and_eq_true, decide_eq_true_eq, List.all_eq_true, hok,
    Nat.dvd_iff_mod_eq_zero]

/-- The layout of a program whose records can all be read has these records. -/
theorem layout_of_decodeAll (h : p.decodeAll = .ok rs) : p.layout = ⟨rs, true⟩ := by
  have hdvd := dvd_size_of_decodeAll h
  obtain ⟨hoffsets, hfetch⟩ := decodeAll_eq_ok_iff.1 h
  rw [offsets_eq_wholeOffsets hdvd] at hoffsets
  have hreadable : p.layout.readable = true := by
    refine readable_iff.2 ⟨hdvd, fun offset hoffset => ?_⟩
    rw [← hoffsets] at hoffset
    obtain ⟨r, hr, rfl⟩ := List.mem_map.1 hoffset
    exact ⟨r.2, hfetch r hr⟩
  have hrecords : p.layout.records = rs := by
    simp only [layout, ← hoffsets, List.filterMap_map]
    calc _ = rs.filterMap some := List.filterMap_congr fun r hr => by simp [hfetch r hr]
      _ = rs := List.filterMap_some
  rw [← hreadable, ← hrecords]

/-- All records of a program can be read exactly if the checks can read it. -/
theorem readable_iff_decodeAll : p.layout.readable ↔ ∃ rs, p.decodeAll = .ok rs := by
  constructor
  · intro h
    obtain ⟨hdvd, hfetch⟩ := readable_iff.1 h
    have : Nonempty Instruction := ⟨⟨.return, 0, 0, 0, 0, 0⟩⟩
    choose! read hread using hfetch
    refine ⟨p.wholeOffsets.map fun offset => (offset, read offset), decodeAll_eq_ok_iff.2 ⟨?_, ?_⟩⟩
    · rw [List.map_map, offsets_eq_wholeOffsets hdvd]
      exact List.map_id _
    · intro r hr
      obtain ⟨offset, hoffset, rfl⟩ := List.mem_map.1 hr
      exact hread offset hoffset
  · rintro ⟨rs, h⟩
    rw [layout_of_decodeAll h]

/-- The records of a readable layout are those that are read. -/
theorem decodeAll_of_layout (h : p.layout = ⟨rs, true⟩) : p.decodeAll = .ok rs := by
  obtain ⟨rs', hrs⟩ := readable_iff_decodeAll.1 (congrArg Layout.readable h)
  rw [layout_of_decodeAll hrs] at h
  obtain ⟨rfl, -⟩ := Layout.mk.inj h
  exact hrs

/-- A readable layout has one record for each place. -/
theorem length_of_decodeAll (h : p.decodeAll = .ok rs) : rs.length = p.length := by
  obtain ⟨hoffsets, -⟩ := decodeAll_eq_ok_iff.1 h
  rw [offsets_eq_wholeOffsets (dvd_size_of_decodeAll h)] at hoffsets
  have hlength := congrArg List.length hoffsets
  rwa [List.length_map, wholeOffsets, List.length_map, List.length_range] at hlength

/-- The layout of a readable program has a position for an offset exactly if a record
    can be fetched there, and at this position it has the record fetched. -/
theorem indexOf?_of_decodeAll (h : p.decodeAll = .ok rs) (offset : Nat) :
    ((p.layout.indexOf? offset).isSome ↔ (p.fetch offset).isOk) ∧
      ∀ k, p.layout.indexOf? offset = some k →
        ∃ i, p.fetch offset = .ok i ∧ rs[k]? = some (offset, i) := by
  obtain ⟨hoffsets, hfetch⟩ := decodeAll_eq_ok_iff.1 h
  have hdvd := dvd_size_of_decodeAll h
  rw [offsets_eq_wholeOffsets hdvd] at hoffsets
  -- What is at a position of the layout has been fetched at the offset of this position.
  have hat : ∀ k, p.layout.indexOf? offset = some k →
      ∃ i, p.fetch offset = .ok i ∧ rs[k]? = some (offset, i) := by
    intro k hk
    rw [layout_of_decodeAll h, Layout.indexOf?, Option.ite_none_right_eq_some] at hk
    obtain ⟨⟨haligned, hlt⟩, hk⟩ := hk
    obtain rfl := Option.some.inj hk
    have hplace : rs[offset / stride]?.map Prod.fst = some offset := by
      rw [← List.getElem?_map, hoffsets, wholeOffsets, List.getElem?_map,
        List.getElem?_range (length_of_decodeAll h ▸ hlt), Option.map_some,
        Nat.mul_div_cancel' (Nat.dvd_of_mod_eq_zero haligned)]
    obtain ⟨⟨_, i⟩, hr, rfl⟩ := Option.map_eq_some_iff.1 hplace
    exact ⟨i, hfetch _ (List.mem_of_getElem? hr), hr⟩
  refine ⟨⟨fun hsome => ?_, fun hok => ?_⟩, hat⟩
  · obtain ⟨k, hk⟩ := Option.isSome_iff_exists.1 hsome
    obtain ⟨i, hi, -⟩ := hat k hk
    rw [hi]
    rfl
  · cases hi : p.fetch offset with
    | error reason =>
      rw [hi] at hok
      cases hok
    | ok i =>
      obtain ⟨k, hk, rfl⟩ := exists_place_of_fetch hdvd hi
      rw [layout_of_decodeAll h, Layout.indexOf?, if_pos]
      · rfl
      · refine ⟨Nat.mul_mod_right _ _, ?_⟩
        rw [Nat.mul_div_cancel_left k (by decide), length_of_decodeAll h]
        exact hk

/-! ## Programs that cannot be read -/

/-- The whole records that cannot be decoded, by their offsets, with the reasons. -/
def unread (p : Program) : List (Nat × DecodeError) :=
  p.wholeOffsets.filterMap fun offset =>
    match p.fetch offset with
    | .ok _ => none
    | .error reason => some (offset, reason)

theorem mem_unread {offset : Nat} {reason : DecodeError} : (offset, reason) ∈ p.unread ↔
    ∃ k < p.length, offset = stride * k ∧ p.fetch offset = .error reason := by
  -- An offset has an entry exactly if no record can be fetched there.
  have hentry : ∀ o, (match p.fetch o with
      | .ok _ => none
      | .error e => some (o, e)) = some (offset, reason) ↔
        o = offset ∧ p.fetch offset = .error reason := by
    intro o
    split <;> rename_i hfetch
    · refine ⟨nofun, ?_⟩
      rintro ⟨rfl, herror⟩
      rw [hfetch] at herror
      cases herror
    · rw [Option.some.injEq, Prod.mk.injEq]
      refine and_congr_right ?_
      rintro rfl
      rw [hfetch, Except.error.injEq]
  simp only [unread, List.mem_filterMap, hentry, mem_wholeOffsets]
  constructor
  · rintro ⟨_, ⟨k, hk, hplace⟩, rfl, herror⟩
    exact ⟨k, hk, hplace, herror⟩
  · rintro ⟨k, hk, hplace, herror⟩
    exact ⟨offset, ⟨k, hk, hplace⟩, rfl, herror⟩

/-- No record is met twice, and all are met in their order. -/
theorem pairwise_unread (p : Program) : p.unread.Pairwise fun u v => u.1 < v.1 := by
  refine (pairwise_wholeOffsets p).filterMap _ fun o o' hlt u hu v hv => ?_
  have hoffset : ∀ {o u}, (match p.fetch o with
      | .ok _ => none
      | .error e => some (o, e)) = some u → u.1 = o := by
    intro o u hu
    split at hu <;> cases hu
    rfl
  rwa [hoffset hu, hoffset hv]

theorem readFaults_eq (p : Program) : p.readFaults =
    (if stride ∣ p.code.size then [] else [.partialRecord p.code.size]) ++
      p.unread.map fun u => .undecodable u.1 u.2 := by
  have hpartial : faultIf (p.code.size % stride ≠ 0) (.partialRecord p.code.size) =
      if stride ∣ p.code.size then [] else [.partialRecord p.code.size] := by
    by_cases h : stride ∣ p.code.size <;> simp [faultIf, h, ← Nat.dvd_iff_mod_eq_zero]
  rw [readFaults, hpartial, unread, List.map_filterMap]
  congr 2
  funext offset
  cases p.fetch offset <;> rfl

/-- The checks, the reading of all records and the reading of one record see the same.

    A program is readable exactly if all its records can be decoded. Then its layout has
    these records, and it has a position for exactly the offsets at which a record can be
    fetched, with this record there. The faults of a program that is not readable are that
    its words are not whole records, if they are not, and one for each whole record that
    cannot be decoded, in their order. -/
theorem layout_iff_decodeAll (p : Program) :
    (p.layout.readable ↔ ∃ rs, p.decodeAll = .ok rs) ∧
      (∀ rs, p.decodeAll = .ok rs → p.layout.records = rs ∧ ∀ offset,
        ((p.layout.indexOf? offset).isSome ↔ (p.fetch offset).isOk) ∧
          ∀ k, p.layout.indexOf? offset = some k →
            ∃ i, p.fetch offset = .ok i ∧ p.layout.records[k]? = some (offset, i)) ∧
      (p.layout.readable = false → p.layoutFaults =
        (if stride ∣ p.code.size then [] else [.partialRecord p.code.size]) ++
          p.unread.map fun u => .undecodable u.1 u.2) ∧
      (p.unread.Pairwise fun u v => u.1 < v.1) ∧
      ∀ offset reason, (offset, reason) ∈ p.unread ↔
        ∃ k < p.length, offset = stride * k ∧ p.fetch offset = .error reason := by
  refine ⟨readable_iff_decodeAll, fun rs h => ?_, fun h => ?_, pairwise_unread p,
    fun _ _ => mem_unread⟩
  · have hrecords : p.layout.records = rs := by rw [layout_of_decodeAll h]
    refine ⟨hrecords, ?_⟩
    rw [hrecords]
    exact indexOf?_of_decodeAll h
  · rw [layoutFaults, h, readFaults_eq, if_neg Bool.false_ne_true, List.append_nil]

/-- One record of blank memory, and one word left over. -/
example : { code := #[0, 0, 0, 0, 0, 0, 22] : Program }.layoutFaults =
    [.partialRecord 7, .undecodable 0 .illegalOpcode] := by decide

end ExprMachine.Program
