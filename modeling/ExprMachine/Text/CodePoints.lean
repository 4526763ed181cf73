/-!
# Sets of code points

A property of characters is kept as the set of the code points that have it: the
closed ranges of these, in order and apart from each other. So a search need go
no further than the first range that does not end before the code point, and what
it finds there decides (`inRanges_iff`).
-/

namespace ExprMachine.Text

/-- Whether closed ranges are in order and apart, and none of them is empty. -/
def areApart : List (Nat × Nat) → Bool
  | [] => true
  | [r] => decide (r.1 ≤ r.2)
  | r :: r' :: rest => decide (r.1 ≤ r.2) && decide (r.2 < r'.1) && areApart (r' :: rest)

/-- Whether a code point is in one of some closed ranges, which are in order and
    apart. -/
def inRanges : List (Nat × Nat) → Nat → Bool
  | [], _ => false
  | r :: rest, n => if n ≤ r.2 then decide (r.1 ≤ n) else inRanges rest n

/-- What comes after a range begins beyond its end. -/
theorem lt_of_areApart {r r' : Nat × Nat} {rest : List (Nat × Nat)}
    (h : areApart (r :: rest)) (hr' : r' ∈ rest) : r.2 < r'.1 := by
  induction rest generalizing r with
  | nil => cases hr'
  | cons q rest ih =>
    simp only [areApart, Bool.and_eq_true, decide_eq_true_eq] at h
    obtain ⟨⟨-, hlt⟩, hrest⟩ := h
    rcases List.mem_cons.1 hr' with rfl | hmem
    · exact hlt
    · have hq : q.1 ≤ q.2 := by
        cases rest <;> simp only [areApart, Bool.and_eq_true, decide_eq_true_eq] at hrest <;> omega
      have := ih hrest hmem
      omega

theorem areApart_tail {r : Nat × Nat} {rest : List (Nat × Nat)} (h : areApart (r :: rest)) :
    areApart rest := by
  cases rest with
  | nil => rfl
  | cons q rest =>
    simp only [areApart, Bool.and_eq_true] at h
    exact h.2

/-- The search finds every range. -/
theorem inRanges_iff {ranges : List (Nat × Nat)} (h : areApart ranges) (n : Nat) :
    inRanges ranges n ↔ ∃ r ∈ ranges, r.1 ≤ n ∧ n ≤ r.2 := by
  induction ranges with
  | nil => simp [inRanges]
  | cons r rest ih =>
    simp only [inRanges, List.mem_cons, exists_eq_or_imp]
    split
    · rename_i hle
      rw [decide_eq_true_eq]
      refine ⟨fun hr => .inl ⟨hr, hle⟩, ?_⟩
      rintro (⟨hr, -⟩ | ⟨r', hr', hfirst, -⟩)
      · exact hr
      · -- A later range begins beyond this one, and so beyond the code point.
        have := lt_of_areApart h hr'
        omega
    · rename_i hgt
      rw [ih (areApart_tail h)]
      exact ⟨.inr, fun hr => hr.resolve_left fun hr => hgt hr.2⟩

/-- A set of code points. -/
structure CodePoints where
  /-- The closed ranges of its members. -/
  ranges : List (Nat × Nat)
  /-- They are in order and apart. -/
  apart : areApart ranges

namespace CodePoints

/-- Whether a character is in a set. -/
def contains (s : CodePoints) (c : Char) : Bool := inRanges s.ranges c.toNat

theorem contains_iff (s : CodePoints) (c : Char) :
    s.contains c ↔ ∃ r ∈ s.ranges, r.1 ≤ c.toNat ∧ c.toNat ≤ r.2 :=
  inRanges_iff s.apart c.toNat

end CodePoints

end ExprMachine.Text
