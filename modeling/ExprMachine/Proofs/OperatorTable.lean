import Mathlib.Tactic.Common
import ExprMachine.Standard

/-!
# What the table of binary operators holds

No two lookups share a slot of the flat table (`BinaryTable.slot_injective`). So the
handler that is found for an operator and two kinds is one of those registered for
them (`BinaryTable.mem_of_get?_ofOverloads`), whatever else has been registered. Where
the kinds registered for an operator are distinct, the table finds exactly the handlers
that have been registered (`BinaryTable.get?_ofOverloads`).

The standard registry has no handler for `&&` and `||` but the one for two booleans
(`Standard.kinds_of_isShortCircuit`).
-/

namespace ExprMachine

/-- Operators are told apart by their indices. -/
theorem BinaryOperator.index_injective : Function.Injective BinaryOperator.index := by
  intro op op' h
  have hread := op.ofIndex?_index
  rw [h, op'.ofIndex?_index] at hread
  exact (Option.some.inj hread).symm

namespace BinaryTable

variable {op op' : Nat} {left left' right right' : Kind} {handler handler' : BinaryHandler}
  {t : BinaryTable}

theorem slot_injective (h : slot op left right = slot op' left' right') :
    op = op' ∧ left = left' ∧ right = right' := by
  have hleft := left.index_lt_count
  have hleft' := left'.index_lt_count
  have hright := right.index_lt_count
  have hright' := right'.index_lt_count
  simp only [slot, Kind.count] at *
  exact ⟨by omega, Kind.index_injective (by omega), Kind.index_injective (by omega)⟩

theorem get?_empty : empty.get? op left right = none := by
  rw [get?, empty, Array.getElem?_replicate]
  split_ifs <;> rfl

/-- What is found after an insertion has been inserted, or was there before. -/
theorem get?_insert_eq_some
    (h : (t.insert op left right handler).get? op' left' right' = some handler') :
    (op = op' ∧ left = left' ∧ right = right' ∧ handler = handler') ∨
      t.get? op' left' right' = some handler' := by
  rw [get?] at h ⊢
  split_ifs at h ⊢ with hop
  rw [insert, Array.getElem?_setIfInBounds] at h
  split_ifs at h with hslot
  · obtain ⟨rfl, rfl, rfl⟩ := slot_injective hslot
    exact .inl ⟨rfl, rfl, rfl, Option.some.inj h⟩
  · cases h
  · exact .inr h

theorem get?_insertAll_eq_some {o : BinaryOperator}
    {overloads : Entries (Kind × Kind) BinaryHandler}
    (h : (t.insertAll o overloads).get? op' left' right' = some handler') :
    (o.index = op' ∧ ((left', right'), handler') ∈ overloads) ∨
      t.get? op' left' right' = some handler' := by
  rw [insertAll] at h
  induction overloads generalizing t with
  | nil => exact .inr h
  | cons first rest ih =>
    rcases ih h with ⟨hop, hmem⟩ | hget
    · exact .inl ⟨hop, List.mem_cons_of_mem first hmem⟩
    · rcases get?_insert_eq_some hget with ⟨hop, rfl, rfl, rfl⟩ | hget
      · exact .inl ⟨hop, List.mem_cons_self⟩
      · exact .inr hget

section

variable {o : BinaryOperator}
  {overloads : Entries BinaryOperator (Entries (Kind × Kind) BinaryHandler)}

theorem get?_foldl_insertAll_eq_some {ops : List BinaryOperator}
    (h : (ops.foldl (fun t op => t.insertAll op ((overloads.get? op).getD [])) t).get?
      o.index left right = some handler) :
    ((left, right), handler) ∈ (overloads.get? o).getD [] ∨
      t.get? o.index left right = some handler := by
  induction ops generalizing t with
  | nil => exact .inr h
  | cons first rest ih =>
    rcases ih h with hmem | hget
    · exact .inl hmem
    · rcases get?_insertAll_eq_some hget with ⟨hindex, hmem⟩ | hget
      · obtain rfl := BinaryOperator.index_injective hindex
        exact .inl hmem
      · exact .inr hget

/-- What is found in the table of all overloads is registered for the operator and the
    kinds that it is sought for. -/
theorem mem_of_get?_ofOverloads
    (h : (ofOverloads overloads).get? o.index left right = some handler) :
    ((left, right), handler) ∈ (overloads.get? o).getD [] :=
  (get?_foldl_insertAll_eq_some h).resolve_right (by rw [get?_empty]; nofun)

/-- A table has a slot for every operator and every pair of kinds. -/
def Complete (t : BinaryTable) : Prop :=
  t.slots.size = BinaryOperator.count * Kind.count * Kind.count

theorem complete_empty : empty.Complete := Array.size_replicate

theorem Complete.insert (h : t.Complete) : (t.insert op left right handler).Complete :=
  (Array.size_setIfInBounds ..).trans h

theorem Complete.insertAll (h : t.Complete) (sub : Entries (Kind × Kind) BinaryHandler) :
    (t.insertAll o sub).Complete := by
  rw [BinaryTable.insertAll]
  induction sub generalizing t with
  | nil => exact h
  | cons first rest ih => exact ih h.insert

theorem slot_lt (hop : op < BinaryOperator.count) :
    slot op left right < BinaryOperator.count * Kind.count * Kind.count := by
  have hleft := left.index_lt_count
  have hright := right.index_lt_count
  simp only [slot, BinaryOperator.count, Kind.count] at *
  omega

/-- After an insertion, the operator has the handler for the two kinds, and every
    other lookup finds what it found. -/
theorem get?_insert (ht : t.Complete) (hop : op < BinaryOperator.count) :
    (t.insert op left right handler).get? op' left' right' =
      if op = op' ∧ left = left' ∧ right = right' then some handler
      else t.get? op' left' right' := by
  rw [get?, insert, Array.getElem?_setIfInBounds, get?]
  by_cases heq : op = op' ∧ left = left' ∧ right = right'
  · obtain ⟨rfl, rfl, rfl⟩ := heq
    have hslot : slot op left right < t.slots.size := ht ▸ slot_lt hop
    simp [hop, hslot]
  · have hne : slot op left right ≠ slot op' left' right' := fun h => heq (slot_injective h)
    simp [heq, hne]

/-- All overloads of an operator are found, if their keys are distinct, and every
    other lookup finds what it found. -/
theorem get?_insertAll (ht : t.Complete) (sub : Entries (Kind × Kind) BinaryHandler)
    (hsub : sub.keys.Nodup) :
    (t.insertAll o sub).get? op' left' right' =
      if o.index = op' then (sub.get? (left', right')).or (t.get? op' left' right')
      else t.get? op' left' right' := by
  rw [insertAll]
  induction sub generalizing t with
  | nil => simp [Entries.get?]
  | cons first rest ih =>
    obtain ⟨⟨left, right⟩, handler⟩ := first
    obtain ⟨hfirst, hrest⟩ := List.nodup_cons.1 hsub
    rw [List.foldl_cons, ih ht.insert hrest, get?_insert ht o.index_lt_count, Entries.get?]
    by_cases hop : o.index = op'
    · by_cases hkey : (left, right) = (left', right')
      · -- The key of the first overload is not among the others.
        have hnone : Entries.get? rest (left', right') = none := by
          rw [← Option.not_isSome_iff_eq_none, ← Entries.mem_keys_iff, ← hkey]
          exact hfirst
        cases hkey
        simp [hop, hnone]
      · have hne : ¬(left = left' ∧ right = right') := fun h => hkey (Prod.ext h.1 h.2)
        simp [hop, hkey, hne]
    · simp [hop]

/-- The table that is filled with the overloads of one operator after another. -/
def fill (overloads : BinaryOperator → Entries (Kind × Kind) BinaryHandler) : BinaryTable :=
  BinaryOperator.all.foldl (fun t op => t.insertAll op (overloads op)) empty

/-- A table finds what it has been filled with. -/
theorem get?_fill {overloads : BinaryOperator → Entries (Kind × Kind) BinaryHandler}
    (hnodup : ∀ op, (overloads op).keys.Nodup) :
    (fill overloads).get? o.index left right = (overloads o).get? (left, right) := by
  -- Whatever has been inserted for operators so far, their lookups find it.
  have hfold (ops : List BinaryOperator) (t : BinaryTable) (ht : t.Complete) :
      (ops.foldl (fun t op => t.insertAll op (overloads op)) t).get? o.index left right =
        if o ∈ ops then ((overloads o).get? (left, right)).or (t.get? o.index left right)
        else t.get? o.index left right := by
    induction ops generalizing t with
    | nil => simp
    | cons first rest ih =>
      rw [List.foldl_cons, ih _ (ht.insertAll _), get?_insertAll ht _ (hnodup first)]
      by_cases hfirst : first = o
      · subst hfirst
        cases Entries.get? (overloads first) (left, right) <;> simp
      · have hindex : first.index ≠ o.index := fun h => hfirst (BinaryOperator.index_injective h)
        simp [hindex, Ne.symm hfirst]
  have hall : o ∈ BinaryOperator.all := by cases o <;> decide
  rw [fill, hfold _ _ complete_empty, if_pos hall, get?_empty, Option.or_none]

theorem ofOverloads_eq_fill : ofOverloads overloads = fill fun op => (overloads.get? op).getD [] :=
  rfl

/-- The table of all overloads finds what the overloads of the operator hold. -/
theorem get?_ofOverloads (hnodup : ∀ op, ((overloads.get? op).getD []).keys.Nodup) :
    (ofOverloads overloads).get? o.index left right =
      ((overloads.get? o).getD []).get? (left, right) :=
  get?_fill hnodup

end

end BinaryTable

namespace Standard

theorem keys_logicalAnd :
    ((registry.binary.get? .logicalAnd).getD []).map Prod.fst = [(.bool, .bool)] := by
  decide +kernel

theorem keys_logicalOr :
    ((registry.binary.get? .logicalOr).getD []).map Prod.fst = [(.bool, .bool)] := by
  decide +kernel

/-- The operators `&&` and `||` take two booleans and nothing else. -/
theorem kinds_of_isShortCircuit {op : BinaryOperator} (hop : op.isShortCircuit)
    {left right : Kind} {handler : BinaryHandler}
    (h : registry.table.get? op.index left right = some handler) :
    left = .bool ∧ right = .bool := by
  rw [registry.table_eq] at h
  have hmem := List.mem_map_of_mem (f := Prod.fst) (BinaryTable.mem_of_get?_ofOverloads h)
  cases op with
  | logicalAnd =>
    rw [keys_logicalAnd, List.mem_singleton] at hmem
    cases hmem
    exact ⟨rfl, rfl⟩
  | logicalOr =>
    rw [keys_logicalOr, List.mem_singleton] at hmem
    cases hmem
    exact ⟨rfl, rfl⟩
  | _ => cases hop

end Standard

end ExprMachine
