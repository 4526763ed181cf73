/-!
# Entries

A finite table kept as the list of its entries, in the order in which the keys
first arrived: the fields of a message, the entries of a map, the variables of
a scope, the overloads of a function. Inserting at a present key replaces the
value and moves nothing (`keys_insert_of_mem`); inserting at an absent key
appends (`keys_insert_of_not_mem`). What a table holds at a key after an
insertion is stated by `get?_insert`.
-/

namespace ExprMachine

/-- The entries of a table, in the order of arrival of their keys. -/
abbrev Entries (κ α : Type) := List (κ × α)

namespace Entries

variable {κ α : Type} [DecidableEq κ]

/-- The value at a key. -/
def get? : Entries κ α → κ → Option α
  | [], _ => none
  | (j, v) :: rest, k => if j = k then some v else get? rest k

/-- Whether a key is present. -/
def contains (t : Entries κ α) (k : κ) : Bool := (t.get? k).isSome

/-- The table with `v` at `k`. A present key keeps its place. -/
def insert : Entries κ α → κ → α → Entries κ α
  | [], k, v => [(k, v)]
  | (j, w) :: rest, k, v => if j = k then (j, v) :: rest else (j, w) :: insert rest k v

/-- The table without the key `k`. -/
def erase : Entries κ α → κ → Entries κ α
  | [], _ => []
  | (j, w) :: rest, k => if j = k then erase rest k else (j, w) :: erase rest k

/-- The keys, in order of arrival. -/
def keys (t : Entries κ α) : List κ := t.map Prod.fst

/-- The table that holds the given pairs: of two pairs with one key, the place
    of the first and the value of the last. -/
def ofPairs (pairs : List (κ × α)) : Entries κ α :=
  pairs.foldl (fun t p => t.insert p.1 p.2) []

/-- The table with further pairs inserted one after another, or the first pair
    whose key is present by then. -/
def extend (t : Entries κ α) : List (κ × α) → Except (κ × α) (Entries κ α)
  | [] => .ok t
  | (k, v) :: rest => if t.contains k then .error (k, v) else (t.insert k v).extend rest

/-- After an insertion, the key holds the inserted value and every other key
    what it held. -/
theorem get?_insert (t : Entries κ α) (k : κ) (v : α) (i : κ) :
    (t.insert k v).get? i = if k = i then some v else t.get? i := by
  induction t with
  | nil => rfl
  | cons p rest ih =>
    obtain ⟨j, w⟩ := p
    by_cases hj : j = k
    · subst hj
      by_cases hi : j = i <;> simp [insert, get?, hi]
    · by_cases hi : j = i
      · subst hi
        simp [insert, get?, hj, Ne.symm hj]
      · simp [insert, get?, hj, hi, ih]

/-- After an erasure, the key is absent and every other key holds what it held. -/
theorem get?_erase (t : Entries κ α) (k i : κ) :
    (t.erase k).get? i = if k = i then none else t.get? i := by
  induction t with
  | nil => simp [erase, get?]
  | cons p rest ih =>
    obtain ⟨j, w⟩ := p
    by_cases hj : j = k
    · subst hj
      by_cases hi : j = i
      · subst hi
        simp [erase, ih]
      · simp [erase, get?, hi, ih]
    · by_cases hi : j = i
      · subst hi
        simp [erase, get?, hj, Ne.symm hj]
      · simp [erase, get?, hj, hi, ih]

/-- The keys of a table are those at which it holds a value. -/
theorem mem_keys_iff (t : Entries κ α) (k : κ) : k ∈ t.keys ↔ (t.get? k).isSome := by
  induction t with
  | nil => simp [keys, get?]
  | cons p rest ih =>
    obtain ⟨j, w⟩ := p
    by_cases hj : j = k
    · simp [keys, get?, hj]
    · have hk : k ≠ j := fun h => hj h.symm
      simp only [keys, List.map_cons, List.mem_cons, hk, false_or, get?, hj, if_false]
      exact ih

/-- Inserting at a present key moves nothing. -/
theorem keys_insert_of_mem (t : Entries κ α) (k : κ) (v : α) (h : k ∈ t.keys) :
    (t.insert k v).keys = t.keys := by
  induction t with
  | nil => simp [keys] at h
  | cons p rest ih =>
    obtain ⟨j, w⟩ := p
    by_cases hj : j = k
    · simp [insert, keys, hj]
    · have hk : k ≠ j := fun h => hj h.symm
      simp only [keys, List.map_cons, List.mem_cons, hk, false_or] at h
      have := ih h
      simp only [keys] at this
      simp [insert, keys, hj, this]

/-- A new key goes to the end. -/
theorem keys_insert_of_not_mem (t : Entries κ α) (k : κ) (v : α) (h : k ∉ t.keys) :
    (t.insert k v).keys = t.keys ++ [k] := by
  induction t with
  | nil => rfl
  | cons p rest ih =>
    obtain ⟨j, w⟩ := p
    simp only [keys, List.map_cons, List.mem_cons, not_or] at h
    have := ih h.2
    simp only [keys] at this
    simp [insert, keys, Ne.symm h.1, this]

/-- Insertion keeps the keys distinct. -/
theorem nodup_keys_insert (t : Entries κ α) (k : κ) (v : α) (h : t.keys.Nodup) :
    (t.insert k v).keys.Nodup := by
  by_cases hk : k ∈ t.keys
  · rw [keys_insert_of_mem t k v hk]; exact h
  · rw [keys_insert_of_not_mem t k v hk]
    exact List.nodup_append.2 ⟨h, by simp, by
      intro a ha b hb hab
      rw [List.mem_singleton.1 hb] at hab
      exact hk (hab ▸ ha)⟩

end Entries

end ExprMachine
