import ExprMachine.Proofs.Coverage

/-!
# Values whose keys are told apart

A map may hold one integer under two keys, one of each kind. Where a value is sought, the
two stand for the same (`MapKey.norm`), so that a look-up is one by what the key stands for
if no map does this (`MapKey.lookup?_eq_get?_view`). The values in which none does are the
*separated* ones (`Value.Separated`).

What is asked of all maps in a value is a test that holds everywhere in it
(`Value.everywhere`), and what is proved of values is proved by induction over their parts
(`Value.induct`).
-/

namespace ExprMachine

namespace Value

/-! ## The parts of values -/

/-- The values that a list, a map or a message is made of. -/
def parts : Value → List Value
  | .list items => items
  | .map entries => entries.map Prod.snd
  | .message _ fields => fields.map Prod.snd
  | _ => []

/-- A part is smaller than the value, so that an induction over the parts ends. -/
theorem sizeOf_lt_of_mem_parts {v w : Value} (h : w ∈ v.parts) : sizeOf w < sizeOf v := by
  cases v with
  | list items =>
    have := List.sizeOf_lt_of_mem (show w ∈ items from h)
    simp only [list.sizeOf_spec]
    omega
  | map entries =>
    obtain ⟨⟨k, v⟩, he, rfl⟩ := List.mem_map.1 h
    have := List.sizeOf_lt_of_mem he
    simp only [Prod.mk.sizeOf_spec] at this
    simp only [map.sizeOf_spec]
    omega
  | message typeName fields =>
    obtain ⟨⟨name, v⟩, he, rfl⟩ := List.mem_map.1 h
    have := List.sizeOf_lt_of_mem he
    simp only [Prod.mk.sizeOf_spec] at this
    simp only [message.sizeOf_spec]
    omega
  | null | bool | int | uint | double | string | bytes => cases h

/-- Induction over values: what holds of every value if it holds of its parts, holds of all
    values. -/
theorem induct {P : Value → Prop} (step : ∀ v, (∀ w ∈ v.parts, P w) → P v) (v : Value) : P v :=
  step v fun w _ => induct step w
termination_by sizeOf v
decreasing_by exact sizeOf_lt_of_mem_parts ‹_›

mutual

/-- Whether a value, its parts, and all that they are made of pass a test. -/
def everywhere (test : Value → Bool) : Value → Bool
  | .list items => test (.list items) && everywhereInItems test items
  | .map entries => test (.map entries) && everywhereInEntries test entries
  | .message typeName fields =>
    test (.message typeName fields) && everywhereInFields test fields
  | v => test v

/-- Whether the items of a list pass a test everywhere. -/
def everywhereInItems (test : Value → Bool) : List Value → Bool
  | [] => true
  | v :: rest => everywhere test v && everywhereInItems test rest

/-- Whether the values of a map pass a test everywhere. -/
def everywhereInEntries (test : Value → Bool) : List (MapKey × Value) → Bool
  | [] => true
  | (_, v) :: rest => everywhere test v && everywhereInEntries test rest

/-- Whether the fields of a message pass a test everywhere. -/
def everywhereInFields (test : Value → Bool) : List (String × Value) → Bool
  | [] => true
  | (_, v) :: rest => everywhere test v && everywhereInFields test rest

end

/-- A test holds everywhere in a value if it holds of the value and everywhere in each part. -/
theorem everywhere_iff {test : Value → Bool} {v : Value} :
    v.everywhere test ↔ test v ∧ ∀ w ∈ v.parts, w.everywhere test := by
  -- The three lists of parts have functions of their own, which are gone through alike.
  have hitems (items : List Value) :
      everywhereInItems test items ↔ ∀ w ∈ items, w.everywhere test := by
    induction items with
    | nil => simp [everywhereInItems]
    | cons v rest ih => simp [everywhereInItems, ih]
  have hentries (entries : List (MapKey × Value)) :
      everywhereInEntries test entries ↔ ∀ w ∈ entries.map Prod.snd, w.everywhere test := by
    induction entries with
    | nil => simp [everywhereInEntries]
    | cons e rest ih =>
      rw [everywhereInEntries, Bool.and_eq_true, ih, List.map_cons, List.forall_mem_cons]
  have hfields (fields : List (String × Value)) :
      everywhereInFields test fields ↔ ∀ w ∈ fields.map Prod.snd, w.everywhere test := by
    induction fields with
    | nil => simp [everywhereInFields]
    | cons e rest ih =>
      rw [everywhereInFields, Bool.and_eq_true, ih, List.map_cons, List.forall_mem_cons]
  cases v with
  | list items => rw [everywhere, Bool.and_eq_true, hitems, parts]
  | map entries => rw [everywhere, Bool.and_eq_true, hentries, parts]
  | message typeName fields => rw [everywhere, Bool.and_eq_true, hfields, parts]
  | null | bool | int | uint | double | string | bytes => simp [everywhere, parts]

end Value

/-! ## Keys up to their kinds -/

/-- What a key stands for if the kinds of integers do not count. -/
inductive NormalKey where
  /-- An integer. -/
  | integer (i : Int)
  /-- A string. -/
  | string (s : String)
  deriving DecidableEq, Repr

namespace MapKey

/-- What a key stands for. -/
def norm : MapKey → NormalKey
  | .int i => .integer i.toInt
  | .uint u => .integer u.toNat
  | .string s => .string s

theorem toInt_ofNat_of_le_maxValue {n : Nat} (h : (n : Int) ≤ Int64.maxValue.toInt) :
    (Int64.ofNat n).toInt = n := by
  have hmax : Int64.maxValue.toInt = 2 ^ 63 - 1 := rfl
  exact Int64.toInt_ofNat_of_lt (by omega)

/-- The `uint` key for an integer is the twin of its `int` key. -/
theorem norm_int_eq_norm_uint_iff {i : Int64} {u : UInt64} :
    norm (.int i) = norm (.uint u) ↔ twin? (.int i) = some (.uint u) := by
  have hi := i.toInt_lt
  have hu := u.toNat_lt_size
  simp only [norm, NormalKey.integer.injEq, twin?, Option.ite_none_right_eq_some, Option.some.injEq,
    uint.injEq, ← UInt64.toNat_inj]
  constructor
  · intro h
    refine ⟨by omega, ?_⟩
    rw [UInt64.toNat_ofNat_of_lt' (by omega)]
    omega
  · rintro ⟨hle, h⟩
    rw [UInt64.toNat_ofNat_of_lt' (by simp only [UInt64.size]; omega)] at h
    omega

/-- The `int` key for an integer is the twin of its `uint` key. -/
theorem norm_uint_eq_norm_int_iff {i : Int64} {u : UInt64} :
    norm (.uint u) = norm (.int i) ↔ twin? (.uint u) = some (.int i) := by
  have hi := i.toInt_lt
  have hmax : Int64.maxValue.toInt = 2 ^ 63 - 1 := rfl
  simp only [norm, NormalKey.integer.injEq, twin?, Option.ite_none_right_eq_some, Option.some.injEq,
    int.injEq, ← Int64.toInt_inj]
  constructor
  · intro h
    have hle : (u.toNat : Int) ≤ Int64.maxValue.toInt := by omega
    exact ⟨hle, by rw [toInt_ofNat_of_le_maxValue hle, h]⟩
  · rintro ⟨hle, h⟩
    rw [← h, toInt_ofNat_of_le_maxValue hle]

/-- The twin of a key is the other key that stands for the same. -/
theorem twin?_eq_some_iff {k j : MapKey} : k.twin? = some j ↔ k.norm = j.norm ∧ k ≠ j := by
  cases k with
  | int i =>
    cases j with
    | int i' => simp [twin?, norm, Int64.toInt_inj]
    | uint u => simp [← norm_int_eq_norm_uint_iff]
    | string s => simp [twin?, norm]
  | uint u =>
    cases j with
    | int i => simp [← norm_uint_eq_norm_int_iff]
    | uint u' =>
      simp only [twin?, norm, NormalKey.integer.injEq, Int.natCast_inj, UInt64.toNat_inj]
      simp
    | string s => simp [twin?, norm]
  | string s => cases j <;> simp [twin?, norm]

/-- Only a key itself and its twin stand for the same. -/
theorem norm_eq_iff {k j : MapKey} : k.norm = j.norm ↔ k = j ∨ k.twin? = some j := by
  rw [twin?_eq_some_iff]
  by_cases h : k = j <;> simp [h]

variable {t : Entries MapKey Value} {k : MapKey} {v : Value}

/-- What is found at a key is a value at a key that stands for the same. -/
theorem exists_mem_of_lookup? (h : lookup? t k = some v) :
    ∃ e ∈ t, e.1.norm = k.norm ∧ e.2 = v := by
  rcases Option.or_eq_some_iff.1 h with hget | ⟨-, htwin⟩
  · exact ⟨(k, v), Entries.mem_of_get?_eq_some hget, rfl, rfl⟩
  · obtain ⟨j, hj, hget⟩ := Option.bind_eq_some_iff.1 htwin
    exact ⟨(j, v), Entries.mem_of_get?_eq_some hget, (twin?_eq_some_iff.1 hj).1.symm, rfl⟩

/-- Where no two keys stand for the same, a value is found by what its key stands for. -/
theorem lookup?_eq_get?_view (hnodup : (t.keys.map norm).Nodup) (k : MapKey) :
    lookup? t k = (t.view norm id).get? k.norm := by
  ext v
  rw [Entries.get?_view_eq_some_iff hnodup]
  refine ⟨exists_mem_of_lookup?, ?_⟩
  rintro ⟨⟨j, w⟩, hmem, hj, rfl⟩
  have hget : ∀ {i w}, (i, w) ∈ t → Entries.get? t i = some w :=
    (Entries.get?_eq_some_iff_mem (hnodup.of_map norm)).2
  rw [lookup?, Option.or_eq_some_iff]
  rcases norm_eq_iff.1 hj.symm with rfl | htwin
  · exact .inl (hget hmem)
  · refine .inr ⟨?_, by rw [htwin]; exact hget hmem⟩
    -- A value at `k` itself would have a key for the same as `j`.
    by_contra hsome
    obtain ⟨u, hu⟩ := Option.ne_none_iff_exists'.1 hsome
    have hk := (Entries.mem_keys_iff t k).2 (by rw [hu]; rfl)
    have hj' := (Entries.mem_keys_iff t j).2 (by rw [hget hmem]; rfl)
    exact (twin?_eq_some_iff.1 htwin).2 (List.inj_on_of_nodup_map hnodup hk hj' hj.symm)

end MapKey

/-! ## Values whose keys are told apart -/

namespace Value

/-- Whether the keys of a map, or the names of the fields of a message, are distinct. -/
def hasDistinctKeys : Value → Bool
  | .map entries => decide (Entries.keys entries).Nodup
  | .message _ fields => decide (Entries.keys fields).Nodup
  | _ => true

/-- Whether no integer is a key of a map under both kinds. -/
def hasNoTwins : Value → Bool
  | .map entries =>
    (Entries.keys entries).all fun k => k.twin?.all fun j => j ∉ Entries.keys entries
  | _ => true

/-- The values in which no map has two keys for one integer. -/
structure Separated (v : Value) : Prop where
  /-- No key is met twice in a map, and no name in a message, as where entries have been
      inserted one after another (`Entries.nodup_keys_insert`). -/
  distinct : v.everywhere hasDistinctKeys
  /-- No integer is a key of a map under both kinds. -/
  untwinned : v.everywhere hasNoTwins

variable {a b v w : Value} {as bs : List Value}

/-- The parts of a separated value are separated. -/
theorem Separated.part (h : v.Separated) (hw : w ∈ v.parts) : w.Separated :=
  ⟨(everywhere_iff.1 h.distinct).2 w hw, (everywhere_iff.1 h.untwinned).2 w hw⟩

theorem nodup_keys_of_map {entries : Entries MapKey Value}
    (h : (Value.map entries).everywhere hasDistinctKeys) : entries.keys.Nodup :=
  of_decide_eq_true (everywhere_iff.1 h).1

theorem nodup_keys_of_message {typeName : String} {fields : Entries String Value}
    (h : (Value.message typeName fields).everywhere hasDistinctKeys) : fields.keys.Nodup :=
  of_decide_eq_true (everywhere_iff.1 h).1

/-- No two keys of a map stand for the same. -/
theorem Separated.nodup_norm {entries : Entries MapKey Value} (h : (Value.map entries).Separated) :
    (entries.keys.map MapKey.norm).Nodup := by
  have huntwinned := (everywhere_iff.1 h.untwinned).1
  simp only [hasNoTwins, List.all_eq_true, Option.all_eq_true, decide_eq_true_eq] at huntwinned
  refine List.Nodup.map_on (fun k hk j hj hkj => ?_) (nodup_keys_of_map h.distinct)
  exact (MapKey.norm_eq_iff.1 hkj).resolve_right fun htwin => huntwinned k hk j htwin hj

end Value

end ExprMachine
