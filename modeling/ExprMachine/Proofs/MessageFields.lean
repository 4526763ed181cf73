import ExprMachine.MessageType
import ExprMachine.Proofs.Contents
import Mathlib.Data.List.Nodup

/-!
# Making messages

A message is made of its fields one after another, and the first field that its type does not
declare, or that has been given before, ends the making (`MessageType.FirstFault`).

* The fields before it are declared and distinct (`MessageType.Accepts`), whatever comes after
  it, and each of them has gone to the end of the message (`TypeCatalog.addFields_append`).
* If there is no such field, the message has the fields as they are given, in their order.
-/

namespace ExprMachine

/-! ## Fields at fault -/

namespace MessageType

/-- The names of fields from which a message of a type can be made. -/
structure Accepts (t : MessageType) (names : List String) : Prop where
  /-- The type declares each of them. -/
  declared : ∀ field ∈ names, field ∈ t.fields
  /-- None of them is given twice. -/
  nodup : names.Nodup

/-- What is wrong with the field at a position. That the type does not declare it comes before
    that it has been given already. -/
inductive FaultAt (t : MessageType) (names : List String) (i : ℕ) : FieldFault → Prop
  /-- The type does not declare the field. -/
  | undeclared {field : String} (hi : names[i]? = some field) (hfield : field ∉ t.fields) :
      FaultAt t names i (.undeclared field)
  /-- The field is that of an earlier position. -/
  | repeated {field : String} {j : ℕ} (hi : names[i]? = some field) (hfield : field ∈ t.fields)
      (hj : j < i) (hearlier : names[j]? = some field) :
      FaultAt t names i (.repeated field)

/-- The first position whose field is at fault, and what is wrong with it. -/
structure FirstFault (t : MessageType) (names : List String) (i : ℕ) (fault : FieldFault) :
    Prop where
  /-- The field is at fault. -/
  fault_at : t.FaultAt names i fault
  /-- No earlier one is. -/
  not_before : ∀ j < i, ∀ fault', ¬t.FaultAt names j fault'

variable {t : MessageType} {names more : List String} {i j : ℕ} {fault fault' : FieldFault}
  {field : String}

theorem accepts_nil (t : MessageType) : t.Accepts [] :=
  ⟨fun _ h => absurd h List.not_mem_nil, List.nodup_nil⟩

/-- A field has one fault at most. -/
theorem FaultAt.unique (h : t.FaultAt names i fault) (h' : t.FaultAt names i fault') :
    fault = fault' := by
  cases h with
  | undeclared hi hfield =>
    cases h' with
    | undeclared hi' _ => rw [Option.some.inj (hi.symm.trans hi')]
    | repeated hi' hfield' => exact absurd (Option.some.inj (hi'.symm.trans hi) ▸ hfield') hfield
  | repeated hi hfield =>
    cases h' with
    | undeclared hi' hfield' => exact absurd (Option.some.inj (hi.symm.trans hi') ▸ hfield) hfield'
    | repeated hi' _ => rw [Option.some.inj (hi.symm.trans hi')]

/-- There is one first fault at most. -/
theorem FirstFault.unique (h : t.FirstFault names i fault) (h' : t.FirstFault names j fault') :
    fault = fault' := by
  obtain hlt | rfl | hgt := Nat.lt_trichotomy i j
  · exact absurd h.fault_at (h'.not_before i hlt fault)
  · exact h.fault_at.unique h'.fault_at
  · exact absurd h'.fault_at (h.not_before j hgt fault')

/-- Among fields that a type accepts none is at fault, whatever follows them. -/
theorem Accepts.not_faultAt (h : t.Accepts names) (hi : i < names.length) :
    ¬t.FaultAt (names ++ more) i fault := by
  intro hfault
  cases hfault with
  | undeclared hname hfield =>
    rw [List.getElem?_append_left hi] at hname
    exact hfield (h.declared _ (List.mem_of_getElem? hname))
  | @repeated field j hname _ hj hearlier =>
    rw [List.getElem?_append_left hi] at hname
    rw [List.getElem?_append_left (Nat.lt_trans hj hi)] at hearlier
    exact List.nodup_iff_getElem?_ne_getElem?.1 h.nodup j i hj hi (hearlier.trans hname.symm)

theorem FirstFault.not_accepts (h : t.FirstFault names i fault) : ¬t.Accepts names := by
  intro haccepts
  have hi : i < names.length := by
    cases h.fault_at with
    | undeclared hname | repeated hname => exact (List.getElem?_eq_some_iff.1 hname).1
  have hnot : ¬t.FaultAt (names ++ []) i fault := haccepts.not_faultAt hi
  rw [List.append_nil] at hnot
  exact hnot h.fault_at

/-- A fault of the field after those that are accepted is the first. -/
theorem Accepts.firstFault (h : t.Accepts names)
    (hfault : t.FaultAt (names ++ more) names.length fault) :
    t.FirstFault (names ++ more) names.length fault :=
  ⟨hfault, fun _ hj _ => h.not_faultAt hj⟩

theorem Accepts.concat (h : t.Accepts names) (hfield : field ∈ t.fields) (hnew : field ∉ names) :
    t.Accepts (names ++ [field]) where
  declared := by
    intro f hf
    obtain hf | hf := List.mem_append.1 hf
    · exact h.declared f hf
    · rwa [List.mem_singleton.1 hf]
  nodup := List.concat_eq_append ▸ h.nodup.concat hnew

end MessageType

/-! ## The making of messages -/

namespace TypeCatalog

variable {t : MessageType} {built rest : List (String × Value)}

/-- What a field does to a message: it goes to the end, or ends the making. -/
theorem addFields_cons (t : MessageType) (built : Entries String Value) (field : String) (v : Value)
    (rest : List (String × Value)) :
    addFields t built ((field, v) :: rest) =
      if field ∈ t.fields then
        if field ∈ built.map Prod.fst then .error (.repeated field)
        else addFields t (built ++ [(field, v)]) rest
      else .error (.undeclared field) := by
  have hdeclared : t.hasField field = true ↔ field ∈ t.fields := List.contains_iff_mem
  have hgiven : built.contains field = true ↔ field ∈ built.map Prod.fst :=
    (Entries.mem_keys_iff built field).symm
  simp only [addFields, Bool.not_eq_true', ← Bool.not_eq_true, hdeclared, hgiven, ite_not]
  refine if_congr Iff.rfl ?_ rfl
  split_ifs with hold
  · rfl
  · rw [← hgiven, Entries.contains, Option.not_isSome_iff_eq_none] at hold
    rw [Entries.insert_of_get?_eq_none hold]

/-- Fields are added to those of a message until one is at fault. The invariant is that the
    fields of the message so far are accepted, and it has them in order. -/
theorem addFields_append (hbuilt : t.Accepts (built.map Prod.fst)) :
    (addFields t built rest = .ok (built ++ rest) ∧ t.Accepts ((built ++ rest).map Prod.fst)) ∨
    ∃ i fault, addFields t built rest = .error fault ∧
      t.FirstFault ((built ++ rest).map Prod.fst) i fault := by
  induction rest generalizing built with
  | nil =>
    rw [List.append_nil]
    exact .inl ⟨rfl, hbuilt⟩
  | cons p rest ih =>
    obtain ⟨field, v⟩ := p
    have hhere : (built.map Prod.fst ++ field :: rest.map Prod.fst)[(built.map Prod.fst).length]? =
        some field := by
      rw [List.getElem?_append_right (Nat.le_refl _), Nat.sub_self, List.getElem?_cons_zero]
    rw [addFields_cons]
    -- A field that is declared may have been given before; one that is not is at fault at once.
    split_ifs with hfield hgiven
    · obtain ⟨j, hj⟩ := List.getElem?_of_mem hgiven
      have hlt : j < (built.map Prod.fst).length := (List.getElem?_eq_some_iff.1 hj).1
      refine .inr ⟨(built.map Prod.fst).length, _, rfl, ?_⟩
      rw [List.map_append, List.map_cons]
      exact hbuilt.firstFault
        (.repeated hhere hfield hlt ((List.getElem?_append_left hlt).trans hj))
    · have haccepts : t.Accepts ((built ++ [(field, v)]).map Prod.fst) := by
        rw [List.map_append]
        exact hbuilt.concat hfield hgiven
      rw [List.append_cons built (field, v) rest]
      exact ih haccepts
    · refine .inr ⟨(built.map Prod.fst).length, _, rfl, ?_⟩
      rw [List.map_append, List.map_cons]
      exact hbuilt.firstFault (.undeclared hhere hfield)

/-- Either all fields are added, or the first one at fault is found. -/
theorem addFields_nil (t : MessageType) (fields : List (String × Value)) :
    (addFields t [] fields = .ok fields ∧ t.Accepts (fields.map Prod.fst)) ∨
    ∃ i fault, addFields t [] fields = .error fault ∧
      t.FirstFault (fields.map Prod.fst) i fault :=
  addFields_append t.accepts_nil

/-- A message is made if its type is known and accepts the fields, and has them as they are
    given. Otherwise the failure is that no such type is known, or is about the first field at
    fault. -/
theorem construct_iff (c : TypeCatalog) (typeName : String) (fields : List (String × Value))
    (span : Span) :
    (∀ v, c.construct typeName fields span = .ok v ↔
      ∃ t, c.resolve typeName = some t ∧ t.Accepts (fields.map Prod.fst) ∧
        v = .message t.name fields) ∧
    ∀ e, c.construct typeName fields span = .error e ↔
      c.resolve typeName = none ∧ e = ⟨span, .noSuchType typeName⟩ ∨
      ∃ t i fault, c.resolve typeName = some t ∧ t.FirstFault (fields.map Prod.fst) i fault ∧
        e = ⟨span, .messageConstruction t.name fault⟩ := by
  rw [construct]
  cases c.resolve typeName with
  | none => simp [eq_comm]
  | some t =>
    -- The loop accepts all fields or stops at the first fault, and the two exclude each other.
    obtain ⟨hadd, haccepts⟩ | ⟨i, fault, hadd, hfault⟩ := addFields_nil t fields
    · simp only [hadd]
      refine ⟨fun v => ⟨?_, ?_⟩, fun e => ⟨nofun, ?_⟩⟩
      · rintro ⟨⟩
        exact ⟨t, rfl, haccepts, rfl⟩
      · rintro ⟨_, ⟨⟩, -, rfl⟩
        rfl
      · rintro (⟨⟨⟩, -⟩ | ⟨_, i, fault, ⟨⟩, hfault, -⟩)
        exact absurd haccepts hfault.not_accepts
    · simp only [hadd]
      refine ⟨fun v => ⟨nofun, ?_⟩, fun e => ⟨?_, ?_⟩⟩
      · rintro ⟨_, ⟨⟩, haccepts, -⟩
        exact absurd haccepts hfault.not_accepts
      · rintro ⟨⟩
        exact .inr ⟨t, i, fault, rfl, hfault, rfl⟩
      · rintro (⟨⟨⟩, -⟩ | ⟨_, j, fault', ⟨⟩, hfault', rfl⟩)
        rw [hfault.unique hfault']

end TypeCatalog

end ExprMachine
