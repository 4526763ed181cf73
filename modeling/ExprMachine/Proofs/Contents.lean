import ExprMachine.Proofs.Registration

/-!
# The contents of builders

A table of overloads grows at its end only: no descriptor that is registered replaces
anything (`Entries.extend_eq_append`). So each table of a builder is the list of what the
descriptors have for it, in the order in which they have been registered, and its keys
are distinct (`DescriptorTable.read_of_addAll`, `DescriptorTable.nodup_keys_read`).

Descriptors that are passed over leave nothing behind: a builder is what the others make
of it (`RegistryBuilder.addAll_accepted`).
-/

namespace ExprMachine

/-! ## Tables that grow -/

namespace Entries

variable {κ α : Type} [DecidableEq κ] {t t' : Entries κ α} {pairs : List (κ × α)} {k : κ} {v : α}

theorem insert_of_get?_eq_none (h : t.get? k = none) : t.insert k v = t ++ [(k, v)] := by
  induction t with
  | nil => rfl
  | cons p rest ih =>
    obtain ⟨j, w⟩ := p
    rw [get?] at h
    split at h
    · cases h
    · rename_i hj
      rw [insert, if_neg hj, ih h, List.cons_append]

/-- What extends a table goes to its end. -/
theorem extend_eq_append (h : t.extend pairs = .ok t') : t' = t ++ pairs := by
  induction pairs generalizing t with
  | nil =>
    cases h
    exact (List.append_nil _).symm
  | cons p rest ih =>
    rw [extend] at h
    split at h
    · cases h
    · rename_i hnew
      have hfree : t.get? p.1 = none := by simpa [contains] using hnew
      rw [ih h, insert_of_get?_eq_none hfree, List.append_assoc]
      rfl

/-- Pairs with keys of their own extend a table. -/
theorem extend_of_free (hnodup : (pairs.map Prod.fst).Nodup)
    (hfree : ∀ p ∈ pairs, t.get? p.1 = none) : t.extend pairs = .ok (t ++ pairs) := by
  induction pairs generalizing t with
  | nil => rw [extend, List.append_nil]
  | cons p rest ih =>
    obtain ⟨hp, hrest⟩ := List.nodup_cons.1 hnodup
    obtain ⟨hpfree, hrestfree⟩ := List.forall_mem_cons.1 hfree
    have hfree' : ∀ q ∈ rest, (t.insert p.1 p.2).get? q.1 = none := by
      intro q hq
      have hne : p.1 ≠ q.1 := fun heq => hp (heq ▸ List.mem_map_of_mem hq)
      rw [get?_insert, if_neg hne, hrestfree q hq]
    rw [extend, if_neg (by simp [contains, hpfree]), ih hrest hfree',
      insert_of_get?_eq_none hpfree, List.append_assoc]
    rfl

/-- A table is extended exactly by pairs whose keys are distinct, from one another and from
    those of the table. -/
theorem exists_extend_iff (ht : t.keys.Nodup) :
    (∃ t', t.extend pairs = .ok t') ↔ (t.keys ++ pairs.map Prod.fst).Nodup := by
  constructor
  · rintro ⟨t', h⟩
    have hkeys := nodup_keys_extend h ht
    rwa [extend_eq_append h, keys, List.map_append] at hkeys
  · intro h
    obtain ⟨-, hpairs, hapart⟩ := List.nodup_append.1 h
    refine ⟨t ++ pairs, extend_of_free hpairs fun p hp => ?_⟩
    by_contra htaken
    have hmem := (t.mem_keys_iff p.1).2 (Option.isSome_iff_ne_none.2 htaken)
    exact hapart _ hmem _ (List.mem_map_of_mem hp) rfl

theorem extend_append (t : Entries κ α) (ps qs : List (κ × α)) :
    t.extend (ps ++ qs) = t.extend ps >>= fun t' => t'.extend qs := by
  induction ps generalizing t with
  | nil => rfl
  | cons p rest ih =>
    rw [List.cons_append, extend, extend]
    split
    · rfl
    · exact ih _

/-- Where the keys are distinct, a table holds its entries. -/
theorem get?_eq_some_iff_mem (h : t.keys.Nodup) : t.get? k = some v ↔ (k, v) ∈ t := by
  induction t with
  | nil => simp [get?]
  | cons p rest ih =>
    obtain ⟨j, w⟩ := p
    obtain ⟨hj, hrest⟩ := List.nodup_cons.1 h
    rw [get?, List.mem_cons, Prod.mk.injEq]
    by_cases hk : j = k
    · subst hk
      have hrest : (j, v) ∉ rest := fun hmem => hj (List.mem_map.2 ⟨(j, v), hmem, rfl⟩)
      simp [hrest, eq_comm]
    · simp [hk, Ne.symm hk, ih hrest]

/-- The order of the entries does not show in what a table holds. -/
theorem get?_perm (hperm : t.Perm t') (h : t.keys.Nodup) (k : κ) : t.get? k = t'.get? k := by
  have h' : t'.keys.Nodup := (hperm.map Prod.fst).nodup_iff.1 h
  ext v
  rw [get?_eq_some_iff_mem h, get?_eq_some_iff_mem h', hperm.mem_iff]

end Entries

/-! ## What descriptors add -/

/-- A table of a builder with what every descriptor adds to it. -/
structure DescriptorTable (κ α : Type) [DecidableEq κ] extends BuilderTable κ α where
  /-- What a descriptor adds. -/
  pairs : Descriptor → List (κ × α)
  /-- The table is extended by what a descriptor adds when it is registered. -/
  extend_of_add : ∀ b d b', b.add d = .ok b' → (read b).extend (pairs d) = .ok (read b')
  /-- At first there is nothing in the table. -/
  read_empty : read .empty = []

namespace Descriptor

/-- What a descriptor adds to the overloads of a function. -/
def pairsOfFunction (name : String) : Descriptor → List (String × FunctionOverload)
  | .function d => if d.name = name then RegistryBuilder.keyedOverloads d else []
  | .binary _ | .unary _ => []

/-- What a descriptor adds to the overloads of a binary operator. -/
def pairsOfBinary (op : BinaryOperator) : Descriptor → List ((Kind × Kind) × BinaryHandler)
  | .binary d => if d.operator = op then d.overloads else []
  | .function _ | .unary _ => []

/-- What a descriptor adds to the overloads of a unary operator. -/
def pairsOfUnary (op : UnaryOperator) : Descriptor → List (Kind × UnaryHandler)
  | .unary d => if d.operator = op then d.overloads else []
  | .function _ | .binary _ => []

end Descriptor

namespace DescriptorTable

open RegistryBuilder

/-- The overloads of a function. -/
def function (name : String) : DescriptorTable String FunctionOverload where
  toBuilderTable := .function name
  pairs := Descriptor.pairsOfFunction name
  extend_of_add b d b' h := by
    cases d with
    | function f =>
      obtain ⟨t, hext, rfl⟩ := addFunction_eq_ok h
      by_cases hname : f.name = name
      · subst hname
        rw [Descriptor.pairsOfFunction, if_pos rfl]
        exact hext.trans (congrArg _ ((BuilderTable.function f.name).read_write t b).symm)
      · simp [BuilderTable.function, Descriptor.pairsOfFunction, Entries.get?_insert, hname,
          Entries.extend]
    | binary f =>
      obtain ⟨t, -, rfl⟩ := addBinary_eq_ok h
      rfl
    | unary f =>
      obtain ⟨t, -, rfl⟩ := addUnary_eq_ok h
      rfl
  read_empty := rfl

/-- The overloads of a binary operator. -/
def binary (op : BinaryOperator) : DescriptorTable (Kind × Kind) BinaryHandler where
  toBuilderTable := .binary op
  pairs := Descriptor.pairsOfBinary op
  extend_of_add b d b' h := by
    cases d with
    | function f =>
      obtain ⟨t, -, rfl⟩ := addFunction_eq_ok h
      rfl
    | binary f =>
      obtain ⟨t, hext, rfl⟩ := addBinary_eq_ok h
      by_cases hop : f.operator = op
      · subst hop
        rw [Descriptor.pairsOfBinary, if_pos rfl]
        exact hext.trans (congrArg _ ((BuilderTable.binary f.operator).read_write t b).symm)
      · simp [BuilderTable.binary, Descriptor.pairsOfBinary, Entries.get?_insert, hop,
          Entries.extend]
    | unary f =>
      obtain ⟨t, -, rfl⟩ := addUnary_eq_ok h
      rfl
  read_empty := rfl

/-- The overloads of a unary operator. -/
def unary (op : UnaryOperator) : DescriptorTable Kind UnaryHandler where
  toBuilderTable := .unary op
  pairs := Descriptor.pairsOfUnary op
  extend_of_add b d b' h := by
    cases d with
    | function f =>
      obtain ⟨t, -, rfl⟩ := addFunction_eq_ok h
      rfl
    | binary f =>
      obtain ⟨t, -, rfl⟩ := addBinary_eq_ok h
      rfl
    | unary f =>
      obtain ⟨t, hext, rfl⟩ := addUnary_eq_ok h
      by_cases hop : f.operator = op
      · subst hop
        rw [Descriptor.pairsOfUnary, if_pos rfl]
        exact hext.trans (congrArg _ ((BuilderTable.unary f.operator).read_write t b).symm)
      · simp [BuilderTable.unary, Descriptor.pairsOfUnary, Entries.get?_insert, hop,
          Entries.extend]
  read_empty := rfl

end DescriptorTable

/-! ## Histories -/

namespace RegistryBuilder

variable {b b' : RegistryBuilder} {d : Descriptor} {ds before : List Descriptor}

theorem addAll_cons (b : RegistryBuilder) (d : Descriptor) (ds : List Descriptor) :
    b.addAll (d :: ds) = b.add d >>= fun b' => b'.addAll ds :=
  List.foldlM_cons

theorem addAll_cons_eq_ok (h : b.addAll (d :: ds) = .ok b') :
    ∃ c, b.add d = .ok c ∧ c.addAll ds = .ok b' := by
  rw [addAll_cons] at h
  cases hadd : b.add d with
  | error e =>
    rw [hadd] at h
    cases h
  | ok c =>
    rw [hadd] at h
    exact ⟨c, rfl, h⟩

/-- Registering the descriptors that are accepted fails nowhere, and leaves what
    registering all of them leaves. -/
theorem addAll_accepted (b : RegistryBuilder) (ds : List Descriptor) :
    b.addAll (b.accepted ds) = .ok (ds.foldl addOrSkip b) := by
  induction ds generalizing b with
  | nil => rfl
  | cons d ds ih =>
    rw [accepted, List.foldl_cons, addOrSkip]
    cases hadd : b.add d with
    | error e => exact ih b
    | ok c =>
      show b.addAll (d :: c.accepted ds) = _
      rw [addAll_cons, hadd]
      exact ih c

theorem Holds.addAll (hb : b.Holds before) (h : b.addAll ds = .ok b') :
    b'.Holds (before ++ ds) := by
  induction ds generalizing b before with
  | nil =>
    cases h
    rwa [List.append_nil]
  | cons d ds ih =>
    obtain ⟨c, hadd, hrest⟩ := addAll_cons_eq_ok h
    have hds := ih (hb.add hadd) hrest
    rwa [List.append_assoc] at hds

end RegistryBuilder

namespace DescriptorTable

variable {κ α : Type} [DecidableEq κ] (table : DescriptorTable κ α)
  {b b' : RegistryBuilder} {ds : List Descriptor}

theorem extend_of_addAll (h : b.addAll ds = .ok b') :
    (table.read b).extend (ds.flatMap table.pairs) = .ok (table.read b') := by
  induction ds generalizing b with
  | nil =>
    cases h
    rfl
  | cons d ds ih =>
    obtain ⟨c, hadd, hrest⟩ := RegistryBuilder.addAll_cons_eq_ok h
    rw [List.flatMap_cons, Entries.extend_append, table.extend_of_add b d c hadd]
    exact ih hrest

variable (h : RegistryBuilder.empty.addAll ds = .ok b)
include h

/-- A table is the list of what the descriptors add to it. -/
theorem read_of_addAll : table.read b = ds.flatMap table.pairs := by
  have hext := table.extend_of_addAll h
  rw [table.read_empty] at hext
  exact Entries.extend_eq_append hext

/-- The keys of a table are distinct. -/
theorem nodup_keys_read : (table.read b).keys.Nodup := by
  have hext := table.extend_of_addAll h
  rw [table.read_empty] at hext
  exact Entries.nodup_keys_extend hext List.nodup_nil

theorem read_perm {ds' : List Descriptor} (h' : RegistryBuilder.empty.addAll ds' = .ok b')
    (hperm : ds.Perm ds') : (table.read b).Perm (table.read b') := by
  rw [table.read_of_addAll h, table.read_of_addAll h']
  exact hperm.flatMap_right _

end DescriptorTable

end ExprMachine
