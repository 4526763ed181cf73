import Mathlib.Data.List.Nodup
import ExprMachine.Proofs.BuilderTables
import ExprMachine.Proofs.OperatorTable

/-!
# Registration

What a registry finds after any calls that have registered descriptors, of which
some may have failed (`RegistryBuilder.find?_build_iff_listed`).

* No two overloads that have been registered have the same key, and a registry
  finds at a key what has been registered there and nothing else
  (`RegistryBuilder.Holds`). Every descriptor that is registered keeps it so
  (`RegistryBuilder.Holds.add`).
* The signature of a function can be read off its key (`signatureKey_injective`), so
  functions of different signatures never meet.
* An overload once registered is found in every registry that is built later
  (`RegistryBuilder.find?_build_append`).
-/

namespace ExprMachine

/-! ## Signatures -/

namespace Kind

theorem name_ne_empty (k : Kind) : k.name ≠ "" := by cases k <;> decide

theorem comma_notMem_name (k : Kind) : ',' ∉ k.name.toList := by cases k <;> decide

theorem name_injective : Function.Injective Kind.name := by
  intro a b h
  cases a <;> cases b <;> first | rfl | exact absurd h (by decide)

end Kind

/-- The key of a signature falls apart at the commas into the names of the kinds. -/
theorem split_signatureKey (kinds : List Kind) :
    ((signatureKey kinds).split ',').toList.map (·.copy) =
      if kinds = [] then [""] else kinds.map Kind.name := by
  have hcomma : ∀ s ∈ kinds.map Kind.name, ',' ∉ s.toList := by
    intro s hs
    obtain ⟨k, -, rfl⟩ := List.mem_map.1 hs
    exact k.comma_notMem_name
  have hsplit := String.toList_split_intercalate hcomma
  simp only [List.map_eq_nil_iff] at hsplit
  exact hsplit

/-- Distinct signatures have distinct keys. -/
theorem signatureKey_injective : Function.Injective signatureKey := by
  intro kinds kinds' h
  have hsplit := split_signatureKey kinds
  rw [h, split_signatureKey kinds'] at hsplit
  -- The empty signature alone has a part without a name.
  match kinds, kinds' with
  | [], [] => rfl
  | [], k :: rest => exact absurd (List.cons.inj hsplit).1 k.name_ne_empty
  | k :: rest, [] => exact absurd (List.cons.inj hsplit).1.symm k.name_ne_empty
  | k :: rest, k' :: rest' =>
    exact ((List.map_inj_right fun _ _ h => Kind.name_injective h).1 hsplit).symm

/-! ## Tables that are extended -/

namespace Entries

variable {κ α : Type} [DecidableEq κ] {t t' : Entries κ α} {pairs : List (κ × α)}

/-- What extends a table has keys of its own, and the extended table holds it beside
    what was there. -/
theorem extend_eq_ok (h : t.extend pairs = .ok t') :
    (∀ k v, t'.get? k = some v ↔ t.get? k = some v ∨ (k, v) ∈ pairs) ∧
      (pairs.map Prod.fst).Nodup ∧ ∀ p ∈ pairs, t.get? p.1 = none := by
  induction pairs generalizing t with
  | nil =>
    cases h
    exact ⟨fun k v => by simp, List.nodup_nil, nofun⟩
  | cons p rest ih =>
    obtain ⟨j, w⟩ := p
    rw [extend] at h
    split at h
    · cases h
    · rename_i hnew
      have hj : t.get? j = none := by simpa [contains] using hnew
      -- The rest is inserted into a table that has the first key already.
      obtain ⟨hget, hnodup, habsent⟩ := ih h
      refine ⟨fun k v => ?_, List.nodup_cons.2 ⟨fun hmem => ?_, hnodup⟩, fun p hp => ?_⟩
      · rw [hget, get?_insert, List.mem_cons, Prod.mk.injEq]
        by_cases hk : j = k
        · subst hk
          simp [hj, eq_comm]
        · simp [hk, Ne.symm hk]
      · obtain ⟨p, hp, rfl⟩ := List.mem_map.1 hmem
        have hp := habsent p hp
        rw [get?_insert, if_pos rfl] at hp
        cases hp
      · rcases List.mem_cons.1 hp with rfl | hp
        · exact hj
        · have hp := habsent p hp
          rw [get?_insert] at hp
          split at hp
          · cases hp
          · exact hp

theorem nodup_keys_extend (h : t.extend pairs = .ok t') (ht : t.keys.Nodup) : t'.keys.Nodup := by
  induction pairs generalizing t with
  | nil =>
    cases h
    exact ht
  | cons p rest ih =>
    rw [extend] at h
    split at h
    · cases h
    · exact ih h (nodup_keys_insert t _ _ ht)

end Entries

/-! ## What is found -/

/-- What a registry finds at a key: the overload to which a call of a function is
    resolved, the handler in the table of the binary operators, the handler among
    those of a unary operator. -/
def Registry.find? (r : Registry) (span : Span) : OverloadKey → Option Operation
  | .function name kinds => (r.resolve name kinds span).toOption.map .function
  | .binary op left right => (r.table.get? op.index left right).map .binary
  | .unary op operand => (((r.unary.get? op).getD []).get? operand).map .unary

theorem Registry.toOption_resolve (r : Registry) (name : String) (kinds : List Kind)
    (span : Span) : (r.resolve name kinds span).toOption =
      ((r.functions.get? name).getD []).get? (signatureKey kinds) := by
  unfold resolve
  cases r.functions.get? name with
  | none => rfl
  | some overloads =>
    simp only [Option.getD_some]
    cases overloads.get? (signatureKey kinds) <;> rfl

namespace RegistryBuilder

variable {b b' : RegistryBuilder} {d : Descriptor} {ds : List Descriptor}

theorem addFunction_eq_ok {f : FunctionDescriptor} (h : b.addFunction f = .ok b') :
    ∃ t, ((b.functions.get? f.name).getD []).extend (keyedOverloads f) = .ok t ∧
      b' = { b with functions := b.functions.insert f.name t } := by
  rw [addFunction] at h
  split at h
  · cases h
  · split at h
    · rename_i t hext
      exact ⟨t, hext, (Except.ok.inj h).symm⟩
    · cases h

theorem addBinary_eq_ok {f : BinaryDescriptor} (h : b.addBinary f = .ok b') :
    ∃ t, ((b.binary.get? f.operator).getD []).extend f.overloads = .ok t ∧
      b' = { b with binary := b.binary.insert f.operator t } := by
  rw [addBinary] at h
  split at h
  · rename_i t hext
    exact ⟨t, hext, (Except.ok.inj h).symm⟩
  · cases h

theorem addUnary_eq_ok {f : UnaryDescriptor} (h : b.addUnary f = .ok b') :
    ∃ t, ((b.unary.get? f.operator).getD []).extend f.overloads = .ok t ∧
      b' = { b with unary := b.unary.insert f.operator t } := by
  rw [addUnary] at h
  split at h
  · rename_i t hext
    exact ⟨t, hext, (Except.ok.inj h).symm⟩
  · cases h

/-- What a descriptor adds to the builder: its overloads, at keys of their own. -/
structure Adds (b : RegistryBuilder) (d : Descriptor) (b' : RegistryBuilder) : Prop where
  /-- What is there afterwards was there, or is listed. -/
  get?_iff : ∀ k o, b'.get? k = some o ↔ b.get? k = some o ∨ (k, o) ∈ d.listed
  /-- No key is listed twice. -/
  nodup : (d.listed.map Prod.fst).Nodup
  /-- No key that is listed has been taken. -/
  get?_eq_none : ∀ p ∈ d.listed, b.get? p.1 = none

/-- Extending a table by pairs adds the operations that they stand for. -/
theorem Adds.of_extend {κ α : Type} [DecidableEq κ] (table : BuilderTable κ α)
    {pairs : List (κ × α)} {t : Entries κ α} (h : (table.read b).extend pairs = .ok t)
    (hlisted : ∀ k o, (k, o) ∈ d.listed ↔
      ∃ i v, (i, v) ∈ pairs ∧ table.place k = some i ∧ table.operation v = o)
    (hplace : d.listed.map (fun p => table.place p.1) = pairs.map fun p => some p.1) :
    b.Adds d (table.write t b) := by
  obtain ⟨hget, hnodup, habsent⟩ := Entries.extend_eq_ok h
  constructor
  · intro k o
    rw [hlisted]
    cases hk : table.place k with
    | none =>
      rw [table.get?_write t b k hk]
      simp
    | some i =>
      rw [table.get?_eq _ k i hk, table.get?_eq _ k i hk, table.read_write]
      simp [Option.map_eq_some_iff, hget, or_and_right, exists_or]
  · -- Keys that have different places in the table are different.
    have hsome : (pairs.map fun p => some p.1).Nodup := by
      have hmap := hnodup.map (f := some) fun _ _ hab => Option.some.inj hab
      rwa [List.map_map] at hmap
    rw [← hplace] at hsome
    have hkeys : ((d.listed.map Prod.fst).map table.place).Nodup := by rwa [List.map_map]
    exact hkeys.of_map table.place
  · rintro ⟨k, o⟩ hp
    obtain ⟨i, v, hmem, hk, -⟩ := (hlisted k o).1 hp
    rw [table.get?_eq _ k i hk, habsent (i, v) hmem]
    rfl

theorem keys_keyedOverloads (d : FunctionDescriptor) :
    (keyedOverloads d).map Prod.fst = (d.overloads.map Prod.fst).map signatureKey := by
  simp [keyedOverloads]

theorem mem_keyedOverloads {d : FunctionDescriptor} {kinds : List Kind} {o : FunctionOverload} :
    (signatureKey kinds, o) ∈ keyedOverloads d ↔
      ∃ handler, (kinds, handler) ∈ d.overloads ∧ ⟨d.name, kinds, d.idempotent, handler⟩ = o := by
  simp only [keyedOverloads, List.mem_map, Prod.mk.injEq, Prod.exists]
  constructor
  · rintro ⟨kinds', handler, hmem, hkey, rfl⟩
    obtain rfl := signatureKey_injective hkey
    exact ⟨handler, hmem, rfl⟩
  · rintro ⟨handler, hmem, rfl⟩
    exact ⟨kinds, handler, hmem, rfl, rfl⟩

/-- Registering a descriptor adds its overloads. -/
theorem adds_of_add (h : b.add d = .ok b') : b.Adds d b' := by
  cases d with
  | function f =>
    obtain ⟨t, hext, rfl⟩ := addFunction_eq_ok h
    refine .of_extend (.function f.name) hext (fun k o => ?_) ?_
    · simp only [Descriptor.listed, List.mem_map, Prod.mk.injEq, Prod.exists]
      constructor
      · rintro ⟨kinds, handler, hmem, rfl, rfl⟩
        exact ⟨_, _, mem_keyedOverloads.2 ⟨handler, hmem, rfl⟩, if_pos rfl, rfl⟩
      · rintro ⟨i, v, hmem, hk, rfl⟩
        obtain ⟨kinds, rfl, rfl⟩ := BuilderTable.place_function_eq_some.1 hk
        obtain ⟨handler, hlist, rfl⟩ := mem_keyedOverloads.1 hmem
        exact ⟨kinds, handler, hlist, rfl, rfl⟩
    · simp [Descriptor.listed, keyedOverloads, BuilderTable.function]
  | binary f =>
    obtain ⟨t, hext, rfl⟩ := addBinary_eq_ok h
    refine .of_extend (.binary f.operator) hext (fun k o => ?_) ?_
    · simp only [Descriptor.listed, List.mem_map, Prod.mk.injEq, Prod.exists]
      constructor
      · rintro ⟨left, right, handler, hmem, rfl, rfl⟩
        exact ⟨left, right, handler, hmem, if_pos rfl, rfl⟩
      · rintro ⟨left, right, v, hmem, hk, rfl⟩
        obtain rfl := BuilderTable.place_binary_eq_some.1 hk
        exact ⟨left, right, v, hmem, rfl, rfl⟩
    · simp [Descriptor.listed, BuilderTable.binary]
  | unary f =>
    obtain ⟨t, hext, rfl⟩ := addUnary_eq_ok h
    refine .of_extend (.unary f.operator) hext (fun k o => ?_) ?_
    · simp only [Descriptor.listed, List.mem_map, Prod.mk.injEq, Prod.exists]
      constructor
      · rintro ⟨operand, handler, hmem, rfl, rfl⟩
        exact ⟨operand, handler, hmem, if_pos rfl, rfl⟩
      · rintro ⟨operand, v, hmem, hk, rfl⟩
        obtain rfl := BuilderTable.place_unary_eq_some.1 hk
        exact ⟨operand, v, hmem, rfl, rfl⟩
    · simp [Descriptor.listed, BuilderTable.unary]

/-! ## Histories -/

/-- The descriptors that are registered when descriptors are registered one after
    another, whether that fails or not. -/
def accepted (b : RegistryBuilder) : List Descriptor → List Descriptor
  | [] => []
  | d :: ds =>
    match b.add d with
    | .ok b' => d :: b'.accepted ds
    | .error _ => b.accepted ds

theorem accepted_sublist (b : RegistryBuilder) (ds : List Descriptor) :
    (b.accepted ds).Sublist ds := by
  induction ds generalizing b with
  | nil => exact .slnil
  | cons d ds ih =>
    rw [accepted]
    split
    · exact (ih _).cons_cons d
    · exact (ih _).cons d

theorem accepted_append (b : RegistryBuilder) (ds ds' : List Descriptor) :
    b.accepted (ds ++ ds') = b.accepted ds ++ (ds.foldl addOrSkip b).accepted ds' := by
  induction ds generalizing b with
  | nil => rfl
  | cons d ds ih =>
    rw [List.cons_append, accepted, accepted, List.foldl_cons, addOrSkip]
    cases b.add d with
    | ok b' => exact congrArg (d :: ·) (ih b')
    | error e => exact ih b

/-- What a builder holds once some descriptors have been registered in it. -/
structure Holds (b : RegistryBuilder) (ds : List Descriptor) : Prop where
  /-- There is at a key what the descriptors list there. -/
  get?_iff : ∀ k o, b.get? k = some o ↔ (k, o) ∈ ds.flatMap Descriptor.listed
  /-- No key is listed twice. -/
  nodup : ((ds.flatMap Descriptor.listed).map Prod.fst).Nodup
  /-- The functions are those of the descriptors. -/
  contains_iff : ∀ name, b.functions.contains name ↔ ∃ d, .function d ∈ ds ∧ d.name = name
  /-- The table of a binary operator has one entry for each pair of kinds. -/
  nodup_binary : ∀ op, ((b.binary.get? op).getD []).keys.Nodup

theorem holds_empty : empty.Holds [] where
  get?_iff k o := by cases k <;> simp [get?, empty, Entries.get?]
  nodup := List.nodup_nil
  contains_iff name := by simp [empty, Entries.contains, Entries.get?]
  nodup_binary op := List.nodup_nil

/-- Registering a descriptor adds its name to those of the functions, if it is one. -/
theorem contains_add (h : b.add d = .ok b') (name : String) :
    b'.functions.contains name ↔
      b.functions.contains name ∨ ∃ f, d = .function f ∧ f.name = name := by
  cases d with
  | function f =>
    obtain ⟨t, -, rfl⟩ := addFunction_eq_ok h
    by_cases hname : f.name = name <;> simp [Entries.contains, Entries.get?_insert, hname]
  | binary f =>
    obtain ⟨t, -, rfl⟩ := addBinary_eq_ok h
    simp
  | unary f =>
    obtain ⟨t, -, rfl⟩ := addUnary_eq_ok h
    simp

theorem nodup_binary_add (h : b.add d = .ok b')
    (hb : ∀ op, ((b.binary.get? op).getD []).keys.Nodup) (op : BinaryOperator) :
    ((b'.binary.get? op).getD []).keys.Nodup := by
  cases d with
  | function f =>
    obtain ⟨t, -, rfl⟩ := addFunction_eq_ok h
    exact hb op
  | binary f =>
    obtain ⟨t, hext, rfl⟩ := addBinary_eq_ok h
    simp only [Entries.get?_insert]
    split
    · exact Entries.nodup_keys_extend hext (hb _)
    · exact hb op
  | unary f =>
    obtain ⟨t, -, rfl⟩ := addUnary_eq_ok h
    exact hb op

/-- Registering a descriptor keeps what the builder holds. -/
theorem Holds.add (hb : b.Holds ds) (h : b.add d = .ok b') : b'.Holds (ds ++ [d]) := by
  obtain ⟨hget, hnodup, hnone⟩ := adds_of_add h
  refine ⟨fun k o => ?_, ?_, fun name => ?_, nodup_binary_add h hb.nodup_binary⟩
  · rw [hget, hb.get?_iff, List.flatMap_append, List.flatMap_singleton, List.mem_append]
  · rw [List.flatMap_append, List.flatMap_singleton, List.map_append]
    refine hb.nodup.append hnodup fun k hk hk' => ?_
    -- A key of the new descriptor has been free.
    obtain ⟨⟨_, o⟩, hmem, rfl⟩ := List.mem_map.1 hk
    obtain ⟨p, hp, hpk⟩ := List.mem_map.1 hk'
    have hfree := hnone p hp
    rw [hpk, (hb.get?_iff _ o).2 hmem] at hfree
    cases hfree
  · rw [contains_add h, hb.contains_iff]
    simp only [List.mem_append, List.mem_singleton, or_and_right, exists_or]
    exact or_congr_right (exists_congr fun f => and_congr_left' eq_comm)

/-- A builder holds what has been registered in it. -/
theorem Holds.foldl_addOrSkip (hb : b.Holds ds) (calls : List Descriptor) :
    (calls.foldl addOrSkip b).Holds (ds ++ b.accepted calls) := by
  induction calls generalizing b ds with
  | nil => rwa [List.foldl_nil, accepted, List.append_nil]
  | cons d rest ih =>
    rw [List.foldl_cons, accepted, addOrSkip]
    cases hadd : b.add d with
    | error e => exact ih hb
    | ok b' =>
      have hrest := ih (hb.add hadd)
      rwa [List.append_assoc] at hrest

/-- The registry of a builder finds what the builder holds. -/
theorem Holds.find?_build (hb : b.Holds ds) (span : Span) (k : OverloadKey) :
    b.build.find? span k = b.get? k := by
  cases k with
  | function name kinds =>
    exact congrArg (Option.map Operation.function) (b.build.toOption_resolve name kinds span)
  | binary op left right =>
    exact congrArg (Option.map Operation.binary) (BinaryTable.get?_ofOverloads hb.nodup_binary)
  | unary op operand => rfl

theorem holds_foldl_addOrSkip (ds : List Descriptor) :
    (ds.foldl addOrSkip empty).Holds (empty.accepted ds) :=
  holds_empty.foldl_addOrSkip ds

/-- What is found at a key is found there too when further descriptors have been
    registered. -/
theorem find?_build_append (ds ds' : List Descriptor) {span : Span} {k : OverloadKey}
    {o : Operation} (h : (ds.foldl addOrSkip empty).build.find? span k = some o) :
    ((ds ++ ds').foldl addOrSkip empty).build.find? span k = some o := by
  have hds := holds_foldl_addOrSkip ds
  have hall := holds_foldl_addOrSkip (ds ++ ds')
  rw [hds.find?_build, hds.get?_iff] at h
  rw [hall.find?_build, hall.get?_iff, accepted_append, List.flatMap_append]
  exact List.mem_append_left _ h

/-- A call that registers a descriptor changes the builder as a whole or, if it fails,
    not at all. After any such calls, the registry that is built finds at a key what the
    one descriptor that lists the key has there, and nothing if there is none, and what
    it finds is found there in every registry that is built later. Its functions are
    those of the descriptors that have been registered. -/
theorem find?_build_iff_listed (ds : List Descriptor) :
    (∀ b d, register d b =
      match b.add d with
      | .ok b' => .ok () b'
      | .error e => .error e b) ∧
      (∀ span k o, (ds.foldl addOrSkip empty).build.find? span k = some o ↔
        (k, o) ∈ (empty.accepted ds).flatMap Descriptor.listed) ∧
      (((empty.accepted ds).flatMap Descriptor.listed).map Prod.fst).Nodup ∧
      (∀ ds' span k o, (ds.foldl addOrSkip empty).build.find? span k = some o →
        ((ds ++ ds').foldl addOrSkip empty).build.find? span k = some o) ∧
      ∀ name, (ds.foldl addOrSkip empty).build.hasFunction name ↔
        ∃ d, .function d ∈ empty.accepted ds ∧ d.name = name := by
  have hds := holds_foldl_addOrSkip ds
  refine ⟨fun b d => register_eq d b, fun span k o => ?_, hds.nodup,
    fun ds' span k o h => find?_build_append ds ds' h, hds.contains_iff⟩
  rw [hds.find?_build, hds.get?_iff]

end RegistryBuilder

/-! ## The standard registry -/

/-- All that a registry finds is found in another one. -/
def Registry.Extends (r base : Registry) : Prop :=
  ∀ span k o, base.find? span k = some o → r.find? span k = some o

namespace Standard

open RegistryBuilder

/-- No two standard overloads have the same key. -/
theorem accepted_descriptors : empty.accepted descriptors = descriptors :=
  (accepted_sublist empty descriptors).eq_of_length (by decide +kernel)

theorem find?_registry (span : Span) (k : OverloadKey) (o : Operation) :
    registry.find? span k = some o ↔ (k, o) ∈ descriptors.flatMap Descriptor.listed := by
  have hholds := holds_foldl_addOrSkip descriptors
  rw [accepted_descriptors] at hholds
  rw [← hholds.get?_iff, ← hholds.find?_build span]
  rfl

/-- Further descriptors take nothing from the standard registry. -/
theorem extends_registry (ds : List Descriptor) :
    Registry.Extends ((descriptors ++ ds).foldl addOrSkip empty).build registry :=
  fun _ _ _ h => find?_build_append descriptors ds h

end Standard

end ExprMachine
