import ExprMachine.Proofs.FlatTable

/-!
# The order of registration

Descriptors that can be registered in one order can be registered in every order, and the
registries that are built give the same answers (`RegistryBuilder.addAll_perm`).

* Descriptors can be registered exactly if functions have names and no key is listed
  twice, of which the order is no part (`RegistryBuilder.Holds.exists_addAll_iff`).
* Builders whose tables have the same entries, in whatever order, are built into
  registries that give the same answers: tables are asked by key, and what is listed of
  them is listed in alphabetical order (`RegistryBuilder.Reorders.agrees`).
-/

namespace ExprMachine

/-- Texts are sorted in one way only. -/
theorem sortedTexts_perm {texts texts' : List String} (h : texts.Perm texts') :
    sortedTexts texts = sortedTexts texts' := by
  have hsorted (l : List String) : (sortedTexts l).Pairwise (· ≤ ·) := by
    refine (List.pairwise_mergeSort (fun a b c hab hbc => ?_) (fun a b => ?_) l).imp
      of_decide_eq_true
    · exact decide_eq_true (String.le_trans (of_decide_eq_true hab) (of_decide_eq_true hbc))
    · simpa using String.le_total a b
  have hperm : (sortedTexts texts).Perm (sortedTexts texts') :=
    (List.mergeSort_perm ..).trans (h.trans (List.mergeSort_perm ..).symm)
  exact hperm.eq_of_pairwise (fun a b _ _ => String.le_antisymm) (hsorted _) (hsorted _)

/-! ## What can be registered -/

/-- Whether a descriptor has a name, if it needs one. -/
def Descriptor.IsNamed : Descriptor → Prop
  | .function d => d.name ≠ ""
  | .binary _ | .unary _ => True

namespace RegistryBuilder

variable {b b' : RegistryBuilder} {d : Descriptor} {ds ds' before : List Descriptor}

/-- A function without a name is not registered. -/
theorem isNamed_of_add (h : b.add d = .ok b') : d.IsNamed := by
  cases d with
  | function f =>
    intro hname
    rw [add, addFunction, if_pos hname] at h
    cases h
  | binary | unary => trivial

/-- A descriptor with keys of its own can be registered. -/
theorem exists_add (hname : d.IsNamed) (hnodup : (d.listed.map Prod.fst).Nodup)
    (hfree : ∀ p ∈ d.listed, b.get? p.1 = none) : ∃ b', b.add d = .ok b' := by
  cases d with
  | function f =>
    have hkinds : (f.overloads.map Prod.fst).Nodup := by
      refine List.Nodup.of_map (OverloadKey.function f.name) ?_
      simpa [Descriptor.listed, Function.comp_def] using hnodup
    have hkeys : ((keyedOverloads f).map Prod.fst).Nodup := by
      rw [keys_keyedOverloads]
      exact hkinds.map signatureKey_injective
    -- Overloads are kept by the texts of their signatures, which tell them apart as the signatures
    -- do.
    have habsent : ∀ p ∈ keyedOverloads f,
        ((b.functions.get? f.name).getD []).get? p.1 = none := by
      intro p hp
      obtain ⟨o, ho, rfl⟩ := List.mem_map.1 hp
      exact Option.map_eq_none_iff.1 (hfree _ (List.mem_map_of_mem ho))
    rw [add, addFunction, if_neg hname, Entries.extend_of_free hkeys habsent]
    exact ⟨_, rfl⟩
  | binary f =>
    have hkeys : (f.overloads.map Prod.fst).Nodup := by
      refine List.Nodup.of_map (fun p => OverloadKey.binary f.operator p.1 p.2) ?_
      simpa [Descriptor.listed, Function.comp_def] using hnodup
    have habsent : ∀ p ∈ f.overloads, ((b.binary.get? f.operator).getD []).get? p.1 = none :=
      fun p hp => Option.map_eq_none_iff.1 (hfree _ (List.mem_map_of_mem hp))
    rw [add, addBinary, Entries.extend_of_free hkeys habsent]
    exact ⟨_, rfl⟩
  | unary f =>
    have hkeys : (f.overloads.map Prod.fst).Nodup := by
      refine List.Nodup.of_map (OverloadKey.unary f.operator) ?_
      simpa [Descriptor.listed, Function.comp_def] using hnodup
    have habsent : ∀ p ∈ f.overloads, ((b.unary.get? f.operator).getD []).get? p.1 = none :=
      fun p hp => Option.map_eq_none_iff.1 (hfree _ (List.mem_map_of_mem hp))
    rw [add, addUnary, Entries.extend_of_free hkeys habsent]
    exact ⟨_, rfl⟩

/-- Descriptors can be registered exactly if functions have names and no key is listed
    twice. -/
theorem Holds.exists_addAll_iff (hb : b.Holds before) : (∃ b', b.addAll ds = .ok b') ↔
    (∀ d ∈ ds, d.IsNamed) ∧ (((before ++ ds).flatMap Descriptor.listed).map Prod.fst).Nodup := by
  induction ds generalizing b before with
  | nil =>
    rw [List.append_nil]
    exact ⟨fun _ => ⟨nofun, hb.nodup⟩, fun _ => ⟨b, rfl⟩⟩
  | cons d ds ih =>
    have hshift : before ++ d :: ds = before ++ [d] ++ ds := by simp
    rw [List.forall_mem_cons]
    constructor
    · rintro ⟨b', h⟩
      obtain ⟨c, hadd, hrest⟩ := addAll_cons_eq_ok h
      obtain ⟨hnamed, hnodup⟩ := (ih (hb.add hadd)).1 ⟨b', hrest⟩
      exact ⟨⟨isNamed_of_add hadd, hnamed⟩, hshift ▸ hnodup⟩
    · rintro ⟨⟨hname, hnamed⟩, hnodup⟩
      have hkeys := hnodup
      rw [List.flatMap_append, List.flatMap_cons, List.map_append, List.map_append] at hkeys
      obtain ⟨-, hlisted, hapart⟩ := List.nodup_append.1 hkeys
      have hfree : ∀ p ∈ d.listed, b.get? p.1 = none := by
        intro p hp
        refine Option.eq_none_iff_forall_ne_some.2 fun o ho => ?_
        -- What is there already has been listed before.
        have hmem := List.mem_map_of_mem (f := Prod.fst) ((hb.get?_iff _ o).1 ho)
        exact hapart _ hmem _ (List.mem_append_left _ (List.mem_map_of_mem hp)) rfl
      obtain ⟨c, hadd⟩ := exists_add hname (List.nodup_append.1 hlisted).1 hfree
      obtain ⟨b', h⟩ := (ih (hb.add hadd)).2 ⟨hnamed, hshift ▸ hnodup⟩
      exact ⟨b', by rw [addAll_cons, hadd]; exact h⟩

end RegistryBuilder

/-! ## Answers -/

/-- Two registries give the same answers, whatever they are asked. -/
structure Registry.Agrees (r r' : Registry) : Prop where
  /-- They have the same functions. -/
  hasFunction : ∀ name, r.hasFunction name = r'.hasFunction name
  /-- They list the same overloads of a function. -/
  signatures : ∀ name, r.signatures name = r'.signatures name
  /-- They find the same overload for a call, or fail in the same way. -/
  resolve : ∀ name kinds span, r.resolve name kinds span = r'.resolve name kinds span
  /-- They give the same result of a call, or fail in the same way. -/
  call : ∀ name args span, r.call name args span = r'.call name args span
  /-- They give the same result of a unary operator, or fail in the same way. -/
  applyUnary : ∀ op operand span, r.applyUnary op operand span = r'.applyUnary op operand span
  /-- They give the same result of a binary operator, or fail in the same way. -/
  applyBinary : ∀ op left right span,
    r.applyBinary op left right span = r'.applyBinary op left right span
  /-- Their flat tables have the same entries, and as many. -/
  table : r.table = r'.table

namespace RegistryBuilder

variable {b b' c c' : RegistryBuilder} {ds ds' : List Descriptor}

/-- Two builders have the same functions, and each of their tables has the same entries,
    in one order or another. -/
structure Reorders (b b' : RegistryBuilder) : Prop where
  contains : ∀ name, b.functions.contains name = b'.functions.contains name
  function : ∀ name,
    ((b.functions.get? name).getD []).Perm ((b'.functions.get? name).getD [])
  binary : ∀ op, ((b.binary.get? op).getD []).Perm ((b'.binary.get? op).getD [])
  unary : ∀ op, ((b.unary.get? op).getD []).Perm ((b'.unary.get? op).getD [])

/-- The tables of a builder have one entry for each key. -/
structure Distinct (b : RegistryBuilder) : Prop where
  function : ∀ name, ((b.functions.get? name).getD []).keys.Nodup
  binary : ∀ op, ((b.binary.get? op).getD []).keys.Nodup
  unary : ∀ op, ((b.unary.get? op).getD []).keys.Nodup

namespace Reorders

theorem symm (h : b.Reorders b') : b'.Reorders b where
  contains name := (h.contains name).symm
  function name := (h.function name).symm
  binary op := (h.binary op).symm
  unary op := (h.unary op).symm

theorem trans (h : b.Reorders b') (h' : b'.Reorders c) : b.Reorders c where
  contains name := (h.contains name).trans (h'.contains name)
  function name := (h.function name).trans (h'.function name)
  binary op := (h.binary op).trans (h'.binary op)
  unary op := (h.unary op).trans (h'.unary op)

/-- Another order of the entries leaves the keys distinct. -/
theorem distinct (h : b.Reorders b') (hb : b.Distinct) : b'.Distinct where
  function name := ((h.function name).map Prod.fst).nodup_iff.1 (hb.function name)
  binary op := ((h.binary op).map Prod.fst).nodup_iff.1 (hb.binary op)
  unary op := ((h.unary op).map Prod.fst).nodup_iff.1 (hb.unary op)

variable (h : b.Reorders b') (hb : b.Distinct)
include h

/-- Overloads are listed in alphabetical order, whatever their own is. -/
theorem signatures_eq (name : String) :
    b.build.signatures name = b'.build.signatures name :=
  sortedTexts_perm ((h.function name).map _)

include hb

/-- A call is resolved by its key, and an error lists the overloads in alphabetical order. -/
theorem resolve_eq (name : String) (kinds : List Kind) (span : Span) :
    b.build.resolve name kinds span = b'.build.resolve name kinds span := by
  have hcontains : (b.build.functions.get? name).isSome = (b'.build.functions.get? name).isSome :=
    h.contains name
  have hget : ((b.build.functions.get? name).getD []).get? (signatureKey kinds) =
      ((b'.build.functions.get? name).getD []).get? (signatureKey kinds) :=
    Entries.get?_perm (h.function name) (hb.function name) _
  rw [Registry.resolve, Registry.resolve, h.signatures_eq name]
  cases ht : b.build.functions.get? name with
  | none =>
    rw [ht, Option.isSome_none, eq_comm, Option.isSome_eq_false_iff, Option.isNone_iff_eq_none]
      at hcontains
    rw [hcontains]
  | some t =>
    rw [ht, Option.isSome_some, eq_comm] at hcontains
    obtain ⟨t', ht'⟩ := Option.isSome_iff_exists.1 hcontains
    rw [ht, ht', Option.getD_some, Option.getD_some] at hget
    simp only [ht', hget]

theorem call_eq (name : String) (args : List Value) (span : Span) :
    b.build.call name args span = b'.build.call name args span := by
  rw [Registry.call, Registry.call, h.resolve_eq hb]

theorem applyUnary_eq (op : UnaryOperator) (operand : Value) (span : Span) :
    b.build.applyUnary op operand span = b'.build.applyUnary op operand span := by
  have hget : ((b.build.unary.get? op).getD []).get? operand.kind =
      ((b'.build.unary.get? op).getD []).get? operand.kind :=
    Entries.get?_perm (h.unary op) (hb.unary op) _
  have hlist : b.build.unarySignatures op = b'.build.unarySignatures op :=
    sortedTexts_perm ((h.unary op).map _)
  rw [Registry.applyUnary, Registry.applyUnary, hget, hlist]

/-- The flat table is the same, whichever overload is written first. -/
theorem table_eq : b.build.table = b'.build.table := by
  rw [b.build.table_eq, b'.build.table_eq, BinaryTable.ofOverloads_eq_fill,
    BinaryTable.ofOverloads_eq_fill]
  exact BinaryTable.fill_perm hb.binary h.binary

theorem applyBinary_eq (op : Nat) (left right : Value) (span : Span) :
    b.build.applyBinary op left right span = b'.build.applyBinary op left right span := by
  have hlist : ∀ o, b.build.binarySignatures o = b'.build.binarySignatures o := fun o =>
    sortedTexts_perm ((h.binary o).map _)
  have hmiss : b.build.binaryMiss op left.kind right.kind span =
      b'.build.binaryMiss op left.kind right.kind span := by
    simp only [Registry.binaryMiss, hlist]
  rw [Registry.applyBinary, Registry.applyBinary, h.table_eq hb, hmiss]

/-- The order of the entries does not show in the answers of a registry. -/
theorem agrees : b.build.Agrees b'.build where
  hasFunction := h.contains
  signatures := h.signatures_eq
  resolve := h.resolve_eq hb
  call := h.call_eq hb
  applyUnary := h.applyUnary_eq hb
  applyBinary := h.applyBinary_eq hb
  table := h.table_eq hb

end Reorders

/-- No table that descriptors are registered in has a key twice. -/
theorem distinct_of_addAll (h : empty.addAll ds = .ok b) : b.Distinct where
  function name := (DescriptorTable.function name).nodup_keys_read h
  binary op := (DescriptorTable.binary op).nodup_keys_read h
  unary op := (DescriptorTable.unary op).nodup_keys_read h

/-- Descriptors that are registered in another order leave their entries in that order. -/
theorem reorders_of_perm (h : empty.addAll ds = .ok b) (h' : empty.addAll ds' = .ok b')
    (hperm : ds.Perm ds') : b.Reorders b' where
  contains name := by
    rw [Bool.eq_iff_iff, (holds_empty.addAll h).contains_iff, (holds_empty.addAll h').contains_iff]
    exact exists_congr fun d => and_congr_left' hperm.mem_iff
  function name := (DescriptorTable.function name).read_perm h h' hperm
  binary op := (DescriptorTable.binary op).read_perm h h' hperm
  unary op := (DescriptorTable.unary op).read_perm h h' hperm

/-- Descriptors that can be registered in one order can be registered in every order, and
    the two registries give the same answers, in whatever order the entries of their
    tables are kept. -/
theorem addAll_perm (h : empty.addAll ds = .ok b) (hperm : ds.Perm ds') :
    ∃ b', empty.addAll ds' = .ok b' ∧ b.build.Agrees b'.build ∧
      ∀ c c', b.Reorders c → b'.Reorders c' → c.build.Agrees c'.build := by
  obtain ⟨hnamed, hnodup⟩ := holds_empty.exists_addAll_iff.1 ⟨b, h⟩
  have hnodup' := ((hperm.flatMap_right Descriptor.listed).map Prod.fst).nodup_iff.1 hnodup
  obtain ⟨b', h'⟩ := holds_empty.exists_addAll_iff.2
    ⟨fun d hd => hnamed d (hperm.mem_iff.2 hd), hnodup'⟩
  -- Builders that have the same entries in some order are related through the two that have been
  -- built.
  have hb := distinct_of_addAll h
  have hreorders := reorders_of_perm h h' hperm
  refine ⟨b', h', hreorders.agrees hb, fun c c' hc hc' => ?_⟩
  exact (hc.symm.trans (hreorders.trans hc')).agrees (hc.distinct hb)

/-- Two functions with one name, of which one is not idempotent, and two descriptors of one
    operator, with an operator of its own between them. -/
def shared : List Descriptor :=
  [.function { name := "f", overloads := [([.int], fun _ _ => .ok .null)] },
    .binary { operator := .add, overloads := [((.null, .null), fun left _ _ => .ok left)] },
    .unary { operator := .not, overloads := [(.int, fun operand _ => .ok operand)] },
    .binary { operator := .add, overloads := [((.bool, .null), fun _ right _ => .ok right)] },
    .function { name := "f", idempotent := false, overloads := [([], fun _ _ => .ok .null)] }]

/-- Two functions of one name, registered the other way round. -/
theorem addAll_shared_reverse : ∃ b b', empty.addAll shared = .ok b ∧
    empty.addAll shared.reverse = .ok b' ∧ b.build.Agrees b'.build := by
  have hshared : ∃ b, empty.addAll shared = .ok b := ⟨_, rfl⟩
  obtain ⟨b, h⟩ := hshared
  obtain ⟨b', h', hagrees, -⟩ := addAll_perm h (List.reverse_perm shared).symm
  exact ⟨b, b', h, h', hagrees⟩

end RegistryBuilder

end ExprMachine
