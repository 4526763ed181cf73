import ExprMachine.Proofs.Contents

/-!
# The slots of overloads

The overloads of a function are kept by texts, the keys of their signatures: each key is
a *slot* with room for one overload. As a key tells its signature, no two signatures
share a slot, and what happens to a function can be told by signatures alone
(`RegistryBuilder.slots_of_signatures`).

* An overload stands in the slot of its signature, and no other one does
  (`RegistryBuilder.Slotted`).
* A function is registered if it has a name and repeats no signature, neither one of its
  own nor one of an overload that has its name already. No other signature is in the way
  (`RegistryBuilder.Slotted.exists_addFunction_iff`), and no overload is moved out of its
  slot (`RegistryBuilder.overloadsOf_addFunction`).
* A call is resolved to the overload whose signature is the list of the kinds at hand
  (`RegistryBuilder.Slotted.resolve_eq_ok_iff`).
-/

namespace ExprMachine

namespace RegistryBuilder

variable {b : RegistryBuilder} {name : String} {kinds : List Kind}

/-- The overloads of a function, by their slots. -/
def overloadsOf (b : RegistryBuilder) (name : String) : Entries String FunctionOverload :=
  (b.functions.get? name).getD []

/-- The slots in which a function has an overload. -/
def slotsOf (b : RegistryBuilder) (name : String) : List String := (b.overloadsOf name).keys

/-- The signatures of the overloads of a function. -/
def signaturesOf (b : RegistryBuilder) (name : String) : List (List Kind) :=
  (b.overloadsOf name).map (·.2.signature)

/-- What extends the overloads of a function can be registered, if the function has a
    name. -/
theorem exists_addFunction_iff_extend (b : RegistryBuilder) (d : FunctionDescriptor) :
    (∃ b', b.addFunction d = .ok b') ↔
      d.name ≠ "" ∧ ∃ t, (b.overloadsOf d.name).extend (keyedOverloads d) = .ok t := by
  constructor
  · rintro ⟨b', h⟩
    obtain ⟨t, hext, -⟩ := addFunction_eq_ok h
    refine ⟨fun hname => ?_, t, hext⟩
    rw [addFunction, if_pos hname] at h
    cases h
  · rintro ⟨hname, t, hext⟩
    rw [overloadsOf] at hext
    rw [addFunction, if_neg hname, hext]
    exact ⟨_, rfl⟩

/-- A function that is registered leaves all overloads where they are, and adds its own. -/
theorem overloadsOf_addFunction {d : FunctionDescriptor} {b' : RegistryBuilder}
    (h : b.addFunction d = .ok b') (name : String) :
    b'.overloadsOf name = b.overloadsOf name ++ (Descriptor.function d).pairsOfFunction name :=
  Entries.extend_eq_append ((DescriptorTable.function name).extend_of_add b (.function d) b' h)

/-- Each overload of a function stands in the slot of its signature, and no two stand in
    one slot. -/
structure Slotted (b : RegistryBuilder) : Prop where
  key_eq : ∀ name, ∀ p ∈ b.overloadsOf name, p.1 = signatureKey p.2.signature
  nodup_slotsOf : ∀ name, (b.slotsOf name).Nodup

/-- Registering descriptors puts each overload in the slot of its signature. -/
theorem slotted_foldl_addOrSkip (ds : List Descriptor) : (ds.foldl addOrSkip empty).Slotted where
  key_eq name p hp := by
    have hread : (ds.foldl addOrSkip empty).overloadsOf name =
        (empty.accepted ds).flatMap (Descriptor.pairsOfFunction name) :=
      (DescriptorTable.function name).read_of_addAll (addAll_accepted empty ds)
    rw [hread] at hp
    obtain ⟨d, -, hp⟩ := List.mem_flatMap.1 hp
    cases d with
    | function f =>
      rw [Descriptor.pairsOfFunction] at hp
      split at hp
      · obtain ⟨o, -, rfl⟩ := List.mem_map.1 hp
        rfl
      · cases hp
    | binary | unary => cases hp
  nodup_slotsOf name := (DescriptorTable.function name).nodup_keys_read (addAll_accepted empty ds)

namespace Slotted

variable (hb : b.Slotted)
include hb

/-- The slots are the keys of the signatures, in their order. -/
theorem slotsOf_eq (name : String) : b.slotsOf name = (b.signaturesOf name).map signatureKey := by
  rw [slotsOf, Entries.keys, signaturesOf, List.map_map]
  exact List.map_congr_left (hb.key_eq name)

/-- No two overloads of a function have the same signature. -/
theorem nodup_signaturesOf (name : String) : (b.signaturesOf name).Nodup := by
  have hslots := hb.nodup_slotsOf name
  rw [hb.slotsOf_eq] at hslots
  exact hslots.of_map signatureKey

/-- A function is registered if it has a name and repeats no signature. -/
theorem exists_addFunction_iff (d : FunctionDescriptor) :
    (∃ b', b.addFunction d = .ok b') ↔
      d.name ≠ "" ∧ (b.signaturesOf d.name ++ d.overloads.map Prod.fst).Nodup := by
  rw [exists_addFunction_iff_extend]
  refine and_congr_right fun _ => ?_
  calc (∃ t, (b.overloadsOf d.name).extend (keyedOverloads d) = .ok t)
      ↔ (b.slotsOf d.name ++ (keyedOverloads d).map Prod.fst).Nodup :=
        Entries.exists_extend_iff (hb.nodup_slotsOf d.name)
    _ ↔ ((b.signaturesOf d.name ++ d.overloads.map Prod.fst).map signatureKey).Nodup := by
        rw [hb.slotsOf_eq, keys_keyedOverloads, List.map_append]
    _ ↔ (b.signaturesOf d.name ++ d.overloads.map Prod.fst).Nodup :=
        List.nodup_map_iff signatureKey_injective

/-- The slot of a signature holds the overload that has this signature. -/
theorem get?_overloadsOf_eq_some_iff {o : FunctionOverload} :
    (b.overloadsOf name).get? (signatureKey kinds) = some o ↔
      o ∈ (b.overloadsOf name).map Prod.snd ∧ o.signature = kinds := by
  rw [Entries.get?_eq_some_iff_mem (hb.nodup_slotsOf name)]
  constructor
  · intro hmem
    refine ⟨List.mem_map_of_mem hmem, ?_⟩
    exact (signatureKey_injective (hb.key_eq name _ hmem)).symm
  · rintro ⟨hmem, rfl⟩
    obtain ⟨⟨key, o⟩, hp, rfl⟩ := List.mem_map.1 hmem
    obtain rfl : key = signatureKey o.signature := hb.key_eq name _ hp
    exact hp

/-- A call is resolved to the overload that has the kinds at hand for its signature. -/
theorem resolve_eq_ok_iff {span : Span} {o : FunctionOverload} :
    b.build.resolve name kinds span = .ok o ↔
      o ∈ (b.overloadsOf name).map Prod.snd ∧ o.signature = kinds := by
  have hslot : (b.build.resolve name kinds span).toOption =
      (b.overloadsOf name).get? (signatureKey kinds) := b.build.toOption_resolve name kinds span
  rw [← hb.get?_overloadsOf_eq_some_iff, ← hslot]
  cases b.build.resolve name kinds span <;> simp [Except.toOption]

end Slotted

/-- Two signatures have one key only if they are the same, whatever their lengths. So no
    two overloads of a function share a slot. After any calls that register descriptors,
    its slots are the keys of the signatures of its overloads, all of them distinct; a
    further function can be registered exactly if it has a name and repeats no signature,
    of its own or of the overloads that have its name, and then its overloads come on top
    of those that are there; and a call is resolved to the overload whose signature is the
    list of the kinds at hand, and to nothing else. -/
theorem slots_of_signatures :
    (∀ kinds kinds' : List Kind, signatureKey kinds = signatureKey kinds' ↔ kinds = kinds') ∧
    ∀ ds : List Descriptor,
      (∀ name, (ds.foldl addOrSkip empty).slotsOf name =
          ((ds.foldl addOrSkip empty).signaturesOf name).map signatureKey ∧
        ((ds.foldl addOrSkip empty).slotsOf name).Nodup ∧
        ((ds.foldl addOrSkip empty).signaturesOf name).Nodup) ∧
      (∀ d : FunctionDescriptor, (∃ b', (ds.foldl addOrSkip empty).addFunction d = .ok b') ↔
        d.name ≠ "" ∧
          ((ds.foldl addOrSkip empty).signaturesOf d.name ++ d.overloads.map Prod.fst).Nodup) ∧
      (∀ d b', (ds.foldl addOrSkip empty).addFunction d = .ok b' → ∀ name,
        b'.overloadsOf name = (ds.foldl addOrSkip empty).overloadsOf name ++
          (Descriptor.function d).pairsOfFunction name) ∧
      ∀ name kinds span o, (ds.foldl addOrSkip empty).build.resolve name kinds span = .ok o ↔
        o ∈ ((ds.foldl addOrSkip empty).overloadsOf name).map Prod.snd ∧ o.signature = kinds := by
  refine ⟨fun kinds kinds' => signatureKey_injective.eq_iff, fun ds => ?_⟩
  have hds := slotted_foldl_addOrSkip ds
  exact ⟨fun name => ⟨hds.slotsOf_eq name, hds.nodup_slotsOf name, hds.nodup_signaturesOf name⟩,
    hds.exists_addFunction_iff, fun d b' h => overloadsOf_addFunction h,
    fun name kinds span o => hds.resolve_eq_ok_iff⟩

/-- A function of integers of both kinds, in every order, and of none. -/
def ofIntegers : FunctionDescriptor where
  name := "f"
  overloads := [[], [.int], [.uint], [.int, .uint], [.uint, .int]].map fun kinds =>
    (kinds, fun args _ => .ok (.list args))

theorem slots_of_signatures_ofIntegers : ∃ b', empty.addFunction ofIntegers = .ok b' ∧
    b'.slotsOf "f" = ["", "int", "uint", "int,uint", "uint,int"] := by
  obtain ⟨-, hadds, hleaves, -⟩ := slots_of_signatures.2 []
  obtain ⟨b', h⟩ := (hadds ofIntegers).2 (by decide)
  refine ⟨b', h, ?_⟩
  rw [slotsOf, hleaves ofIntegers b' h]
  decide

end RegistryBuilder

end ExprMachine
