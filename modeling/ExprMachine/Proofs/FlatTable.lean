import Mathlib.Data.List.Perm.Basic
import ExprMachine.Proofs.Contents

/-!
# The flat table of the binary operators

The flat table of a registry and the map from operators to overloads, from which it is
filled, are two views of the same handlers (`RegistryBuilder.table_ofCalls`):

* A slot holds what the map holds for the operator and the kinds of the slot, and an
  index that no operator has finds nothing.
* Every overload is counted once (`BinaryTable.populated_fill`).
* A table is determined by what is found in it (`BinaryTable.eq_of_get?_eq`), so the
  order in which the overloads of an operator are inserted does not show
  (`BinaryTable.fill_perm`).
-/

namespace ExprMachine

theorem Kind.exists_index_eq {n : Nat} (h : n < Kind.count) : ∃ k : Kind, k.index = n := by
  have hall : ∀ n : Fin Kind.count, (Kind.all[n]).index = n := by decide
  exact ⟨_, hall ⟨n, h⟩⟩

namespace BinaryOperator

theorem exists_index_eq {n : Nat} (h : n < count) : ∃ op : BinaryOperator, op.index = n := by
  have hall : ∀ n : Fin count, (all[n]).index = n := by decide
  exact ⟨_, hall ⟨n, h⟩⟩

end BinaryOperator

namespace BinaryTable

variable {op : Nat} {o : BinaryOperator} {left right : Kind} {handler : BinaryHandler}
  {t t' : BinaryTable} {overloads overloads' : BinaryOperator → Entries (Kind × Kind) BinaryHandler}

theorem get?_of_count_le (h : BinaryOperator.count ≤ op) : t.get? op left right = none :=
  if_neg (Nat.not_lt.2 h)

/-- Every slot is that of an operator and two kinds. -/
theorem exists_slot_eq {n : Nat} (h : n < BinaryOperator.count * Kind.count * Kind.count) :
    ∃ (o : BinaryOperator) (left right : Kind), slot o.index left right = n := by
  simp only [BinaryOperator.count, Kind.count] at h
  obtain ⟨o, ho⟩ := BinaryOperator.exists_index_eq (n := n / 100)
    (by simp only [BinaryOperator.count]; omega)
  obtain ⟨left, hleft⟩ := Kind.exists_index_eq (n := n / 10 % 10)
    (by simp only [Kind.count]; omega)
  obtain ⟨right, hright⟩ := Kind.exists_index_eq (n := n % 10)
    (by simp only [Kind.count]; omega)
  refine ⟨o, left, right, ?_⟩
  rw [slot, ho, hleft, hright, Kind.count]
  omega

theorem Complete.getElem?_slot (h : t.Complete) (o : BinaryOperator) (left right : Kind) :
    t.slots[slot o.index left right]? = some (t.get? o.index left right) := by
  have hslot : slot o.index left right < t.slots.size := h ▸ slot_lt o.index_lt_count
  rw [get?, if_pos o.index_lt_count, Array.getElem?_eq_getElem hslot, Option.join_some]

/-- A table is determined by what is found in it, and by their number. -/
theorem eq_of_get?_eq (h : t.Complete) (h' : t'.Complete)
    (hget : ∀ (o : BinaryOperator) left right, t.get? o.index left right = t'.get? o.index left right)
    (hpopulated : t.populated = t'.populated) : t = t' := by
  have hslots : t.slots = t'.slots := by
    refine Array.ext (h.trans h'.symm) fun n hn hn' => ?_
    obtain ⟨o, left, right, rfl⟩ := exists_slot_eq (h ▸ hn)
    have hslot := h.getElem?_slot o left right
    rw [hget, ← h'.getElem?_slot, Array.getElem?_eq_getElem hn,
      Array.getElem?_eq_getElem hn'] at hslot
    exact Option.some.inj hslot
  obtain ⟨slots, populated⟩ := t
  obtain ⟨slots', populated'⟩ := t'
  obtain rfl : slots = slots' := hslots
  obtain rfl : populated = populated' := hpopulated
  rfl

/-! ## Counting -/

theorem populated_insert (hop : op < BinaryOperator.count) (hfree : t.get? op left right = none) :
    (t.insert op left right handler).populated = t.populated + 1 := by
  rw [get?, if_pos hop] at hfree
  simp [insert, hfree]

/-- Overloads with keys of their own are counted once each. -/
theorem populated_insertAll (ht : t.Complete) {sub : Entries (Kind × Kind) BinaryHandler}
    (hsub : sub.keys.Nodup) (hfree : ∀ p ∈ sub, t.get? o.index p.1.1 p.1.2 = none) :
    (t.insertAll o sub).populated = t.populated + sub.length := by
  rw [insertAll]
  induction sub generalizing t with
  | nil => rfl
  | cons first rest ih =>
    obtain ⟨hfirst, hrest⟩ := List.nodup_cons.1 hsub
    obtain ⟨hnone, hnones⟩ := List.forall_mem_cons.1 hfree
    have hfree' : ∀ p ∈ rest,
        (t.insert o.index first.1.1 first.1.2 first.2).get? o.index p.1.1 p.1.2 = none := by
      intro p hp
      have hne : ¬(o.index = o.index ∧ first.1.1 = p.1.1 ∧ first.1.2 = p.1.2) := by
        rintro ⟨-, hleft, hright⟩
        exact hfirst (List.mem_map.2 ⟨p, hp, (Prod.ext hleft hright).symm⟩)
      rw [get?_insert ht o.index_lt_count, if_neg hne, hnones p hp]
    rw [List.foldl_cons, ih ht.insert hrest hfree', populated_insert o.index_lt_count hnone,
      List.length_cons]
    omega

theorem complete_fill : (fill overloads).Complete := by
  have hfold (ops : List BinaryOperator) (t : BinaryTable) (ht : t.Complete) :
      (ops.foldl (fun t op => t.insertAll op (overloads op)) t).Complete := by
    induction ops generalizing t with
    | nil => exact ht
    | cons first rest ih => exact ih _ (ht.insertAll _)
  exact hfold _ _ complete_empty

/-- A table counts all that it has been filled with. -/
theorem populated_fill (hnodup : ∀ op, (overloads op).keys.Nodup) :
    (fill overloads).populated = (BinaryOperator.all.flatMap overloads).length := by
  -- The operators still to come have nothing in the table.
  have hfold (ops : List BinaryOperator) (hops : ops.Nodup) (t : BinaryTable) (ht : t.Complete)
      (hfree : ∀ op ∈ ops, ∀ left right, t.get? op.index left right = none) :
      (ops.foldl (fun t op => t.insertAll op (overloads op)) t).populated =
        t.populated + (ops.flatMap overloads).length := by
    induction ops generalizing t with
    | nil => rfl
    | cons first rest ih =>
      obtain ⟨hfirst, hrest⟩ := List.nodup_cons.1 hops
      obtain ⟨hnone, hnones⟩ := List.forall_mem_cons.1 hfree
      have hfree' : ∀ op ∈ rest, ∀ left right,
          (t.insertAll first (overloads first)).get? op.index left right = none := by
        intro op hop left right
        have hne : first.index ≠ op.index := fun h =>
          hfirst (BinaryOperator.index_injective h ▸ hop)
        rw [get?_insertAll ht _ (hnodup first), if_neg hne, hnones op hop]
      rw [List.foldl_cons, ih hrest _ (ht.insertAll _) hfree',
        populated_insertAll ht (hnodup first) fun p _ => hnone p.1.1 p.1.2, List.flatMap_cons,
        List.length_append, Nat.add_assoc]
  have hall : BinaryOperator.all.Nodup := by decide
  rw [fill, hfold _ hall _ complete_empty fun _ _ _ _ => get?_empty]
  exact Nat.zero_add _

/-- The order in which the overloads of an operator are inserted does not show. -/
theorem fill_perm (hnodup : ∀ op, (overloads op).keys.Nodup)
    (hperm : ∀ op, (overloads op).Perm (overloads' op)) : fill overloads = fill overloads' := by
  have hnodup' : ∀ op, (overloads' op).keys.Nodup := fun op =>
    ((hperm op).map Prod.fst).nodup_iff.1 (hnodup op)
  refine eq_of_get?_eq complete_fill complete_fill (fun o left right => ?_) ?_
  · rw [get?_fill hnodup, get?_fill hnodup', Entries.get?_perm (hperm o) (hnodup o)]
  · rw [populated_fill hnodup, populated_fill hnodup']
    exact (List.Perm.flatMap_left _ fun op _ => hperm op).length_eq

end BinaryTable

/-! ## Registries -/

/-- Whether the overload of a key is one of a binary operator. -/
def OverloadKey.isBinary : OverloadKey → Bool
  | .binary .. => true
  | .function .. | .unary .. => false

theorem countP_isBinary_listed (d : Descriptor) :
    d.listed.countP (·.1.isBinary) =
      (BinaryOperator.all.flatMap fun op => d.pairsOfBinary op).length := by
  cases d with
  | function f =>
    have hnone : (Descriptor.function f).listed.countP (·.1.isBinary) = 0 := by
      simp [Descriptor.listed, OverloadKey.isBinary]
    simp [hnone, Descriptor.pairsOfBinary]
  | binary f =>
    have hall : (Descriptor.binary f).listed.countP (·.1.isBinary) = f.overloads.length := by
      simp [Descriptor.listed, OverloadKey.isBinary]
    -- The overloads are those of one of the operators.
    obtain ⟨operator, overloads⟩ := f
    cases operator <;> simp [hall, BinaryOperator.all, Descriptor.pairsOfBinary]
  | unary f =>
    have hnone : (Descriptor.unary f).listed.countP (·.1.isBinary) = 0 := by
      simp [Descriptor.listed, OverloadKey.isBinary]
    simp [hnone, Descriptor.pairsOfBinary]

/-- The overloads of binary operators that descriptors list are those that they have for
    one operator or another. -/
theorem countP_isBinary_flatMap_listed (ds : List Descriptor) :
    (ds.flatMap Descriptor.listed).countP (·.1.isBinary) =
      (BinaryOperator.all.flatMap fun op => ds.flatMap (Descriptor.pairsOfBinary op)).length := by
  induction ds with
  | nil => rfl
  | cons d ds ih =>
    have hsplit := List.flatMap_append_perm BinaryOperator.all (fun op => d.pairsOfBinary op)
      fun op => ds.flatMap (Descriptor.pairsOfBinary op)
    simp only [List.flatMap_cons, List.countP_append]
    rw [← hsplit.length_eq, List.length_append, ih, countP_isBinary_listed]

/-- The registry that is built after calls that register descriptors, of which some may
    fail. -/
def Registry.ofCalls (ds : List Descriptor) : Registry :=
  (ds.foldl RegistryBuilder.addOrSkip .empty).build

/-- The handler that the overloads of a registry have for a binary operator, given by its
    index, and two kinds. -/
def Registry.handler? (r : Registry) (op : Nat) (left right : Kind) : Option BinaryHandler :=
  (BinaryOperator.ofIndex? op).bind fun o =>
    (r.binary.get? o).bind fun overloads => overloads.get? (left, right)

namespace RegistryBuilder

variable (ds : List Descriptor)

theorem nodup_keys_binary_ofCalls (op : BinaryOperator) :
    (((Registry.ofCalls ds).binary.get? op).getD []).keys.Nodup :=
  (DescriptorTable.binary op).nodup_keys_read (addAll_accepted empty ds)

/-- A slot of the table holds what the overloads hold. -/
theorem get?_table_ofCalls (op : Nat) (left right : Kind) :
    (Registry.ofCalls ds).table.get? op left right = (Registry.ofCalls ds).handler? op left right := by
  rw [Registry.handler?]
  cases hop : BinaryOperator.ofIndex? op with
  | none =>
    refine BinaryTable.get?_of_count_le (Nat.not_lt.1 fun hlt => ?_)
    obtain ⟨o, rfl⟩ := BinaryOperator.exists_index_eq hlt
    rw [o.ofIndex?_index] at hop
    cases hop
  | some o =>
    obtain rfl := BinaryOperator.index_of_ofIndex? hop
    refine (BinaryTable.get?_ofOverloads (nodup_keys_binary_ofCalls ds)).trans ?_
    rw [Option.bind_some]
    cases (Registry.ofCalls ds).binary.get? o <;> rfl

/-- A slot of the table holds the handler that a descriptor has registered there. -/
theorem get?_table_ofCalls_eq_some_iff {op : Nat} {left right : Kind} {handler : BinaryHandler} :
    (Registry.ofCalls ds).table.get? op left right = some handler ↔
      ∃ o : BinaryOperator, o.index = op ∧
        (.binary o left right, .binary handler) ∈
          (empty.accepted ds).flatMap Descriptor.listed := by
  have hds := holds_foldl_addOrSkip ds
  have hlisted (o : BinaryOperator) :
      (Registry.ofCalls ds).table.get? o.index left right = some handler ↔
        (.binary o left right, .binary handler) ∈
          (empty.accepted ds).flatMap Descriptor.listed := by
    have hfind : (Registry.ofCalls ds).find? Span.none (.binary o left right) =
        ((Registry.ofCalls ds).table.get? o.index left right).map .binary := rfl
    rw [← hds.get?_iff, ← hds.find?_build Span.none, ← Registry.ofCalls, hfind]
    simp
  constructor
  · intro h
    -- An index is that of an operator, or it is beyond the table.
    rcases Nat.lt_or_ge op BinaryOperator.count with hlt | hge
    · obtain ⟨o, rfl⟩ := BinaryOperator.exists_index_eq hlt
      exact ⟨o, rfl, (hlisted o).1 h⟩
    · rw [BinaryTable.get?_of_count_le hge] at h
      cases h
  · rintro ⟨o, rfl, hmem⟩
    exact (hlisted o).2 hmem

/-- The table counts the overloads that have been registered. -/
theorem populated_table_ofCalls : (Registry.ofCalls ds).table.populated =
    ((empty.accepted ds).flatMap Descriptor.listed).countP (·.1.isBinary) := by
  have hread : ∀ op, ((Registry.ofCalls ds).binary.get? op).getD [] =
      (empty.accepted ds).flatMap (Descriptor.pairsOfBinary op) := fun op =>
    (DescriptorTable.binary op).read_of_addAll (addAll_accepted empty ds)
  refine (BinaryTable.populated_fill (nodup_keys_binary_ofCalls ds)).trans ?_
  simp only [hread, countP_isBinary_flatMap_listed]

/-- The table and the overloads of a registry are two views of the same handlers, after
    any calls that register descriptors. What the table has in the slot of an operator's
    index and two kinds is what the overloads have for them: the handler that a
    descriptor has registered there, and nothing if there is none or the index is that of
    no operator. The table counts every overload once, and it does not show in which order
    they have been inserted. So applying an operator by means of the table is applying the
    handler among the overloads. -/
theorem table_ofCalls :
    (∀ op left right, (Registry.ofCalls ds).table.get? op left right =
      (Registry.ofCalls ds).handler? op left right) ∧
    (∀ op left right handler,
      (Registry.ofCalls ds).table.get? op left right = some handler ↔
        ∃ o : BinaryOperator, o.index = op ∧
          (.binary o left right, .binary handler) ∈
            (empty.accepted ds).flatMap Descriptor.listed) ∧
    (∀ op left right, 14 ≤ op → (Registry.ofCalls ds).table.get? op left right = none) ∧
    (Registry.ofCalls ds).table.populated =
      ((empty.accepted ds).flatMap Descriptor.listed).countP (·.1.isBinary) ∧
    (∀ overloads : BinaryOperator → Entries (Kind × Kind) BinaryHandler,
      (∀ o, (((Registry.ofCalls ds).binary.get? o).getD []).Perm (overloads o)) →
      BinaryTable.fill overloads = (Registry.ofCalls ds).table) ∧
    ∀ op left right span, (Registry.ofCalls ds).applyBinary op left right span =
      match (Registry.ofCalls ds).handler? op left.kind right.kind with
      | some handler => handler left right span
      | none => .error ((Registry.ofCalls ds).binaryMiss op left.kind right.kind span) := by
  refine ⟨get?_table_ofCalls ds, fun op left right handler => get?_table_ofCalls_eq_some_iff ds,
    fun op left right hop => BinaryTable.get?_of_count_le hop, populated_table_ofCalls ds,
    fun overloads hperm => (BinaryTable.fill_perm (nodup_keys_binary_ofCalls ds) hperm).symm,
    fun op left right span => ?_⟩
  have hget := get?_table_ofCalls ds op left.kind right.kind
  cases hfound : (Registry.ofCalls ds).handler? op left.kind right.kind with
  | none => simp only [Registry.applyBinary, hget, hfound]
  | some handler => simp only [Registry.applyBinary, hget, hfound]

end RegistryBuilder

end ExprMachine
