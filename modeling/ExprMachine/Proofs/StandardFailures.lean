import ExprMachine.Proofs.Concatenation
import ExprMachine.Proofs.Ensures
import ExprMachine.Proofs.FlatTable

/-!
# What standard operations fail with

A handler is called with values of the kinds that it is registered for, and reads its operands
as values of these kinds (`Reads`). So it never finds one of another kind, nor too few of them,
and fails only by what it computes: a result that does not fit, a divisor of zero, an argument
that it rejects (`Standard.tame_descriptors`).

Hence a standard operator or function gives a value, or fails at its own span by one of the few
causes that lie in the expression or in its input. No defect is among them
(`Standard.never_defective`).
-/

namespace ExprMachine

/-- A result that is a value, or a failure at a span by one of the causes allowed. -/
inductive FailsOnlyBy {α : Type} (allowed : EvalError.Cause → Prop) (span : Span) :
    Except EvalError α → Prop
  | value (a : α) : FailsOnlyBy allowed span (.ok a)
  | failure {cause : EvalError.Cause} (h : allowed cause) :
    FailsOnlyBy allowed span (.error ⟨span, cause⟩)

namespace EvalError.Cause

/-- The causes by which standard operators on two values fail. -/
inductive OfBinary : Cause → Prop
  | noSuchOverload (name kinds : String) (available : List String) :
    OfBinary (.noSuchOverload name kinds available)
  | overflow (operation : String) : OfBinary (.overflow operation)
  | divisionByZero : OfBinary .divisionByZero
  | modulusByZero : OfBinary .modulusByZero

/-- The causes by which standard operators on one value fail. -/
inductive OfUnary : Cause → Prop
  | noSuchOverload (name kinds : String) (available : List String) :
    OfUnary (.noSuchOverload name kinds available)
  | overflow (operation : String) : OfUnary (.overflow operation)

/-- The causes by which calls of standard functions fail. -/
inductive OfCall : Cause → Prop
  | noSuchFunction (name : String) : OfCall (.noSuchFunction name)
  | noSuchOverload (name kinds : String) (available : List String) :
    OfCall (.noSuchOverload name kinds available)
  | overflow (operation : String) : OfCall (.overflow operation)
  | invalidArgument (fault : ArgumentFault) : OfCall (.invalidArgument fault)

end EvalError.Cause

open EvalError.Cause

/-! ## Results of handlers -/

namespace FailsOnlyBy

variable {α β : Type} {allowed : EvalError.Cause → Prop} {span : Span}

/-- A computation fails only as allowed if its first part does and what follows always does. -/
theorem bind {r : Except EvalError α} (h : FailsOnlyBy allowed span r) {f : α → Except EvalError β}
    (hf : ∀ a, FailsOnlyBy allowed span (f a)) : FailsOnlyBy allowed span (r >>= f) := by
  cases h with
  | value a => exact hf a
  | failure h => exact .failure h

/-- Where no defect is allowed, no defect is met. -/
theorem cause_ne_defect {r : Except EvalError α} (h : FailsOnlyBy allowed span r)
    (hallowed : ∀ d, ¬ allowed (.defect d)) {e : EvalError} (he : r = .error e) (d : Defect) :
    e.cause ≠ .defect d := by
  subst he
  cases h with
  | failure h =>
    rintro rfl
    exact hallowed d h

variable (hoverflow : ∀ operation, allowed (.overflow operation))
include hoverflow

/-- A result that is no signed integer is an overflow, and nothing else goes wrong with it. -/
theorem intResult (operation : String) (i : Int) :
    FailsOnlyBy allowed span (Standard.intResult span operation i) := by
  rw [Standard.intResult]
  split
  · exact .value _
  · exact .failure (hoverflow operation)

/-- A result that is no unsigned integer is an overflow. -/
theorem uintResult (operation : String) (i : Int) :
    FailsOnlyBy allowed span (Standard.uintResult span operation i) := by
  rw [Standard.uintResult]
  split
  · exact .value _
  · exact .failure (hoverflow operation)

end FailsOnlyBy

/-! ## Handlers -/

/-- A handler for two operands that is tame where it is registered. -/
def TameBinary (o : (Kind × Kind) × BinaryHandler) : Prop :=
  ∀ l r span, l.kind = o.1.1 → r.kind = o.1.2 → FailsOnlyBy OfBinary span (o.2 l r span)

/-- A handler for one operand that is tame where it is registered. -/
def TameUnary (o : Kind × UnaryHandler) : Prop :=
  ∀ v span, v.kind = o.1 → FailsOnlyBy OfUnary span (o.2 v span)

/-- A handler for arguments that is tame where it is registered. -/
def TameCall (o : List Kind × FunctionHandler) : Prop :=
  ∀ args span, args.map Value.kind = o.1 → FailsOnlyBy OfCall span (o.2 args span)

/-- The handlers of a descriptor are tame. -/
def Descriptor.Tame : Descriptor → Prop
  | .function d => ∀ o ∈ d.overloads, TameCall o
  | .binary d => ∀ o ∈ d.overloads, TameBinary o
  | .unary d => ∀ o ∈ d.overloads, TameUnary o

/-- What is found at a key has a handler that is tame there. -/
def Operation.TameAt (k : OverloadKey) (o : Operation) : Prop :=
  match k, o with
  | .function _ kinds, .function o => TameCall (kinds, o.handler)
  | .binary _ left right, .binary handler => TameBinary ((left, right), handler)
  | .unary _ operand, .unary handler => TameUnary (operand, handler)
  | _, _ => False

/-- What a tame descriptor lists at a key is tame there. -/
theorem Descriptor.Tame.of_listed {d : Descriptor} (hd : d.Tame) {k : OverloadKey} {o : Operation}
    (h : (k, o) ∈ d.listed) : o.TameAt k := by
  cases d with
  | function d | binary d | unary d =>
    obtain ⟨listed, hlisted, heq⟩ := List.mem_map.1 h
    cases heq
    exact hd listed hlisted

/-- The handlers that a registry finds are tame. -/
def Registry.Tame (r : Registry) : Prop :=
  ∀ span k o, r.find? span k = some o → o.TameAt k

/-- A name and kinds are resolved, or there is no such function or no such overload. -/
theorem Registry.failsOnlyBy_resolve (r : Registry) (name : String) (kinds : List Kind)
    (span : Span) : FailsOnlyBy OfCall span (r.resolve name kinds span) := by
  rw [resolve]
  split
  · exact .failure (.noSuchFunction name)
  · split
    · exact .value _
    · exact .failure (.noSuchOverload ..)

namespace Registry.Tame

variable {r : Registry} (hr : r.Tame)
include hr

/-- A tame registry applies binary operators without a defect, found or not. -/
theorem applyBinary (op : BinaryOperator) (left right : Value) (span : Span) :
    FailsOnlyBy OfBinary span (r.applyBinary op.index left right span) := by
  rw [Registry.applyBinary]
  cases hget : r.table.get? op.index left.kind right.kind with
  | some handler =>
    have hfind : r.find? span (.binary op left.kind right.kind) = some (.binary handler) :=
      congrArg (Option.map Operation.binary) hget
    exact hr _ _ _ hfind left right span rfl rfl
  | none =>
    rw [binaryMiss, op.ofIndex?_index]
    exact .failure (.noSuchOverload ..)

/-- A tame registry applies unary operators without a defect. -/
theorem applyUnary (op : UnaryOperator) (v : Value) (span : Span) :
    FailsOnlyBy OfUnary span (r.applyUnary op v span) := by
  rw [Registry.applyUnary]
  cases hget : ((r.unary.get? op).getD []).get? v.kind with
  | some handler =>
    have hfind : r.find? span (.unary op v.kind) = some (.unary handler) :=
      congrArg (Option.map Operation.unary) hget
    exact hr _ _ _ hfind v span rfl
  | none => exact .failure (.noSuchOverload ..)

/-- A tame registry calls functions without a defect, whatever is called. -/
theorem call (name : String) (args : List Value) (span : Span) :
    FailsOnlyBy OfCall span (r.call name args span) := by
  rw [Registry.call]
  have hresolve := r.failsOnlyBy_resolve name (args.map Value.kind) span
  cases h : r.resolve name (args.map Value.kind) span with
  | error e =>
    rw [h] at hresolve
    cases hresolve with
    | failure hcause => exact .failure hcause
  | ok o =>
    have hfind : r.find? span (.function name (args.map Value.kind)) = some (.function o) := by
      rw [find?, h]
      rfl
    exact (hr _ _ _ hfind args span rfl).bind fun v => .value _

end Registry.Tame

namespace Standard

/-! ## Reading operands -/

/-- Values of a kind are read without failure. -/
def Reads {α : Type} (read : Span → Value → Except EvalError α) (k : Kind) : Prop :=
  ∀ span v, v.kind = k → ∃ a, read span v = .ok a

theorem reads_boolOf : Reads boolOf .bool := by
  rintro span (_ | _) hv <;> cases hv
  exact ⟨_, rfl⟩

theorem reads_intOf : Reads intOf .int := by
  rintro span (_ | _) hv <;> cases hv
  exact ⟨_, rfl⟩

theorem reads_uintOf : Reads uintOf .uint := by
  rintro span (_ | _) hv <;> cases hv
  exact ⟨_, rfl⟩

theorem reads_doubleOf : Reads doubleOf .double := by
  rintro span (_ | _) hv <;> cases hv
  exact ⟨_, rfl⟩

theorem reads_stringOf : Reads stringOf .string := by
  rintro span (_ | _) hv <;> cases hv
  exact ⟨_, rfl⟩

theorem reads_bytesOf : Reads bytesOf .bytes := by
  rintro span (_ | _) hv <;> cases hv
  exact ⟨_, rfl⟩

theorem reads_listOf : Reads listOf .list := by
  rintro span (_ | _) hv <;> cases hv
  exact ⟨_, rfl⟩

theorem reads_mapOf : Reads mapOf .map := by
  rintro span (_ | _) hv <;> cases hv
  exact ⟨_, rfl⟩

/-- What is computed from an operand fails as the computation does. -/
theorem Reads.bind {α β : Type} {read : Span → Value → Except EvalError α} {k : Kind}
    (hread : Reads read k) {allowed : EvalError.Cause → Prop} {span : Span} {v : Value}
    (hv : v.kind = k) {f : α → Except EvalError β} (hf : ∀ a, FailsOnlyBy allowed span (f a)) :
    FailsOnlyBy allowed span (read span v >>= f) := by
  obtain ⟨a, ha⟩ := hread span v hv
  rw [ha]
  exact hf a

section

variable {α β : Type} {readLeft : Span → Value → Except EvalError α}
  {readRight : Span → Value → Except EvalError β} {left right : Kind}

/-- A handler is tame that reads two operands of its kinds and computes something from them. -/
theorem tameBinary_reads (hleft : Reads readLeft left) (hright : Reads readRight right)
    {compute : Span → α → β → Except EvalError Value}
    (hcompute : ∀ span a b, FailsOnlyBy OfBinary span (compute span a b)) :
    TameBinary ((left, right), fun l r span => do
      let a ← readLeft span l
      let b ← readRight span r
      compute span a b) :=
  fun _ _ span hl hr => hleft.bind hl fun a => hright.bind hr fun b => hcompute span a b

/-- A handler is tame that reads an operand of its kind and computes something from it. -/
theorem tameUnary_reads (hread : Reads readLeft left)
    {compute : Span → α → Except EvalError Value}
    (hcompute : ∀ span a, FailsOnlyBy OfUnary span (compute span a)) :
    TameUnary (left, fun v span => do
      let a ← readLeft span v
      compute span a) :=
  fun _ span hv => hread.bind hv fun a => hcompute span a

/-- A handler of one argument meets exactly one, of its kind. -/
theorem tameCall_onArgument {k : Kind} {compute : Value → Span → Except EvalError Value}
    (hcompute : ∀ v span, v.kind = k → FailsOnlyBy OfCall span (compute v span)) :
    TameCall ([k], onArgument compute) := by
  intro args span hargs
  obtain ⟨v, rest, rfl, hv, -⟩ := List.map_eq_cons_iff.1 hargs
  exact hcompute v span hv

/-- A function of one argument is tame if what it computes is. -/
theorem tameCall_reads (hread : Reads readLeft left)
    {compute : Span → α → Except EvalError Value}
    (hcompute : ∀ span a, FailsOnlyBy OfCall span (compute span a)) :
    TameCall ([left], onArgument fun v span => do
      let a ← readLeft span v
      compute span a) :=
  tameCall_onArgument fun _ span hv => hread.bind hv fun a => hcompute span a

/-- A conversion of a kind to itself never fails. -/
theorem tameCall_unchanged (k : Kind) : TameCall ([k], unchanged) :=
  tameCall_onArgument fun v _ _ => .value v

end

/-! ## Operators -/

/-- A quotient fails if the divisor is zero, or as its result does. -/
theorem failsOnlyBy_quotient {result : Span → String → Int → Except EvalError Value}
    (hresult : ∀ span operation i, FailsOnlyBy OfBinary span (result span operation i))
    (operation : String) (span : Span) (a b : Int) :
    FailsOnlyBy OfBinary span (quotient result operation span a b) := by
  rw [quotient]
  split
  · exact .failure .divisionByZero
  · exact hresult ..

/-- A remainder fails if the divisor is zero, or as the quotient beside it does. -/
theorem failsOnlyBy_remainder {result : Span → String → Int → Except EvalError Value}
    (hresult : ∀ span operation i, FailsOnlyBy OfBinary span (result span operation i))
    (operation : String) (span : Span) (a b : Int) :
    FailsOnlyBy OfBinary span (remainder result operation span a b) := by
  rw [remainder]
  split
  · exact .failure .modulusByZero
  · exact (hresult ..).bind fun _ => hresult ..

theorem failsOnlyBy_intResult (span : Span) (operation : String) (i : Int) :
    FailsOnlyBy OfBinary span (intResult span operation i) :=
  .intResult .overflow operation i

theorem failsOnlyBy_uintResult (span : Span) (operation : String) (i : Int) :
    FailsOnlyBy OfBinary span (uintResult span operation i) :=
  .uintResult .overflow operation i

/-- Arithmetic on signed integers only overflows. -/
theorem tameBinary_ints (operation : String) (f : Int → Int → Int) :
    TameBinary ((.int, .int), onIntegers intOf fun span a b => intResult span operation (f a b)) :=
  tameBinary_reads reads_intOf reads_intOf fun _ _ _ => failsOnlyBy_intResult ..

/-- Arithmetic on unsigned integers only overflows. -/
theorem tameBinary_uints (operation : String) (f : Int → Int → Int) :
    TameBinary
      ((.uint, .uint), onIntegers uintOf fun span a b => uintResult span operation (f a b)) :=
  tameBinary_reads reads_uintOf reads_uintOf fun _ _ _ => failsOnlyBy_uintResult ..

/-- Arithmetic on doubles never fails. -/
theorem tameBinary_doubles (f : Double → Double → Double) :
    TameBinary ((.double, .double), onDoubles f) :=
  tameBinary_reads reads_doubleOf reads_doubleOf fun _ _ _ => .value _

theorem tame_add : Descriptor.Tame (.binary add) := by
  simp only [Descriptor.Tame, add, List.forall_mem_cons]
  exact ⟨tameBinary_ints _ _, tameBinary_uints _ _, tameBinary_doubles _,
    tameBinary_reads reads_stringOf reads_stringOf fun _ _ _ => .value _,
    tameBinary_reads reads_bytesOf reads_bytesOf fun _ _ _ => .value _,
    tameBinary_reads reads_listOf reads_listOf fun _ _ _ => .value _, List.forall_mem_nil _⟩

theorem tame_subtract : Descriptor.Tame (.binary subtract) := by
  simp only [Descriptor.Tame, subtract, List.forall_mem_cons]
  exact ⟨tameBinary_ints _ _, tameBinary_uints _ _, tameBinary_doubles _, List.forall_mem_nil _⟩

theorem tame_multiply : Descriptor.Tame (.binary multiply) := by
  simp only [Descriptor.Tame, multiply, List.forall_mem_cons]
  exact ⟨tameBinary_ints _ _, tameBinary_uints _ _, tameBinary_doubles _, List.forall_mem_nil _⟩

theorem tame_divide : Descriptor.Tame (.binary divide) := by
  simp only [Descriptor.Tame, divide, List.forall_mem_cons]
  exact ⟨tameBinary_reads reads_intOf reads_intOf (failsOnlyBy_quotient failsOnlyBy_intResult _),
    tameBinary_reads reads_uintOf reads_uintOf (failsOnlyBy_quotient failsOnlyBy_uintResult _),
    tameBinary_doubles _, List.forall_mem_nil _⟩

theorem tame_modulo : Descriptor.Tame (.binary modulo) := by
  simp only [Descriptor.Tame, modulo, List.forall_mem_cons]
  exact ⟨tameBinary_reads reads_intOf reads_intOf (failsOnlyBy_remainder failsOnlyBy_intResult _),
    tameBinary_reads reads_uintOf reads_uintOf (failsOnlyBy_remainder failsOnlyBy_uintResult _),
    List.forall_mem_nil _⟩

/-- Comparisons never fail, even of values that have no order. -/
theorem tame_ordering (op : BinaryOperator) (accept : Ordering → Bool) :
    Descriptor.Tame (.binary (ordering op accept)) :=
  List.forall_mem_map.2 fun _ _ _ _ _ _ _ => .value _

/-- Equality is defined for values of all kinds, and never fails. -/
theorem tame_equality (op : BinaryOperator) (whenEqual : Bool) :
    Descriptor.Tame (.binary (equality op whenEqual)) :=
  List.forall_mem_map.2 fun _ _ _ _ _ _ _ => .value _

/-- The operator `in` reads its right operand alone. -/
theorem tame_membership : Descriptor.Tame (.binary membership) := by
  have hlist (k : Kind) : TameBinary ((k, .list), inList) := fun _ _ _ _ hr =>
    reads_listOf.bind hr fun _ => .value _
  have hmap (k : Kind) : TameBinary ((k, .map), inMap) := fun _ _ _ _ hr =>
    reads_mapOf.bind hr fun _ => .value _
  refine List.forall_mem_append.2 ⟨List.forall_mem_map.2 fun k _ => hlist k, ?_⟩
  simp only [List.forall_mem_cons]
  exact ⟨hmap _, hmap _, hmap _, List.forall_mem_nil _⟩

theorem tame_logical (op : BinaryOperator) (compute : Bool → Bool → Bool) :
    Descriptor.Tame (.binary (logical op compute)) := by
  simp only [Descriptor.Tame, logical, List.forall_mem_cons]
  exact ⟨tameBinary_reads reads_boolOf reads_boolOf fun _ _ _ => .value _, List.forall_mem_nil _⟩

theorem tame_negate : Descriptor.Tame (.unary negate) := by
  simp only [Descriptor.Tame, negate, List.forall_mem_cons]
  exact ⟨tameUnary_reads reads_intOf fun _ _ => .intResult .overflow ..,
    tameUnary_reads reads_doubleOf fun _ _ => .value _, List.forall_mem_nil _⟩

theorem tame_not : Descriptor.Tame (.unary not) := by
  simp only [Descriptor.Tame, not, List.forall_mem_cons]
  exact ⟨tameUnary_reads reads_boolOf fun _ _ => .value _, List.forall_mem_nil _⟩

/-! ## Functions -/

theorem tame_size : Descriptor.Tame (.function size) := by
  simp only [Descriptor.Tame, size, List.forall_mem_cons]
  exact ⟨tameCall_reads reads_stringOf fun _ _ => .value _,
    tameCall_reads reads_bytesOf fun _ _ => .value _,
    tameCall_reads reads_listOf fun _ _ => .value _,
    tameCall_reads reads_mapOf fun _ _ => .value _, List.forall_mem_nil _⟩

/-- A conversion to a signed integer overflows, or rejects a text. -/
theorem tame_toInt : Descriptor.Tame (.function toInt) := by
  simp only [Descriptor.Tame, toInt, List.forall_mem_cons]
  refine ⟨tameCall_unchanged _, tameCall_reads reads_uintOf fun _ _ => .intResult .overflow ..,
    tameCall_reads reads_doubleOf fun span d => ?_,
    tameCall_reads reads_stringOf fun span s => ?_, List.forall_mem_nil _⟩
  · split
    · exact .value _
    · exact .failure (.overflow _)
  · cases Text.readInt s with
    | ok i => exact .value _
    | error fault => exact .failure (.invalidArgument _)

/-- A conversion to an unsigned integer overflows, or rejects a text. -/
theorem tame_toUInt : Descriptor.Tame (.function toUInt) := by
  simp only [Descriptor.Tame, toUInt, List.forall_mem_cons]
  refine ⟨tameCall_unchanged _, tameCall_reads reads_intOf fun _ _ => .uintResult .overflow ..,
    tameCall_reads reads_doubleOf fun span d => ?_,
    tameCall_reads reads_stringOf fun span s => ?_, List.forall_mem_nil _⟩
  · split
    · exact .value _
    · exact .failure (.overflow _)
  · cases Text.readUInt s with
    | ok u => exact .value _
    | error fault => exact .failure (.invalidArgument _)

/-- A conversion to a double only rejects texts, as every integer has a nearest one. -/
theorem tame_toDouble : Descriptor.Tame (.function toDouble) := by
  simp only [Descriptor.Tame, toDouble, List.forall_mem_cons]
  refine ⟨tameCall_unchanged _, tameCall_reads reads_intOf fun _ _ => .value _,
    tameCall_reads reads_uintOf fun _ _ => .value _,
    tameCall_reads reads_stringOf fun span s => ?_, List.forall_mem_nil _⟩
  cases Double.ofText s with
  | ok d => exact .value _
  | error fault => exact .failure (.invalidArgument _)

/-- A conversion to a text only rejects bytes that are none. -/
theorem tame_toText : Descriptor.Tame (.function toText) := by
  simp only [Descriptor.Tame, toText, List.forall_mem_cons]
  refine ⟨tameCall_unchanged _, tameCall_reads reads_intOf fun _ _ => .value _,
    tameCall_reads reads_uintOf fun _ _ => .value _,
    tameCall_reads reads_doubleOf fun _ _ => .value _,
    tameCall_reads reads_boolOf fun _ _ => .value _,
    tameCall_reads reads_bytesOf fun span bs => ?_, List.forall_mem_nil _⟩
  cases Text.decodeUtf8? bs with
  | some s => exact .value _
  | none => exact .failure (.invalidArgument _)

/-- The tests of one string against another read both of them, and never fail. -/
theorem tame_stringPredicate (name : String) (test : List Char → List Char → Bool) :
    Descriptor.Tame (.function (stringPredicate name test)) := by
  simp only [Descriptor.Tame, stringPredicate, List.forall_mem_cons]
  refine ⟨fun args span hargs => ?_, List.forall_mem_nil _⟩
  obtain ⟨v, rest, rfl, hv, hrest⟩ := List.map_eq_cons_iff.1 hargs
  obtain ⟨w, rest, rfl, hw, -⟩ := List.map_eq_cons_iff.1 hrest
  exact reads_stringOf.bind hv fun _ => reads_stringOf.bind hw fun _ => .value _

/-! ## The standard registry -/

/-- All standard handlers are tame. -/
theorem tame_descriptors : ∀ d ∈ descriptors, d.Tame := by
  simp only [descriptors, operators, functions, List.forall_mem_append, List.forall_mem_cons]
  exact ⟨⟨tame_add, tame_subtract, tame_multiply, tame_divide, tame_modulo, tame_ordering _ _,
      tame_ordering _ _, tame_ordering _ _, tame_ordering _ _, tame_equality _ _,
      tame_equality _ _, tame_membership, tame_logical _ _, tame_logical _ _, tame_negate,
      tame_not, List.forall_mem_nil _⟩,
    tame_size, tame_toInt, tame_toUInt, tame_toDouble, tame_toText, tame_stringPredicate _ _,
    tame_stringPredicate _ _, tame_stringPredicate _ _, List.forall_mem_nil _⟩

/-- The standard registry finds what the standard descriptors list. -/
theorem tame_registry : registry.Tame := by
  intro span k o h
  obtain ⟨d, hd, hlisted⟩ := List.mem_flatMap.1 ((find?_registry span k o).1 h)
  exact (tame_descriptors d hd).of_listed hlisted

/-- A standard operator or function gives a value, or fails where it stands: as there is no
    such function or no overload for the values, by an overflow or a division by zero, or by
    an argument that is rejected. Its handlers meet no values that they are not meant for, and
    none of the failures is a defect. -/
theorem never_defective (span : Span) :
    (∀ (op : Fin BinaryOperator.count) (left right : Value),
      FailsOnlyBy OfBinary span (registry.applyBinary op left right span)) ∧
    (∀ (op : UnaryOperator) (v : Value),
      FailsOnlyBy OfUnary span (registry.applyUnary op v span)) ∧
    (∀ (name : String) (args : List Value),
      FailsOnlyBy OfCall span (registry.call name args span)) ∧
    ∀ (e : EvalError) (d : Defect),
      ((∃ (op : Fin BinaryOperator.count) (left right : Value),
          registry.applyBinary op left right span = .error e) ∨
        (∃ op v, registry.applyUnary op v span = .error e) ∨
        ∃ name args, registry.call name args span = .error e) →
      e.cause ≠ .defect d := by
  have hbinary (op : Fin BinaryOperator.count) (left right : Value) :
      FailsOnlyBy OfBinary span (registry.applyBinary op left right span) := by
    obtain ⟨o, ho⟩ := BinaryOperator.exists_index_eq op.isLt
    rw [← ho]
    exact tame_registry.applyBinary o left right span
  have hunary (op : UnaryOperator) (v : Value) := tame_registry.applyUnary op v span
  have hcall (name : String) (args : List Value) := tame_registry.call name args span
  refine ⟨hbinary, hunary, hcall, ?_⟩
  -- None of the causes that are allowed is a defect.
  rintro e d (⟨op, left, right, h⟩ | ⟨op, v, h⟩ | ⟨name, args, h⟩)
  · exact (hbinary op left right).cause_ne_defect nofun h d
  · exact (hunary op v).cause_ne_defect nofun h d
  · exact (hcall name args).cause_ne_defect nofun h d

/-- The least signed integer has no negation, which is no defect. -/
theorem never_defective_least :
    registry.applyUnary .negate (.int Int64.minValue) ⟨0, 2⟩ =
        .error ⟨⟨0, 2⟩, .overflow "int negation"⟩ ∧
      ∀ d, EvalError.Cause.overflow "int negation" ≠ .defect d := by
  have hnegate : .unary negate ∈ descriptors := List.mem_of_getElem? (i := 14) rfl
  have hextends : registry.Extends registry := fun _ _ _ hfind => hfind
  have hfails : registry.applyUnary .negate (.int Int64.minValue) ⟨0, 2⟩ =
      .error ⟨⟨0, 2⟩, .overflow "int negation"⟩ :=
    hextends.applyUnary hnegate (.int Int64.minValue) (List.mem_of_getElem? (i := 0) rfl) ⟨0, 2⟩
  obtain ⟨-, -, -, hnever⟩ := never_defective ⟨0, 2⟩
  exact ⟨hfails, fun d => hnever _ d (.inr (.inl ⟨.negate, _, hfails⟩))⟩

end Standard

end ExprMachine
