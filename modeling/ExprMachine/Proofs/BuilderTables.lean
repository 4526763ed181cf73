import ExprMachine.Registry

/-!
# Registration in place

A builder has a table of overloads for every function and every operator
(`BuilderTable`). A call that registers a descriptor works on one of these tables in
place (`RegistryBuilder.register`): it checks all overloads first, against those
registered and against those before them in the same descriptor, and changes the
builder only afterwards, overload by overload.

It does what `RegistryBuilder.add` says, which checks each overload when it is
inserted and gives a builder as a whole, and a call that fails has changed nothing
(`RegistryBuilder.register_eq`).
-/

namespace ExprMachine

/-! ## Checks before insertions -/

namespace Entries

variable {κ α : Type} [DecidableEq κ]

/-- Of two insertions at a key, the second counts. -/
theorem insert_insert (t : Entries κ α) (k : κ) (v w : α) :
    (t.insert k v).insert k w = t.insert k w := by
  induction t with
  | nil => simp [insert]
  | cons p rest ih =>
    obtain ⟨j, u⟩ := p
    by_cases hj : j = k
    · simp [insert, hj]
    · simp [insert, hj, ih]

/-- The first pair whose key is taken, by the table or by one of the pairs before. -/
def clash? (t : Entries κ α) (before : List (κ × α)) : List (κ × α) → Option (κ × α)
  | [] => none
  | p :: rest =>
    if t.contains p.1 || before.any (·.1 == p.1) then some p
    else clash? t (before ++ [p]) rest

/-- The table with pairs inserted one after another. -/
def insertAll (t : Entries κ α) (pairs : List (κ × α)) : Entries κ α :=
  pairs.foldl (fun t p => t.insert p.1 p.2) t

/-- A key is there after some insertions if it was before, or is one of theirs. -/
theorem contains_insertAll (t : Entries κ α) (pairs : List (κ × α)) (k : κ) :
    (t.insertAll pairs).contains k = (t.contains k || pairs.any (·.1 == k)) := by
  induction pairs generalizing t with
  | nil => simp [insertAll]
  | cons p rest ih =>
    rw [insertAll, List.foldl_cons, ← insertAll, ih, contains, get?_insert, List.any_cons]
    by_cases hk : p.1 = k
    · simp [hk]
    · simp [hk, contains, beq_eq_false_iff_ne.2 hk]

/-- Checking each pair when it is inserted fails where checking all of them before
    fails, and leaves what inserting them after that leaves. -/
theorem extend_insertAll (t : Entries κ α) (before pairs : List (κ × α)) :
    (t.insertAll before).extend pairs =
      match t.clash? before pairs with
      | some p => .error p
      | none => .ok (t.insertAll (before ++ pairs)) := by
  induction pairs generalizing before with
  | nil => rw [extend, clash?, List.append_nil]
  | cons p rest ih =>
    have hins : (t.insertAll before).insert p.1 p.2 = t.insertAll (before ++ [p]) := by
      rw [insertAll, insertAll, List.foldl_append, List.foldl_cons, List.foldl_nil]
    rw [extend, contains_insertAll, clash?, hins, ih, List.append_assoc]
    split <;> rfl

/-- Either there is no clash and all pairs are inserted, or none is. -/
theorem extend_eq (t : Entries κ α) (pairs : List (κ × α)) :
    t.extend pairs =
      match t.clash? [] pairs with
      | some p => .error p
      | none => .ok (t.insertAll pairs) :=
  extend_insertAll t [] pairs

end Entries

/-! ## Keys -/

/-- What an overload is found by. -/
inductive OverloadKey where
  /-- The name of a function and the kinds of its arguments. -/
  | function (name : String) (kinds : List Kind)
  /-- A binary operator and the kinds of its operands. -/
  | binary (op : BinaryOperator) (left right : Kind)
  /-- A unary operator and the kind of its operand. -/
  | unary (op : UnaryOperator) (operand : Kind)
  deriving DecidableEq, Repr

/-- What is found. -/
inductive Operation where
  /-- An overload of a function, with its idempotence. -/
  | function (o : FunctionOverload)
  /-- The handler of a binary operator. -/
  | binary (handler : BinaryHandler)
  /-- The handler of a unary operator. -/
  | unary (handler : UnaryHandler)

/-- The overloads that a descriptor lists, with their keys. -/
def Descriptor.listed : Descriptor → List (OverloadKey × Operation)
  | .function d => d.overloads.map fun (kinds, handler) =>
    (.function d.name kinds, .function ⟨d.name, kinds, d.idempotent, handler⟩)
  | .binary d => d.overloads.map fun ((left, right), handler) =>
    (.binary d.operator left right, .binary handler)
  | .unary d => d.overloads.map fun (operand, handler) =>
    (.unary d.operator operand, .unary handler)

/-- What has been registered at a key. -/
def RegistryBuilder.get? (b : RegistryBuilder) : OverloadKey → Option Operation
  | .function name kinds =>
    (((b.functions.get? name).getD []).get? (signatureKey kinds)).map .function
  | .binary op left right => (((b.binary.get? op).getD []).get? (left, right)).map .binary
  | .unary op operand => (((b.unary.get? op).getD []).get? operand).map .unary

/-- One of the tables of a builder: where it stands, and what it holds. -/
structure BuilderTable (κ α : Type) [DecidableEq κ] where
  /-- The table in a builder. -/
  read : RegistryBuilder → Entries κ α
  /-- The builder with another table in its place. -/
  write : Entries κ α → RegistryBuilder → RegistryBuilder
  /-- Where the operation of a key is in the table, if it is one of the table. -/
  place : OverloadKey → Option κ
  /-- What an entry of the table stands for. -/
  operation : α → Operation
  /-- The table holds what has been registered at its keys. -/
  get?_eq : ∀ b k i, place k = some i → b.get? k = ((read b).get? i).map operation
  /-- What has been written is read. -/
  read_write : ∀ t b, read (write t b) = t
  /-- Of two tables written, the second counts. -/
  write_write : ∀ t t' b, write t' (write t b) = write t' b
  /-- Nothing changes at other keys. -/
  get?_write : ∀ t b k, place k = none → (write t b).get? k = b.get? k

namespace BuilderTable

/-- The overloads of a function. -/
def function (name : String) : BuilderTable String FunctionOverload where
  read b := (b.functions.get? name).getD []
  write t b := { b with functions := b.functions.insert name t }
  place
    | .function name' kinds => if name = name' then some (signatureKey kinds) else none
    | _ => none
  operation := .function
  get?_eq b k i hk := by
    cases k with
    | function name' kinds =>
      obtain ⟨rfl, rfl⟩ : name = name' ∧ signatureKey kinds = i := by simpa using hk
      rfl
    | binary | unary => cases hk
  read_write t b := by rw [Entries.get?_insert, if_pos rfl, Option.getD_some]
  write_write t t' b := by simp only [Entries.insert_insert]
  get?_write t b k hk := by
    cases k with
    | function name' kinds =>
      have hname : name ≠ name' := by simpa using hk
      rw [RegistryBuilder.get?, Entries.get?_insert, if_neg hname, RegistryBuilder.get?]
    | binary | unary => rfl

/-- The overloads of a binary operator. -/
def binary (op : BinaryOperator) : BuilderTable (Kind × Kind) BinaryHandler where
  read b := (b.binary.get? op).getD []
  write t b := { b with binary := b.binary.insert op t }
  place
    | .binary op' left right => if op = op' then some (left, right) else none
    | _ => none
  operation := .binary
  get?_eq b k i hk := by
    cases k with
    | binary op' left right =>
      obtain ⟨rfl, rfl⟩ : op = op' ∧ (left, right) = i := by simpa using hk
      rfl
    | function | unary => cases hk
  read_write t b := by rw [Entries.get?_insert, if_pos rfl, Option.getD_some]
  write_write t t' b := by simp only [Entries.insert_insert]
  get?_write t b k hk := by
    cases k with
    | binary op' left right =>
      have hop : op ≠ op' := by simpa using hk
      rw [RegistryBuilder.get?, Entries.get?_insert, if_neg hop, RegistryBuilder.get?]
    | function | unary => rfl

/-- The overloads of a unary operator. -/
def unary (op : UnaryOperator) : BuilderTable Kind UnaryHandler where
  read b := (b.unary.get? op).getD []
  write t b := { b with unary := b.unary.insert op t }
  place
    | .unary op' operand => if op = op' then some operand else none
    | _ => none
  operation := .unary
  get?_eq b k i hk := by
    cases k with
    | unary op' operand =>
      obtain ⟨rfl, rfl⟩ : op = op' ∧ operand = i := by simpa using hk
      rfl
    | function | binary => cases hk
  read_write t b := by rw [Entries.get?_insert, if_pos rfl, Option.getD_some]
  write_write t t' b := by simp only [Entries.insert_insert]
  get?_write t b k hk := by
    cases k with
    | unary op' operand =>
      have hop : op ≠ op' := by simpa using hk
      rw [RegistryBuilder.get?, Entries.get?_insert, if_neg hop, RegistryBuilder.get?]
    | function | binary => rfl

/-- A key of a function has its place in the table of that function. -/
theorem place_function_eq_some {name i : String} {k : OverloadKey} :
    (function name).place k = some i ↔
      ∃ kinds, k = .function name kinds ∧ signatureKey kinds = i := by
  cases k <;> simp [function, eq_comm, and_assoc]

theorem place_binary_eq_some {op : BinaryOperator} {left right : Kind} {k : OverloadKey} :
    (binary op).place k = some (left, right) ↔ k = .binary op left right := by
  cases k <;> simp [binary, eq_comm]

theorem place_unary_eq_some {op : UnaryOperator} {operand : Kind} {k : OverloadKey} :
    (unary op).place k = some operand ↔ k = .unary op operand := by
  cases k <;> simp [unary, eq_comm]

end BuilderTable

/-! ## Registration in place -/

namespace RegistryBuilder

/-- A call that changes a builder, and may fail. -/
abbrev Registering := EStateM RegistryError RegistryBuilder

variable {κ α : Type} [DecidableEq κ] (table : BuilderTable κ α)

/-- Registers pairs in one of the tables of a builder, which is there from then on:
    checks them all, and then inserts one after another. -/
def registerPairs (duplicate : κ × α → RegistryError) (pairs : List (κ × α)) :
    Registering Unit := do
  match (table.read (← get)).clash? [] pairs with
  | some p => throw (duplicate p)
  | none =>
    modify fun b => table.write (table.read b) b
    pairs.forM fun p => modify fun b => table.write ((table.read b).insert p.1 p.2) b

/-- Registers a descriptor in place. -/
def register : Descriptor → Registering Unit
  | .function d => do
    if d.name = "" then throw .emptyFunctionName
    registerPairs (.function d.name) (fun p => .duplicateFunction d.name p.2.signature)
      (keyedOverloads d)
  | .binary d =>
    registerPairs (.binary d.operator) (fun p => .duplicateBinary d.operator p.1.1 p.1.2)
      d.overloads
  | .unary d =>
    registerPairs (.unary d.operator) (fun p => .duplicateUnary d.operator p.1) d.overloads

variable {table}

theorem forM_insert (pairs : List (κ × α)) (t : Entries κ α) (b : RegistryBuilder) :
    (pairs.forM fun p => modify fun b => table.write ((table.read b).insert p.1 p.2) b :
      Registering Unit) (table.write t b) = .ok () (table.write (t.insertAll pairs) b) := by
  induction pairs generalizing t with
  | nil => rfl
  | cons p rest ih =>
    show (rest.forM _ : Registering Unit) (table.write _ (table.write t b)) = _
    rw [table.read_write, table.write_write, ih]
    rfl

/-- Registering pairs in place leaves the extended table, or nothing changed. -/
theorem registerPairs_eq (duplicate : κ × α → RegistryError) (pairs : List (κ × α))
    (b : RegistryBuilder) :
    registerPairs table duplicate pairs b =
      match (table.read b).extend pairs with
      | .ok t => .ok () (table.write t b)
      | .error p => .error (duplicate p) b := by
  have hcheck : registerPairs table duplicate pairs b =
      (match (table.read b).clash? [] pairs with
      | some p => throw (duplicate p)
      | none => do
        modify fun b => table.write (table.read b) b
        pairs.forM fun p => modify fun b => table.write ((table.read b).insert p.1 p.2) b :
          Registering Unit) b := rfl
  rw [hcheck, Entries.extend_eq]
  cases (table.read b).clash? [] pairs with
  | some p => rfl
  | none => exact forM_insert pairs (table.read b) b

/-- A call does to the builder what `RegistryBuilder.add` says, and nothing if it
    fails. -/
theorem register_eq (d : Descriptor) (b : RegistryBuilder) :
    register d b =
      match b.add d with
      | .ok b' => .ok () b'
      | .error e => .error e b := by
  cases d with
  | function d =>
    by_cases hname : d.name = ""
    · simp only [register, add, addFunction, hname, if_true]
      rfl
    · -- The name is there, so that only the overloads are left to be registered.
      have hpairs : register (.function d) b = registerPairs (.function d.name)
          (fun p => .duplicateFunction d.name p.2.signature) (keyedOverloads d) b := by
        simp only [register, hname, if_false]
      have hread : (BuilderTable.function d.name).read b = (b.functions.get? d.name).getD [] := rfl
      rw [hpairs, registerPairs_eq, add, addFunction, if_neg hname, hread]
      cases ((b.functions.get? d.name).getD []).extend (keyedOverloads d) <;> rfl
  | binary d =>
    have hread : (BuilderTable.binary d.operator).read b = (b.binary.get? d.operator).getD [] := rfl
    rw [register, registerPairs_eq, add, addBinary, hread]
    cases ((b.binary.get? d.operator).getD []).extend d.overloads <;> rfl
  | unary d =>
    have hread : (BuilderTable.unary d.operator).read b = (b.unary.get? d.operator).getD [] := rfl
    rw [register, registerPairs_eq, add, addUnary, hread]
    cases ((b.unary.get? d.operator).getD []).extend d.overloads <;> rfl

end RegistryBuilder

end ExprMachine
