import ExprMachine.Registry.Descriptor

/-!
# The table of binary operators

The handlers of the binary operators in one flat array, with a slot for every
operator and every pair of kinds: looking up a handler is a computation of an
index. An operator is given by its index, as programs carry it, and an index
that no operator has finds nothing.
-/

namespace ExprMachine

/-- A flat table of handlers. -/
structure BinaryTable where
  /-- The handlers, by operator, left kind and right kind. -/
  slots : Array (Option BinaryHandler)
  /-- The number of slots that hold a handler. -/
  populated : Nat

namespace BinaryTable

/-- The table without handlers. -/
def empty : BinaryTable :=
  ⟨Array.replicate (BinaryOperator.count * Kind.count * Kind.count) none, 0⟩

/-- The slot of an operator and two kinds. -/
def slot (op : Nat) (left right : Kind) : Nat :=
  (op * Kind.count + left.index) * Kind.count + right.index

/-- The handler of an operator for two kinds. -/
def get? (t : BinaryTable) (op : Nat) (left right : Kind) : Option BinaryHandler :=
  if op < BinaryOperator.count then (t.slots[slot op left right]?).join else none

/-- The table with a handler in a slot. -/
def insert (t : BinaryTable) (op : Nat) (left right : Kind) (handler : BinaryHandler) :
    BinaryTable where
  slots := t.slots.setIfInBounds (slot op left right) (some handler)
  populated :=
    if ((t.slots[slot op left right]?).join).isSome then t.populated else t.populated + 1

/-- Whether the table holds no handler. -/
def isEmpty (t : BinaryTable) : Bool := t.populated == 0

/-- The table with all overloads of an operator. -/
def insertAll (t : BinaryTable) (op : BinaryOperator)
    (overloads : Entries (Kind × Kind) BinaryHandler) : BinaryTable :=
  overloads.foldl (fun t o => t.insert op.index o.1.1 o.1.2 o.2) t

/-- The table of all overloads of all operators. -/
def ofOverloads (overloads : Entries BinaryOperator (Entries (Kind × Kind) BinaryHandler)) :
    BinaryTable :=
  BinaryOperator.all.foldl (fun t op => t.insertAll op ((overloads.get? op).getD [])) empty

end BinaryTable

end ExprMachine
