import ExprMachine.Value

/-!
# Order and equality of values

Three relations compare values.

* The *order* (`Value.compare`) is defined within the booleans, the strings and
  the byte sequences, and among the numbers of all kinds. Integers of either
  kind are ordered by what they denote; beside a double, an integer takes part
  as the double nearest to it.
* The *equality* of the language (`Value.equals`) compares numbers by that
  order, lists item by item, and maps entry by entry, an integer key matching
  the same integer of the other kind. Messages and values of any other kinds
  are equal only if they are the same.
* *Sameness* (`Value.same`) never equates values of different kinds. Maps and
  messages are the same if they hold the same values at the same keys, in any
  order. A NaN is not the same as anything.
-/

namespace ExprMachine

namespace Value

/-- The order of an integer with a sign and one without: a negative one comes first,
    and any other is compared as one without a sign. -/
def compareSigns (a : Int64) (b : UInt64) : Ordering :=
  if a < 0 then .lt else Ord.compare a.toUInt64 b

/-- The order of two values, if they are ordered. -/
def compare : Value → Value → Option Ordering
  | .bool a, .bool b => some (Ord.compare a b)
  | .int a, .int b => some (Ord.compare a b)
  | .uint a, .uint b => some (Ord.compare a b)
  | .double a, .double b => a.compare b
  | .string a, .string b => some (Ord.compare a b)
  | .bytes a, .bytes b => some (Ord.compare a b)
  | .int a, .uint b => some (compareSigns a b)
  | .uint a, .int b => some (compareSigns b a).swap
  | .int a, .double b => (Double.ofInt a.toInt).compare b
  | .double a, .int b => a.compare (Double.ofInt b.toInt)
  | .uint a, .double b => (Double.ofInt a.toNat).compare b
  | .double a, .uint b => a.compare (Double.ofInt b.toNat)
  | _, _ => none

/-! ## Sameness -/

mutual

/-- Whether two values are the same: of the same kind and with the same
    content, whatever the order of the entries of maps and messages. -/
def same : Value → Value → Bool
  | .null, .null => true
  | .bool a, .bool b => a == b
  | .int a, .int b => a == b
  | .uint a, .uint b => a == b
  | .double a, .double b => a.compare b == some .eq
  | .string a, .string b => a == b
  | .bytes a, .bytes b => a == b
  | .list a, .list b => sameItems a b
  | .map a, .map b => a.length == b.length && sameEntries a b
  | .message s a, .message t b => s == t && a.length == b.length && sameFields a b
  | _, _ => false
termination_by structural a => a

/-- Whether two lists have the same items, one by one. -/
def sameItems : List Value → List Value → Bool
  | [], [] => true
  | a :: as, b :: bs => same a b && sameItems as bs
  | _, _ => false
termination_by structural as => as

/-- Whether every entry of the first map is in the second. -/
def sameEntries : List (MapKey × Value) → Entries MapKey Value → Bool
  | [], _ => true
  | (k, v) :: rest, b =>
    (match b.get? k with
      | some w => same v w
      | none => false) && sameEntries rest b
termination_by structural a => a

/-- Whether every field of the first message is in the second. -/
def sameFields : List (String × Value) → Entries String Value → Bool
  | [], _ => true
  | (f, v) :: rest, b =>
    (match b.get? f with
      | some w => same v w
      | none => false) && sameFields rest b
termination_by structural a => a

end

/-! ## Equality in the language -/

mutual

/-- Whether two values are equal in the language. -/
def equals : Value → Value → Bool
  | .list a, .list b => equalItems a b
  | .map a, .map b => a.length == b.length && equalEntries a b
  | a, b =>
    if a.kind.isNumeric && b.kind.isNumeric then a.compare b == some .eq else same a b
termination_by structural a => a

/-- Whether two lists have equal items, one by one. -/
def equalItems : List Value → List Value → Bool
  | [], [] => true
  | a :: as, b :: bs => equals a b && equalItems as bs
  | _, _ => false
termination_by structural as => as

/-- Whether every entry of the first map has an equal one in the second. -/
def equalEntries : List (MapKey × Value) → Entries MapKey Value → Bool
  | [], _ => true
  | (k, v) :: rest, b =>
    (match MapKey.lookup? b k with
      | some w => equals v w
      | none => false) && equalEntries rest b
termination_by structural a => a

end

end Value

end ExprMachine
