import ExprMachine.Double
import ExprMachine.Entries
import ExprMachine.Kind

/-!
# Values

A *value* is what an expression evaluates to: null, a boolean, a number of one
of three kinds, a string, a byte sequence, a list, a map or a message. Maps and
messages keep their entries in the order of arrival of their keys.

The keys of a map are integers of either kind and strings (`MapKey`). Two
integer keys of different kinds are different keys, so that a map may hold
both; but where a key is looked up, an integer that is absent is sought under
the other kind too (`MapKey.lookup?`).
-/

namespace ExprMachine

/-- The keys of maps. -/
inductive MapKey where
  /-- A signed integer. -/
  | int (i : Int64)
  /-- An unsigned integer. -/
  | uint (u : UInt64)
  /-- A string. -/
  | string (s : String)
  deriving DecidableEq, Repr

/-- The values of expressions. -/
inductive Value where
  /-- The value `null`. -/
  | null
  /-- A boolean. -/
  | bool (b : Bool)
  /-- A signed integer of 64 bits. -/
  | int (i : Int64)
  /-- An unsigned integer of 64 bits. -/
  | uint (u : UInt64)
  /-- A binary floating point number of 64 bits. -/
  | double (d : Double)
  /-- A string. -/
  | string (s : String)
  /-- A byte sequence. -/
  | bytes (bs : List UInt8)
  /-- A list of values. -/
  | list (items : List Value)
  /-- A map, with its entries in order of arrival. -/
  | map (entries : List (MapKey × Value))
  /-- A message of a type, with its fields in order of arrival. -/
  | message (typeName : String) (fields : List (String × Value))
  deriving Inhabited

namespace Value

/-- The kind of a value. -/
def kind : Value → Kind
  | .null => .null
  | .bool _ => .bool
  | .int _ => .int
  | .uint _ => .uint
  | .double _ => .double
  | .string _ => .string
  | .bytes _ => .bytes
  | .list _ => .list
  | .map _ => .map
  | .message _ _ => .message

/-- The boolean that a value is, if it is one. -/
def asBool? : Value → Option Bool
  | .bool b => some b
  | _ => none

end Value

namespace MapKey

/-- The key that a value is, if it can be one. -/
def ofValue? : Value → Option MapKey
  | .int i => some (.int i)
  | .uint u => some (.uint u)
  | .string s => some (.string s)
  | _ => none

/-- The key as a value, as it is met when the keys of a map are visited. -/
def toValue : MapKey → Value
  | .int i => .int i
  | .uint u => .uint u
  | .string s => .string s

/-- The same integer as a key of the other kind, if that kind has it. -/
def twin? : MapKey → Option MapKey
  | .int i => if 0 ≤ i.toInt then some (.uint (UInt64.ofNat i.toInt.toNat)) else none
  | .uint u => if (u.toNat : Int) ≤ Int64.maxValue.toInt then some (.int (Int64.ofNat u.toNat)) else none
  | .string _ => none

/-- The value that a map holds at a key, or else at the same integer of the
    other kind. -/
def lookup? (entries : Entries MapKey Value) (k : MapKey) : Option Value :=
  (entries.get? k).or (k.twin?.bind fun t => entries.get? t)

/-- A key is found again in the value that it is met as. -/
theorem ofValue?_toValue (k : MapKey) : ofValue? k.toValue = some k := by
  cases k <;> rfl

end MapKey

end ExprMachine
