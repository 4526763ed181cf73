/-!
# Kinds

The *kind* of a value is all that overload resolution looks at: an operator or
a function is a family of handlers, one for each list of kinds it accepts.

The ten kinds are numbered from `0` in the order in which `Kind.all` lists
them, so that a pair of kinds is a position in a flat table. A *signature*, the
list of the kinds of a function's arguments, is identified by its key: the
names of the kinds, separated by commas.
-/

namespace ExprMachine

/-- The kinds of values. -/
inductive Kind where
  /-- The value `null`. -/
  | null
  /-- The booleans. -/
  | bool
  /-- The signed integers of 64 bits. -/
  | int
  /-- The unsigned integers of 64 bits. -/
  | uint
  /-- The binary floating point numbers of 64 bits. -/
  | double
  /-- The texts. -/
  | string
  /-- The byte sequences. -/
  | bytes
  /-- The lists of values. -/
  | list
  /-- The maps from keys to values. -/
  | map
  /-- The messages: named types with named fields. -/
  | message
  deriving DecidableEq, Repr, Inhabited

namespace Kind

/-- All kinds, in the order of their indices. -/
def all : List Kind :=
  [.null, .bool, .int, .uint, .double, .string, .bytes, .list, .map, .message]

/-- The number of kinds. -/
def count : Nat := 10

/-- The position of a kind in `Kind.all`. -/
def index : Kind → Nat
  | .null => 0
  | .bool => 1
  | .int => 2
  | .uint => 3
  | .double => 4
  | .string => 5
  | .bytes => 6
  | .list => 7
  | .map => 8
  | .message => 9

/-- The name of a kind in the language. -/
def name : Kind → String
  | .null => "null"
  | .bool => "bool"
  | .int => "int"
  | .uint => "uint"
  | .double => "double"
  | .string => "string"
  | .bytes => "bytes"
  | .list => "list"
  | .map => "map"
  | .message => "message"

/-- The kinds whose values are numbers, which compare with each other by value. -/
def isNumeric : Kind → Bool
  | .int | .uint | .double => true
  | _ => false

theorem index_lt_count (k : Kind) : k.index < count := by
  cases k <;> decide

/-- The kind at the index of `k` is `k`. -/
theorem all_getElem?_index (k : Kind) : all[k.index]? = some k := by
  cases k <;> rfl

/-- Distinct kinds have distinct indices. -/
theorem index_injective {a b : Kind} (h : a.index = b.index) : a = b := by
  have := all_getElem?_index a
  rw [h, all_getElem?_index b] at this
  exact (Option.some.inj this).symm

end Kind

/-- The key of a signature: the names of its kinds, separated by commas. The
    order and the number of the kinds show in it. -/
def signatureKey (kinds : List Kind) : String :=
  String.intercalate "," (kinds.map Kind.name)

/-- The kinds as they are listed in messages, separated by a comma and a space. -/
def describeKinds (kinds : List Kind) : String :=
  String.intercalate ", " (kinds.map Kind.name)

end ExprMachine
