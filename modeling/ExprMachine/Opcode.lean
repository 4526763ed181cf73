import ExprMachine.Kind

/-!
# Opcodes

A program is a sequence of *records*. The opcode of a record says what it does
and, through its *layout*, what its four operand slots `dst`, `op1`, `op2` and
`op3` refer to: registers, entries of the pools of the program, offsets of
other records, and small numbers.

An opcode is carried by a record as a number. Not every number is that of an
opcode, and zero, the number that blank memory holds, is refused with an error
of its own.
-/

namespace ExprMachine

/-- Which construct a check for a boolean belongs to. -/
inductive ConditionRole where
  /-- The condition of `c ? a : b`. -/
  | conditional
  /-- The predicate of `all`, `exists` and `exists_one`. -/
  | predicate
  /-- The predicate of `filter`, and the first of two bodies of `map`. -/
  | filter
  deriving DecidableEq, Repr

namespace ConditionRole

/-- The number by which a record carries the role. -/
def tag : ConditionRole → UInt32
  | .conditional => 0
  | .predicate => 1
  | .filter => 2

/-- The role of a number, if there is one. -/
def ofTag? (n : UInt32) : Option ConditionRole :=
  if n = 0 then some .conditional
  else if n = 1 then some .predicate
  else if n = 2 then some .filter
  else none

theorem ofTag?_tag (r : ConditionRole) : ofTag? r.tag = some r := by
  cases r <;> rfl

end ConditionRole

/-- What a record does. -/
inductive Opcode where
  /-- `dst` becomes constant `op1`. -/
  | loadConst
  /-- `dst` becomes the variable named by string `op1`. -/
  | loadVar
  /-- `dst` becomes true. -/
  | loadTrue
  /-- `dst` becomes false. -/
  | loadFalse
  /-- `dst` becomes null. -/
  | loadNull
  /-- `dst` becomes the negative of `op1`. -/
  | negate
  /-- `dst` becomes the logical negation of `op1`. -/
  | not
  /-- `dst` becomes the result of operator `op2` on `op1` and `op3`. -/
  | binaryOp
  /-- Goes on at `op1` if `dst` is false. -/
  | jumpIfFalse
  /-- Goes on at `op1` if `dst` is true. -/
  | jumpIfTrue
  /-- Goes on at `op1`. -/
  | jump
  /-- Fails, in the role `op2`, unless `op1` is a boolean. -/
  | condCheck
  /-- `dst` becomes the field of `op1` named by string `op2`. -/
  | memberAccess
  /-- `dst` becomes the item of `op1` at `op2`. -/
  | index
  /-- `dst` becomes whether `op1` has the field named by string `op2`. -/
  | hasField
  /-- `dst` becomes the result of the function named by string `op1` on the
      `op3` registers from `op2` on. -/
  | call
  /-- `dst` becomes the list of the `op2` registers from `op1` on. -/
  | makeList
  /-- `dst` becomes the map of `op2` keys and values that alternate in the
      registers from `op1` on. -/
  | makeMap
  /-- `dst` becomes the message of the type named by string `op3`, with the
      field names of entry `op2` and their values in the registers from `op1`
      on. -/
  | makeMessage
  /-- `dst` becomes the name of an iterator over `op1`. -/
  | iterInit
  /-- `dst` becomes the next item of the iterator `op1`, or execution goes on
      at `op2` if there is none. -/
  | iterNext
  /-- Enters a scope of variables. -/
  | scopePush
  /-- Leaves the innermost scope of variables. -/
  | scopePop
  /-- Binds the name of string `op1` to `op2` in the innermost scope. -/
  | bindVar
  /-- Appends `op1` to the list being built in `dst`. -/
  | listAppend
  /-- Adds one to the integer in `dst`. -/
  | intIncrement
  /-- `dst` becomes `op1`, with the list being built there. -/
  | move
  /-- Ends the execution with `op1`. -/
  | return
  deriving DecidableEq, Repr

/-- What an operand slot of a record refers to. -/
inductive Operand where
  /-- Nothing: the slot is zero. -/
  | unused
  /-- A register. -/
  | register
  /-- An entry of the pool of constants. -/
  | constant
  /-- An entry of the pool of strings. -/
  | string
  /-- The offset of a record. -/
  | target
  /-- The index of a binary operator. -/
  | operator
  /-- The tag of a condition role. -/
  | role
  /-- A number of registers or of entries. -/
  | count
  /-- An entry of the table of message fields. -/
  | messageFields
  deriving DecidableEq, Repr

/-- Why no record is read. -/
inductive DecodeError where
  /-- The opcode is zero. -/
  | illegalOpcode
  /-- No opcode has this number. -/
  | invalidOpcode (word : UInt32)
  /-- Too few words are left at this offset. -/
  | truncated (offset : Nat)
  /-- No record begins at this offset. -/
  | misaligned (offset : Nat)
  deriving DecidableEq, Repr

/-- A word in hexadecimal, with at least two digits. -/
def hexWord (w : UInt32) : String :=
  let digits := Nat.toDigits 16 w.toNat
  "0x" ++ String.ofList (List.replicate (2 - digits.length) '0' ++ digits)

/-- The wording of a decoding error. -/
def DecodeError.message : DecodeError → String
  | .illegalOpcode => "illegal opcode 0x00"
  | .invalidOpcode w => "invalid opcode: " ++ hexWord w
  | .truncated offset => "truncated instruction at offset " ++ toString offset
  | .misaligned offset => "misaligned instruction offset " ++ toString offset

namespace Opcode

/-- All opcodes. -/
def all : List Opcode :=
  [.loadConst, .loadVar, .loadTrue, .loadFalse, .loadNull, .negate, .not, .binaryOp,
    .jumpIfFalse, .jumpIfTrue, .jump, .condCheck, .memberAccess, .index, .hasField, .call,
    .makeList, .makeMap, .makeMessage, .iterInit, .iterNext, .scopePush, .scopePop, .bindVar,
    .listAppend, .intIncrement, .move, .return]

/-- The number by which a record carries the opcode. -/
def word : Opcode → UInt32
  | .loadConst => 0x01
  | .loadVar => 0x02
  | .loadTrue => 0x03
  | .loadFalse => 0x04
  | .loadNull => 0x05
  | .negate => 0x10
  | .not => 0x11
  | .binaryOp => 0x12
  | .jumpIfFalse => 0x20
  | .jumpIfTrue => 0x21
  | .jump => 0x22
  | .condCheck => 0x23
  | .memberAccess => 0x30
  | .index => 0x31
  | .hasField => 0x32
  | .call => 0x40
  | .makeList => 0x50
  | .makeMap => 0x51
  | .makeMessage => 0x52
  | .iterInit => 0x60
  | .iterNext => 0x61
  | .scopePush => 0x62
  | .scopePop => 0x63
  | .bindVar => 0x64
  | .listAppend => 0x65
  | .intIncrement => 0x66
  | .move => 0x70
  | .return => 0xFE

/-- The opcode of a number. -/
def ofWord (w : UInt32) : Except DecodeError Opcode :=
  if w = 0 then .error .illegalOpcode
  else match all.find? fun op => op.word = w with
    | some op => .ok op
    | none => .error (.invalidOpcode w)

/-- The name of the opcode in a listing. -/
def mnemonic : Opcode → String
  | .loadConst => "LOAD_CONST"
  | .loadVar => "LOAD_VAR"
  | .loadTrue => "LOAD_TRUE"
  | .loadFalse => "LOAD_FALSE"
  | .loadNull => "LOAD_NULL"
  | .negate => "NEGATE"
  | .not => "NOT"
  | .binaryOp => "BINARY_OP"
  | .jumpIfFalse => "JUMP_IF_FALSE"
  | .jumpIfTrue => "JUMP_IF_TRUE"
  | .jump => "JUMP"
  | .condCheck => "COND_CHECK"
  | .memberAccess => "MEMBER_ACCESS"
  | .index => "INDEX"
  | .hasField => "HAS_FIELD"
  | .call => "CALL"
  | .makeList => "MAKE_LIST"
  | .makeMap => "MAKE_MAP"
  | .makeMessage => "MAKE_MSG"
  | .iterInit => "ITER_INIT"
  | .iterNext => "ITER_NEXT"
  | .scopePush => "SCOPE_PUSH"
  | .scopePop => "SCOPE_POP"
  | .bindVar => "BIND_VAR"
  | .listAppend => "LIST_APPEND"
  | .intIncrement => "INT_INC"
  | .move => "MOVE"
  | .return => "RETURN"

/-- What the slots `dst`, `op1`, `op2` and `op3` refer to. -/
def layout : Opcode → List Operand
  | .loadConst => [.register, .constant, .unused, .unused]
  | .loadVar => [.register, .string, .unused, .unused]
  | .loadTrue | .loadFalse | .loadNull | .intIncrement =>
    [.register, .unused, .unused, .unused]
  | .negate | .not | .move | .iterInit | .listAppend =>
    [.register, .register, .unused, .unused]
  | .binaryOp => [.register, .register, .operator, .register]
  | .jumpIfFalse | .jumpIfTrue => [.register, .target, .unused, .unused]
  | .jump => [.unused, .target, .unused, .unused]
  | .condCheck => [.unused, .register, .role, .unused]
  | .memberAccess | .hasField => [.register, .register, .string, .unused]
  | .index => [.register, .register, .register, .unused]
  | .call => [.register, .string, .register, .count]
  | .makeList | .makeMap => [.register, .register, .count, .unused]
  | .makeMessage => [.register, .register, .messageFields, .string]
  | .iterNext => [.register, .register, .target, .unused]
  | .scopePush | .scopePop => [.unused, .unused, .unused, .unused]
  | .bindVar => [.unused, .string, .register, .unused]
  | .return => [.unused, .register, .unused, .unused]

/-- The jumps that depend on a boolean. -/
def isConditionalJump : Opcode → Bool
  | .jumpIfFalse | .jumpIfTrue => true
  | _ => false

/-- Every opcode has four slots. -/
theorem length_layout (op : Opcode) : op.layout.length = 4 := by
  cases op <;> rfl

/-- Reading the number of an opcode gives the opcode back. -/
theorem ofWord_word (op : Opcode) : ofWord op.word = .ok op := by
  cases op <;> rfl

/-- Only an opcode's own number reads as that opcode. -/
theorem word_of_ofWord {w : UInt32} {op : Opcode} (h : ofWord w = .ok op) : op.word = w := by
  unfold ofWord at h
  split at h
  · cases h
  · split at h
    · rename_i found
      cases h
      simpa using List.find?_some found
    · cases h

end Opcode

end ExprMachine
