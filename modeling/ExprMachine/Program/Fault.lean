import ExprMachine.Program

/-!
# Faults of programs

What can be wrong with a program, found without executing it. A fault that lies
in one record names the offset of the record. All that is wrong is reported, in
the order in which it is met, so that checks give lists of faults.
-/

namespace ExprMachine.Program

/-- The pools of a program. -/
inductive Pool where
  /-- The constants. -/
  | constants
  /-- The names. -/
  | strings
  /-- The spans. -/
  | spans
  /-- The field names of the messages built. -/
  | messageFields
  deriving DecidableEq, Repr

namespace Pool

/-- All pools. -/
def all : List Pool := [.constants, .strings, .spans, .messageFields]

/-- The name of a pool in messages. -/
def name : Pool → String
  | .constants => "constant"
  | .strings => "string"
  | .spans => "span"
  | .messageFields => "message field"

end Pool

/-- The number of entries of a pool. -/
def poolSize (p : Program) : Pool → Nat
  | .constants => p.constants.size
  | .strings => p.strings.size
  | .spans => p.spans.size
  | .messageFields => p.messageFields.size

/-- The greatest number of registers. -/
def maxRegisters : Nat := 65536

/-- The greatest number of records. -/
def maxLength : Nat := 1048576

/-- The greatest number of entries of a pool. -/
def maxPoolSize : Nat := 65536

/-- What is wrong with a program. -/
inductive Fault where
  /-- More registers than allowed. -/
  | tooManyRegisters (count : Nat)
  /-- More records than allowed. -/
  | tooLong (length : Nat)
  /-- More entries of a pool than allowed. -/
  | poolTooLarge (pool : Pool) (size : Nat)
  /-- The last record is cut short. -/
  | partialRecord (words : Nat)
  /-- A record cannot be decoded. -/
  | undecodable (offset : Nat) (reason : DecodeError)
  /-- The last record does not return. -/
  | missingReturn
  /-- No record begins at the target of a jump. -/
  | jumpTarget (offset : Nat) (target : UInt32)
  /-- An unused slot is not zero. -/
  | unusedSlot (offset slot : Nat)
  /-- There is no such register. -/
  | registerRange (offset register count : Nat)
  /-- A pool has no such entry. -/
  | indexRange (offset : Nat) (pool : Pool) (index : UInt32) (size : Nat)
  /-- No binary operator has this index. -/
  | operatorIndex (offset : Nat) (index : UInt32)
  /-- No condition role has this tag. -/
  | conditionRole (offset : Nat) (tag : UInt32)
  /-- Nothing makes sure that a conditional jump sees a boolean. -/
  | unguardedJump (offset : Nat)
  /-- A scope is left that has not been entered. -/
  | unbalancedPop (offset : Nat)
  /-- Scopes are entered and not left. -/
  | unclosedScopes (count : Nat)
  deriving DecidableEq, Repr

/-- The record that a fault lies in, by its offset. -/
def atOffset (offset : Nat) : String := " at offset " ++ toString offset

/-- A greatest number that has been exceeded. -/
def limitText (limit : Nat) : String := " (max " ++ toString limit ++ ")"

/-- The wording of a fault. -/
def Fault.message : Fault → String
  | .tooManyRegisters count =>
    "program needs " ++ toString count ++ " registers" ++ limitText maxRegisters
  | .tooLong length =>
    "program too large: " ++ toString length ++ " instructions" ++ limitText maxLength
  | .poolTooLarge pool size =>
    pool.name ++ " pool has " ++ toString size ++ " entries" ++ limitText maxPoolSize
  | .partialRecord words =>
    "instruction array of " ++ toString words ++ " words is not a whole number of records"
  | .undecodable offset reason =>
    "undecodable instruction" ++ atOffset offset ++ ": " ++ reason.message
  | .missingReturn => "program does not end with RETURN"
  | .jumpTarget offset target =>
    "invalid jump target " ++ toString target.toNat ++ atOffset offset
  | .unusedSlot offset slot => "non-zero unused slot " ++ toString slot ++ atOffset offset
  | .registerRange offset register count =>
    "register r" ++ toString register ++ " out of range" ++ atOffset offset ++
      " (" ++ toString count ++ " registers)"
  | .indexRange offset pool index size =>
    pool.name ++ " index " ++ toString index.toNat ++ " out of range" ++ atOffset offset ++
      " (" ++ toString size ++ " entries)"
  | .operatorIndex offset index =>
    "invalid binary operator index " ++ toString index.toNat ++ atOffset offset
  | .conditionRole offset tag =>
    "invalid condition role " ++ toString tag.toNat ++ atOffset offset
  | .unguardedJump offset => "unguarded conditional jump" ++ atOffset offset
  | .unbalancedPop offset => "SCOPE_POP without matching SCOPE_PUSH" ++ atOffset offset
  | .unclosedScopes count => toString count ++ " scope(s) still open at RETURN"

/-- A fault, if a condition holds. -/
def faultIf (condition : Bool) (fault : Fault) : List Fault := if condition then [fault] else []

end ExprMachine.Program
