import ExprMachine.Digest.Bytes
import ExprMachine.Program

/-!
# Programs as bytes

A program is written as one sequence of bytes, with all its parts. Words take
four bytes and other numbers eight, the lowest first. Every sequence is preceded
by its length and every value by the index of its kind, so that no two programs
are written alike.
-/

namespace ExprMachine

open Digest

/-- A word. -/
def wordBytes (w : UInt32) : List UInt8 := littleEndian 4 w.toNat

/-- A length or another number of the program. -/
def lengthBytes (n : Nat) : List UInt8 := littleEndian 8 n

/-- A sequence of bytes with its length. -/
def blobBytes (bs : List UInt8) : List UInt8 := lengthBytes bs.length ++ bs

/-- A text. -/
def textBytes (s : String) : List UInt8 := blobBytes s.toUTF8.data.toList

/-- A sequence of items with its length. -/
def sequenceBytes {α : Type} (write : α → List UInt8) (items : List α) : List UInt8 :=
  lengthBytes items.length ++ items.flatMap write

/-- The index of a kind. -/
def kindByte (k : Kind) : List UInt8 := [UInt8.ofNat k.index]

/-- A key of a map: the value that it stands for. -/
def MapKey.encoding : MapKey → List UInt8
  | .int i => kindByte .int ++ lengthBytes i.toUInt64.toNat
  | .uint u => kindByte .uint ++ lengthBytes u.toNat
  | .string s => kindByte .string ++ textBytes s

namespace Value

mutual

/-- A value: the index of its kind, then its content. -/
def encoding : Value → List UInt8
  | .null => kindByte .null
  | .bool b => kindByte .bool ++ [if b then 1 else 0]
  | .int i => kindByte .int ++ lengthBytes i.toUInt64.toNat
  | .uint u => kindByte .uint ++ lengthBytes u.toNat
  | .double d => kindByte .double ++ lengthBytes d.bits.toNat
  | .string s => kindByte .string ++ textBytes s
  | .bytes bs => kindByte .bytes ++ blobBytes bs
  | .list items => kindByte .list ++ lengthBytes items.length ++ itemsEncoding items
  | .map entries => kindByte .map ++ lengthBytes entries.length ++ entriesEncoding entries
  | .message typeName fields =>
    kindByte .message ++ textBytes typeName ++ lengthBytes fields.length ++ fieldsEncoding fields

/-- The items of a list. -/
def itemsEncoding : List Value → List UInt8
  | [] => []
  | v :: rest => v.encoding ++ itemsEncoding rest

/-- The entries of a map. -/
def entriesEncoding : List (MapKey × Value) → List UInt8
  | [] => []
  | (k, v) :: rest => k.encoding ++ v.encoding ++ entriesEncoding rest

/-- The fields of a message. -/
def fieldsEncoding : List (String × Value) → List UInt8
  | [] => []
  | (name, v) :: rest => textBytes name ++ v.encoding ++ fieldsEncoding rest

end

/-- A key is written like the value that it stands for. -/
theorem encoding_toValue (k : MapKey) : k.toValue.encoding = k.encoding := by
  cases k <;> rfl

end Value

/-- The bytes of a program. -/
def Program.encoding (p : Program) : List UInt8 :=
  wordBytes p.registers ++
  sequenceBytes wordBytes p.code.toList ++
  sequenceBytes Value.encoding p.constants.toList ++
  sequenceBytes textBytes p.strings.toList ++
  sequenceBytes (fun s => lengthBytes s.start ++ lengthBytes s.stop) p.spans.toList ++
  sequenceBytes (sequenceBytes textBytes) p.messageFields.toList

end ExprMachine
