/-!
# Bytes as text

Bytes are read as UTF-8: a character of one byte stands for itself; the
characters of two, three and four bytes have a leading byte that tells their
number, and continuation bytes of six bits each. Overlong forms, surrogates and
code points past the last one are excluded by the range that the leading byte
leaves to the byte after it.

Reading strictly (`decodeUtf8?`) fails on any other sequence. Reading with
replacements (`decodeUtf8Lossy`) puts one replacement character in the place of
every maximal beginning of a character that does not go on as it should, and of
every byte that cannot begin one. It runs over the bytes with the character
begun, if any, as its state.
-/

namespace ExprMachine.Text

/-- A character of which the first bytes have been read. -/
structure PartialChar where
  /-- The number of continuation bytes still to come. -/
  missing : Nat
  /-- The bits read so far. -/
  value : Nat
  /-- The least next byte. -/
  low : Nat
  /-- The greatest next byte. -/
  high : Nat

/-- The character that stands for what is not text. -/
def replacement : Char := Char.ofNat 0xFFFD

/-- What a byte does where no character has been begun: it is a character, it
    begins one, or it is replaced. -/
def beginChar (b : UInt8) : List Char × Option PartialChar :=
  let n := b.toNat
  if n < 0x80 then ([Char.ofNat n], none)
  else if n < 0xC2 then ([replacement], none)
  else if n < 0xE0 then ([], some ⟨1, n % 32, 0x80, 0xBF⟩)
  else if n = 0xE0 then ([], some ⟨2, n % 16, 0xA0, 0xBF⟩)
  else if n = 0xED then ([], some ⟨2, n % 16, 0x80, 0x9F⟩)
  else if n < 0xF0 then ([], some ⟨2, n % 16, 0x80, 0xBF⟩)
  else if n = 0xF0 then ([], some ⟨3, n % 8, 0x90, 0xBF⟩)
  else if n < 0xF4 then ([], some ⟨3, n % 8, 0x80, 0xBF⟩)
  else if n = 0xF4 then ([], some ⟨3, n % 8, 0x80, 0x8F⟩)
  else ([replacement], none)

/-- What a byte does after the beginning of a character: it continues it, or
    the beginning is replaced and the byte stands for itself. -/
def continueChar (p : PartialChar) (b : UInt8) : List Char × Option PartialChar :=
  let n := b.toNat
  if p.low ≤ n ∧ n ≤ p.high then
    let value := p.value * 64 + n % 64
    if p.missing ≤ 1 then ([Char.ofNat value], none)
    else ([], some ⟨p.missing - 1, value, 0x80, 0xBF⟩)
  else
    let (cs, next) := beginChar b
    (replacement :: cs, next)

/-- The characters of a sequence of bytes, after the beginning of a character
    or none. -/
def decodeLossy : Option PartialChar → List UInt8 → List Char
  | none, [] => []
  | some _, [] => [replacement]
  | none, b :: rest =>
    let (cs, next) := beginChar b
    cs ++ decodeLossy next rest
  | some p, b :: rest =>
    let (cs, next) := continueChar p b
    cs ++ decodeLossy next rest

/-- The text of a sequence of bytes, with replacements. -/
def decodeUtf8Lossy (bytes : List UInt8) : String := String.ofList (decodeLossy none bytes)

/-- The text of a sequence of bytes, if all of it is text. -/
def decodeUtf8? (bytes : List UInt8) : Option String :=
  String.fromUTF8? ⟨bytes.toArray⟩

end ExprMachine.Text
