import ExprMachine.Text.Printable

/-!
# Quoted text

Strings are shown between double quotes. Inside, the quote and the backslash
follow a backslash; the null character, the tab, the line feed and the carriage
return are written by a letter after a backslash; every other character that
is not printable is written by its code point, in hexadecimal between braces.
So quoted text never holds a line break.
-/

namespace ExprMachine.Text

/-- A character as it is written between quotes. -/
def escape (c : Char) : List Char :=
  if c = '"' then ['\\', '"']
  else if c = '\\' then ['\\', '\\']
  else if c = '\n' then ['\\', 'n']
  else if c = '\r' then ['\\', 'r']
  else if c = '\t' then ['\\', 't']
  else if c = Char.ofNat 0 then ['\\', '0']
  else if isPrintable c then [c]
  else '\\' :: 'u' :: '\x7b' :: Nat.toDigits 16 c.toNat ++ ['\x7d']

/-- The text between double quotes. -/
def quote (s : String) : String :=
  String.ofList ('"' :: s.toList.flatMap escape ++ ['"'])

end ExprMachine.Text
