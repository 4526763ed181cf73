import ExprMachine.Double.Text
import ExprMachine.Text.Quoted
import ExprMachine.Text.Utf8
import ExprMachine.Value

/-!
# The text of a value

Values are shown as they would be written in the language, as far as it has a
form for them: unsigned integers with a `u`, doubles with a point or an
exponent, strings between quotes, byte sequences as the text that they encode,
between quotes after a `b`. Lists stand in brackets; maps and messages in
braces, with the keys before their values; and a message is led by the name of
its type.
-/

namespace ExprMachine

/-- The text of a key. -/
def MapKey.text : MapKey → String
  | .int i => toString i.toInt
  | .uint u => toString u.toNat ++ "u"
  | .string s => Text.quote s

namespace Value

/-- Texts separated by a comma and a space. -/
def separated (texts : List String) : String := String.intercalate ", " texts

mutual

/-- The text of a value. -/
def text : Value → String
  | .null => "null"
  | .bool b => if b then "true" else "false"
  | .int i => toString i.toInt
  | .uint u => toString u.toNat ++ "u"
  | .double d => d.text .shown
  | .string s => Text.quote s
  | .bytes bs => "b" ++ Text.quote (Text.decodeUtf8Lossy bs)
  | .list items => "[" ++ separated (itemTexts items) ++ "]"
  | .map entries => "\x7b" ++ separated (entryTexts entries) ++ "\x7d"
  | .message typeName fields =>
    typeName ++ "\x7b" ++ separated (fieldTexts fields) ++ "\x7d"

/-- The texts of the items of a list. -/
def itemTexts : List Value → List String
  | [] => []
  | v :: rest => text v :: itemTexts rest

/-- The texts of the entries of a map. -/
def entryTexts : List (MapKey × Value) → List String
  | [] => []
  | (k, v) :: rest => (k.text ++ ": " ++ text v) :: entryTexts rest

/-- The texts of the fields of a message. -/
def fieldTexts : List (String × Value) → List String
  | [] => []
  | (f, v) :: rest => (f ++ ": " ++ text v) :: fieldTexts rest

end

end Value

end ExprMachine
