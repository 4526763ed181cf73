import ExprMachine.EvalError
import ExprMachine.Value.Text

/-!
# Access to the parts of values

What a value holds at a field or at an index, what it is asked for by a presence
test, and which items a comprehension over it visits. Fields belong to maps with
string keys and to messages; lists are indexed by integers of either kind,
counted from zero; an integer key of a map is found under either kind.
-/

namespace ExprMachine.Value

/-- The value of a field. -/
def select (v : Value) (field : String) (span : Span) : Except EvalError Value :=
  match v with
  | .map entries => found (Entries.get? entries (.string field))
  | .message _ fields => found (Entries.get? fields field)
  | other => .error ⟨span, .memberKind other.kind field⟩
where
  /-- The value found, or the error of a missing key. -/
  found : Option Value → Except EvalError Value
    | some w => .ok w
    | none => .error ⟨span, .noSuchKey field⟩

/-- Whether a field is present. -/
def hasField (v : Value) (field : String) (span : Span) : Except EvalError Bool :=
  match v with
  | .map entries => .ok (Entries.contains entries (.string field))
  | .message _ fields => .ok (Entries.contains fields field)
  | other => .error ⟨span, .misuse (.presence other.kind)⟩

/-- The item of a list at an integer position. -/
def itemAt? (items : List Value) (position : Int) : Option Value :=
  if 0 ≤ position then items[position.toNat]? else none

/-- The item of a value at an index. -/
def item (v index : Value) (span : Span) : Except EvalError Value :=
  match v, index with
  | .list items, .int i => found index.text (itemAt? items i.toInt)
  | .list items, .uint u => found index.text (itemAt? items u.toNat)
  | .map entries, .int i => found index.text (MapKey.lookup? entries (.int i))
  | .map entries, .uint u => found index.text (MapKey.lookup? entries (.uint u))
  | .map entries, .string s => found index.text (MapKey.lookup? entries (.string s))
  | .message _ fields, .string s => found s (Entries.get? fields s)
  | v, index => .error ⟨span, .indexKind v.kind index.kind⟩
where
  /-- The item found, or the error of a missing key. -/
  found (key : String) : Option Value → Except EvalError Value
    | some w => .ok w
    | none => .error ⟨span, .noSuchKey key⟩

/-- The items that a comprehension visits: those of a list, or the keys of a
    map. -/
def items (v : Value) (span : Span) : Except EvalError (List Value) :=
  match v with
  | .list items => .ok items
  | .map entries => .ok (entries.map fun e => e.1.toValue)
  | other => .error ⟨span, .misuse (.target other.kind)⟩

/-- The entries of a map built from keys and values in turn, after those of
    `built`. The last of the values of one key counts. -/
def addEntries (built : Entries MapKey Value) (span : Span) :
    List Value → Except EvalError (Entries MapKey Value)
  | key :: v :: rest =>
    match MapKey.ofValue? key with
    | some k => addEntries (built.insert k v) span rest
    | none => .error ⟨span, .mapKeyKind key.kind⟩
  | _ => .ok built

/-- The failure of a value that has to be a boolean in some role. -/
def conditionCause (role : ConditionRole) (found : Kind) : EvalError.Cause :=
  match role with
  | .conditional => .conditionKind found
  | .predicate => .misuse (.predicate found)
  | .filter => .misuse (.filter found)

end ExprMachine.Value
