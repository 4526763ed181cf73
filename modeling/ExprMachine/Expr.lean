import ExprMachine.Operator
import ExprMachine.Span
import ExprMachine.Value

/-!
# Expressions

The trees that are compiled. Every node carries the span of the text that it
was read from. A node in parentheses is a node of its own, with a span of its
own; it stands for the node inside (`Expr.unparen`).

A call has the form `f(a, b)` or, with a target before the name, `t.f(a, b)`.
Some calls are not calls of functions but have a meaning of their own; they are
told by their shape alone (`ExprMachine.Comprehension`).
-/

namespace ExprMachine

/-- A constant as it is written in an expression. -/
inductive Literal where
  /-- The constant `null`. -/
  | null
  /-- A boolean. -/
  | bool (b : Bool)
  /-- A signed integer. -/
  | int (i : Int64)
  /-- An unsigned integer. -/
  | uint (u : UInt64)
  /-- A floating point number. -/
  | double (d : Double)
  /-- A string. -/
  | string (s : String)
  /-- A byte sequence. -/
  | bytes (bs : List UInt8)
  deriving DecidableEq, Repr

/-- The value that a literal denotes. -/
def Literal.value : Literal → Value
  | .null => .null
  | .bool b => .bool b
  | .int i => .int i
  | .uint u => .uint u
  | .double d => .double d
  | .string s => .string s
  | .bytes bs => .bytes bs

/-- An expression. -/
inductive Expr where
  /-- A constant. -/
  | literal (value : Literal) (span : Span)
  /-- A list, `[a, b]`. -/
  | list (items : List Expr) (span : Span)
  /-- A map, with its keys and values. -/
  | map (entries : List (Expr × Expr)) (span : Span)
  /-- A message of a type, with its fields and their values. -/
  | message (typeName : String) (fields : List (String × Expr)) (span : Span)
  /-- A unary operator and its operand. -/
  | unary (op : UnaryOperator) (operand : Expr) (span : Span)
  /-- A binary operator and its operands. -/
  | binary (op : BinaryOperator) (left right : Expr) (span : Span)
  /-- A choice, `c ? a : b`. -/
  | conditional (condition whenTrue whenFalse : Expr) (span : Span)
  /-- The selection of a field, `x.f`. -/
  | member (operand : Expr) (field : String) (span : Span)
  /-- The selection of an item, `x[i]`. -/
  | index (operand position : Expr) (span : Span)
  /-- A variable. -/
  | ident (name : String) (span : Span)
  /-- A call, `f(a, b)`. -/
  | call (function : String) (args : List Expr) (span : Span)
  /-- A call with a target, `t.f(a, b)`. -/
  | method (target : Expr) (function : String) (args : List Expr) (span : Span)
  /-- An expression in parentheses. -/
  | paren (inner : Expr) (span : Span)
  deriving Inhabited

namespace Expr

/-- The span of a node. -/
def span : Expr → Span
  | .literal _ s | .list _ s | .map _ s | .message _ _ s | .unary _ _ s | .binary _ _ _ s
  | .conditional _ _ _ s | .member _ _ s | .index _ _ s | .ident _ s | .call _ _ s
  | .method _ _ _ s | .paren _ s => s

/-- The node inside any number of parentheses. -/
def unparen : Expr → Expr
  | .paren inner _ => inner.unparen
  | e => e

/-- The name of the variable that an expression is, under parentheses. -/
def asIdent? (e : Expr) : Option String :=
  match e.unparen with
  | .ident name _ => some name
  | _ => none

/-- The name of the form of a node. -/
def form : Expr → String
  | .literal _ _ => "literal"
  | .list _ _ => "list"
  | .map _ _ => "map"
  | .message _ _ _ => "message"
  | .unary _ _ _ => "unary"
  | .binary _ _ _ _ => "binary"
  | .conditional _ _ _ _ => "conditional"
  | .member _ _ _ => "member"
  | .index _ _ _ => "index"
  | .ident _ _ => "ident"
  | .call _ _ _ | .method _ _ _ _ => "call"
  | .paren _ _ => "paren"

/-- The node inside all parentheses is not in parentheses. -/
theorem unparen_ne_paren (e inner : Expr) (s : Span) : e.unparen ≠ .paren inner s := by
  fun_induction unparen e with
  | case1 i t ih => exact ih
  | case2 e h =>
    intro he
    exact h inner s he

end Expr

end ExprMachine
