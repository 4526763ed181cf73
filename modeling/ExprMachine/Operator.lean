/-!
# Operators

The binary and the unary operators of the language. A binary operator is
carried by an instruction as its *index*, its position in
`BinaryOperator.all`; the operators `&&` and `||` are the only ones that may
leave their right operand unevaluated.
-/

namespace ExprMachine

/-- The binary operators. -/
inductive BinaryOperator where
  /-- The operator `<`. -/
  | less
  /-- The operator `<=`. -/
  | lessEquals
  /-- The operator `>`. -/
  | greater
  /-- The operator `>=`. -/
  | greaterEquals
  /-- The operator `==`. -/
  | equals
  /-- The operator `!=`. -/
  | notEquals
  /-- The operator `in`: membership in a list, presence in a map. -/
  | within
  /-- The operator `+`. -/
  | add
  /-- The operator `-`. -/
  | subtract
  /-- The operator `*`. -/
  | multiply
  /-- The operator `/`. -/
  | divide
  /-- The operator `%`. -/
  | modulo
  /-- The operator `&&`. -/
  | logicalAnd
  /-- The operator `||`. -/
  | logicalOr
  deriving DecidableEq, Repr, Inhabited

namespace BinaryOperator

/-- All binary operators, in the order of their indices. -/
def all : List BinaryOperator :=
  [.less, .lessEquals, .greater, .greaterEquals, .equals, .notEquals, .within,
    .add, .subtract, .multiply, .divide, .modulo, .logicalAnd, .logicalOr]

/-- The number of binary operators. -/
def count : Nat := 14

/-- The position of an operator in `BinaryOperator.all`. -/
def index : BinaryOperator → Nat
  | .less => 0
  | .lessEquals => 1
  | .greater => 2
  | .greaterEquals => 3
  | .equals => 4
  | .notEquals => 5
  | .within => 6
  | .add => 7
  | .subtract => 8
  | .multiply => 9
  | .divide => 10
  | .modulo => 11
  | .logicalAnd => 12
  | .logicalOr => 13

/-- The operator of an index, if there is one. -/
def ofIndex? (n : Nat) : Option BinaryOperator := all[n]?

/-- The operator as it is written in the language. -/
def symbol : BinaryOperator → String
  | .less => "<"
  | .lessEquals => "<="
  | .greater => ">"
  | .greaterEquals => ">="
  | .equals => "=="
  | .notEquals => "!="
  | .within => "in"
  | .add => "+"
  | .subtract => "-"
  | .multiply => "*"
  | .divide => "/"
  | .modulo => "%"
  | .logicalAnd => "&&"
  | .logicalOr => "||"

/-- The operators that need not evaluate their right operand. -/
def isShortCircuit : BinaryOperator → Bool
  | .logicalAnd | .logicalOr => true
  | _ => false

theorem index_lt_count (op : BinaryOperator) : op.index < count := by
  cases op <;> decide

/-- Reading the index of an operator gives the operator back. -/
theorem ofIndex?_index (op : BinaryOperator) : ofIndex? op.index = some op := by
  cases op <;> rfl

/-- Only an operator's own index reads as that operator. -/
theorem index_of_ofIndex? {n : Nat} {op : BinaryOperator} (h : ofIndex? n = some op) :
    op.index = n := by
  match n, h with
  | 0, h | 1, h | 2, h | 3, h | 4, h | 5, h | 6, h | 7, h | 8, h | 9, h | 10, h | 11, h
  | 12, h | 13, h => exact (Option.some.inj h) ▸ rfl
  | _ + 14, h => simp [ofIndex?, all] at h

end BinaryOperator

/-- The unary operators. -/
inductive UnaryOperator where
  /-- Arithmetic negation, `-`. -/
  | negate
  /-- Logical negation, `!`. -/
  | not
  deriving DecidableEq, Repr, Inhabited

/-- The operator as it is written in the language. -/
def UnaryOperator.symbol : UnaryOperator → String
  | .negate => "-"
  | .not => "!"

end ExprMachine
