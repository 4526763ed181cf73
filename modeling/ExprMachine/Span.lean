/-!
# Spans

A *span* is the half-open range of byte offsets of an expression's source text
that a node was read from. Every node of an expression carries one, every
record of a program refers to one, and every error is attributed to one.
-/

namespace ExprMachine

/-- A half-open range of byte offsets into the source text. -/
structure Span where
  /-- The offset of the first byte. -/
  start : Nat
  /-- The offset one past the last byte. -/
  stop : Nat
  deriving DecidableEq, Repr, Inhabited

namespace Span

/-- The span of a node that was not read from any text. -/
def none : Span := ⟨0, 0⟩

/-- The smallest span covering both spans. -/
def merge (a b : Span) : Span := ⟨min a.start b.start, max a.stop b.stop⟩

/-- A span is written as its two offsets, with two dots between them. -/
def text (s : Span) : String := toString s.start ++ ".." ++ toString s.stop

end Span

end ExprMachine
