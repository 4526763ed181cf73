import ExprMachine.Code.Assembly

/-!
# Building code

The code of an expression is built from pieces. A *piece* is built on a *draft*,
which says where the piece begins, which registers are free, and what is in the
pools; it yields its records, a value, such as the register that holds the
result, and the draft after it. Pieces are composed one after another
(`Build`).

* Registers are handed out in order and never used again.
* Names and spans are entered into their pools once; constants and field names
  are entered every time.
* A record whose target lies ahead is *reserved* before the code that it jumps
  over is built, and placed afterwards, when its target is known
  (`Build.skipping`).
-/

namespace ExprMachine

/-- The state in which a piece of code is built. -/
structure Draft where
  /-- The number of records before the piece. -/
  records : Nat := 0
  /-- The number of registers handed out. -/
  registers : Nat := 0
  /-- The constants. -/
  constants : List Value := []
  /-- The names. -/
  strings : List String := []
  /-- The spans. -/
  spans : List Span := []
  /-- The field names of the messages built. -/
  messageFields : List (List String) := []

/-- What building a piece of code yields. -/
structure Piece (α : Type) where
  /-- The value of the piece. -/
  value : α
  /-- The records of the piece. -/
  lines : List Line
  /-- The draft after the piece. -/
  draft : Draft

/-- A way to build a piece of code on any draft. -/
def Build (α : Type) : Type := Draft → Piece α

/-- The place of an element in a pool, and the pool that holds it. -/
def intern {α : Type} [DecidableEq α] (pool : List α) (a : α) : Nat × List α :=
  match pool.idxOf? a with
  | some i => (i, pool)
  | none => (pool.length, pool ++ [a])

namespace Build

variable {α β : Type}

instance : Monad Build where
  pure a d := ⟨a, [], d⟩
  bind x f d :=
    let first := x d
    let second := f first.value first.draft
    ⟨second.value, first.lines ++ second.lines, second.draft⟩

/-! ## Registers and pools -/

/-- Hands out consecutive registers and yields the first. -/
def block (n : Nat) : Build Nat := fun d =>
  ⟨d.registers, [], { d with registers := d.registers + n }⟩

/-- Hands out a register. -/
def fresh : Build Nat := block 1

/-- The place of a name in the pool. -/
def string (s : String) : Build Nat := fun d =>
  let (i, pool) := intern d.strings s
  ⟨i, [], { d with strings := pool }⟩

/-- The place of a span in the pool. -/
def span (s : Span) : Build Nat := fun d =>
  let (i, pool) := intern d.spans s
  ⟨i, [], { d with spans := pool }⟩

/-- The place of a new constant. -/
def constant (v : Value) : Build Nat := fun d =>
  ⟨d.constants.length, [], { d with constants := d.constants ++ [v] }⟩

/-- The place of a new list of field names. -/
def fields (names : List String) : Build Nat := fun d =>
  ⟨d.messageFields.length, [], { d with messageFields := d.messageFields ++ [names] }⟩

/-! ## Records -/

/-- The offset of the next record. -/
def here : Build Nat := fun d => ⟨stride * d.records, [], d⟩

/-- Leaves room for a record and yields the place of its span. -/
def reserve (s : Span) : Build Nat := do
  let i ← span s
  fun d => ⟨i, [], { d with records := d.records + 1 }⟩

/-- Puts records where room has been left for them. -/
def place (lines : List Line) : Build Unit := fun d => ⟨(), lines, d⟩

/-- The records of a piece, kept aside to be placed later. -/
def aside (x : Build α) : Build (α × List Line) := fun d =>
  let piece := x d
  ⟨(piece.value, piece.lines), [], piece.draft⟩

/-- Emits a record. -/
def emit (opcode : Opcode) (dst op1 op2 op3 : Nat) (s : Span) : Build Unit := do
  let i ← reserve s
  place [⟨opcode, dst, op1, op2, op3, i⟩]

/-- Emits a record before a piece of code whose end is its target. -/
def skipping (line : Nat → Nat → Line) (s : Span) (x : Build α) : Build α := do
  let i ← reserve s
  let (a, lines) ← aside x
  let target ← here
  place (line target i :: lines)
  pure a

/-- Emits a jump over a piece of code, on a tested register or on none. -/
def jumpOver (opcode : Opcode) (tested : Nat) (s : Span) (x : Build α) : Build α :=
  skipping (fun target i => ⟨opcode, tested, target, 0, 0, i⟩) s x

end Build

end ExprMachine
