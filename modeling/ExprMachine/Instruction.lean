import ExprMachine.Opcode

/-!
# Instructions

An instruction is a record of six words: the number of its opcode, its four
operands, and the entry of the pool of spans that it is attributed to. The
offset of a record counts words, so records lie at the multiples of six.

Encoding and decoding are inverse to each other on the records whose first word
is the number of an opcode (`decode_encode`, `encode_of_decode`).
-/

namespace ExprMachine

/-- The number of words of a record. -/
def stride : Nat := 6

/-- A decoded record. -/
structure Instruction where
  /-- What the record does. -/
  opcode : Opcode
  /-- The register written, or the register tested by a conditional jump. -/
  dst : UInt32
  /-- The first operand. -/
  op1 : UInt32
  /-- The second operand. -/
  op2 : UInt32
  /-- The third operand. -/
  op3 : UInt32
  /-- The entry of the pool of spans. -/
  span : UInt32
  deriving DecidableEq, Repr

namespace Instruction

/-- The six words of a record. -/
def encode (i : Instruction) : List UInt32 :=
  [i.opcode.word, i.dst, i.op1, i.op2, i.op3, i.span]

/-- The record at the head of some words. The offset of the words in the
    program is named if too few are left. -/
def decode (words : List UInt32) (offset : Nat) : Except DecodeError Instruction :=
  match words with
  | code :: dst :: op1 :: op2 :: op3 :: span :: _ =>
    (Opcode.ofWord code).map fun opcode => ⟨opcode, dst, op1, op2, op3, span⟩
  | _ => .error (.truncated offset)

/-- The four operands, in the order of the slots. -/
def slots (i : Instruction) : List UInt32 := [i.dst, i.op1, i.op2, i.op3]

/-- The operands with what they refer to and with the numbers of their slots. -/
def operands (i : Instruction) : List (Nat × Operand × UInt32) :=
  (List.range 4).zip (i.opcode.layout.zip i.slots)

/-- An encoded record decodes to itself, whatever follows. -/
theorem decode_encode (i : Instruction) (rest : List UInt32) (offset : Nat) :
    decode (i.encode ++ rest) offset = .ok i := by
  simp [encode, decode, Opcode.ofWord_word, Except.map]

/-- The words that decode to a record begin with its encoding. -/
theorem encode_of_decode {words : List UInt32} {offset : Nat} {i : Instruction}
    (h : decode words offset = .ok i) : i.encode = words.take stride := by
  unfold decode at h
  split at h
  · rename_i code dst op1 op2 op3 span rest
    cases hop : Opcode.ofWord code with
    | error e => simp [hop, Except.map] at h
    | ok op =>
      simp only [hop, Except.map, Except.ok.injEq] at h
      subst h
      simp [encode, stride, Opcode.word_of_ofWord hop]
  · cases h

end Instruction

end ExprMachine
