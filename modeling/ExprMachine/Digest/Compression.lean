/-!
# The compression function

The function at the heart of the digest. It takes a *chaining value* of eight
words and a block of sixteen words, with a counter, the number of bytes of the
block and flags, and gives the next chaining value. In each of seven rounds, the
sixteen words of the state are mixed with those of the block, first by columns
and then by diagonals of the state, and the words of the block are permuted.
-/

namespace ExprMachine.Digest

/-- The words between two compressions. -/
abbrev Chaining := Vector UInt32 8

/-- The words of a block, or of the state. -/
abbrev Block := Vector UInt32 16

/-- The chaining value that everything starts from. -/
def initialChaining : Chaining :=
  #v[0x6A09E667, 0xBB67AE85, 0x3C6EF372, 0xA54FF53A,
    0x510E527F, 0x9B05688C, 0x1F83D9AB, 0x5BE0CD19]

/-- Which word of the block goes to each place after a round. -/
def permutation : Vector (Fin 16) 16 :=
  #v[2, 6, 3, 10, 7, 0, 4, 13, 1, 11, 12, 5, 9, 14, 15, 8]

/-- The word rotated to the right. -/
def rotateRight (w : UInt32) (count : Nat) : UInt32 :=
  (w >>> UInt32.ofNat count) ||| (w <<< UInt32.ofNat (32 - count))

/-- Mixes two words of the block into four words of the state. -/
def mix (s : Block) (a b c d : Fin 16) (x y : UInt32) : Block :=
  let a₁ := s[a] + s[b] + x
  let d₁ := rotateRight (s[d] ^^^ a₁) 16
  let c₁ := s[c] + d₁
  let b₁ := rotateRight (s[b] ^^^ c₁) 12
  let a₂ := a₁ + b₁ + y
  let d₂ := rotateRight (d₁ ^^^ a₂) 8
  let c₂ := c₁ + d₂
  let b₂ := rotateRight (b₁ ^^^ c₂) 7
  (((s.set a a₂).set b b₂).set c c₂).set d d₂

/-- Mixes a block into the state, by columns and then by diagonals. -/
def round (s m : Block) : Block :=
  let s := mix s 0 4 8 12 m[0] m[1]
  let s := mix s 1 5 9 13 m[2] m[3]
  let s := mix s 2 6 10 14 m[4] m[5]
  let s := mix s 3 7 11 15 m[6] m[7]
  let s := mix s 0 5 10 15 m[8] m[9]
  let s := mix s 1 6 11 12 m[10] m[11]
  let s := mix s 2 7 8 13 m[12] m[13]
  mix s 3 4 9 14 m[14] m[15]

/-- The words of a block in the order of the next round. -/
def permute (m : Block) : Block := permutation.map fun i => m[i]

/-- The state after some rounds. -/
def rounds (s m : Block) : Nat → Block
  | 0 => s
  | n + 1 => rounds (round s m) (permute m) n

/-- What is compressed: a chaining value and a block, with all that goes with
    them. -/
structure Node where
  /-- The chaining value before. -/
  chaining : Chaining
  /-- The block. -/
  block : Block
  /-- The number of the piece of input that the block belongs to. -/
  counter : Nat
  /-- The number of bytes of the block. -/
  length : Nat
  /-- What the block is. -/
  flags : UInt32

/-- The state before the first round. -/
def Node.state (n : Node) : Block :=
  n.chaining ++ #v[0x6A09E667, 0xBB67AE85, 0x3C6EF372, 0xA54FF53A,
    UInt32.ofNat n.counter, UInt32.ofNat (n.counter / UInt32.size), UInt32.ofNat n.length, n.flags]

/-- The chaining value after a compression. -/
def Node.compress (n : Node) : Chaining :=
  let s := rounds n.state n.block 7
  Vector.ofFn fun i : Fin 8 => s[i.val] ^^^ s[i.val + 8]

end ExprMachine.Digest
