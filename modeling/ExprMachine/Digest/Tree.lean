import ExprMachine.Digest.Bytes
import ExprMachine.Digest.Compression

/-!
# The digest of bytes

The BLAKE3 digest, without a key. The input is cut into *chunks* of 1024 bytes, and each of them into blocks of 64
bytes, which are compressed one after another. The chunks are the leaves of a
binary tree. Neighbours are joined in pairs, level by level, the odd one out
going up as it is, until one node is left; its compression, flagged as that of
the root, gives the 32 bytes of the digest.

The last compression of every node is put off (`Node`), because only then is it
known whether the node is the root.
-/

namespace ExprMachine.Digest

/-- The flag of the first block of a chunk. -/
def chunkStart : UInt32 := 1

/-- The flag of the last block of a chunk. -/
def chunkEnd : UInt32 := 2

/-- The flag of a node that joins two others. -/
def parentFlag : UInt32 := 4

/-- The flag of the root. -/
def rootFlag : UInt32 := 8

/-- The pieces of a list, all of `size` items but the last. The empty list has
    one piece, which is empty. -/
def pieces {α : Type} (size : Nat) (items : List α) : List (List α) :=
  if size = 0 ∨ items.length ≤ size then [items]
  else items.take size :: pieces size (items.drop size)
termination_by items.length
decreasing_by
  simp only [List.length_drop]
  omega

/-- The words of a block of at most 64 bytes, with zeros after them. -/
def blockOf (bs : List UInt8) : Block :=
  Vector.ofFn fun i : Fin 16 => UInt32.ofNat (number ((bs.drop (4 * i.val)).take 4))

/-- Compresses the blocks of a chunk up to the last, from a chaining value on;
    `start` is the flag of the first of them. -/
def chunkFrom (counter : Nat) (chaining : Chaining) (start : UInt32) : List (List UInt8) → Node
  | [] => ⟨chaining, blockOf [], counter, 0, start ||| chunkEnd⟩
  | [bs] => ⟨chaining, blockOf bs, counter, bs.length, start ||| chunkEnd⟩
  | bs :: rest =>
    let n : Node := ⟨chaining, blockOf bs, counter, bs.length, start⟩
    chunkFrom counter n.compress 0 rest

/-- The node of a chunk. -/
def chunk (counter : Nat) (bs : List UInt8) : Node :=
  chunkFrom counter initialChaining chunkStart (pieces 64 bs)

/-- The node that joins two others. -/
def parent (left right : Node) : Node :=
  ⟨initialChaining, left.compress ++ right.compress, 0, 64, parentFlag⟩

/-- The nodes of the next level. -/
def joinPairs : List Node → List Node
  | left :: right :: rest => parent left right :: joinPairs rest
  | level => level

/-- Joining neighbours leaves no more nodes than there were, so a tree comes to its root. -/
theorem length_joinPairs_le (level : List Node) : (joinPairs level).length ≤ level.length := by
  fun_induction joinPairs level with
  | case1 left right rest ih =>
    simp only [List.length_cons]
    omega
  | case2 => exact Nat.le_refl _

/-- The root above a node and those to the right of it. -/
def root (first : Node) : List Node → Node
  | [] => first
  | second :: rest => root (parent first second) (joinPairs rest)
termination_by rest => rest.length
decreasing_by
  have := length_joinPairs_le rest
  simp only [List.length_cons]
  omega

/-- The root of the chunks of an input. -/
def rootOf (bs : List UInt8) : Node :=
  match (pieces 1024 bs).zipIdx.map fun c => chunk c.2 c.1 with
  | first :: rest => root first rest
  | [] => chunk 0 []

/-- The digest of an input, 32 bytes. -/
def digest (bs : List UInt8) : List UInt8 :=
  let n := rootOf bs
  let words := { n with flags := n.flags ||| rootFlag }.compress
  words.toList.flatMap fun w => littleEndian 4 w.toNat

end ExprMachine.Digest
