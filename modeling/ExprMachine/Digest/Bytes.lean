/-!
# Numbers as bytes

A number is written with a fixed number of bytes, the lowest first. Writing and
reading are inverse to each other on the numbers that fit (`number_littleEndian`,
`littleEndian_number`). Bytes are shown as hexadecimal digits, two for each.
-/

namespace ExprMachine.Digest

/-- The `count` lowest bytes of a number, the lowest first. -/
def littleEndian : Nat → Nat → List UInt8
  | 0, _ => []
  | count + 1, n => UInt8.ofNat n :: littleEndian count (n / 256)

/-- The number of bytes of which the first is the lowest. -/
def number : List UInt8 → Nat
  | [] => 0
  | b :: bs => b.toNat + 256 * number bs

theorem length_littleEndian (count n : Nat) : (littleEndian count n).length = count := by
  induction count generalizing n with
  | zero => rfl
  | succ count ih => simp [littleEndian, ih]

/-- Reading gives back what has been written, so far as it fits. -/
theorem number_littleEndian (count n : Nat) :
    number (littleEndian count n) = n % 1 <<< (8 * count) := by
  induction count generalizing n with
  | zero => simp [littleEndian, number, Nat.mod_one]
  | succ count ih =>
    have split : 1 <<< (8 * (count + 1)) = 256 * 1 <<< (8 * count) := by
      rw [Nat.mul_succ, Nat.shiftLeft_add, Nat.shiftLeft_eq _ 8, Nat.mul_comm]
    rw [littleEndian, number, ih, UInt8.toNat_ofNat', split, Nat.mod_mul]

/-- Bytes are what is written of the number that they are read as. -/
theorem littleEndian_number (bs : List UInt8) : littleEndian bs.length (number bs) = bs := by
  induction bs with
  | nil => rfl
  | cons b bs ih =>
    have low : UInt8.ofNat (b.toNat + 256 * number bs) = b := by
      apply UInt8.toNat_inj.1
      have := b.toNat_lt
      simp only [UInt8.toNat_ofNat']
      omega
    have high : (b.toNat + 256 * number bs) / 256 = number bs := by
      have := b.toNat_lt
      omega
    simp [littleEndian, number, low, high, ih]

/-- Two hexadecimal digits for each byte. -/
def hex (bs : List UInt8) : String :=
  String.ofList (bs.flatMap fun b =>
    [Nat.digitChar (b.toNat / 16), Nat.digitChar (b.toNat % 16)])

end ExprMachine.Digest
