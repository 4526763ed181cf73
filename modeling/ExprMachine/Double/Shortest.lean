import ExprMachine.Double

/-!
# The shortest decimal of a double

The decimal that is written for a double has the fewest digits among those
that read back to the same double, and of these it is the one nearest to the
exact value; of two equally near ones it is the larger.

The reals that round to the value `m * 2^q` are those between the midpoints to
its two neighbours. Counted in quarters of the step `2^q`, the value is `4 * m`,
the upper midpoint is `4 * m + 2`, and the lower one is `4 * m - 2`, or
`4 * m - 1` just above a power of two, where the neighbour below is half as far
away. The midpoints themselves round to the value exactly when `m` is even.

For one, two, … digits, the two neighbours of the value among the decimals with
that many digits are tested against these bounds (`Shortest.onGrid`); the first
number of digits with a hit wins.
-/

namespace ExprMachine

/-- The decimal `digits * 10^exponent`. -/
structure Decimal where
  /-- The digits, as a number. -/
  digits : Nat
  /-- The power of ten of the last digit. -/
  exponent : Int
  deriving DecidableEq, Repr

namespace Shortest

/-- The decimal with `10 ^ exponent` as its step that lies nearest to the value
    `m * 2^q` among its neighbours that read back to it. -/
def onGrid (m : Nat) (q : Int) (narrowBelow : Bool) (exponent : Int) : Option Decimal :=
  -- A quarter of the binary step and the decimal step, in a common unit.
  let quarter := Nat.pow 10 (-exponent).toNat <<< (q - 2).toNat
  let step := Nat.pow 10 exponent.toNat <<< (2 - q).toNat
  let value := 4 * m * quarter
  let lower := (if narrowBelow then 4 * m - 1 else 4 * m - 2) * quarter
  let upper := (4 * m + 2) * quarter
  let readsBack (c : Nat) : Bool :=
    if m % 2 = 0 then lower ≤ c * step && c * step ≤ upper
    else lower < c * step && c * step < upper
  let below := value / step
  let above := below + 1
  match readsBack below, readsBack above with
  | true, true =>
    if value - below * step < above * step - value then some ⟨below, exponent⟩
    else some ⟨above, exponent⟩
  | true, false => some ⟨below, exponent⟩
  | false, true => some ⟨above, exponent⟩
  | false, false => none

/-- The number of digits before the point of `m * 2^q`: the least `k` with
    `m * 2^q < 10^k`. The binary logarithm gives it up to two. -/
def scale (m : Nat) (q : Int) : Int :=
  let guess : Int := ((m.log2 : Int) + q) * 1233 / 4096
  let isBelow (k : Int) : Bool :=
    m * Nat.pow 10 (-k).toNat <<< q.toNat < Nat.pow 10 k.toNat <<< (-q).toNat
  if isBelow guess then guess else if isBelow (guess + 1) then guess + 1 else guess + 2

/-- The decimal without the zeros at its end. At most `fuel` zeros are dropped. -/
def dropZeros : Nat → Decimal → Decimal
  | 0, d => d
  | fuel + 1, d =>
    if d.digits ≠ 0 ∧ d.digits % 10 = 0 then dropZeros fuel ⟨d.digits / 10, d.exponent + 1⟩ else d

/-- The exact value `m * 2^q` as a decimal. -/
def exact (m : Nat) (q : Int) : Decimal :=
  if 0 ≤ q then ⟨m <<< q.toNat, 0⟩ else ⟨m * Nat.pow 5 (-q).toNat, q⟩

/-- The shortest decimal that reads back to the positive value `m * 2^q`.
    Seventeen digits suffice for every double. -/
def ofBinary (m : Nat) (q : Int) (narrowBelow : Bool) : Decimal :=
  let k := scale m q
  let found := (List.range 17).findSome? fun n : Nat =>
    onGrid m q narrowBelow (k - ((n : Int) + 1))
  dropZeros 20 (found.getD (exact m q))

end Shortest

/-- The shortest decimal that reads back to a finite double without its sign. -/
def Double.shortest (d : Double) : Decimal :=
  if d.magnitude = 0 then ⟨0, 0⟩
  else Shortest.ofBinary d.significand d.exponent
    (d.fractionField = 0 && decide (1 < d.exponentField))

end ExprMachine
