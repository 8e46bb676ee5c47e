import DistanceField.Number.Binary

/-! Nonnegative decimal fractions, and the shortest one that denotes a binary value. -/

namespace DistanceField

/-- The number `coefficient * 10 ^ exponent`. -/
structure Decimal where
  coefficient : Nat
  exponent : Int
  deriving DecidableEq, Repr

namespace Decimal

def num (decimal : Decimal) : Nat :=
  decimal.coefficient * tenTo decimal.exponent.toNat

def den (decimal : Decimal) : Nat :=
  tenTo (-decimal.exponent).toNat

def bound (format : BinaryFormat) : Int :=
  twoTo format.exponentBits + format.fractionBits

def rank (decimal : Decimal) (format : BinaryFormat) : Nat :=
  -- Beyond the bound no large power is computed: there the exponent alone decides.
  if decimal.coefficient = 0 then 0
  else if bound format < decimal.exponent then format.infinity
  else if decimal.exponent + decimal.coefficient.log2 + 1 < -bound format then 0
  else format.round decimal.num decimal.den

/-- The decimal lies between the two halfway points around a rank, and so rounds to
it. The halfway points themselves round to the rank when it is even. -/
def denotes (decimal : Decimal) (format : BinaryFormat) (rank : Nat) : Bool :=
  let position := decimal.num * twoTo (format.scale + 1)
  let low := (format.units (rank - 1) + format.units rank) * decimal.den
  let high := (format.units rank + format.units (rank + 1)) * decimal.den
  if rank % 2 = 0 then low ≤ position && position ≤ high
  else low < position && position < high

/-- Of the two neighbours of a value among the multiples of `10 ^ exponent`, the
nearer one that denotes it. Of two equally near ones the greater is taken. -/
def nearest? (format : BinaryFormat) (rank : Nat) (exponent : Int) : Option Decimal :=
  let num := format.units rank * tenTo (-exponent).toNat
  let den := twoTo format.scale * tenTo exponent.toNat
  let below : Decimal := ⟨num / den, exponent⟩
  let above : Decimal := ⟨num / den + 1, exponent⟩
  if below.denotes format rank && (!above.denotes format rank || 2 * (num % den) < den) then
    some below
  else if above.denotes format rank then some above
  else none

def refine (format : BinaryFormat) (rank : Nat) : Nat → Int → Decimal
  | 0, exponent => ⟨format.units rank * tenTo (-exponent).toNat / twoTo format.scale, exponent⟩
  | steps + 1, exponent =>
      match nearest? format rank exponent with
      | some decimal => decimal
      | none => refine format rank steps (exponent - 1)

def start (format : BinaryFormat) (rank : Nat) : Nat :=
  -- Eight is less than ten, so this power of ten lies above the upper halfway point.
  (format.units rank / twoTo format.scale).log2 / 3 + 1

/-- The decimal with the fewest digits that denotes a positive finite rank, and of
these the nearest. The search ends at the latest where the grid holds every value of
the format. -/
def shortest (format : BinaryFormat) (rank : Nat) : Decimal :=
  refine format rank (start format rank + format.scale) (start format rank)

end Decimal

end DistanceField
