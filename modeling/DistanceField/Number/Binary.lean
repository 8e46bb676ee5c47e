import DistanceField.Number.Power

/-! Nonnegative binary floating-point values, each named by its rank in
increasing order, and the rounding of an exact quotient to the nearest of them. -/

namespace DistanceField

/-- The quotient rounded to the nearest natural number, a half going to the even
neighbour. -/
def divRoundEven (num den : Nat) : Nat :=
  let quotient := num / den
  let twice := 2 * (num % den)
  if twice < den then quotient
  else if den < twice then quotient + 1
  else quotient + quotient % 2

/-- A binary interchange format, given by the widths of its two fields. The rank
of a nonnegative value is also its bit pattern. -/
structure BinaryFormat where
  exponentBits : Nat
  fractionBits : Nat
  deriving DecidableEq, Repr

namespace BinaryFormat

def single : BinaryFormat := ⟨8, 23⟩

def double : BinaryFormat := ⟨11, 52⟩

/-- The least positive value is two to the minus `scale`; it is the unit in which
every other value is a whole number. -/
def scale (format : BinaryFormat) : Nat :=
  twoTo (format.exponentBits - 1) + format.fractionBits - 2

def infinity (format : BinaryFormat) : Nat :=
  (twoTo format.exponentBits - 1) * twoTo format.fractionBits

def shift (format : BinaryFormat) (rank : Nat) : Nat :=
  rank / twoTo format.fractionBits - 1

def mantissa (format : BinaryFormat) (rank : Nat) : Nat :=
  -- A normal value keeps its leading bit, which stands above the fraction.
  rank - format.shift rank * twoTo format.fractionBits

/-- The value of a rank in units of the least positive value. At infinity this is
the value the next finite rank would have. -/
def units (format : BinaryFormat) (rank : Nat) : Nat :=
  format.mantissa rank * twoTo (format.shift rank)

/-- The rank nearest to `num / den` units, a half going to the even rank. What lies
beyond the last finite rank becomes infinity. -/
def roundUnits (format : BinaryFormat) (num den : Nat) : Nat :=
  let shift := (num / den).log2 - format.fractionBits
  min format.infinity
    (shift * twoTo format.fractionBits + divRoundEven num (den * twoTo shift))

def round (format : BinaryFormat) (num den : Nat) : Nat :=
  format.roundUnits (num * twoTo format.scale) den

def convert (source target : BinaryFormat) (rank : Nat) : Nat :=
  if source.infinity ≤ rank then target.infinity
  else target.round (source.units rank) (twoTo source.scale)

def mul (format : BinaryFormat) (a b : Nat) : Nat :=
  format.round (format.units a * format.units b) (twoTo format.scale * twoTo format.scale)

def div (format : BinaryFormat) (a b : Nat) : Nat :=
  format.round (format.units a) (format.units b)

end BinaryFormat

end DistanceField
