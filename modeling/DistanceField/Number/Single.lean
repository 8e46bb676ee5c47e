import DistanceField.Number.Numeral

/-! Single-precision numbers, as bit patterns. Main definitions: reading a number from
its text, and the shortest text that reads back. -/

namespace DistanceField

/-- A single-precision number, given by its bit pattern. -/
structure Single where
  bits : UInt32
  deriving DecidableEq, Repr

namespace Single

def negative (x : Single) : Bool :=
  twoTo 31 ≤ x.bits.toNat

def rank (x : Single) : Nat :=
  x.bits.toNat % twoTo 31

def isNaN (x : Single) : Bool :=
  BinaryFormat.single.infinity < x.rank

def ofRank (negative : Bool) (rank : Nat) : Single :=
  ⟨UInt32.ofNat (rank + if negative then twoTo 31 else 0)⟩

def nan : Single := ofRank false (BinaryFormat.single.infinity + twoTo 22)

def ofNumeral : Numeral → Single
  | .finite negative decimal => ofRank negative (decimal.rank .single)
  | .infinite negative => ofRank negative BinaryFormat.single.infinity
  | .nan => nan

/-- The nearest single to the nearest double to a numeral. -/
def ofNumeralByDouble : Numeral → Single
  | .finite negative decimal =>
      ofRank negative (BinaryFormat.double.convert .single (decimal.rank .double))
  | .infinite negative => ofRank negative BinaryFormat.single.infinity
  | .nan => nan

def ofInt (n : Int) : Single :=
  ofRank (n < 0) (BinaryFormat.single.round n.natAbs 1)

/-- Literals denote the nearest single. -/
instance : OfScientific Single where
  ofScientific mantissa negativeExponent exponent :=
    ofRank false (Decimal.rank
      ⟨mantissa, if negativeExponent then -(exponent : Int) else exponent⟩ .single)

def parse? (text : List Char) : Option Single :=
  (Numeral.parse? text).map ofNumeral

def parseByDouble? (text : String) : Option Single :=
  (Numeral.parse? text.toList).map ofNumeralByDouble

/-- Numerical equality: a NaN differs from everything, and the two zeros agree. -/
def equal (x y : Single) : Bool :=
  !x.isNaN && !y.isNaN && (x.bits == y.bits || x.rank == 0 && y.rank == 0)

/-- Decimal exponents of the leading digit that are written without an exponent part. -/
def positional (leading : Int) : Bool :=
  -4 ≤ leading && leading < 16

/-- A decimal without an exponent part, with at least one digit on each side of the
point. -/
def positionalText (digits : List Char) (exponent : Int) : List Char :=
  if 0 ≤ exponent then
    digits ++ List.replicate exponent.toNat '0' ++ ".0".toList
  else
    let places := (-exponent).toNat
    let padded := List.replicate (places + 1 - digits.length) '0' ++ digits
    padded.take (padded.length - places) ++ '.' :: padded.drop (padded.length - places)

def exponentText (digits : List Char) (leading : Int) : List Char :=
  digits.take 1 ++ (if digits.length ≤ 1 then [] else '.' :: digits.drop 1) ++
    'e' :: (if leading < 0 then ['-'] else []) ++ Nat.toDigits 10 leading.natAbs

def decimalText (decimal : Decimal) : List Char :=
  let digits := Nat.toDigits 10 decimal.coefficient
  let leading := decimal.exponent + digits.length - 1
  if positional leading then positionalText digits decimal.exponent
  else exponentText digits leading

def rankText (rank : Nat) : List Char :=
  if rank = 0 then "0.0".toList
  else if rank = BinaryFormat.single.infinity then "inf".toList
  else decimalText (Decimal.shortest .single rank)

/-- The shortest decimal that reads back as the number. It always has a point or an
exponent part, so that it is never mistaken for an integer. -/
def text (x : Single) : String :=
  if x.isNaN then "NaN"
  else String.ofList ((if x.negative then ['-'] else []) ++ rankText x.rank)

end Single

end DistanceField
