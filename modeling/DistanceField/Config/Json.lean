import DistanceField.Config.Basic
import DistanceField.NameSet
import DistanceField.Text.Braces

/-! Configurations in JSON: an object whose members are numbers, arrays of numbers and
strings. -/

namespace DistanceField.Json

structure NumberText where
  negative : Bool
  whole : List Char
  fraction : List Char
  /-- Sign and digits of the exponent. -/
  exponent : Option (Bool × List Char)

/-- A number as read: exact if it fits into 64 bits, and a double otherwise. -/
inductive Number where
  | int (value : Int)
  | double (negative : Bool) (rank : Nat)
  deriving DecidableEq, Repr

inductive Token where
  | mark (c : Char)
  | text (chars : List Char)
  | number (value : Number)
  deriving DecidableEq, Repr

def maxWord : Nat := twoTo 64 - 1

/-- Appends digits to a significand as long as it fits into 64 bits; the number of the
digits that were appended comes with it. -/
def absorb (significand : Nat) : List Char → Nat × Nat
  | [] => (significand, 0)
  | c :: rest =>
      let next := 10 * significand + (c.toNat - '0'.toNat)
      if maxWord < next then (significand, 0)
      else
        let (result, count) := absorb next rest
        (result, count + 1)

def maxPower : Nat := 308

def powerOfTen (exponent : Nat) : Nat :=
  Decimal.rank ⟨1, exponent⟩ .double

/-- Scales a double by a power of ten in steps of one rounded multiplication or division
each; a result beyond the greatest double is refused. Three divisions by the greatest
power leave nothing of any significand. -/
def scale? : Nat → Nat → Int → Option Nat
  | steps, rank, exponent =>
      if exponent.natAbs ≤ maxPower then
        if 0 ≤ exponent then
          let product := BinaryFormat.double.mul rank (powerOfTen exponent.natAbs)
          if product = BinaryFormat.double.infinity then none else some product
        else some (BinaryFormat.double.div rank (powerOfTen exponent.natAbs))
      else if rank = 0 then some 0
      else if 0 ≤ exponent then none
      else match steps with
        | 0 => some 0
        | steps + 1 =>
            scale? steps (BinaryFormat.double.div rank (powerOfTen maxPower))
              (exponent + maxPower)

def maxExponent : Nat := twoTo 31 - 1

/-- The double that a number text is read as: its leading digits as far as they fit
into 64 bits, scaled by a power of ten. -/
def double? (number : NumberText) : Option Nat :=
  let (significand, wholeCount) := absorb 0 number.whole
  let (significand, fractionCount) := absorb significand number.fraction
  let exponent : Int := (number.whole.length - wholeCount : Nat) - (fractionCount : Int)
  let rank := BinaryFormat.double.round significand 1
  match number.exponent with
  | none => scale? 4 rank exponent
  | some (negative, digits) =>
      let size := Numeral.digitsValue digits
      if maxExponent < size then
        if significand ≠ 0 ∧ negative = false then none else some 0
      else scale? 4 rank (if negative then exponent - size else exponent + size)

/-- The number that a text denotes. Integers are exact where 64 bits hold them, and
minus zero keeps its sign. -/
def number? (number : NumberText) : Option Number :=
  let size := Numeral.digitsValue number.whole
  let exact := number.fraction.isEmpty && number.exponent.isNone
  if exact && !number.negative && size ≤ maxWord then some (.int size)
  else if exact && number.negative && 0 < size && size ≤ twoTo 63 then some (.int (-size))
  else (double? number).map (.double number.negative)

def splitWhole : List Char → Option (List Char × List Char)
  | [] => none
  | c :: rest =>
      -- No digit may follow a leading zero.
      if c = '0' then some (['0'], rest)
      else if c.isDigit then
        let (digits, rest) := Numeral.splitDigits rest
        some (c :: digits, rest)
      else none

def splitFraction : List Char → Option (List Char × List Char)
  | '.' :: rest =>
      let (digits, rest) := Numeral.splitDigits rest
      if digits.isEmpty then none else some (digits, rest)
  | text => some ([], text)

def splitExponent : List Char → Option (Option (Bool × List Char) × List Char)
  | [] => some (none, [])
  | c :: rest =>
      if c = 'e' ∨ c = 'E' then
        let (negative, rest) := Numeral.splitSign rest
        let (digits, rest) := Numeral.splitDigits rest
        if digits.isEmpty then none else some (some (negative, digits), rest)
      else some (none, c :: rest)

def splitNumber (negative : Bool) (text : List Char) : Option (NumberText × List Char) := do
  let (whole, text) ← splitWhole text
  let (fraction, text) ← splitFraction text
  let (exponent, text) ← splitExponent text
  return (⟨negative, whole, fraction, exponent⟩, text)

def hexValue? (c : Char) : Option Nat :=
  if c.isDigit then some (c.toNat - '0'.toNat)
  else if 'a' ≤ c ∧ c ≤ 'f' then some (c.toNat - 'a'.toNat + 10)
  else if 'A' ≤ c ∧ c ≤ 'F' then some (c.toNat - 'A'.toNat + 10)
  else none

def unit? (a b c d : Char) : Option Nat := do
  let high := (← hexValue? a) * 16 + (← hexValue? b)
  let low := (← hexValue? c) * 16 + (← hexValue? d)
  return high * 256 + low

def isHighSurrogate (unit : Nat) : Bool :=
  0xD800 ≤ unit && unit < 0xDC00

def isLowSurrogate (unit : Nat) : Bool :=
  0xDC00 ≤ unit && unit < 0xE000

def pairChar (high low : Nat) : Char :=
  Char.ofNat (0x10000 + (high - 0xD800) * 0x400 + (low - 0xDC00))

def escaped? : Char → Option Char
  | '"' => some '"'
  | '\\' => some '\\'
  | '/' => some '/'
  | 'b' => some '\x08'
  | 'f' => some '\x0c'
  | 'n' => some '\n'
  | 'r' => some '\r'
  | 't' => some '\t'
  | _ => none

/-- The rest of a string up to its closing quote, and what follows it. Control
characters and surrogates that stand alone are refused. -/
def splitString : List Char → Option (List Char × List Char)
  | [] => none
  | '"' :: rest => some ([], rest)
  | '\\' :: 'u' :: a :: b :: c :: d :: '\\' :: 'u' :: e :: f :: g :: h :: rest => do
      let first ← unit? a b c d
      if isHighSurrogate first then
        let second ← unit? e f g h
        if isLowSurrogate second then
          let (chars, rest) ← splitString rest
          return (pairChar first second :: chars, rest)
        else none
      else if isLowSurrogate first then none
      else
        let (chars, rest) ← splitString ('\\' :: 'u' :: e :: f :: g :: h :: rest)
        return (Char.ofNat first :: chars, rest)
  | '\\' :: 'u' :: a :: b :: c :: d :: rest => do
      let first ← unit? a b c d
      if isHighSurrogate first || isLowSurrogate first then none
      else
        let (chars, rest) ← splitString rest
        return (Char.ofNat first :: chars, rest)
  | '\\' :: c :: rest => do
      let char ← escaped? c
      let (chars, rest) ← splitString rest
      return (char :: chars, rest)
  | c :: rest =>
      if c.toNat < 0x20 || c = '\\' then none
      else do
        let (chars, rest) ← splitString rest
        return (c :: chars, rest)

def isSpace (c : Char) : Bool :=
  c == ' ' || c == '\n' || c == '\t' || c == '\r'

def isMark (c : Char) : Bool :=
  c == Text.openBrace || c == Text.closeBrace || c == '[' || c == ']' || c == ':' || c == ','

/-- The tokens of a text. Every token takes at least one character, so a bound of the
length of the text is never met. -/
def tokensWithin : Nat → List Char → Option (List Token)
  | _, [] => some []
  | 0, _ :: _ => none
  | bound + 1, c :: rest =>
      if isSpace c then tokensWithin bound rest
      else if isMark c then do
        return .mark c :: (← tokensWithin bound rest)
      else if c = '"' then do
        let (chars, rest) ← splitString rest
        return .text chars :: (← tokensWithin bound rest)
      else do
        let (text, rest) ←
          if c = '-' then splitNumber true rest else splitNumber false (c :: rest)
        return .number (← number? text) :: (← tokensWithin bound rest)

def tokens? (text : List Char) : Option (List Token) :=
  tokensWithin text.length text

def Number.toSingle : Number → Single
  | .int value => .ofInt value
  | .double negative rank => .ofRank negative (BinaryFormat.double.convert .single rank)

def Number.toValue : Number → ConfigValue
  | .int value => if ConfigValue.fitsInt value then .int value else .float (.ofInt value)
  | .double negative rank => .float (Number.toSingle (.double negative rank))

/-- The rest of an array after one of its numbers, and what follows it. -/
def splitNumbers : List Token → Option (List Single × List Token)
  | .mark ']' :: rest => some ([], rest)
  | .mark ',' :: .number first :: rest => do
      let (numbers, rest) ← splitNumbers rest
      return (first.toSingle :: numbers, rest)
  | _ => none

def splitValue : List Token → Option (ConfigValue × List Token)
  | .number value :: rest => some (value.toValue, rest)
  | .text chars :: rest => some (.raw (String.ofList chars), rest)
  | .mark '[' :: .mark ']' :: rest => some (.vector [], rest)
  | .mark '[' :: .number first :: rest => do
      let (numbers, rest) ← splitNumbers rest
      return (.vector (first.toSingle :: numbers), rest)
  | _ => none

def splitMember : List Token → Option ((String × ConfigValue) × List Token)
  | .text key :: .mark ':' :: rest => do
      let (value, rest) ← splitValue rest
      return ((String.ofList key, value), rest)
  | _ => none

/-- The members of an object up to its closing brace, which must be the last token.
Every member takes some tokens, so a bound of their number is never met. -/
def membersWithin : Nat → List Token → Option (List (String × ConfigValue))
  | 0, _ => none
  | bound + 1, tokens => do
      let (member, rest) ← splitMember tokens
      match rest with
      | [.mark c] => if c = Text.closeBrace then return [member] else none
      | .mark ',' :: rest => return member :: (← membersWithin bound rest)
      | _ => none

def members? (tokens : List Token) : Option (List (String × ConfigValue)) :=
  match tokens with
  | .mark first :: rest =>
      if first ≠ Text.openBrace then none
      else if rest = [.mark Text.closeBrace] then some []
      else membersWithin rest.length rest
  | _ => none

/-- The members of the object that a text holds, in the order of the text. -/
def object? (text : String) : Option (List (String × ConfigValue)) := do
  members? (← tokens? text.toList)

/-- Each key once with its last value, in ascending order of the keys. -/
def ascending (members : List (String × ConfigValue)) : List (String × ConfigValue) :=
  let table := (Table.empty : Config).setAll members
  (NameSet.ofList table.keys).names.filterMap fun key =>
    (table.get? key).map fun value => (key, value)

end DistanceField.Json

namespace DistanceField.Config

/-- Sets the members of an object. New keys go last, in ascending order. -/
def overlay (config : Config) (members : List (String × ConfigValue)) : Config :=
  config.setAll (Json.ascending members)

/-- A way to read the members of the object that a text holds, in the order of the text. -/
abbrev ObjectReader := String → Option (List (String × ConfigValue))

/-- Sets the members of the object in a text; a text that holds none is refused and sets
nothing. -/
def mergeBy (read : ObjectReader) (config : Config) (text : String) : Except Error Unit × Config :=
  match read text with
  | some members => (.ok (), config.overlay members)
  | none => (.error .malformedJson, config)

def mergeJson (config : Config) (text : String) : Except Error Unit × Config :=
  config.mergeBy Json.object? text

def changed : Except Error Unit × Config → Except Error Config
  | (outcome, config) => outcome.map fun _ => config

def ofJson (text : String) : Except Error Config :=
  changed (standard.mergeJson text)

end DistanceField.Config
