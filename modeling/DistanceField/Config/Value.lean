import DistanceField.Error
import DistanceField.Number.Single
import DistanceField.Text.Blank
import DistanceField.Text.Split

/-! Values of configuration macros. -/

namespace DistanceField

inductive ConfigValue where
  | int (value : Int)
  | float (value : Single)
  | vector (components : List Single)
  /-- Shader text, used as it stands. -/
  | raw (text : String)
  deriving DecidableEq, Repr

namespace ConfigValue

def intText (n : Int) : String :=
  if n < 0 then "-" ++ Nat.repr n.natAbs else Nat.repr n.natAbs

def text : ConfigValue → String
  | .int value => intText value
  | .float value => value.text
  | .vector components =>
      "vec" ++ Nat.repr components.length ++ "(" ++
        ", ".intercalate (components.map Single.text) ++ ")"
  | .raw text => text

def fitsInt (n : Int) : Bool :=
  -(twoTo 63) ≤ n && n < twoTo 63

def parseInt? (text : List Char) : Option Int :=
  (Numeral.signedDigits? text).filter fitsInt

/-- Two or more numbers separated by commas. -/
def parseVector? (text : List Char) : Option (List Single) :=
  match Text.pieces ',' text with
  | [] | [_] => none
  | pieces => pieces.mapM fun piece => Single.parse? (Text.trim piece)

/-- The value a text stands for, tried as an integer, a number and a vector in turn.
Everything else is taken as it stands. -/
def parse (text : String) : Except Error ConfigValue :=
  let trimmed := Text.trim text.toList
  if trimmed.isEmpty then .error (.config .emptyValue)
  else match parseInt? trimmed with
    | some value => .ok (.int value)
    | none =>
        match Single.parse? trimmed with
        | some value => .ok (.float value)
        | none =>
            match parseVector? trimmed with
            | some components => .ok (.vector components)
            | none => .ok (.raw (String.ofList trimmed))

end ConfigValue

end DistanceField
