/-! Balance of braces in shader text. -/

namespace DistanceField.Text

def openBrace : Char := '\x7b'

def closeBrace : Char := '\x7d'

/-- How many braces stand open after a text, from a number that stand open before it.
There is none when a brace is closed that was never opened. -/
def braceDepth? : Nat → List Char → Option Nat
  | depth, [] => some depth
  | depth, c :: rest =>
      if c = openBrace then braceDepth? (depth + 1) rest
      else if c = closeBrace then
        match depth with
        | 0 => none
        | depth + 1 => braceDepth? depth rest
      else braceDepth? depth rest

def bracesBalanced (text : List Char) : Bool :=
  braceDepth? 0 text == some 0

end DistanceField.Text
