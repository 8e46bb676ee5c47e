import DistanceField.Text.Blank

/-! Lines of a text, and the removal of the indentation they have in common. -/

namespace DistanceField.Text

/-- The lines of a text. A line feed ends a line, together with one carriage return
right before it; nothing after the last line feed is no line. -/
def lines : List Char → List (List Char)
  | [] => []
  | '\n' :: rest => [] :: lines rest
  | '\r' :: '\n' :: rest => [] :: lines rest
  | c :: rest =>
      match lines rest with
      | [] => [[c]]
      | first :: more => (c :: first) :: more

def joinLines (lines : List (List Char)) : List Char :=
  ['\n'].intercalate lines

def isBlankLine (line : List Char) : Bool :=
  line.all isBlank

def byteLength : List Char → Nat
  | [] => 0
  | c :: rest => c.utf8Size + byteLength rest

def indentation (line : List Char) : Nat :=
  byteLength (line.takeWhile isBlank)

/-- What follows the first `count` bytes, unless they end within a character or beyond
the text. -/
def dropBytes? : Nat → List Char → Option (List Char)
  | 0, text => some text
  | _ + 1, [] => none
  | count + 1, c :: rest =>
      if c.utf8Size ≤ count + 1 then dropBytes? (count + 1 - c.utf8Size) rest else none

/-- Removes blank elements from both ends of a list of lines. -/
def stripBlankLines (lines : List (List Char)) : List (List Char) :=
  ((lines.dropWhile isBlankLine).reverse.dropWhile isBlankLine).reverse

def commonIndentation (lines : List (List Char)) : Nat :=
  (((lines.filter (!isBlankLine ·)).map indentation).min?).getD 0

def dedentLines (lines : List (List Char)) : List (List Char) :=
  let kept := stripBlankLines lines
  kept.map fun line => trimEnd ((dropBytes? (commonIndentation kept) line).getD [])

/-- The text without blank lines at its ends, without the indentation common to its
lines and without white space at the ends of its lines. -/
def dedent (text : List Char) : List Char :=
  joinLines (dedentLines (lines text))

end DistanceField.Text
