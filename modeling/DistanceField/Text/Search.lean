import DistanceField.Text.Lines

/-! Search for a marker in a text, and parts of a text between two positions. Positions count
the bytes of UTF-8. -/

namespace DistanceField.Text

/-- How many matches of a marker are found in a text when the search goes on behind each match.
The first `skipped` characters belong to a match that was found before. -/
def countMatches (marker : List Char) : Nat → List Char → Nat
  | _, [] => 0
  | skipped + 1, _ :: rest => countMatches marker skipped rest
  | 0, c :: rest =>
      if marker.isPrefixOf (c :: rest) then countMatches marker (marker.length - 1) rest + 1
      else countMatches marker 0 rest

def find? (marker : List Char) : List Char → Option Nat
  | [] => none
  | c :: rest =>
      if marker.isPrefixOf (c :: rest) then some 0
      else (find? marker rest).map (c.utf8Size + ·)

/-- The first `count` bytes, unless they end within a character or beyond the text. -/
def takeBytes? : Nat → List Char → Option (List Char)
  | 0, _ => some []
  | _ + 1, [] => none
  | count + 1, c :: rest =>
      if c.utf8Size ≤ count + 1 then (takeBytes? (count + 1 - c.utf8Size) rest).map (c :: ·)
      else none

/-- What stands between two positions. They must be in order, and each must lie between two
characters or at an end of the text. -/
def slice? (start stop : Nat) (text : List Char) : Option (List Char) :=
  if stop < start then none else (dropBytes? start text).bind (takeBytes? (stop - start))

end DistanceField.Text
