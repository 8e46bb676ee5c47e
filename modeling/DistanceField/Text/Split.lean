/-! Pieces of a text between separators. -/

namespace DistanceField.Text

/-- The pieces of a text between the occurrences of a separator. There is always at
least one. -/
def pieces (separator : Char) : List Char → List (List Char)
  | [] => [[]]
  | c :: rest =>
      match pieces separator rest with
      | [] => [[c]]
      | first :: more =>
          if c = separator then [] :: first :: more else (c :: first) :: more

def splitFirst? (separator : Char) : List Char → Option (List Char × List Char)
  | [] => none
  | c :: rest =>
      if c = separator then some ([], rest)
      else (splitFirst? separator rest).map fun (before, after) => (c :: before, after)

end DistanceField.Text
