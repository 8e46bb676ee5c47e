/-! Names that the shader language accepts for functions, parameters and macros. -/

namespace DistanceField.Text

def isNameStart (c : Char) : Bool :=
  c.isAlpha || c == '_'

def isNameChar (c : Char) : Bool :=
  c.isAlphanum || c == '_'

/-- A letter or underscore, followed by letters, digits and underscores, all ASCII. -/
def isIdentifierChars : List Char → Bool
  | [] => false
  | c :: rest => isNameStart c && rest.all isNameChar

def isIdentifier (text : String) : Bool :=
  isIdentifierChars text.toList

theorem isNameChar_of_isNameStart {c : Char} (starts : isNameStart c = true) :
    isNameChar c = true := by
  simp only [isNameStart, isNameChar, Char.isAlphanum, Bool.or_eq_true] at starts ⊢
  exact starts.imp_left .inl

theorem isNameChar_of_isIdentifier {name : String} {c : Char} (named : isIdentifier name = true)
    (member : c ∈ name.toList) : isNameChar c = true := by
  rw [isIdentifier] at named
  cases chars : name.toList with
  | nil =>
      rw [chars] at member
      cases member
  | cons start rest =>
      rw [chars, isIdentifierChars, Bool.and_eq_true, List.all_eq_true] at named
      rw [chars] at member
      rcases List.mem_cons.mp member with rfl | later
      · exact isNameChar_of_isNameStart named.1
      · exact named.2 c later

end DistanceField.Text
