import DistanceField.Error
import DistanceField.Program.Base
import DistanceField.Text.Search

/-! Program templates: texts with one place for macros and one for functions. -/

namespace DistanceField

/-- The two places that a template leaves open. -/
inductive Slot where
  | macros
  | functions
  deriving DecidableEq, Repr

namespace Slot

def marker : Slot → String
  | .macros => "// [macros]"
  | .functions => "// [functions]"

def count (slot : Slot) (text : List Char) : Nat :=
  Text.countMatches slot.marker.toList 0 text

end Slot

/-- A program text with the marker of each slot exactly once. -/
structure Template where
  text : List Char
  once : ∀ slot : Slot, slot.count text = 1
  deriving DecidableEq, Repr

namespace Template

def checkSlot (text : List Char) (slot : Slot) : Except Error (PLift (slot.count text = 1)) :=
  if once : slot.count text = 1 then .ok ⟨once⟩
  else if slot.count text = 0 then .error (.template (.missing slot.marker))
  else .error (.template (.repeated slot.marker (slot.count text)))

def parse (text : String) : Except Error Template := do
  let ⟨macros⟩ ← checkSlot text.toList .macros
  let ⟨functions⟩ ← checkSlot text.toList .functions
  return ⟨text.toList, fun | .macros => macros | .functions => functions⟩

def source (template : Template) : String :=
  String.ofList template.text

structure Opening where
  position : Nat
  slot : Slot
  deriving DecidableEq, Repr

def opening? (template : Template) (slot : Slot) : Option Opening :=
  (Text.find? slot.marker.toList template.text).map (⟨·, slot⟩)

/-- The slots in the order in which they stand in the text. -/
def openings (template : Template) : List Opening :=
  ([Slot.macros, .functions].filterMap template.opening?).mergeSort
    fun first second => first.position ≤ second.position

/-- A text from a position on, with the given texts in place of the markers that follow. It
exists if the markers follow each other within the text. -/
def fillFrom? (source : List Char) (content : Slot → List Char) :
    Nat → List Opening → Option (List Char)
  | start, [] => Text.dropBytes? start source
  | start, opening :: rest => do
      let before ← Text.slice? start opening.position source
      let stop := opening.position + Text.byteLength opening.slot.marker.toList
      let after ← fillFrom? source content stop rest
      return before ++ content opening.slot ++ after

/-- The text with both slots filled. Markers in what they are filled with remain. -/
def fill? (template : Template) (content : Slot → List Char) : Option (List Char) :=
  fillFrom? template.text content 0 template.openings

/-- What the slots are filled with: the given texts without white space at their ends. -/
def content (macros functions : String) : Slot → List Char
  | .macros => Text.trimEnd macros.toList
  | .functions => Text.trimEnd functions.toList

def render (template : Template) (macros functions : String) : String :=
  String.ofList ((template.fill? (content macros functions)).getD [])

theorem count_baseText (slot : Slot) : slot.count baseText = 1 := by
  simp only [baseText, baseLines, List.map]
  -- The characters of a literal are slow to compute, but they are at hand.
  repeat rw [String.toList_ofList]
  cases slot <;> decide +kernel

def base : Template := ⟨baseText, count_baseText⟩

end Template

end DistanceField
