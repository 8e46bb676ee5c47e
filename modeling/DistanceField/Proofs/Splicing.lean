import DistanceField.Program.Template
import DistanceField.Proofs.Search
import DistanceField.Proofs.Usage

/-! Templates are filled in one way. The markers of an accepted text do not overlap, so the text
is cut by them into three parts in one way only, and filling the slots puts the two texts where
the markers were and changes nothing else. -/

namespace DistanceField

namespace Slot

def other : Slot → Slot
  | .macros => .functions
  | .functions => .macros

theorem eq_or_eq_other (slot first : Slot) : slot = first ∨ slot = first.other := by
  cases slot <;> cases first <;> decide

theorem other_ne (slot : Slot) : slot.other ≠ slot := by
  cases slot <;> decide

/-- Both markers end with a bracket, and have no other. -/
theorem marker_endsOnlyWith (slot : Slot) : Text.EndsOnlyWith ']' slot.marker.toList := by
  cases slot with
  | macros => exact ⟨"// [macros".toList, by decide +kernel, by decide +kernel⟩
  | functions => exact ⟨"// [functions".toList, by decide +kernel, by decide +kernel⟩

theorem eq_of_suffix {slot other : Slot} (ends : slot.marker.toList <:+ other.marker.toList) :
    slot = other := by
  cases slot with
  | macros =>
      cases other with
      | macros => rfl
      | functions => exact absurd ends (by decide +kernel)
  | functions =>
      cases other with
      | macros => exact absurd ends (by decide +kernel)
      | functions => rfl

theorem eq_of_append_eq {slot other : Slot} {before later : List Char}
    (same : before ++ slot.marker.toList = later ++ other.marker.toList) : slot = other := by
  rcases List.suffix_or_suffix_of_suffix (List.suffix_append before slot.marker.toList)
    (same ▸ List.suffix_append later other.marker.toList) with ends | ends
  · exact eq_of_suffix ends
  · exact (eq_of_suffix ends).symm

/-- Markers of different slots lie apart. -/
theorem apart {slot other : Slot} (different : slot ≠ other) {before later text : List Char}
    (one : Text.Occurs slot.marker.toList before text)
    (two : Text.Occurs other.marker.toList later text) :
    before ++ slot.marker.toList <+: later ∨ later ++ other.marker.toList <+: before := by
  rcases slot.marker_endsOnlyWith.apart other.marker_endsOnlyWith one two with
    apart | apart | together
  · exact .inl apart
  · exact .inr apart
  · exact absurd (eq_of_append_eq together) different

theorem count_eq_one_iff {slot : Slot} {text : List Char} :
    slot.count text = 1 ↔ Text.OccursOnce slot.marker.toList text :=
  slot.marker_endsOnlyWith.countMatches_eq_one_iff

end Slot

namespace Template

/-- The parts of a text around two places, one for each slot. -/
structure Parts where
  before : List Char
  first : Slot
  between : List Char
  after : List Char

namespace Parts

/-- The text with the given contents in the two places. -/
def filled (parts : Parts) (content : Slot → List Char) : List Char :=
  parts.before ++ content parts.first ++ parts.between ++ content parts.first.other ++ parts.after

/-- The text with the markers in their places. -/
def marked (parts : Parts) : List Char :=
  parts.filled fun slot => slot.marker.toList

/-- What stands before a marker. -/
def ahead (parts : Parts) (slot : Slot) : List Char :=
  if slot = parts.first then parts.before
  else parts.before ++ parts.first.marker.toList ++ parts.between

theorem ahead_first (parts : Parts) : parts.ahead parts.first = parts.before :=
  if_pos rfl

theorem ahead_other (parts : Parts) :
    parts.ahead parts.first.other =
      parts.before ++ parts.first.marker.toList ++ parts.between :=
  if_neg parts.first.other_ne

theorem occurs (parts : Parts) (slot : Slot) :
    Text.Occurs slot.marker.toList (parts.ahead slot) parts.marked := by
  rcases slot.eq_or_eq_other parts.first with rfl | rfl
  · rw [ahead_first]
    exact ⟨parts.between ++ parts.first.other.marker.toList ++ parts.after,
      by simp [marked, filled]⟩
  · rw [ahead_other]
    exact ⟨parts.after, rfl⟩

theorem marker_before_other (parts : Parts) :
    parts.ahead parts.first ++ parts.first.marker.toList <+: parts.ahead parts.first.other := by
  rw [ahead_first, ahead_other]
  exact List.prefix_append _ _

/-- Where the markers stand tells the parts. -/
theorem eq_of_ahead {parts others : Parts} (same : parts.marked = others.marked)
    (ahead : ∀ slot, parts.ahead slot = others.ahead slot) : parts = others := by
  have order : parts.first = others.first := by
    by_contra different
    have swapped : others.first = parts.first.other :=
      (others.first.eq_or_eq_other parts.first).resolve_left (Ne.symm different)
    have back : others.first.other = parts.first := by
      rw [swapped]
      cases parts.first <;> rfl
    have one := parts.marker_before_other.length_le
    have two := others.marker_before_other.length_le
    rw [back, swapped, ← ahead, ← ahead] at two
    have wide := List.length_pos_iff.mpr parts.first.marker_endsOnlyWith.ne_nil
    simp only [List.length_append] at one two
    omega
  obtain ⟨before, first, between, after⟩ := parts
  obtain ⟨before', first', between', after'⟩ := others
  cases order
  have start : before = before' := by simpa [Parts.ahead] using ahead first
  cases start
  have middle : between = between' := by
    simpa [Parts.ahead, first.other_ne] using ahead first.other
  cases middle
  have rest : after = after' := List.append_cancel_left same
  rw [rest]

end Parts

variable {text : List Char}

/-- A text with each marker once can be cut at them. -/
theorem exists_parts (once : ∀ slot : Slot, Text.OccursOnce slot.marker.toList text) :
    ∃ parts : Parts, text = parts.marked := by
  have cut : ∀ slot : Slot, ∀ before later,
      before ++ slot.marker.toList <+: later →
        Text.Occurs slot.other.marker.toList later text → ∃ parts : Parts, text = parts.marked := by
    rintro slot before _ ⟨between, rfl⟩ ⟨after, rfl⟩
    exact ⟨⟨before, slot, between, after⟩, rfl⟩
  obtain ⟨before, one, _⟩ := once .macros
  obtain ⟨later, two, _⟩ := once .functions
  rcases Slot.apart (by decide) one two with macrosFirst | functionsFirst
  · exact cut .macros before later macrosFirst two
  · exact cut .functions later before functionsFirst one

theorem parts_unique (once : ∀ slot : Slot, Text.OccursOnce slot.marker.toList text)
    {parts others : Parts} (one : text = parts.marked) (two : text = others.marked) :
    parts = others := by
  refine Parts.eq_of_ahead (one.symm.trans two) fun slot => ?_
  have here := parts.occurs slot
  have there := others.occurs slot
  rw [← one] at here
  rw [← two] at there
  exact (once slot).unique here there

theorem occursOnce (template : Template) (slot : Slot) :
    Text.OccursOnce slot.marker.toList template.text :=
  Slot.count_eq_one_iff.mp (template.once slot)

variable {template : Template} {parts : Parts}

/-- The search finds the marker of every slot. -/
theorem opening?_eq (cut : template.text = parts.marked) (slot : Slot) :
    template.opening? slot = some ⟨Text.byteLength (parts.ahead slot), slot⟩ := by
  have here := parts.occurs slot
  rw [← cut] at here
  have first : Text.OccursFirst slot.marker.toList (parts.ahead slot) template.text :=
    ⟨here, fun later also => by rw [(template.occursOnce slot).unique here also]⟩
  have found := (Text.find?_eq_some_iff slot.marker_endsOnlyWith.ne_nil).mpr ⟨_, first, rfl⟩
  rw [opening?, found]
  rfl

/-- Sorting puts the slots in the order of the text. -/
theorem openings_eq (cut : template.text = parts.marked) :
    template.openings =
      [⟨Text.byteLength (parts.ahead parts.first), parts.first⟩,
        ⟨Text.byteLength (parts.ahead parts.first.other), parts.first.other⟩] := by
  have ascending : Text.byteLength (parts.ahead parts.first) <
      Text.byteLength (parts.ahead parts.first.other) := by
    rw [parts.ahead_first, parts.ahead_other, Text.byteLength_append, Text.byteLength_append]
    have wide : 0 < Text.byteLength parts.first.marker.toList := by
      rw [Nat.pos_iff_ne_zero, Ne, Text.byteLength_eq_zero_iff]
      exact parts.first.marker_endsOnlyWith.ne_nil
    omega
  unfold openings
  simp only [List.filterMap_cons, opening?_eq cut, List.filterMap_nil]
  cases order : parts.first with
  | macros =>
      rw [order] at ascending
      exact List.mergeSort_of_pairwise (by simpa [Slot.other] using ascending.le)
  | functions =>
      rw [order] at ascending
      have later : ¬ Text.byteLength (parts.ahead .macros) ≤
          Text.byteLength (parts.ahead .functions) := Nat.not_le.mpr ascending
      simp [List.mergeSort, List.MergeSort.Internal.splitInTwo, later, Slot.other]

/-- One slot is filled: the slice before it lies within the text, and what follows is filled
from behind its marker. -/
theorem fillFrom?_cons {source start part after : List Char} {slot : Slot}
    (split : source = start ++ part ++ slot.marker.toList ++ after) (content : Slot → List Char)
    (rest : List Opening) :
    fillFrom? source content (Text.byteLength start)
        (⟨Text.byteLength (start ++ part), slot⟩ :: rest) =
      (fillFrom? source content (Text.byteLength (start ++ part ++ slot.marker.toList)) rest).map
        (part ++ content slot ++ ·) := by
  have taken : Text.slice? (Text.byteLength start) (Text.byteLength (start ++ part)) source =
      some part := by
    refine Text.slice?_eq_some_iff.mpr ⟨start, slot.marker.toList ++ after, ?_, rfl, rfl⟩
    rw [split, List.append_assoc]
  simp only [fillFrom?, taken, Text.byteLength_append (start ++ part)]
  cases fillFrom? source content _ rest <;> rfl

theorem fillFrom?_nil {source start after : List Char} (split : source = start ++ after)
    (content : Slot → List Char) :
    fillFrom? source content (Text.byteLength start) [] = some after :=
  Text.dropBytes?_eq_some_iff.mpr ⟨start, split, rfl⟩

/-- Every slice that is taken lies within the text, and the slots are filled in their places. -/
theorem fill?_eq (cut : template.text = parts.marked) (content : Slot → List Char) :
    template.fill? content = some (parts.filled content) := by
  have first : template.text = [] ++ parts.before ++ parts.first.marker.toList ++
      (parts.between ++ parts.first.other.marker.toList ++ parts.after) := by
    simp only [cut, Parts.marked, Parts.filled, List.append_assoc, List.nil_append]
  have second : template.text = parts.before ++ parts.first.marker.toList ++ parts.between ++
      parts.first.other.marker.toList ++ parts.after := cut
  unfold fill?
  rw [openings_eq cut, parts.ahead_first, parts.ahead_other]
  calc fillFrom? template.text content (Text.byteLength [])
        [⟨Text.byteLength parts.before, parts.first⟩,
          ⟨Text.byteLength (parts.before ++ parts.first.marker.toList ++ parts.between),
            parts.first.other⟩]
      = (fillFrom? template.text content
          (Text.byteLength (parts.before ++ parts.first.marker.toList))
          [⟨Text.byteLength (parts.before ++ parts.first.marker.toList ++ parts.between),
            parts.first.other⟩]).map (parts.before ++ content parts.first ++ ·) :=
        fillFrom?_cons first content _
    _ = some (parts.before ++ content parts.first ++
          (parts.between ++ content parts.first.other ++ parts.after)) := by
        rw [fillFrom?_cons second, fillFrom?_nil second]
        rfl
    _ = some (parts.filled content) := by
        simp only [Parts.filled, List.append_assoc]

theorem checkSlot_ok_iff {slot : Slot} :
    (∃ proof, checkSlot text slot = .ok proof) ↔ Text.OccursOnce slot.marker.toList text := by
  rw [← Slot.count_eq_one_iff]
  constructor
  · rintro ⟨⟨proof⟩, _⟩
    exact proof
  · intro once
    exact ⟨⟨once⟩, dif_pos once⟩

theorem parse_ok {source : String} (parsed : parse source = .ok template) :
    template.text = source.toList := by
  obtain ⟨_, _, remaining⟩ := except_bind_ok parsed
  obtain ⟨_, _, finish⟩ := except_bind_ok remaining
  cases finish
  rfl

theorem parse_ok_iff {source : String} :
    (∃ template, parse source = .ok template) ↔
      ∀ slot : Slot, Text.OccursOnce slot.marker.toList source.toList := by
  constructor
  · rintro ⟨template, parsed⟩ slot
    rw [← parse_ok parsed]
    exact template.occursOnce slot
  · intro once
    obtain ⟨macros, one⟩ := checkSlot_ok_iff.mpr (once .macros)
    obtain ⟨functions, two⟩ := checkSlot_ok_iff.mpr (once .functions)
    unfold parse
    rw [one, two]
    exact ⟨_, rfl⟩

/-- A text is a template exactly if each marker stands in one place of it. There is then one way
to cut it at the markers, in whichever order they stand. All slices that are taken to fill the
slots exist, whatever they are filled with, and a rendered program is the text with the macros
and functions, without white space at their ends, in place of the markers. -/
theorem splices_parts (source : String) :
    ((∃ template, parse source = .ok template) ↔
      ∀ slot : Slot, Text.OccursOnce slot.marker.toList source.toList) ∧
    ∀ template, parse source = .ok template →
      template.source = source ∧
      ∃ parts : Parts, (∀ others : Parts, source.toList = others.marked ↔ others = parts) ∧
        (∀ content, template.fill? content = some (parts.filled content)) ∧
        ∀ macros functions, (template.render macros functions).toList =
          parts.filled fun
            | .macros => Text.trimEnd macros.toList
            | .functions => Text.trimEnd functions.toList := by
  refine ⟨parse_ok_iff, fun template parsed => ?_⟩
  have same := parse_ok parsed
  have once := template.occursOnce
  obtain ⟨parts, cut⟩ := exists_parts once
  refine ⟨by rw [Template.source, same, String.ofList_toList], parts, ?_, fill?_eq cut, ?_⟩
  · intro others
    rw [← same]
    constructor
    · intro also
      exact parts_unique once also cut
    · rintro rfl
      exact cut
  · intro macros functions
    rw [render, fill?_eq cut, Option.getD_some, String.toList_ofList]
    rfl

/-- Functions before macros, with wide characters around them. -/
def reversedSource : String :=
  "é // [functions]\n😀// [macros]\n// [macro"

/-- Markers in the texts that are filled in remain as they are. -/
theorem reversed_splices :
    ∃ template, parse reversedSource = .ok template ∧
      template.source = reversedSource ∧
      template.render "#define A // [functions]\n" "// [macros] \t\n" =
        "é // [macros]\n😀#define A // [functions]\n// [macro" := by
  obtain ⟨template, parsed⟩ : ∃ template, parse reversedSource = .ok template := ⟨_, by rfl⟩
  obtain ⟨kept, parts, unique, _, rendered⟩ := (splices_parts reversedSource).2 template parsed
  have cut : (⟨"é ".toList, .functions, "\n😀".toList, "\n// [macro".toList⟩ : Parts) = parts :=
    (unique _).mp (by decide +kernel)
  refine ⟨template, parsed, kept, ?_⟩
  rw [← String.toList_inj, rendered, ← cut]
  decide +kernel

end Template

end DistanceField
