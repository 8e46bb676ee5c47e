import DistanceField.Text.Lines
import Mathlib.Data.List.DropRight

/-! Removal of white space at the ends of a text, character by character. -/

namespace DistanceField.Text

theorem trimEnd_eq (text : List Char) : trimEnd text = text.rdropWhile isBlank :=
  rfl

theorem isBlankLine_cons (c : Char) (line : List Char) :
    isBlankLine (c :: line) = (isBlank c && isBlankLine line) :=
  List.all_cons

theorem isBlankLine_eq_false_iff {text : List Char} :
    isBlankLine text = false ↔ ∃ c ∈ text, isBlank c = false := by
  simp [isBlankLine]

theorem trimEnd_eq_nil_iff {line : List Char} : trimEnd line = [] ↔ isBlankLine line = true := by
  rw [trimEnd_eq, List.rdropWhile_eq_nil_iff, isBlankLine, List.all_eq_true]

theorem trimEnd_cons (c : Char) (line : List Char) :
    trimEnd (c :: line) = if isBlankLine (c :: line) then [] else c :: trimEnd line := by
  split
  · next blank => exact trimEnd_eq_nil_iff.mpr blank
  · next code =>
      rw [isBlankLine_cons] at code
      unfold trimEnd
      rw [List.reverse_cons, List.dropWhile_append]
      split
      · next ended =>
          have rest : trimEnd line = [] := by
            unfold trimEnd
            rw [List.isEmpty_iff.mp ended, List.reverse_nil]
          have solid : isBlank c = false := by simpa [trimEnd_eq_nil_iff.mp rest] using code
          simp [List.isEmpty_iff.mp ended, solid]
      · simp

/-- Lines that agree up to white space at their ends do so with a character in front. -/
theorem trimEnd_cons_congr (c : Char) {line other : List Char}
    (same : trimEnd line = trimEnd other) : trimEnd (c :: line) = trimEnd (c :: other) := by
  have blank : isBlankLine line = isBlankLine other := by
    rw [Bool.eq_iff_iff, ← trimEnd_eq_nil_iff, ← trimEnd_eq_nil_iff, same]
  rw [trimEnd_cons, trimEnd_cons, isBlankLine_cons, isBlankLine_cons, blank, same]

theorem trimStart_cons (c : Char) (line : List Char) :
    trimStart (c :: line) = if isBlank c then trimStart line else c :: line :=
  List.dropWhile_cons

theorem trim_eq (line : List Char) : trim line = trimStart (trimEnd line) := by
  unfold trim
  induction line with
  | nil => rfl
  | cons c line ih =>
      rw [trimStart_cons, trimEnd_cons]
      cases solid : isBlank c with
      | false => simp [isBlankLine_cons, solid, trimEnd_cons, trimStart_cons]
      | true =>
          rw [if_pos rfl, ih, isBlankLine_cons, solid, Bool.true_and]
          split
          · next blank => rw [trimEnd_eq_nil_iff.mpr blank]
          · rw [trimStart_cons, solid, if_pos rfl]

theorem trim_eq_nil_iff {line : List Char} : trim line = [] ↔ isBlankLine line = true := by
  unfold trim
  rw [trimEnd_eq_nil_iff]
  induction line with
  | nil => rfl
  | cons c line ih =>
      rw [trimStart_cons, isBlankLine_cons]
      cases solid : isBlank c with
      | false => simp [isBlankLine_cons, solid]
      | true => rw [if_pos rfl, ih, Bool.true_and]

theorem trim_trim (text : List Char) : trim (trim text) = trim text := by
  have start : trimStart (trim text) = trim text := by
    rw [trim_eq]
    exact List.dropWhile_idempotent isBlank _
  have finish : trimEnd (trim text) = trim text := List.rdropWhile_idempotent isBlank _
  rw [trim, start, finish]

theorem trimEnd_eq_self {text : List Char} (finish : ∀ c ∈ text.getLast?, isBlank c = false) :
    trimEnd text = text := by
  rw [trimEnd_eq, List.rdropWhile_eq_self_iff]
  intro some
  rw [finish _ (List.getLast?_eq_getLast_of_ne_nil some), Bool.not_eq_true]

/-- Nothing is removed from a text that has no white space at its ends. -/
theorem trim_eq_self {text : List Char} (start : ∀ c ∈ text.head?, isBlank c = false)
    (finish : ∀ c ∈ text.getLast?, isBlank c = false) : trim text = text := by
  have same : trimStart text = text := by
    cases text with
    | nil => rfl
    | cons c rest => rw [trimStart_cons, start c rfl, if_neg Bool.false_ne_true]
  rw [trim, same, trimEnd_eq_self finish]

end DistanceField.Text
