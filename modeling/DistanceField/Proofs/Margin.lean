import DistanceField.Proofs.Indentation
import Mathlib.Data.List.Forall2

/-! The common indentation as a margin. Setting every line of a text in by more does not change
what is left when the margin is removed. What is left is flush, and a flush text has no margin
to remove. -/

namespace DistanceField.Text

variable {text line : List Char} {all : List (List Char)}

def spaces (count : Nat) : List Char :=
  List.replicate count ' '

/-- Puts spaces in front of every line; `starts` tells whether the text is at the start of one. -/
def setInFrom (count : Nat) (starts : Bool) : List Char → List Char
  | [] => []
  | c :: rest => (if starts then spaces count else []) ++ c :: setInFrom count (c == '\n') rest

/-- The text with so many spaces in front of every line. -/
def setIn (count : Nat) (text : List Char) : List Char :=
  setInFrom count true text

/-- A character that ends no line belongs to the line that follows. -/
theorem lines_cons {c : Char} {rest : List Char} (other : c ≠ '\n')
    (inside : c = '\r' → rest.head? ≠ some '\n') (more : rest ≠ []) :
    lines (c :: rest) = (lines rest).modifyHead (c :: ·) := by
  rw [lines]
  · cases found : lines rest with
    | nil => exact absurd (lines_eq_nil_iff.mp found) more
    | cons first others => rfl
  · exact other
  · rintro _ same rfl
    exact inside same rfl

theorem lines_singleton {c : Char} (other : c ≠ '\n') : lines [c] = [[c]] := by
  rw [lines]
  · rfl
  · exact other
  · exact fun _ _ => nofun

theorem head?_setInFrom (count : Nat) (text : List Char) :
    (setInFrom count false text).head? = text.head? := by
  cases text <;> rfl

theorem lines_spaces_append (count : Nat) (more : text ≠ []) :
    lines (spaces count ++ text) = (lines text).modifyHead (spaces count ++ ·) := by
  induction count with
  | zero => exact List.modifyHead_id.symm ▸ rfl
  | succ count ih =>
      have unfolded : spaces (count + 1) ++ text = ' ' :: (spaces count ++ text) := rfl
      have solid : ' ' ≠ '\r' := by decide
      rw [unfolded, lines_cons (by decide) (fun same => absurd same solid) (by simp [more]), ih,
        List.modifyHead_modifyHead]
      rfl

theorem lines_setIn_of_inner {count : Nat}
    (inner : ∀ first others, lines text = first :: others →
      lines (setInFrom count false text) = first :: others.map (spaces count ++ ·)) :
    lines (setIn count text) = (lines text).map (spaces count ++ ·) := by
  cases text with
  | nil => rfl
  | cons c rest =>
      have split : setIn count (c :: rest) = spaces count ++ setInFrom count false (c :: rest) :=
        rfl
      cases found : lines (c :: rest) with
      | nil => exact absurd (lines_eq_nil_iff.mp found) (List.cons_ne_nil c rest)
      | cons first others =>
          have more : setInFrom count false (c :: rest) ≠ [] := List.cons_ne_nil c _
          rw [split, lines_spaces_append count more, inner first others found]
          rfl

/-- Within a line no spaces are put in front of what is left of it. -/
theorem lines_setInFrom {count : Nat} {first : List Char} {others : List (List Char)}
    (found : lines text = first :: others) :
    lines (setInFrom count false text) = first :: others.map (spaces count ++ ·) := by
  fun_induction lines text generalizing first others with
  | case1 => cases found
  | case2 rest ih =>
      cases found
      exact congrArg ([] :: ·) (lines_setIn_of_inner fun _ _ => ih)
  | case3 rest ih =>
      cases found
      exact congrArg ([] :: ·) (lines_setIn_of_inner fun _ _ => ih)
  | case4 c rest other _ ended ih =>
      cases found
      obtain rfl := lines_eq_nil_iff.mp ended
      exact lines_singleton other
  | case5 c rest other inside piece more rested ih =>
      cases found
      have line : setInFrom count false (c :: rest) = c :: setInFrom count false rest := by
        rw [setInFrom, beq_false_of_ne other]
        rfl
      -- Nothing is put between a carriage return and what follows it.
      have kept : c = '\r' → (setInFrom count false rest).head? ≠ some '\n' := by
        rw [head?_setInFrom]
        intro same starts
        obtain ⟨tail, rfl⟩ := List.head?_eq_some_iff.mp starts
        exact inside tail same rfl
      have continued := ih rested
      have goesOn : setInFrom count false rest ≠ [] := by
        intro none
        rw [none] at continued
        cases continued
      rw [line, lines_cons other kept goesOn, continued]
      rfl

theorem lines_setIn (count : Nat) (text : List Char) :
    lines (setIn count text) = (lines text).map (spaces count ++ ·) :=
  lines_setIn_of_inner fun _ _ => lines_setInFrom

theorem isBlank_of_mem_spaces {c : Char} {count : Nat} (member : c ∈ spaces count) :
    isBlank c = true := by
  obtain rfl := List.eq_of_mem_replicate member
  rfl

theorem isBlankLine_spaces_append (count : Nat) (line : List Char) :
    isBlankLine (spaces count ++ line) = isBlankLine line := by
  have blank : (spaces count).all isBlank = true :=
    List.all_eq_true.mpr fun _ => isBlank_of_mem_spaces
  rw [isBlankLine, List.all_append, blank, Bool.true_and, ← isBlankLine]

theorem byteLength_spaces (count : Nat) : byteLength (spaces count) = count := by
  rw [byteLength_of_ascii, spaces, List.length_replicate]
  intro c member
  obtain rfl := List.eq_of_mem_replicate member
  decide

theorem indentation_spaces_append (count : Nat) (line : List Char) :
    indentation (spaces count ++ line) = count + indentation line := by
  have blank : ∀ c ∈ spaces count, isBlank c = true := fun _ => isBlank_of_mem_spaces
  rw [indentation, List.takeWhile_append_of_pos blank, byteLength_append, byteLength_spaces,
    ← indentation]

theorem dropBytes?_append (before : List Char) (count : Nat) (line : List Char) :
    dropBytes? (byteLength before + count) (before ++ line) = dropBytes? count line := by
  induction before with
  | nil => rw [byteLength, Nat.zero_add, List.nil_append]
  | cons c before ih =>
      have wide := c.utf8Size_pos
      obtain ⟨total, length⟩ : ∃ total, byteLength (c :: before) + count = total + 1 :=
        Nat.exists_eq_succ_of_ne_zero (by rw [byteLength]; omega)
      have left : total + 1 - c.utf8Size = byteLength before + count := by
        rw [← length, byteLength]
        omega
      have fits : c.utf8Size ≤ total + 1 := by
        rw [← length, byteLength]
        omega
      rw [length, List.cons_append, dropBytes?, if_pos fits, left, ih]

theorem cut_zero (line : List Char) : cut 0 line = trimEnd line := by
  rw [cut, dropBytes?, Option.getD_some]

theorem cut_spaces_append (count more : Nat) (line : List Char) :
    cut (count + more) (spaces count ++ line) = cut more line := by
  have dropped := dropBytes?_append (spaces count) more line
  rw [byteLength_spaces] at dropped
  rw [cut, dropped, ← cut]

theorem stripBlankLines_map {change : List Char → List Char}
    (same : ∀ line, isBlankLine (change line) = isBlankLine line) (all : List (List Char)) :
    stripBlankLines (all.map change) = (stripBlankLines all).map change := by
  have unchanged : isBlankLine ∘ change = isBlankLine := funext same
  rw [stripBlankLines, List.dropWhile_map, ← List.map_reverse, List.dropWhile_map,
    ← List.map_reverse, unchanged, ← stripBlankLines]

theorem isBlankLine_of_head?_stripBlankLines {first : List Char}
    (found : (stripBlankLines all).head? = some first) : isBlankLine first = false := by
  obtain ⟨rest, split⟩ := List.rdropWhile_prefix isBlankLine (all.dropWhile isBlankLine)
  have starts : (all.dropWhile isBlankLine).head? = some first := by
    rw [← split, List.head?_append]
    exact congrArg (Option.or · rest.head?) found
  have solid := List.head?_dropWhile_not isBlankLine all
  rw [starts] at solid
  exact solid

theorem isBlankLine_of_getLast?_stripBlankLines {last : List Char}
    (found : (stripBlankLines all).getLast? = some last) : isBlankLine last = false := by
  rw [stripBlankLines, List.getLast?_reverse] at found
  have solid := List.head?_dropWhile_not isBlankLine (all.dropWhile isBlankLine).reverse
  rw [found] at solid
  exact solid

theorem exists_code_of_stripBlankLines (kept : stripBlankLines all ≠ []) :
    ∃ line ∈ all, isBlankLine line = false := by
  have found := List.head?_eq_some_head kept
  exact ⟨_, mem_of_mem_stripBlankLines (List.mem_of_head? found),
    isBlankLine_of_head?_stripBlankLines found⟩

/-- Some line is set in by no more than what all have in common. -/
theorem exists_commonIndentation (code : ∃ line ∈ all, isBlankLine line = false) :
    ∃ line ∈ all, isBlankLine line = false ∧ indentation line = commonIndentation all := by
  obtain ⟨line, member, solid⟩ := code
  have counted : line ∈ all.filter (!isBlankLine ·) := List.mem_filter.mpr ⟨member, by simp [solid]⟩
  cases least : ((all.filter (!isBlankLine ·)).map indentation).min? with
  | none =>
      have none := List.map_eq_nil_iff.mp (List.min?_eq_none_iff.mp least)
      rw [none] at counted
      cases counted
  | some width =>
      obtain ⟨narrow, among, rfl⟩ := List.mem_map.mp (List.min?_eq_some_iff.mp least).1
      obtain ⟨inside, written⟩ := List.mem_filter.mp among
      exact ⟨narrow, inside, by simpa using written, by rw [commonIndentation, least]; rfl⟩

theorem commonIndentation_map_spaces (count : Nat)
    (code : ∃ line ∈ all, isBlankLine line = false) :
    commonIndentation (all.map (spaces count ++ ·)) = count + commonIndentation all := by
  apply Nat.le_antisymm
  · obtain ⟨line, member, solid, least⟩ := exists_commonIndentation code
    rw [← least, ← indentation_spaces_append]
    exact commonIndentation_le (List.mem_map_of_mem member)
      ((isBlankLine_spaces_append count line).trans solid)
  · obtain ⟨line, member, solid⟩ := code
    have moved : ∃ line ∈ all.map (spaces count ++ ·), isBlankLine line = false :=
      ⟨_, List.mem_map_of_mem member, (isBlankLine_spaces_append count line).trans solid⟩
    obtain ⟨_, among, written, least⟩ := exists_commonIndentation moved
    obtain ⟨old, inside, rfl⟩ := List.mem_map.mp among
    rw [isBlankLine_spaces_append] at written
    rw [← least, indentation_spaces_append]
    exact Nat.add_le_add_left (commonIndentation_le inside written) count

/-- The same is left of lines that are all set in by more. -/
theorem dedentLines_map_spaces (count : Nat) (all : List (List Char)) :
    dedentLines (all.map (spaces count ++ ·)) = dedentLines all := by
  rw [dedentLines_eq, dedentLines_eq, stripBlankLines_map (isBlankLine_spaces_append count)]
  -- Without a line of code there is no least indentation, but nothing is left to cut either.
  by_cases none : stripBlankLines all = []
  · rw [none]
    rfl
  · rw [commonIndentation_map_spaces count (exists_code_of_stripBlankLines none), List.map_map]
    exact List.map_congr_left fun line _ => cut_spaces_append count _ line

theorem dedent_setIn (count : Nat) (text : List Char) :
    dedent (setIn count text) = dedent text := by
  rw [dedent, lines_setIn, dedentLines_map_spaces, ← dedent]

/-- Lines of which neither the first nor the last is blank, one starts without white space and
none ends with it. -/
structure Flush (all : List (List Char)) : Prop where
  starts : ∃ first ∈ all.head?, isBlankLine first = false
  ends : ∃ last ∈ all.getLast?, isBlankLine last = false
  margin : ∃ line ∈ all, ∃ c ∈ line.head?, isBlank c = false
  trimmed : ∀ line ∈ all, ∀ c ∈ line.getLast?, isBlank c = false

namespace Flush

theorem stripBlankLines_eq (flush : Flush all) : stripBlankLines all = all := by
  obtain ⟨first, starts, code⟩ := flush.starts
  obtain ⟨last, ends, also⟩ := flush.ends
  have front : all.dropWhile isBlankLine = all := by
    obtain ⟨rest, rfl⟩ := List.head?_eq_some_iff.mp starts
    rw [List.dropWhile_cons_of_neg (by simp [code])]
  have back : all.reverse.dropWhile isBlankLine = all.reverse := by
    obtain ⟨rest, rfl⟩ := List.getLast?_eq_some_iff.mp ends
    rw [List.reverse_append, List.reverse_singleton, List.singleton_append,
      List.dropWhile_cons_of_neg (by simp [also])]
  rw [stripBlankLines, front, back, List.reverse_reverse]

theorem commonIndentation_eq (flush : Flush all) : commonIndentation all = 0 := by
  obtain ⟨line, member, c, starts, solid⟩ := flush.margin
  obtain ⟨rest, rfl⟩ := List.head?_eq_some_iff.mp starts
  have code : isBlankLine (c :: rest) = false := by rw [isBlankLine_cons, solid, Bool.false_and]
  have none : indentation (c :: rest) = 0 := by
    rw [indentation, List.takeWhile_cons_of_neg (by simp [solid]), byteLength]
  exact Nat.le_zero.mp (none ▸ commonIndentation_le member code)

/-- Flush lines have nothing to remove. -/
theorem dedentLines_eq (flush : Flush all) : dedentLines all = all := by
  rw [Text.dedentLines_eq, flush.stripBlankLines_eq, flush.commonIndentation_eq]
  refine (List.map_congr_left fun line member => ?_).trans (List.map_id all)
  rw [cut_zero, trimEnd_eq_self (flush.trimmed line member), id]

end Flush

/-- A line feed ends the line before it, unless a carriage return does. -/
theorem lines_append_newline (single : '\n' ∉ line) (solid : line.getLast? ≠ some '\r')
    (rest : List Char) : lines (line ++ '\n' :: rest) = line :: lines rest := by
  induction line with
  | nil => rfl
  | cons c line ih =>
      have other := List.ne_of_not_mem_cons single
      have below := List.not_mem_of_not_mem_cons single
      have inside : c = '\r' → (line ++ '\n' :: rest).head? ≠ some '\n' := by
        rintro rfl starts
        cases line with
        | nil => exact solid rfl
        | cons d line => exact below (by cases starts; exact List.mem_cons_self)
      have onwards : line.getLast? ≠ some '\r' := by
        intro finish
        exact solid (by rw [List.getLast?_cons, finish]; rfl)
      rw [List.cons_append, lines_cons (Ne.symm other) inside (by simp), ih below onwards]
      rfl

theorem lines_of_line (single : '\n' ∉ line) (more : line ≠ []) : lines line = [line] := by
  induction line with
  | nil => exact absurd rfl more
  | cons c line ih =>
      have other := List.ne_of_not_mem_cons single
      have below := List.not_mem_of_not_mem_cons single
      by_cases ended : line = []
      · rw [ended, lines_singleton (Ne.symm other)]
      · have inside : c = '\r' → line.head? ≠ some '\n' := by
          intro _ starts
          exact below (List.mem_of_head? starts)
        rw [lines_cons (Ne.symm other) inside ended, ih below ended]
        rfl

/-- Joined lines are found again if none of them ends with a carriage return and the last is not
empty. -/
theorem lines_joinLines (single : ∀ line ∈ all, '\n' ∉ line)
    (solid : ∀ line ∈ all, line.getLast? ≠ some '\r') (last : all.getLast? ≠ some []) :
    lines (joinLines all) = all := by
  induction all with
  | nil => rfl
  | cons line rest ih =>
      obtain ⟨this, others⟩ := List.forall_mem_cons.mp single
      obtain ⟨ended, ends⟩ := List.forall_mem_cons.mp solid
      cases rest with
      | nil =>
          rw [joinLines, List.intercalate_singleton]
          exact lines_of_line this fun none => last (by rw [none]; rfl)
      | cons next more =>
          have joined : joinLines (line :: next :: more) =
              line ++ '\n' :: joinLines (next :: more) := by
            rw [joinLines, List.intercalate_cons_cons, List.append_assoc]
            rfl
          rw [joined, lines_append_newline this ended, ih others ends]
          rwa [List.getLast?_cons_cons] at last

theorem Flush.lines_joinLines (flush : Flush all) (single : ∀ line ∈ all, '\n' ∉ line) :
    lines (joinLines all) = all := by
  refine Text.lines_joinLines single (fun line member finish => ?_) fun ended => ?_
  · exact absurd (flush.trimmed line member '\r' finish) (by decide)
  · obtain ⟨last, ends, code⟩ := flush.ends
    cases ended.symm.trans ends
    cases code

theorem Flush.dedent_joinLines (flush : Flush all) (single : ∀ line ∈ all, '\n' ∉ line) :
    dedent (joinLines all) = joinLines all := by
  rw [dedent, flush.lines_joinLines single, flush.dedentLines_eq]

theorem isBlankLine_append (before rest : List Char) :
    isBlankLine (before ++ rest) = (isBlankLine before && isBlankLine rest) :=
  List.all_append

theorem trimEnd_append {before rest : List Char} (code : isBlankLine rest = false) :
    trimEnd (before ++ rest) = before ++ trimEnd rest := by
  induction before with
  | nil => rfl
  | cons c before ih =>
      have solid : isBlankLine (c :: (before ++ rest)) = false := by
        rw [isBlankLine_cons, isBlankLine_append, code, Bool.and_false, Bool.and_false]
      rw [List.cons_append, trimEnd_cons, solid, if_neg Bool.false_ne_true, ih, List.cons_append]

theorem isBlankLine_trimEnd (line : List Char) : isBlankLine (trimEnd line) = isBlankLine line := by
  rw [Bool.eq_iff_iff, ← trimEnd_eq_nil_iff, ← trimEnd_eq_nil_iff, trimEnd_eq, trimEnd_eq,
    List.rdropWhile_idempotent]

/-- What is left of a line of code when a margin of so many bytes has been removed. -/
def Unindented (width : Nat) (line left : List Char) : Prop :=
  ∃ margin, isBlankLine margin = true ∧ byteLength margin = width ∧ trimEnd line = margin ++ left

theorem unindented_cut {count : Nat} (clean : CutsCleanly count line)
    (code : isBlankLine line = false) (short : count ≤ indentation line) :
    Unindented count line (cut count line) ∧ isBlankLine (cut count line) = false := by
  obtain ⟨before, rest, rfl, length⟩ := clean
  have blank := isBlankLine_of_le_indentation (length.trans_le short)
  have solid : isBlankLine rest = false := by
    rwa [isBlankLine_append, blank, Bool.true_and] at code
  have left : cut count (before ++ rest) = trimEnd rest := by
    rw [cut, dropBytes?_eq_some_iff.mpr ⟨before, rfl, length⟩, Option.getD_some]
  rw [left, isBlankLine_trimEnd]
  exact ⟨⟨before, blank, length, trimEnd_append solid⟩, solid⟩

/-- A line that is set in by no more than the margin starts without white space afterwards. -/
theorem head?_cut_indentation (code : isBlankLine line = false) :
    ∃ c ∈ (cut (indentation line) line).head?, isBlank c = false := by
  have split : line = line.takeWhile isBlank ++ line.dropWhile isBlank :=
    List.takeWhile_append_dropWhile.symm
  have left : cut (indentation line) line = trimEnd (line.dropWhile isBlank) := by
    rw [cut, indentation, dropBytes?_eq_some_iff.mpr ⟨_, split, rfl⟩, Option.getD_some]
  have start := List.head?_dropWhile_not isBlank line
  cases rest : line.dropWhile isBlank with
  | nil =>
      rw [rest, List.append_nil] at split
      rw [split] at code
      exact absurd code (by simp [isBlankLine, List.all_takeWhile])
  | cons c more =>
      rw [rest] at start
      have solid : isBlank c = false := start
      have stays : isBlankLine (c :: more) = false := by
        rw [isBlankLine_cons, solid, Bool.false_and]
      rw [left, rest, trimEnd_cons, stays]
      exact ⟨c, rfl, solid⟩

theorem isBlankLine_cut_of_blank (count : Nat) (blank : isBlankLine line = true) :
    isBlankLine (cut count line) = true :=
  List.all_eq_true.mpr fun c member => List.all_eq_true.mp blank c (mem_of_mem_cut member)

theorem isBlank_of_getLast?_trimEnd {c : Char} (finish : (trimEnd line).getLast? = some c) :
    isBlank c = false := by
  rw [trimEnd, List.getLast?_reverse] at finish
  have solid := List.head?_dropWhile_not isBlank line.reverse
  rw [finish] at solid
  exact solid

section

variable (clean : ∀ line ∈ all, isBlankLine line = false → CutsCleanly (commonIndentation all) line)

include clean

theorem isBlankLine_cut (member : line ∈ all) :
    isBlankLine (cut (commonIndentation all) line) = isBlankLine line := by
  cases code : isBlankLine line with
  | true => exact isBlankLine_cut_of_blank _ code
  | false =>
      have short := commonIndentation_le member code
      exact (unindented_cut (clean line member code) code short).2

/-- Lines that the margin leaves whole are flush without it. -/
theorem flush_dedentLines (some : dedentLines all ≠ []) : Flush (dedentLines all) := by
  have kept : stripBlankLines all ≠ [] := by
    intro none
    rw [dedentLines_eq, none] at some
    exact some rfl
  have same : ∀ line ∈ stripBlankLines all,
      isBlankLine (cut (commonIndentation all) line) = isBlankLine line :=
    fun line member => isBlankLine_cut clean (mem_of_mem_stripBlankLines member)
  rw [dedentLines_eq]
  constructor
  · have first := List.head?_eq_some_head kept
    rw [List.head?_map, first]
    exact ⟨_, rfl, (same _ (List.mem_of_head? first)).trans
      (isBlankLine_of_head?_stripBlankLines first)⟩
  · have last := List.getLast?_eq_getLast_of_ne_nil kept
    rw [List.getLast?_map, last]
    exact ⟨_, rfl, (same _ (List.mem_of_getLast? last)).trans
      (isBlankLine_of_getLast?_stripBlankLines last)⟩
  · -- The line that is set in least starts where the margin ends.
    have remaining : ∃ line ∈ stripBlankLines all, isBlankLine line = false :=
      ⟨_, List.head_mem kept, isBlankLine_of_head?_stripBlankLines (List.head?_eq_some_head kept)⟩
    obtain ⟨line, member, code, least⟩ := exists_commonIndentation remaining
    rw [commonIndentation_stripBlankLines] at least
    refine ⟨_, List.mem_map_of_mem member, ?_⟩
    rw [← least]
    exact head?_cut_indentation code
  · intro line member c finish
    obtain ⟨old, _, rfl⟩ := List.mem_map.mp member
    exact isBlank_of_getLast?_trimEnd finish

/-- The lines of code remain, each without the margin. -/
theorem code_dedentLines :
    (dedentLines all).filter (!isBlankLine ·) =
      (all.filter (!isBlankLine ·)).map (cut (commonIndentation all)) := by
  rw [dedentLines_eq, List.filter_map, ← filter_stripBlankLines]
  refine congrArg _ (List.filter_congr fun line member => ?_)
  rw [Function.comp, isBlankLine_cut clean (mem_of_mem_stripBlankLines member)]

theorem unindented_dedentLines :
    List.Forall₂ (Unindented (commonIndentation all)) (all.filter (!isBlankLine ·))
      ((dedentLines all).filter (!isBlankLine ·)) := by
  rw [code_dedentLines clean, List.forall₂_map_right_iff, List.forall₂_same]
  intro line member
  obtain ⟨inside, code⟩ := List.mem_filter.mp member
  have solid : isBlankLine line = false := by simpa using code
  exact (unindented_cut (clean line inside solid) solid (commonIndentation_le inside solid)).1

end

theorem AsciiIndented.clean (ascii : AsciiIndented text) :
    ∀ line ∈ lines text, isBlankLine line = false →
      CutsCleanly (commonIndentation (lines text)) line :=
  fun line member code =>
    cutsCleanly_of_ascii (ascii line member) (commonIndentation_le member code)

/-- However far all the lines of a text are set in, the same is left of it. If they are set in by
ASCII characters, every line of code loses the common indentation, besides white space at its
end; what is left, if anything, is flush, and nothing is removed from it again. -/
theorem dedent_removes_margin (text : List Char) :
    (∀ count, dedent (setIn count text) = dedent text) ∧
    (AsciiIndented text →
      dedent (dedent text) = dedent text ∧
      (dedent text ≠ [] → Flush ((dedent text).splitOn '\n')) ∧
      List.Forall₂ (Unindented (commonIndentation (lines text)))
        ((lines text).filter (!isBlankLine ·))
        (((dedent text).splitOn '\n').filter (!isBlankLine ·))) := by
  refine ⟨fun count => dedent_setIn count text, fun ascii => ?_⟩
  have unindented := unindented_dedentLines ascii.clean
  by_cases none : dedentLines (lines text) = []
  · have empty : dedent text = [] := by
      rw [dedent, none]
      rfl
    rw [none] at unindented
    rw [empty]
    exact ⟨rfl, fun some => absurd rfl some, unindented⟩
  · have flush := flush_dedentLines ascii.clean none
    have pieces : (dedent text).splitOn '\n' = dedentLines (lines text) :=
      List.splitOn_intercalate '\n' newline_not_mem_dedentLines none
    rw [pieces]
    exact ⟨flush.dedent_joinLines newline_not_mem_dedentLines, fun _ => flush, unindented⟩

/-- Lines behind a tab and spaces, with line ends of both kinds, a line that is shorter than the
margin and a wide space at the end of another. -/
def staggered : List Char :=
  "\r\n\t  vec3 q = abs(p);\u3000\r\n \n\t    return length(q);\n\n".toList

theorem staggered_removes_margin :
    AsciiIndented staggered ∧
    dedent (setIn 3 staggered) = "vec3 q = abs(p);\n\n  return length(q);".toList ∧
    dedent (dedent staggered) = dedent staggered ∧
    Flush ((dedent staggered).splitOn '\n') ∧
    List.Forall₂ (Unindented 3)
      ["\t  vec3 q = abs(p);\u3000".toList, "\t    return length(q);".toList]
      ["vec3 q = abs(p);".toList, "  return length(q);".toList] := by
  have ascii : AsciiIndented staggered := by decide +kernel
  have left : dedent staggered = "vec3 q = abs(p);\n\n  return length(q);".toList := by
    decide +kernel
  have code : (lines staggered).filter (!isBlankLine ·) =
      ["\t  vec3 q = abs(p);\u3000".toList, "\t    return length(q);".toList] := by
    decide +kernel
  have width : commonIndentation (lines staggered) = 3 := by decide +kernel
  have kept : ((dedent staggered).splitOn '\n').filter (!isBlankLine ·) =
      ["vec3 q = abs(p);".toList, "  return length(q);".toList] := by
    decide +kernel
  obtain ⟨shifted, removed⟩ := dedent_removes_margin staggered
  obtain ⟨again, flush, unindented⟩ := removed ascii
  rw [code, width, kept] at unindented
  exact ⟨ascii, (shifted 3).trans left, again, flush (by rw [left]; decide +kernel), unindented⟩

end DistanceField.Text
