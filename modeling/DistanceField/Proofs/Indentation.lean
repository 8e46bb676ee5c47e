import DistanceField.Evaluation
import DistanceField.Proofs.Blank

/-! What is left of the lines of a body when their common indentation is removed. The
indentation is counted in bytes, so it may end within a character of a line that is set in by
other white space; such a line is lost, and no other line of code is. -/

namespace DistanceField

namespace Text

/-- The lines that are not blank, without the white space around them. -/
def codeOf (lines : List (List Char)) : List (List Char) :=
  (lines.filter (!isBlankLine ·)).map trim

/-- The code of a text, line by line. -/
def codeLines (text : List Char) : List (List Char) :=
  codeOf (lines text)

theorem codeOf_append (lines more : List (List Char)) :
    codeOf (lines ++ more) = codeOf lines ++ codeOf more := by
  simp [codeOf]

/-- White space at the ends of lines is no code. -/
theorem codeOf_eq (lines : List (List Char)) :
    codeOf lines = ((lines.map trimEnd).filter (!List.isEmpty ·)).map trimStart := by
  induction lines with
  | nil => rfl
  | cons line rest ih =>
      have blank : (trimEnd line).isEmpty = isBlankLine line := by
        rw [Bool.eq_iff_iff, List.isEmpty_iff, trimEnd_eq_nil_iff]
      unfold codeOf at ih ⊢
      rw [List.map_cons, List.filter_cons, List.filter_cons, blank]
      split
      · rw [List.map_cons, List.map_cons, ih, trim_eq]
      · exact ih

theorem lines_eq_nil_iff {text : List Char} : lines text = [] ↔ text = [] := by
  fun_cases lines text <;> simp_all

theorem splitOn_newline_cons {c : Char} (other : c ≠ '\n') (text : List Char) :
    (c :: text).splitOn '\n' = (text.splitOn '\n').modifyHead (c :: ·) := by
  rw [List.splitOn_cons_eq_if_modifyHead, if_neg (by simpa using other)]

theorem splitOn_newline_self (text : List Char) :
    ('\n' :: text).splitOn '\n' = [] :: text.splitOn '\n' := by
  rw [List.splitOn_cons_eq_if_modifyHead, if_pos (by decide)]

/-- Up to white space at their ends, the lines are what stands between the line feeds, but
that nothing is no last line. -/
theorem splitOn_newline (text : List Char) :
    ∃ last, (last = [] ∨ last = [[]]) ∧
      (text.splitOn '\n').map trimEnd = (lines text).map trimEnd ++ last := by
  fun_induction lines text with
  | case1 => exact ⟨[[]], .inr rfl, rfl⟩
  | case2 rest ih =>
      obtain ⟨last, ends, same⟩ := ih
      refine ⟨last, ends, ?_⟩
      rw [splitOn_newline_self, List.map_cons, same]
      rfl
  | case3 rest ih =>
      obtain ⟨last, ends, same⟩ := ih
      refine ⟨last, ends, ?_⟩
      rw [splitOn_newline_cons (by decide), splitOn_newline_self, List.modifyHead_cons,
        List.map_cons, same]
      rfl
  | case4 c rest other _ ended ih =>
      obtain rfl := lines_eq_nil_iff.mp ended
      exact ⟨[], .inl rfl, by rw [splitOn_newline_cons other]; rfl⟩
  | case5 c rest other _ first more found ih =>
      obtain ⟨last, ends, same⟩ := ih
      rw [found] at same
      cases pieces : rest.splitOn '\n' with
      | nil => exact absurd pieces (List.splitOn_ne_nil '\n' rest)
      | cons piece further =>
          rw [pieces, List.map_cons, List.map_cons, List.cons_append, List.cons.injEq] at same
          refine ⟨last, ends, ?_⟩
          rw [splitOn_newline_cons other, pieces, List.modifyHead_cons, List.map_cons,
            List.map_cons, List.cons_append, trimEnd_cons_congr c same.1, same.2]

/-- The code of a text is what stands between its line feeds. -/
theorem codeLines_eq (text : List Char) : codeLines text = codeOf (text.splitOn '\n') := by
  obtain ⟨last, ends, same⟩ := splitOn_newline text
  have nothing : (last.filter (!List.isEmpty ·)).map trimStart = [] := by
    rcases ends with rfl | rfl <;> rfl
  rw [codeLines, codeOf_eq, codeOf_eq, same, List.filter_append, List.map_append, nothing,
    List.append_nil]

theorem codeLines_newline (text more : List Char) :
    codeLines (text ++ '\n' :: more) = codeLines text ++ codeLines more := by
  rw [codeLines_eq, codeLines_eq, codeLines_eq, List.splitOn_append_cons_self, codeOf_append]

theorem codeLines_of_line {line : List Char} (single : '\n' ∉ line) :
    codeLines line = codeOf [line] := by
  rw [codeLines_eq, List.splitOn_eq_singleton single]

theorem codeLines_joinLines {lines : List (List Char)} (single : ∀ line ∈ lines, '\n' ∉ line) :
    codeLines (joinLines lines) = codeOf lines := by
  cases lines with
  | nil => rfl
  | cons line rest =>
      rw [codeLines_eq, joinLines, List.splitOn_intercalate]
      · exact single
      · exact List.cons_ne_nil line rest

theorem newline_not_mem_lines {text line : List Char} (member : line ∈ lines text) :
    '\n' ∉ line := by
  fun_induction lines text generalizing line with
  | case1 => cases member
  | case2 rest ih =>
      rcases List.mem_cons.mp member with rfl | member
      · exact List.not_mem_nil
      · exact ih member
  | case3 rest ih =>
      rcases List.mem_cons.mp member with rfl | member
      · exact List.not_mem_nil
      · exact ih member
  | case4 c rest other _ ended ih =>
      obtain rfl := List.mem_singleton.mp member
      simpa using Ne.symm other
  | case5 c rest other _ first more found ih =>
      rw [found] at ih
      rcases List.mem_cons.mp member with rfl | member
      · have below := ih List.mem_cons_self
        simpa [below] using Ne.symm other
      · exact ih (List.mem_cons_of_mem first member)

theorem byteLength_append (text more : List Char) :
    byteLength (text ++ more) = byteLength text + byteLength more := by
  induction text with
  | nil => simp [byteLength]
  | cons c rest ih => simp [byteLength, ih, Nat.add_assoc]

theorem byteLength_eq_zero_iff {text : List Char} : byteLength text = 0 ↔ text = [] := by
  cases text with
  | nil => simp [byteLength]
  | cons c rest =>
      have wide := c.utf8Size_pos
      simp only [byteLength, reduceCtorEq, iff_false]
      omega

/-- The first bytes can be dropped exactly if they are whole characters. -/
theorem dropBytes?_eq_some_iff {count : Nat} {text rest : List Char} :
    dropBytes? count text = some rest ↔
      ∃ before, text = before ++ rest ∧ byteLength before = count := by
  fun_induction dropBytes? count text with
  | case1 text => simp [byteLength_eq_zero_iff]
  | case2 count => simp [byteLength]
  | case3 count c text fits ih =>
      rw [ih]
      clear ih
      constructor
      · rintro ⟨before, rfl, length⟩
        exact ⟨c :: before, rfl, by simp only [byteLength]; omega⟩
      · rintro ⟨before, split, length⟩
        cases before with
        | nil => cases length
        | cons first before =>
            obtain ⟨rfl, rfl⟩ := List.cons.inj split
            exact ⟨before, rfl, by simp only [byteLength] at length; omega⟩
  | case4 count c text wide =>
      refine ⟨nofun, ?_⟩
      rintro ⟨before, split, length⟩
      cases before with
      | nil => cases length
      | cons first before =>
          obtain ⟨rfl, rfl⟩ := List.cons.inj split
          simp only [byteLength] at length
          omega

theorem trimStart_append_of_blank {before : List Char} (blank : isBlankLine before = true)
    (rest : List Char) : trimStart (before ++ rest) = trimStart rest := by
  unfold trimStart
  rw [List.dropWhile_append_of_pos]
  exact List.all_eq_true.mp blank

/-- What is not more than the indentation of a line is white space. -/
theorem isBlankLine_of_le_indentation {before rest : List Char}
    (short : byteLength before ≤ indentation (before ++ rest)) : isBlankLine before = true := by
  have leading : (before ++ rest).takeWhile isBlank <+: before ++ rest := List.takeWhile_prefix _
  have blank := List.all_takeWhile (p := isBlank) (l := before ++ rest)
  rcases List.prefix_or_prefix_of_prefix leading (List.prefix_append before rest) with
    ⟨more, cut⟩ | ⟨more, cut⟩
  · -- Otherwise the white space at the start is all of it.
    have length := congrArg byteLength cut
    rw [byteLength_append] at length
    unfold indentation at short
    have none : more = [] := byteLength_eq_zero_iff.mp (by omega)
    rw [none, List.append_nil] at cut
    rw [← cut]
    exact blank
  · rw [← cut, List.all_append, Bool.and_eq_true] at blank
    exact blank.1

theorem commonIndentation_le {lines : List (List Char)} {line : List Char} (member : line ∈ lines)
    (code : isBlankLine line = false) : commonIndentation lines ≤ indentation line := by
  have counted : indentation line ∈ (lines.filter (!isBlankLine ·)).map indentation :=
    List.mem_map_of_mem (List.mem_filter.mpr ⟨member, by simp [code]⟩)
  unfold commonIndentation
  cases least : ((lines.filter (!isBlankLine ·)).map indentation).min? with
  | none => simp
  | some width => exact (List.min?_eq_some_iff.mp least).2 _ counted

/-- The first bytes of a line, so many of them, are whole characters. -/
def CutsCleanly (count : Nat) (line : List Char) : Prop :=
  ∃ before rest, line = before ++ rest ∧ byteLength before = count

theorem cutsCleanly_iff {count : Nat} {line : List Char} :
    CutsCleanly count line ↔ (dropBytes? count line).isSome = true := by
  rw [Option.isSome_iff_exists, CutsCleanly, exists_comm]
  simp only [dropBytes?_eq_some_iff]

instance (count : Nat) (line : List Char) : Decidable (CutsCleanly count line) :=
  decidable_of_iff _ cutsCleanly_iff.symm

/-- Every line is set in by ASCII characters only. -/
def AsciiIndented (text : List Char) : Prop :=
  ∀ line ∈ lines text, ∀ c ∈ line.takeWhile isBlank, c.val ≤ 127

theorem asciiIndented_iff {text : List Char} :
    AsciiIndented text ↔
      ((lines text).all fun line => (line.takeWhile isBlank).all (·.val ≤ 127)) = true := by
  simp only [AsciiIndented, List.all_eq_true, decide_eq_true_eq]

instance (text : List Char) : Decidable (AsciiIndented text) :=
  decidable_of_iff _ asciiIndented_iff.symm

theorem byteLength_of_ascii {text : List Char} (ascii : ∀ c ∈ text, c.val ≤ 127) :
    byteLength text = text.length := by
  induction text with
  | nil => rfl
  | cons c rest ih =>
      have others := ih fun d member => ascii d (List.mem_cons_of_mem c member)
      rw [byteLength, others, Char.utf8Size_eq_one_iff.mpr (ascii c List.mem_cons_self),
        List.length_cons, Nat.add_comm]

/-- Between single bytes any indentation ends between two characters. -/
theorem cutsCleanly_of_ascii {count : Nat} {line : List Char}
    (ascii : ∀ c ∈ line.takeWhile isBlank, c.val ≤ 127) (short : count ≤ indentation line) :
    CutsCleanly count line := by
  refine ⟨(line.takeWhile isBlank).take count,
    (line.takeWhile isBlank).drop count ++ line.dropWhile isBlank, ?_, ?_⟩
  · rw [← List.append_assoc, List.take_append_drop, List.takeWhile_append_dropWhile]
  · rw [byteLength_of_ascii fun c member => ascii c (List.mem_of_mem_take member),
      List.length_take]
    rw [indentation, byteLength_of_ascii ascii] at short
    exact Nat.min_eq_left short

/-- What becomes of a line when some bytes at its start are removed. -/
def cut (count : Nat) (line : List Char) : List Char :=
  trimEnd ((dropBytes? count line).getD [])

/-- White space in front of a line is no code. -/
theorem codeOf_append_of_blank {before : List Char} (blank : isBlankLine before = true)
    (rest : List Char) : codeOf [before ++ rest] = codeOf [rest] := by
  have same : isBlankLine (before ++ rest) = isBlankLine rest := by
    unfold isBlankLine at blank ⊢
    rw [List.all_append, blank, Bool.true_and]
  have trimmed : trim (before ++ rest) = trim rest := by
    unfold trim
    rw [trimStart_append_of_blank blank]
  unfold codeOf
  rw [List.filter_cons, List.filter_cons, same]
  split
  · rw [List.map_cons, List.map_cons, trimmed]
  · rfl

theorem codeOf_trimEnd (line : List Char) : codeOf [trimEnd line] = codeOf [line] := by
  rw [codeOf_eq, codeOf_eq, List.map_singleton, List.map_singleton, trimEnd_eq, trimEnd_eq,
    List.rdropWhile_idempotent]

/-- A line of code remains as it is, white space apart, or is lost altogether. -/
theorem codeOf_cut {count : Nat} {line : List Char}
    (short : isBlankLine line = false → count ≤ indentation line) :
    codeOf [cut count line] = if CutsCleanly count line then codeOf [line] else [] := by
  cases dropped : dropBytes? count line with
  | none =>
      have unclean : ¬ CutsCleanly count line := by simp [cutsCleanly_iff, dropped]
      rw [if_neg unclean, cut, dropped]
      rfl
  | some rest =>
      have clean : CutsCleanly count line := by simp [cutsCleanly_iff, dropped]
      obtain ⟨before, rfl, length⟩ := dropBytes?_eq_some_iff.mp dropped
      rw [if_pos clean, cut, dropped, Option.getD_some, codeOf_trimEnd]
      have blank : isBlankLine before = true := by
        cases code : isBlankLine (before ++ rest) with
        | false => exact isBlankLine_of_le_indentation (length.trans_le (short code))
        | true =>
            rw [isBlankLine, List.all_append, Bool.and_eq_true] at code
            exact code.1
      rw [codeOf_append_of_blank blank]

theorem codeOf_map_cut {count : Nat} {lines : List (List Char)}
    (short : ∀ line ∈ lines, isBlankLine line = false → count ≤ indentation line) :
    codeOf (lines.map (cut count)) = codeOf (lines.filter (CutsCleanly count ·)) := by
  induction lines with
  | nil => rfl
  | cons line rest ih =>
      have others := ih fun other member => short other (List.mem_cons_of_mem line member)
      have this := codeOf_cut (short line List.mem_cons_self)
      rw [List.map_cons, ← List.singleton_append, codeOf_append, others, this, List.filter_cons]
      by_cases clean : CutsCleanly count line
      · simp only [clean, if_true, decide_true]
        rw [← codeOf_append, List.singleton_append]
      · simp [clean]

theorem filter_dropWhile_blank (lines : List (List Char)) :
    (lines.dropWhile isBlankLine).filter (!isBlankLine ·) = lines.filter (!isBlankLine ·) := by
  induction lines with
  | nil => rfl
  | cons line rest ih =>
      rw [List.dropWhile_cons]
      split
      · next blank => rw [ih, List.filter_cons, blank]; rfl
      · rfl

theorem filter_stripBlankLines (lines : List (List Char)) :
    (stripBlankLines lines).filter (!isBlankLine ·) = lines.filter (!isBlankLine ·) := by
  unfold stripBlankLines
  rw [List.filter_reverse, filter_dropWhile_blank, List.filter_reverse, List.reverse_reverse,
    filter_dropWhile_blank]

theorem commonIndentation_stripBlankLines (lines : List (List Char)) :
    commonIndentation (stripBlankLines lines) = commonIndentation lines := by
  unfold commonIndentation
  rw [filter_stripBlankLines]

theorem codeOf_filter_stripBlankLines (keeps : List Char → Bool) (lines : List (List Char)) :
    codeOf ((stripBlankLines lines).filter keeps) = codeOf (lines.filter keeps) := by
  unfold codeOf
  rw [List.filter_comm, filter_stripBlankLines, List.filter_comm]

theorem mem_of_mem_stripBlankLines {line : List Char} {lines : List (List Char)}
    (member : line ∈ stripBlankLines lines) : line ∈ lines := by
  unfold stripBlankLines at member
  have inner := (List.dropWhile_sublist _).subset (List.mem_reverse.mp member)
  exact (List.dropWhile_sublist _).subset (List.mem_reverse.mp inner)

theorem mem_of_mem_cut {c : Char} {count : Nat} {line : List Char}
    (member : c ∈ cut count line) : c ∈ line := by
  have inside := (List.rdropWhile_prefix isBlank _).subset member
  cases dropped : dropBytes? count line with
  | none => simp [dropped] at inside
  | some rest =>
      obtain ⟨before, rfl, _⟩ := dropBytes?_eq_some_iff.mp dropped
      simp only [dropped, Option.getD_some] at inside
      exact List.mem_append_right before inside

theorem newline_not_mem_cut {count : Nat} {line : List Char} (single : '\n' ∉ line) :
    '\n' ∉ cut count line :=
  fun member => single (mem_of_mem_cut member)

theorem dedentLines_eq (lines : List (List Char)) :
    dedentLines lines = (stripBlankLines lines).map (cut (commonIndentation lines)) := by
  rw [← commonIndentation_stripBlankLines]
  rfl

theorem newline_not_mem_dedentLines {text : List Char} :
    ∀ line ∈ dedentLines (lines text), '\n' ∉ line := by
  intro line member
  rw [dedentLines_eq] at member
  obtain ⟨old, inside, rfl⟩ := List.mem_map.mp member
  exact newline_not_mem_cut (newline_not_mem_lines (mem_of_mem_stripBlankLines inside))

/-- The code that is left without the common indentation: the lines in which it ends between
two characters. -/
theorem codeLines_dedent (text : List Char) :
    codeLines (dedent text) =
      codeOf ((lines text).filter (CutsCleanly (commonIndentation (lines text)) ·)) := by
  rw [dedent, codeLines_joinLines newline_not_mem_dedentLines, dedentLines_eq, codeOf_map_cut,
    codeOf_filter_stripBlankLines]
  exact fun line member => commonIndentation_le (mem_of_mem_stripBlankLines member)

theorem codeOf_filter_eq_iff {keeps : List Char → Bool} {lines : List (List Char)} :
    codeOf (lines.filter keeps) = codeOf lines ↔
      ∀ line ∈ lines, isBlankLine line = false → keeps line = true := by
  unfold codeOf
  rw [List.filter_comm]
  constructor
  · intro same line member code
    have length := congrArg List.length same
    rw [List.length_map, List.length_map, List.length_filter_eq_length_iff] at length
    exact length line (List.mem_filter.mpr ⟨member, by simp [code]⟩)
  · intro kept
    rw [List.filter_eq_self.mpr]
    intro line member
    obtain ⟨inside, code⟩ := List.mem_filter.mp member
    exact kept line inside (by simpa using code)

end Text

namespace Definition

open Text

/-- The emitted definition up to its body. -/
def heading (d : Definition) (type : ShaderType) : String :=
  type.text ++ " " ++ d.name ++ "(" ++ ", ".intercalate (d.signature.map Param.text) ++ ")"

theorem layout_toList (d : Definition) (type : ShaderType) (body : String) :
    (d.layout type body).toList = (d.heading type).toList ++ '\n' :: ([openBrace] ++ '\n' ::
      ((lines body.toList).flatMap (fun line => (bodyLine line).toList) ++ [closeBrace])) := by
  simp [layout, heading, openBrace, closeBrace, String.toList_join, List.flatMap_map]

/-- How far a line of a body is set in. -/
def inset (line : List Char) : List Char :=
  if line.isEmpty then [] else [' ', ' ', ' ', ' ']

theorem bodyLine_toList (line : List Char) :
    (bodyLine line).toList = (inset line ++ line) ++ ['\n'] := by
  unfold bodyLine inset
  split
  · next empty => simp [List.isEmpty_iff.mp empty]
  · simp

theorem codeLines_bodyLines {body : List (List Char)} (single : ∀ line ∈ body, '\n' ∉ line)
    (rest : List Char) :
    codeLines (body.flatMap (fun line => (bodyLine line).toList) ++ rest) =
      codeOf body ++ codeLines rest := by
  induction body with
  | nil => rfl
  | cons line body ih =>
      have others := ih fun other member => single other (List.mem_cons_of_mem line member)
      have blank : isBlankLine (inset line) = true := by
        unfold inset
        split <;> rfl
      have whole : '\n' ∉ inset line ++ line := by
        have this := single line List.mem_cons_self
        unfold inset
        split <;> simp [this]
      rw [List.flatMap_cons, bodyLine_toList, List.append_assoc, List.append_assoc,
        List.singleton_append, codeLines_newline, others, codeLines_of_line whole,
        codeOf_append_of_blank blank, ← List.append_assoc, ← codeOf_append,
        List.singleton_append]

/-- The code of an emitted definition: its heading, and the code of its body in braces. -/
theorem codeLines_layout (d : Definition) (type : ShaderType) (body : String) :
    codeLines (d.layout type body).toList =
      codeLines (d.heading type).toList ++ [[openBrace]] ++ codeLines body.toList ++
        [[closeBrace]] := by
  rw [layout_toList, codeLines_newline, codeLines_newline,
    codeLines_bodyLines fun _ => newline_not_mem_lines]
  have opened : codeLines [openBrace] = [[openBrace]] := by decide
  have closed : codeLines [closeBrace] = [[closeBrace]] := by decide
  rw [opened, closed, ← codeLines]
  simp

/-- A line of code in a template is kept exactly if the common indentation ends between two of
its characters, in the order of the template, and the emitted definition holds what is kept.
All the code is there exactly if that is so in every line of code. -/
theorem dedent_keeps_code (text : String) :
    codeLines (dedent text.toList) = codeOf ((lines text.toList).filter
      (CutsCleanly (commonIndentation (lines text.toList)) ·)) ∧
    (codeLines (dedent text.toList) = codeLines text.toList ↔
      ∀ line ∈ lines text.toList, isBlankLine line = false →
        CutsCleanly (commonIndentation (lines text.toList)) line) ∧
    ∀ (d : Definition) (type : ShaderType) (known : Table Definition) (store : Store),
      d.body = .template text → d.returnType = some type →
        ∃ code, d.render known store = (.ok code, store) ∧
          codeLines code.toList = codeLines (d.heading type).toList ++ [[openBrace]] ++
            codeLines (dedent text.toList) ++ [[closeBrace]] := by
  have kept := codeLines_dedent text.toList
  refine ⟨kept, ?_, ?_⟩
  · rw [kept, codeLines, codeOf_filter_eq_iff]
    simp only [decide_eq_true_eq]
  · intro d type known store body returns
    refine ⟨d.layout type (String.ofList (dedent text.toList)), ?_, ?_⟩
    · unfold render renderBy bodyTextBy
      rw [returns, body]
      rfl
    · rw [d.codeLines_layout, String.toList_ofList]

end Definition

/-- A template with a wide space on a line of its own. -/
def roundedTemplate : String :=
  "\n    vec3 q = abs(p);\n\u3000\n      return length(q) - r;\n"

def rounded : Definition :=
  ⟨"Rounded", .primitive, [⟨"p", .vec3⟩, ⟨"r", .float⟩], none, .template roundedTemplate, ∅⟩

theorem rounded_keeps_code :
    Text.dedent roundedTemplate.toList =
      "vec3 q = abs(p);\n\n  return length(q) - r;".toList ∧
    Text.codeLines (Text.dedent roundedTemplate.toList) = Text.codeLines roundedTemplate.toList ∧
    ∃ code, rounded.render .empty .empty = (.ok code, .empty) ∧
      Text.codeLines code.toList = ["float Rounded(vec3 p, float r)".toList, [Text.openBrace],
        "vec3 q = abs(p);".toList, "return length(q) - r;".toList, [Text.closeBrace]] := by
  obtain ⟨_, all, emitted⟩ := Definition.dedent_keeps_code roundedTemplate
  have clean := all.mpr (by decide +kernel)
  obtain ⟨code, rendered, holds⟩ := emitted rounded .float .empty .empty rfl rfl
  refine ⟨by decide +kernel, clean, code, rendered, ?_⟩
  rw [holds, clean]
  decide +kernel

/-- A line that is set in by a common space, and one that is set in by a wide one. -/
def mixedTemplate : String :=
  " vec3 q = abs(p);\n\u3000return length(q);"

def mixed : Definition :=
  ⟨"Ball", .primitive, [⟨"p", .vec3⟩], none, .template mixedTemplate, ∅⟩

/-- One byte is common to both lines, but it is no whole character of the second, which is
lost. -/
theorem mixed_loses_code :
    mixed.check = .ok () ∧
    Text.codeLines (Text.dedent mixedTemplate.toList) ≠ Text.codeLines mixedTemplate.toList ∧
    (mixed.render .empty .empty).1 =
      .ok "float Ball(vec3 p)\n\x7b\n    vec3 q = abs(p);\n\x7d" := by
  exact ⟨by rfl, by decide +kernel, by rfl⟩

end DistanceField
