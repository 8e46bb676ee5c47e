import DistanceField.Config.Basic
import DistanceField.Proofs.Layers
import DistanceField.Proofs.Normalization

/-! The macros of a configuration can be read back from the text that defines them. A key ends
at the first space and a line at the first line feed, and neither stands where a name or a number
is written; only text that is used as it stands could hold a line feed. -/

namespace DistanceField

namespace Text

theorem pieces_ne_nil (separator : Char) (text : List Char) : pieces separator text ≠ [] := by
  cases text with
  | nil => simp [pieces]
  | cons c rest =>
      rw [pieces]
      split
      · simp
      · split <;> simp

variable {separator : Char}

theorem pieces_append {line : List Char} (absent : separator ∉ line) (rest : List Char) :
    pieces separator (line ++ separator :: rest) = line :: pieces separator rest := by
  induction line with
  | nil =>
      obtain ⟨first, more, cut⟩ := List.exists_cons_of_ne_nil (pieces_ne_nil separator rest)
      rw [List.nil_append, pieces, cut]
      exact if_pos rfl
  | cons c line ih =>
      have other : c ≠ separator := fun same => absent (same ▸ List.mem_cons_self)
      rw [List.cons_append, pieces, ih (List.not_mem_of_not_mem_cons absent)]
      exact if_neg other

theorem pieces_of_not_mem {line : List Char} (absent : separator ∉ line) :
    pieces separator line = [line] := by
  induction line with
  | nil => rfl
  | cons c line ih =>
      have other : c ≠ separator := fun same => absent (same ▸ List.mem_cons_self)
      rw [pieces, ih (List.not_mem_of_not_mem_cons absent)]
      exact if_neg other

theorem pieces_flatMap_append {lines : List (List Char)}
    (absent : ∀ line ∈ lines, separator ∉ line) (rest : List Char) :
    pieces separator (lines.flatMap (· ++ [separator]) ++ rest) =
      lines ++ pieces separator rest := by
  induction lines with
  | nil => rfl
  | cons line lines ih =>
      rw [List.flatMap_cons, List.append_assoc, List.append_assoc, List.singleton_append,
        pieces_append (absent line List.mem_cons_self),
        ih fun other member => absent other (List.mem_cons_of_mem line member)]
      rfl

/-- Lines that each end with a separator are cut into those lines and an empty piece. -/
theorem pieces_flatMap {lines : List (List Char)} (absent : ∀ line ∈ lines, separator ∉ line) :
    pieces separator (lines.flatMap (· ++ [separator])) = lines ++ [[]] := by
  have cut := pieces_flatMap_append absent []
  rwa [List.append_nil] at cut

theorem not_mem_intercalate {c : Char} {between : List Char} (apart : c ∉ between)
    {parts : List (List Char)} (absent : ∀ part ∈ parts, c ∉ part) :
    c ∉ between.intercalate parts := by
  induction parts with
  | nil => simp
  | cons part parts ih =>
      have first := absent part List.mem_cons_self
      have others := ih fun other member => absent other (List.mem_cons_of_mem part member)
      cases parts with
      | nil => simpa using first
      | cons next more =>
          rw [List.intercalate_cons_cons]
          simp [first, apart, others]

end Text

/-- Numbers are written on one line. -/
theorem Single.newline_not_mem_text (x : Single) : '\n' ∉ x.text.toList :=
  fun member => absurd (x.isTextChar_text member) (by decide)

theorem ConfigValue.newline_not_mem_text {value : ConfigValue}
    (plain : ∀ text, value = .raw text → '\n' ∉ text.toList) : '\n' ∉ value.text.toList := by
  cases value with
  | int n => exact fun member => absurd (isTextChar_intText member) (by decide)
  | float x => exact x.newline_not_mem_text
  | raw text => exact plain text rfl
  | vector components =>
      have digits : '\n' ∉ Nat.toDigits 10 components.length := fun member =>
        absurd (Numeral.allDigits_toDigits _ _ member) (by decide)
      have inner : '\n' ∉ ", ".toList.intercalate (components.map (·.text.toList)) := by
        apply Text.not_mem_intercalate (by decide)
        intro part member
        obtain ⟨x, _, rfl⟩ := List.mem_map.mp member
        exact x.newline_not_mem_text
      rw [toList_vectorText]
      simp only [List.mem_append, List.mem_cons, digits, inner]
      decide

namespace Config

/-- What every line starts with. -/
def directive : List Char :=
  ['#', 'd', 'e', 'f', 'i', 'n', 'e', ' ']

/-- The macro that a line defines, and what it stands for. -/
def readLine? (line : List Char) : Option (String × String) := do
  let definition ← directive.isPrefixOf? line
  let (key, value) ← Text.splitFirst? ' ' definition
  return (String.ofList key, String.ofList value)

/-- The line of a macro without the line feed that ends it. -/
def lineChars (entry : String × ConfigValue) : List Char :=
  directive ++ (entry.1.toList ++ ' ' :: entry.2.text.toList)

theorem toList_macroLine (entry : String × ConfigValue) :
    (macroLine entry.1 entry.2).toList = lineChars entry ++ ['\n'] := by
  simp [macroLine, lineChars, directive]

theorem readLine?_lineChars {entry : String × ConfigValue}
    (named : Text.isIdentifier entry.1 = true) :
    readLine? (lineChars entry) = some (entry.1, entry.2.text) := by
  have start : directive.isPrefixOf? (lineChars entry) =
      some (entry.1.toList ++ ' ' :: entry.2.text.toList) :=
    List.isPrefixOf?_eq_some_iff_append_eq.mpr rfl
  have solid : ' ' ∉ entry.1.toList := fun member =>
    absurd (Text.isNameChar_of_isIdentifier named member) (by decide)
  have split : Text.splitFirst? ' ' (entry.1.toList ++ ' ' :: entry.2.text.toList) =
      some (entry.1.toList, entry.2.text.toList) :=
    Text.splitFirst?_eq_some_iff.mpr ⟨rfl, solid⟩
  simp [readLine?, start, split]

/-- Every line gives back the macro it was written for. -/
theorem mapM_readLine? {entries : List (String × ConfigValue)}
    (named : ∀ entry ∈ entries, Text.isIdentifier entry.1 = true) :
    (entries.map lineChars).mapM readLine? =
      some (entries.map fun entry => (entry.1, entry.2.text)) := by
  induction entries with
  | nil => rfl
  | cons entry rest ih =>
      have others := ih fun other member => named other (List.mem_cons_of_mem entry member)
      rw [List.map_cons, List.mapM_cons, readLine?_lineChars (named entry List.mem_cons_self),
        others]
      rfl

theorem newline_not_mem_lineChars {entry : String × ConfigValue}
    (named : Text.isIdentifier entry.1 = true)
    (plain : ∀ text, entry.2 = .raw text → '\n' ∉ text.toList) : '\n' ∉ lineChars entry := by
  have start : '\n' ∉ directive := by decide
  have key : '\n' ∉ entry.1.toList := fun member =>
    absurd (Text.isNameChar_of_isIdentifier named member) (by decide)
  have value := ConfigValue.newline_not_mem_text plain
  simp [lineChars, start, key, value]

/-- The keys are checked in order, and the first one that is no name is reported. -/
theorem mapM_checkedLine (entries : List (String × ConfigValue)) :
    entries.mapM checkedLine =
      match (entries.map Prod.fst).find? (!Text.isIdentifier ·) with
      | some key => .error (.config (.macroName key))
      | none => .ok (entries.map fun entry => macroLine entry.1 entry.2) := by
  induction entries with
  | nil => rfl
  | cons entry rest ih =>
      rw [List.mapM_cons, ih, List.map_cons, List.find?_cons, checkedLine]
      cases named : Text.isIdentifier entry.1 with
      | false => rfl
      | true =>
          simp only [Bool.not_true, if_true]
          cases (rest.map Prod.fst).find? (!Text.isIdentifier ·) <;> rfl

theorem macros_eq (config : Config) :
    config.macros =
      match config.keys.find? (!Text.isIdentifier ·) with
      | some key => .error (.config (.macroName key))
      | none => .ok (String.join (config.entries.map fun entry => macroLine entry.1 entry.2)) := by
  rw [macros, mapM_checkedLine, Table.keys]
  cases (config.entries.map Prod.fst).find? (!Text.isIdentifier ·) <;> rfl

theorem macros_error_iff {config : Config} {error : Error} :
    config.macros = .error error ↔
      ∃ key, config.keys.find? (!Text.isIdentifier ·) = some key ∧
        error = .config (.macroName key) := by
  rw [macros_eq]
  cases config.keys.find? (!Text.isIdentifier ·) <;> simp [eq_comm]

theorem macros_ok_iff {config : Config} {text : String} :
    config.macros = .ok text ↔
      (∀ entry ∈ config.entries, Text.isIdentifier entry.1 = true) ∧
        (config.entries.map lineChars).flatMap (· ++ ['\n']) = text.toList := by
  have written : (config.entries.map lineChars).flatMap (· ++ ['\n']) =
      (String.join (config.entries.map fun entry => macroLine entry.1 entry.2)).toList := by
    rw [String.toList_join, List.flatMap_map, List.flatMap_map]
    exact List.flatMap_congr fun entry _ => (toList_macroLine entry).symm
  rw [macros_eq, written, String.toList_inj]
  cases first : config.keys.find? (!Text.isIdentifier ·) with
  | some key =>
      obtain ⟨entry, member, rfl⟩ := List.mem_map.mp (List.mem_of_find?_eq_some first)
      have unnamed := List.find?_some first
      simp only [reduceCtorEq, false_iff, not_and]
      intro named
      simp [named entry member] at unnamed
  | none =>
      have named : ∀ entry ∈ config.entries, Text.isIdentifier entry.1 = true := by
        simpa [Table.keys] using first
      simp only [Except.ok.injEq, and_iff_right named]

/-- Macros can be written unless a key is no name, and the first such key is reported. If no text
that is used as it stands holds a line feed, every line can be read again: they give the macros
and what they stand for in order. -/
theorem macros_readable (config : Config) :
    ((∃ error, config.macros = .error error) ↔
      ∃ key ∈ config.keys, Text.isIdentifier key = false) ∧
    (∀ error, config.macros = .error error →
      ∃ key, config.keys.find? (!Text.isIdentifier ·) = some key ∧
        error = .config (.macroName key)) ∧
    ∀ text, config.macros = .ok text →
      (∀ key raw, (key, .raw raw) ∈ config.entries → '\n' ∉ raw.toList) →
      ∃ lines, Text.pieces '\n' text.toList = lines ++ [[]] ∧
        lines.mapM readLine? = some (config.entries.map fun entry => (entry.1, entry.2.text)) := by
  refine ⟨⟨?_, ?_⟩, fun error => macros_error_iff.mp, ?_⟩
  · rintro ⟨error, failed⟩
    obtain ⟨key, first, _⟩ := macros_error_iff.mp failed
    exact ⟨key, List.mem_of_find?_eq_some first, by simpa using List.find?_some first⟩
  · rintro ⟨key, member, unnamed⟩
    have found : (config.keys.find? (!Text.isIdentifier ·)).isSome = true :=
      List.find?_isSome.mpr ⟨key, member, by simp [unnamed]⟩
    obtain ⟨first, found⟩ := Option.isSome_iff_exists.mp found
    exact ⟨_, macros_error_iff.mpr ⟨first, found, rfl⟩⟩
  · intro text written plain
    obtain ⟨named, spelled⟩ := macros_ok_iff.mp written
    refine ⟨config.entries.map lineChars, ?_, mapM_readLine? named⟩
    -- The text is cut between the entries only if no entry holds a line feed itself.
    rw [← spelled, Text.pieces_flatMap]
    intro line member
    obtain ⟨entry, entered, rfl⟩ := List.mem_map.mp member
    apply newline_not_mem_lineChars (named entry entered)
    intro raw same
    exact plain entry.1 raw (same ▸ entered)

/-- Text that is used as it stands may be empty, or look like a definition of its own. -/
def sample : Config :=
  (Table.empty : Config).setAll
    [("TINT", .vector [0.5, 1.0]), ("_e", .raw ""), ("LOOP", .raw "#define A 1")]

theorem sample_readable :
    ∃ text lines, sample.macros = .ok text ∧ Text.pieces '\n' text.toList = lines ++ [[]] ∧
      lines.mapM readLine? =
        some [("TINT", "vec2(0.5, 1.0)"), ("_e", ""), ("LOOP", "#define A 1")] := by
  have written : sample.macros =
      .ok "#define TINT vec2(0.5, 1.0)\n#define _e \n#define LOOP #define A 1\n" := by
    decide +kernel
  have plain : ∀ key raw, (key, .raw raw) ∈ sample.entries → '\n' ∉ raw.toList := by
    intro key raw member
    have entries : sample.entries =
        [("TINT", .vector [0.5, 1.0]), ("_e", .raw ""), ("LOOP", .raw "#define A 1")] := rfl
    simp only [entries, List.mem_cons, Prod.mk.injEq, reduceCtorEq, and_false, false_or,
      ConfigValue.raw.injEq, List.not_mem_nil, or_false] at member
    rcases member with ⟨_, rfl⟩ | ⟨_, rfl⟩ <;> decide
  obtain ⟨lines, cut, read⟩ := (macros_readable sample).2.2 _ written plain
  exact ⟨_, lines, written, cut, read.trans (by decide +kernel)⟩

end Config

end DistanceField
