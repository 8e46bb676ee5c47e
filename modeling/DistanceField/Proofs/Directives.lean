import DistanceField.Proofs.Macros
import DistanceField.Proofs.Splicing
import DistanceField.Proofs.Stability

/-! The macros of a program. The block that is spliced in has one line for each key of the
configuration and a last one for the root. Keys are distinct, but nothing keeps them apart from
the name of the root macro. -/

namespace DistanceField

namespace Config

/-- The macro that a line defines, with or without parameters. -/
def defined? (line : List Char) : Option String :=
  (directive.isPrefixOf? line).map fun rest => String.ofList (rest.takeWhile Text.isNameChar)

/-- The macros that are defined by the lines of a text. -/
def definedIn (text : List Char) : List String :=
  (Text.pieces '\n' text).filterMap defined?

/-- A name is read up to the first character that cannot be part of it. -/
theorem defined?_of_name {name : String} {c : Char} {rest : List Char}
    (named : Text.isIdentifier name = true) (stops : Text.isNameChar c = false) :
    defined? (directive ++ (name.toList ++ c :: rest)) = some name := by
  have start : directive.isPrefixOf? (directive ++ (name.toList ++ c :: rest)) =
      some (name.toList ++ c :: rest) := List.isPrefixOf?_eq_some_iff_append_eq.mpr rfl
  have taken : (name.toList ++ c :: rest).takeWhile Text.isNameChar = name.toList := by
    rw [List.takeWhile_append_of_pos fun c => Text.isNameChar_of_isIdentifier named,
      List.takeWhile_cons_of_neg (by simp [stops]), List.append_nil]
  rw [defined?, start, Option.map_some, taken, String.ofList_toList]

theorem defined?_lineChars {entry : String × ConfigValue}
    (named : Text.isIdentifier entry.1 = true) : defined? (lineChars entry) = some entry.1 :=
  defined?_of_name named (by decide)

theorem map_defined?_lineChars {config : Config}
    (named : ∀ entry ∈ config.entries, Text.isIdentifier entry.1 = true) :
    (config.entries.map lineChars).map defined? = config.keys.map some := by
  rw [Table.keys, List.map_map, List.map_map]
  exact List.map_congr_left fun entry member => defined?_lineChars (named entry member)

/-- If every line defines a macro, these are the macros of the text. -/
theorem definedIn_of_map {text : List Char} {names : List String}
    (defined : (Text.pieces '\n' text).map defined? = names.map some) : definedIn text = names := by
  calc definedIn text
      = ((Text.pieces '\n' text).map defined?).filterMap id := by
        rw [List.filterMap_map]
        rfl
    _ = names := by
        rw [defined, List.filterMap_map]
        exact List.filterMap_some

/-- The line of the root macro without the line feed that ends it. -/
def rootLine (root : String) : List Char :=
  ("#define DE(p) " ++ root ++ "(p, 1e20)").toList

theorem defined?_rootLine (root : String) : defined? (rootLine root) = some rootMacroName := by
  have written : rootLine root =
      directive ++ (rootMacroName.toList ++ '(' :: ("p) " ++ root ++ "(p, 1e20)").toList) := by
    simp [rootLine, directive, rootMacroName]
  rw [written, defined?_of_name (by decide) (by decide)]

theorem newline_not_mem_rootLine (named : Text.isIdentifier root = true) :
    '\n' ∉ rootLine root := by
  have inner : '\n' ∉ root.toList := fun member =>
    absurd (Text.isNameChar_of_isIdentifier named member) (by decide)
  simp [rootLine, inner]

end Config

theorem Registry.rootMacro_ok {registry : Registry}
    (evaluated : registry.rootMacro root = .ok text) :
    ∃ d, registry.lookup root = .ok d ∧ text.toList = Config.rootLine d.name ++ ['\n'] := by
  obtain ⟨d, found, remaining⟩ := except_bind_ok evaluated
  have far : farAway.text = "1e20" := by decide +kernel
  split at remaining
  · cases remaining
  · split at remaining
    · cases remaining
    · cases remaining
      exact ⟨d, found, by simp [Config.rootLine, rootMacroName, far]⟩

/-- The root macro ends with a bracket, so that nothing but the last line feed is cut off. -/
theorem Text.trimEnd_rootLine (before : List Char) (root : String) :
    trimEnd (before ++ (Config.rootLine root ++ ['\n'])) = before ++ Config.rootLine root := by
  have ends : Config.rootLine root = ("#define DE(p) " ++ root ++ "(p, 1e20").toList ++ [')'] := by
    simp [Config.rootLine]
  rw [trimEnd_eq, ← List.append_assoc, List.rdropWhile_concat_pos _ _ _ (by decide), ends,
    ← List.append_assoc, List.rdropWhile_concat_neg _ _ _ (by decide)]

namespace Session

variable {session : Session}

/-- The lines of the block are those of the configuration and that of the root. -/
theorem macroLines {config : Config} {macros rootMacro : String} (reached : session.Reached)
    (plain : ∀ key raw, (key, .raw raw) ∈ config.entries → '\n' ∉ raw.toList)
    (configured : config.macros = .ok macros)
    (evaluated : session.registry.rootMacro root = .ok rootMacro) :
    Text.pieces '\n' (Text.trimEnd (macros ++ rootMacro).toList) =
      config.entries.map Config.lineChars ++ [Config.rootLine root] := by
  obtain ⟨named, spelled⟩ := Config.macros_ok_iff.mp configured
  obtain ⟨d, found, ending⟩ := Registry.rootMacro_ok evaluated
  obtain ⟨rfl, valid⟩ := reached.registry_sound root d (Registry.lookup_ok found)
  have whole : ∀ line ∈ config.entries.map Config.lineChars, '\n' ∉ line := by
    intro line member
    obtain ⟨entry, entered, rfl⟩ := List.mem_map.mp member
    apply Config.newline_not_mem_lineChars (named entry entered)
    intro raw same
    exact plain entry.1 raw (same ▸ entered)
  rw [String.toList_append, ← spelled, ending, Text.trimEnd_rootLine,
    Text.pieces_flatMap_append whole,
    Text.pieces_of_not_mem (Config.newline_not_mem_rootLine valid.named)]

/-- A program has the macros of its configuration and that of its root in one block of lines, each
of which defines one macro: those of the configuration in order, and as the last one the macro that
evaluates the root. No macro but that one can be defined twice, and it is exactly if the
configuration has its name as a key. -/
theorem emit_defines {config : Config} {start last : Store} (reached : session.Reached)
    (plain : ∀ key raw, (key, .raw raw) ∈ config.entries → '\n' ∉ raw.toList)
    (emitted : session.registry.emit session.known root config template start =
      (.ok program, last)) :
    ∃ (macros rootMacro : String) (parts : Template.Parts) (block functions : List Char),
      config.macros = .ok macros ∧ session.registry.rootMacro root = .ok rootMacro ∧
      block = Text.trimEnd (macros ++ rootMacro).toList ∧ template.text = parts.marked ∧
      program.toList = parts.filled (fun
        | .macros => block
        | .functions => functions) ∧
      (Text.pieces '\n' block).map Config.defined? =
        (config.keys ++ [rootMacroName]).map some ∧
      (Text.pieces '\n' block).getLast? = some ("#define DE(p) " ++ root ++ "(p, 1e20)").toList ∧
      (∀ name, name ≠ rootMacroName → (Config.definedIn block).count name ≤ 1) ∧
      (Config.definedIn block).count rootMacroName =
        if rootMacroName ∈ config.keys then 2 else 1 := by
  obtain ⟨macros, rootMacro, _, _, blocks, configured, evaluated, _, _, rfl⟩ :=
    Registry.emit_ok_iff.mp emitted
  obtain ⟨parts, cut⟩ := Template.exists_parts template.occursOnce
  have lines := macroLines reached plain configured evaluated
  have names : (Text.pieces '\n' (Text.trimEnd (macros ++ rootMacro).toList)).map Config.defined? =
      (config.keys ++ [rootMacroName]).map some := by
    rw [lines, List.map_append, List.map_append,
      Config.map_defined?_lineChars (Config.macros_ok_iff.mp configured).1]
    simp only [List.map_cons, List.map_nil, Config.defined?_rootLine]
  have defined := Config.definedIn_of_map names
  have once : config.keys.Nodup := config.distinct
  refine ⟨macros, rootMacro, parts, _, Text.trimEnd ("\n\n".intercalate blocks).toList, configured,
    evaluated, rfl, cut, ?_, names, ?_, ?_, ?_⟩
  · rw [Template.render, Template.fill?_eq cut, Option.getD_some, String.toList_ofList]
    rfl
  · rw [lines, List.getLast?_concat]
    rfl
  · intro name other
    rw [defined, List.count_append, List.count_singleton, if_neg (by simpa using other.symm)]
    exact List.nodup_iff_count_le_one.mp once name
  · rw [defined, List.count_append, List.count_singleton_self, once.count]
    split <;> rfl

/-- A value may look like a definition, as long as it stays on its line. -/
def annotated : Config :=
  (Table.empty : Config).setAll [("MAX_STEPS", .int 8), ("NOTE", .raw "#define DE 2")]

theorem annotated_defines :
    ∃ program last, ballOnStand.registry.emit ballOnStand.known "Scene" annotated .base
        ballOnStand.store = (.ok program, last) ∧
      ∃ (parts : Template.Parts) (block functions : List Char),
        program.toList = parts.filled (fun
          | .macros => block
          | .functions => functions) ∧
        (Text.pieces '\n' block).map Config.defined? =
          [some "MAX_STEPS", some "NOTE", some "DE"] ∧
        (Config.definedIn block).count "DE" = 1 := by
  have succeeds : (ballOnStand.registry.emit ballOnStand.known "Scene" annotated .base
      ballOnStand.store).1.isOk = true := by decide +kernel
  have plain : ∀ key raw, (key, .raw raw) ∈ annotated.entries → '\n' ∉ raw.toList := by
    have entries : annotated.entries =
        [("MAX_STEPS", .int 8), ("NOTE", .raw "#define DE 2")] := rfl
    intro key raw member
    simp only [entries, List.mem_cons, Prod.mk.injEq, reduceCtorEq, and_false, false_or,
      ConfigValue.raw.injEq, List.not_mem_nil, or_false] at member
    obtain ⟨_, rfl⟩ := member
    decide
  generalize result : ballOnStand.registry.emit ballOnStand.known "Scene" annotated .base
    ballOnStand.store = answer at succeeds
  obtain ⟨error | program, last⟩ := answer
  · cases succeeds
  · obtain ⟨_, _, parts, block, functions, _, _, _, _, spliced, names, _, _, once⟩ :=
      emit_defines ballOnStand_reached plain result
    exact ⟨program, last, rfl, parts, block, functions, spliced, names, once⟩

/-- Nothing but the two blocks. -/
def bareTemplate : Template where
  text := "// [macros]\n// [functions]".toList
  once := by
    intro slot
    cases slot <;> decide +kernel

/-- A key of the name of the root macro is written as well, ahead of it. -/
theorem emit_redefines :
    let config : Config := (Table.empty : Config).set rootMacroName (.int 1)
    let scene := (Session.empty.register (Gallery.object "Scene" [])).2
    let block := "#define DE 1\n#define DE(p) Scene(p, 1e20)".toList
    (∃ functions last, scene.registry.emit scene.known "Scene" config bareTemplate scene.store =
        (.ok (String.ofList (block ++ '\n' :: functions)), last)) ∧
      Config.definedIn block = ["DE", "DE"] := by
  intro config scene block
  have succeeds : (scene.registry.emit scene.known "Scene" config bareTemplate
      scene.store).1.isOk = true := by decide +kernel
  have cut : bareTemplate.text = Template.Parts.marked ⟨[], .macros, ['\n'], []⟩ := by
    decide +kernel
  refine ⟨?_, by decide +kernel⟩
  generalize result : scene.registry.emit scene.known "Scene" config bareTemplate scene.store =
    answer at succeeds
  obtain ⟨error | program, last⟩ := answer
  · cases succeeds
  · obtain ⟨macros, rootMacro, _, _, blocks, configured, evaluated, _, _, rfl⟩ :=
      Registry.emit_ok_iff.mp result
    have written : config.macros = .ok "#define DE 1\n" := by decide +kernel
    have rooted : scene.registry.rootMacro "Scene" = .ok "#define DE(p) Scene(p, 1e20)\n" := by
      decide +kernel
    cases configured.symm.trans written
    cases evaluated.symm.trans rooted
    refine ⟨Text.trimEnd ("\n\n".intercalate blocks).toList, last, ?_⟩
    rw [Template.render, Template.fill?_eq cut, Option.getD_some]
    have spliced : Text.trimEnd ("#define DE 1\n" ++ "#define DE(p) Scene(p, 1e20)\n").toList =
        block := by decide +kernel
    simp only [Template.Parts.filled, Template.content, spliced, Slot.other, List.nil_append,
      List.append_assoc, List.singleton_append, List.append_nil]

end Session

end DistanceField
