import DistanceField.Proofs.Indentation
import DistanceField.Proofs.Registration

/-! A template cannot break out of its function. Braces are counted in the text that was given,
while what is written has been cut into lines and set in anew; none of that adds, drops or moves
a brace, as long as the lines are set in by single bytes. -/

namespace DistanceField

namespace Text

variable {text other inner line : List Char}

def isBrace (c : Char) : Bool :=
  c == openBrace || c == closeBrace

/-- The braces of a text, in order. -/
def braces (text : List Char) : List Char :=
  text.filter isBrace

theorem braces_append (text more : List Char) :
    braces (text ++ more) = braces text ++ braces more :=
  List.filter_append text more

theorem braces_eq_nil_iff : braces text = [] ↔ ∀ c ∈ text, isBrace c = false := by
  simp [braces, List.filter_eq_nil_iff]

theorem isBrace_eq_false {c : Char} {p : Char → Bool} (opening : p openBrace = false)
    (closing : p closeBrace = false) (other : p c = true) : isBrace c = false := by
  rw [Bool.eq_false_iff]
  intro brace
  rcases Bool.or_eq_true_iff.mp brace with same | same
  · rw [beq_iff_eq.mp same, opening] at other
    cases other
  · rw [beq_iff_eq.mp same, closing] at other
    cases other

theorem isBrace_of_isBlank {c : Char} (blank : isBlank c = true) : isBrace c = false :=
  isBrace_eq_false (by decide) (by decide) blank

theorem braces_of_blank (blank : isBlankLine text = true) : braces text = [] :=
  braces_eq_nil_iff.mpr fun c member => isBrace_of_isBlank (List.all_eq_true.mp blank c member)

/-- Only braces matter for how many stand open. -/
theorem braceDepth?_braces (depth : Nat) (text : List Char) :
    braceDepth? depth (braces text) = braceDepth? depth text := by
  induction text generalizing depth with
  | nil => rfl
  | cons c rest ih =>
      by_cases opens : c = openBrace
      · have kept : braces (c :: rest) = c :: braces rest := by simp [braces, isBrace, opens]
        simp only [kept, braceDepth?, if_pos opens, ih]
      · by_cases closes : c = closeBrace
        · have kept : braces (c :: rest) = c :: braces rest := by simp [braces, isBrace, closes]
          cases depth <;> simp only [kept, braceDepth?, if_neg opens, if_pos closes, ih]
        · have dropped : braces (c :: rest) = braces rest := by
            simp [braces, isBrace, opens, closes]
          simp only [dropped, braceDepth?, if_neg opens, if_neg closes, ih]

theorem Balanced.of_braces_eq (balanced : Balanced text) (same : braces other = braces text) :
    Balanced other := by
  rw [← bracesBalanced_iff, bracesBalanced, ← braceDepth?_braces] at balanced ⊢
  rw [same]
  exact balanced

/-- The first character opens a brace that the last one closes, and none before it: some brace
is open after every shorter part. -/
structure Enclosed (text : List Char) : Prop where
  starts : text.head? = some openBrace
  ends : text.getLast? = some closeBrace
  open_within : ∀ start, start <+: text → start ≠ [] → start ≠ text →
    start.count closeBrace < start.count openBrace
  closed : text.count closeBrace = text.count openBrace

theorem Balanced.enclosed (balanced : Balanced inner) :
    Enclosed (openBrace :: (inner ++ [closeBrace])) := by
  have different : openBrace ≠ closeBrace := by decide
  refine ⟨rfl, List.getLast?_concat (l := openBrace :: inner),
    fun start within some short => ?_, ?_⟩
  · obtain rfl | ⟨tail, rfl, inside⟩ := List.prefix_cons_iff.mp within
    · exact absurd rfl some
    · obtain rfl | inside := List.prefix_concat_iff.mp inside
      · exact absurd rfl short
      · have matched := balanced.opened tail inside
        rw [List.count_cons_of_ne different, List.count_cons_self]
        omega
  · rw [List.count_cons_of_ne different, List.count_cons_self, List.count_append,
      List.count_append, balanced.closed, List.count_singleton_self,
      List.count_singleton, if_neg (by decide)]

theorem Enclosed.balanced (enclosed : Enclosed text) : Balanced text := by
  refine ⟨fun start within => ?_, enclosed.closed⟩
  by_cases empty : start = []
  · simp [empty]
  · by_cases whole : start = text
    · exact whole ▸ enclosed.closed.le
    · exact (enclosed.open_within start within empty whole).le

/-- A line feed and the carriage return before it are no braces. -/
theorem flatMap_braces_lines (text : List Char) : (lines text).flatMap braces = braces text := by
  fun_induction lines text with
  | case1 => rfl
  | case2 rest ih => exact ih
  | case3 rest ih => exact ih
  | case4 c rest _ _ ended ih =>
      obtain rfl := lines_eq_nil_iff.mp ended
      simp
  | case5 c rest _ _ first more found ih =>
      rw [found, List.flatMap_cons] at ih
      rw [List.flatMap_cons, ← List.singleton_append (l := first), braces_append,
        List.append_assoc, ih, ← braces_append, List.singleton_append]

theorem braces_intercalate {separator : List Char} (between : braces separator = [])
    (parts : List (List Char)) : braces (separator.intercalate parts) = parts.flatMap braces := by
  induction parts with
  | nil => rfl
  | cons part rest ih =>
      cases rest with
      | nil => simp
      | cons next more =>
          rw [List.intercalate_cons_cons, braces_append, braces_append, between, List.append_nil,
            ih, List.flatMap_cons (x := part)]

theorem flatMap_braces_code (lines : List (List Char)) :
    (lines.filter (!isBlankLine ·)).flatMap braces = lines.flatMap braces := by
  induction lines with
  | nil => rfl
  | cons line rest ih =>
      rw [List.filter_cons, List.flatMap_cons, ← ih]
      split
      · rfl
      · next blank =>
          rw [braces_of_blank (by simpa using blank), List.nil_append]

theorem flatMap_braces_stripBlankLines (lines : List (List Char)) :
    (stripBlankLines lines).flatMap braces = lines.flatMap braces := by
  rw [← flatMap_braces_code, filter_stripBlankLines, flatMap_braces_code]

theorem braces_trimEnd (line : List Char) : braces (trimEnd line) = braces line := by
  induction line with
  | nil => rfl
  | cons c line ih =>
      rw [trimEnd_cons]
      split
      · next blank => rw [braces_of_blank blank]; rfl
      · rw [← List.singleton_append, braces_append, ih, ← braces_append, List.singleton_append]

theorem braces_cut {count : Nat} (clean : CutsCleanly count line)
    (short : count ≤ indentation line) : braces (cut count line) = braces line := by
  obtain ⟨before, rest, rfl, length⟩ := clean
  have blank := isBlankLine_of_le_indentation (length.trans_le short)
  have dropped : dropBytes? count (before ++ rest) = some rest :=
    dropBytes?_eq_some_iff.mpr ⟨before, rfl, length⟩
  rw [cut, dropped, Option.getD_some, braces_trimEnd, braces_append, braces_of_blank blank,
    List.nil_append]

theorem braces_cut_of_blank (count : Nat) (blank : isBlankLine line = true) :
    braces (cut count line) = [] :=
  braces_eq_nil_iff.mpr fun c member =>
    isBrace_of_isBlank (List.all_eq_true.mp blank c (mem_of_mem_cut member))

/-- Removing the common indentation keeps the braces. -/
theorem braces_dedent (ascii : AsciiIndented text) : braces (dedent text) = braces text := by
  have cuts : ∀ line ∈ stripBlankLines (lines text),
      braces (cut (commonIndentation (stripBlankLines (lines text))) line) = braces line := by
    intro line member
    cases code : isBlankLine line with
    | true => rw [braces_cut_of_blank _ code, braces_of_blank code]
    | false =>
        have short := commonIndentation_le member code
        have clean := cutsCleanly_of_ascii (ascii line (mem_of_mem_stripBlankLines member)) short
        exact braces_cut clean short
  calc braces (dedent text)
      = ((stripBlankLines (lines text)).map
          (cut (commonIndentation (stripBlankLines (lines text))))).flatMap braces :=
        braces_intercalate (by decide) _
    _ = (stripBlankLines (lines text)).flatMap braces := by
        rw [List.flatMap_map, List.flatMap_congr cuts]
    _ = braces text := by
        rw [flatMap_braces_stripBlankLines, flatMap_braces_lines]

theorem isBrace_of_isNameChar {c : Char} (named : isNameChar c = true) : isBrace c = false :=
  isBrace_eq_false (by decide) (by decide) named

theorem braces_of_isIdentifier {name : String} (named : isIdentifier name = true) :
    braces name.toList = [] := by
  rw [braces_eq_nil_iff]
  intro c member
  exact isBrace_of_isNameChar (isNameChar_of_isIdentifier named member)

end Text

open Text

theorem Param.braces_text {param : Param} (named : isIdentifier param.name = true) :
    braces param.text.toList = [] := by
  have type : ∀ type : ShaderType, braces (type.text ++ " ").toList = [] := by
    intro type
    cases type <;> decide +kernel
  rw [Param.text, String.toList_append, braces_append, type, braces_of_isIdentifier named]
  rfl

namespace Definition

variable {d : Definition}

/-- What stands before the body has no braces. -/
theorem Valid.braces_heading (valid : d.Valid) (type : ShaderType) :
    braces (d.heading type).toList = [] := by
  have params : braces (", ".intercalate (d.signature.map Param.text)).toList = [] := by
    rw [String.toList_intercalate, braces_intercalate (by decide), List.flatMap_eq_nil_iff]
    intro part member
    simp only [List.map_map, List.mem_map, Function.comp_apply] at member
    obtain ⟨param, declared, rfl⟩ := member
    exact Param.braces_text (valid.params param declared)
  have typed : braces (type.text ++ " ").toList = [] := by cases type <;> decide +kernel
  have opens : braces "(".toList = [] := by decide
  have closes : braces ")".toList = [] := by decide
  simp only [heading, String.toList_append, braces_append] at typed ⊢
  rw [typed, braces_of_isIdentifier valid.named, params, opens, closes]
  rfl

theorem braces_bodyLines (body : List (List Char)) :
    braces (body.flatMap fun line => (bodyLine line).toList) = body.flatMap braces := by
  have insets : ∀ line, braces (inset line) = [] := by
    intro line
    unfold inset
    split <;> rfl
  have ends : braces ['\n'] = [] := by decide
  induction body with
  | nil => rfl
  | cons line body ih =>
      rw [List.flatMap_cons, List.flatMap_cons, braces_append, ih, bodyLine_toList, braces_append,
        braces_append, insets, ends, List.nil_append, List.append_nil]

/-- The emitted definition from its first brace on. -/
def braced (body : String) : List Char :=
  openBrace :: ('\n' :: (lines body.toList).flatMap (fun line => (bodyLine line).toList) ++
    [closeBrace])

theorem layout_eq_heading_braced (d : Definition) (type : ShaderType) (body : String) :
    (d.layout type body).toList = (d.heading type).toList ++ '\n' :: braced body :=
  d.layout_toList type body

theorem braced_enclosed {body : String} (balanced : Balanced body.toList) :
    Enclosed (braced body) := by
  apply Balanced.enclosed
  apply balanced.of_braces_eq
  have ends : braces ['\n'] = [] := by decide
  rw [← List.singleton_append, braces_append, ends, braces_bodyLines, flatMap_braces_lines]
  rfl

theorem render_template {text : String} {type : ShaderType} (template : d.body = .template text)
    (returns : d.returnType = some type) (known : Table Definition) (store : Store) :
    d.render known store = (.ok (d.layout type (String.ofList (dedent text.toList))), store) := by
  unfold render renderBy bodyTextBy
  rw [returns, template]
  rfl

/-- A definition that is valid with another body is refused for its body only. -/
theorem check_eq_checkBody {body : Body} (valid : ({ d with body := body } : Definition).Valid) :
    d.check = d.checkBody := by
  have named := checkIdentifier_ok_iff.mpr valid.named
  have params : checkParams d.name [] d.signature = .ok () :=
    checkParams_ok_iff.mpr ⟨valid.params, valid.distinct, by simp⟩
  have declared := checkIdentifiers_ok_iff.mpr valid.declared
  have returns : d.checkReturn = .ok () := checkReturn_ok_iff.mpr valid.returns
  simp only [check, named, params, declared, returns, bind, Except.bind]

theorem checkBody_template {text : String} (template : d.body = .template text)
    (shader : d.category ≠ .object) (code : isBlankLine text.toList = false) :
    d.checkBody = if bracesBalanced text.toList then .ok ()
      else .error (.invalidBody d.name .unbalanced) := by
  unfold checkBody
  rw [template]
  split
  · next same _ => cases same
  · next same _ => cases same
  · next object => exact absurd object shader
  · next same _ =>
      cases same
      rw [code]
      rfl

end Definition

/-- Of an open registry, a free name and a definition that is valid but for its body, only the
body can be refused. -/
theorem Registry.register_eq_checkBody {registry : Registry} {d : Definition} {body : Body}
    (isOpen : registry.isSealed = false) (free : registry.contains d.name = false)
    (valid : ({ d with body := body } : Definition).Valid) :
    registry.register d = (do
      d.checkBody
      return { registry with definitions := registry.definitions.set d.name d }) := by
  have unsealed : ¬ registry.isSealed = true := by simp [isOpen]
  have absent : ¬ registry.contains d.name = true := by simp [free]
  rw [register, if_neg unsealed, if_neg absent, Definition.check_eq_checkBody valid]

/-- A registered template whose lines are set in by ASCII characters is written with matching
braces: the heading has none, and the brace behind it is closed by the last character and by
none before it. A body that is not blank, in a definition that another body would make valid, is
refused by an open registry in which its name is free exactly if its braces do not match. -/
theorem Registry.template_enclosed (registry : Registry) (d : Definition) (text : String)
    (template : d.body = .template text) :
    (∀ later, registry.register d = .ok later → AsciiIndented text.toList →
      ∀ known store, ∃ type code braced,
        d.returnType = some type ∧ d.render known store = (.ok code, store) ∧
        code.toList = (d.heading type).toList ++ '\n' :: braced ∧
        openBrace ∉ (d.heading type).toList ∧ closeBrace ∉ (d.heading type).toList ∧
        Enclosed braced ∧ Balanced code.toList) ∧
    (registry.isSealed = false → registry.contains d.name = false →
      (∃ c ∈ text.toList, isBlank c = false) →
      (∃ other, ({ d with body := .template other } : Definition).Valid) →
      ((∃ error, registry.register d = .error error) ↔ ¬ Balanced text.toList) ∧
      ∀ error, registry.register d = .error error →
        error = .invalidBody d.name .unbalanced) := by
  constructor
  · intro later registered ascii known store
    obtain ⟨_, _, valid, _⟩ := register_ok_iff.mp registered
    obtain ⟨type, returns⟩ := valid.returns
    have none := valid.braces_heading type
    have heading := braces_eq_nil_iff.mp none
    have kept : Balanced (String.ofList (dedent text.toList)).toList := by
      rw [String.toList_ofList]
      exact (valid.written text template).2.of_braces_eq (braces_dedent ascii)
    have enclosed := Definition.braced_enclosed kept
    refine ⟨type, _, _, returns, Definition.render_template template returns known store,
      d.layout_eq_heading_braced type _, ?_, ?_, enclosed, ?_⟩
    · intro member
      exact absurd (heading _ member) (by decide)
    · intro member
      exact absurd (heading _ member) (by decide)
    · apply enclosed.balanced.of_braces_eq
      have ends : braces ['\n'] = [] := by decide
      rw [d.layout_eq_heading_braced, ← List.singleton_append, braces_append, braces_append, none,
        ends]
      rfl
  · rintro isOpen free code ⟨other, valid⟩
    have shader : d.category ≠ .object := by
      intro object
      obtain ⟨recipe, same⟩ := valid.built_iff.mp object
      cases same
    rw [register_eq_checkBody isOpen free valid,
      Definition.checkBody_template template shader (isBlankLine_eq_false_iff.mpr code),
      ← bracesBalanced_iff]
    cases bracesBalanced text.toList with
    | true => exact ⟨⟨nofun, fun unbalanced => absurd rfl unbalanced⟩, nofun⟩
    | false => exact ⟨⟨fun _ => nofun, fun _ => ⟨_, rfl⟩⟩, fun _ refused => by cases refused; rfl⟩

/-- A template with a block of its own. -/
def shellTemplate : String :=
  "\n\t  if (r > 0.0) \x7b\n\t    return length(p) - r; \x7d\r\n\n\t  return 1e20;\n"

def shell : Definition :=
  ⟨"Shell", .primitive, [⟨"p", .vec3⟩, ⟨"r", .float⟩], none, .template shellTemplate, ∅⟩

/-- The same with its braces turned round, so that it would leave the function. -/
def burstTemplate : String :=
  "\x7d return 1e20; \x7b"

def burst : Definition :=
  { shell with body := .template burstTemplate }

theorem shell_valid : shell.Valid :=
  Definition.check_ok_iff.mp (by rfl)

theorem shell_enclosed :
    (∃ code, shell.render .empty .empty = (.ok code, .empty) ∧ Balanced code.toList ∧
      code = "float Shell(vec3 p, float r)\n\x7b\n    if (r > 0.0) \x7b\n" ++
        "      return length(p) - r; \x7d\n\n    return 1e20;\n\x7d") ∧
    ∃ error, Registry.empty.register burst = .error error := by
  constructor
  · have registered : ∃ later, Registry.empty.register shell = .ok later :=
      ⟨_, Registry.register_ok_iff.mpr ⟨rfl, rfl, shell_valid, rfl⟩⟩
    obtain ⟨later, registered⟩ := registered
    have ascii : AsciiIndented shellTemplate.toList := by decide +kernel
    obtain ⟨type, code, braced, _, rendered, _, _, _, _, balanced⟩ :=
      (Registry.empty.template_enclosed shell shellTemplate rfl).1 later registered ascii .empty
        .empty
    refine ⟨code, rendered, balanced, ?_⟩
    have written : shell.render .empty .empty = (.ok (shell.layout .float
        (String.ofList (dedent shellTemplate.toList))), .empty) :=
      Definition.render_template rfl rfl .empty .empty
    cases written.symm.trans rendered
    decide +kernel
  · have code : isBlankLine burstTemplate.toList = false := by decide +kernel
    have refused := ((Registry.empty.template_enclosed burst burstTemplate rfl).2 rfl rfl
      (isBlankLine_eq_false_iff.mp code) ⟨shellTemplate, shell_valid⟩).1
    exact refused.mpr fun balanced => absurd (bracesBalanced_iff.mpr balanced) (by decide +kernel)

end DistanceField
