import DistanceField.Proofs.Configuration
import DistanceField.Proofs.Normalization

/-! Numbers in JSON and on their own. Both readers see the same decimal, but one of them reads
what is no integer of 64 bits as a double first. -/

namespace DistanceField

open Numeral (AllDigits StopsDigits digitsValue)

theorem Decimal.rank_whole (n : ℕ) (format : BinaryFormat) :
    Decimal.rank ⟨n, 0⟩ format = format.round n 1 := by
  have positive : 0 ≤ bound format := by
    rw [bound_eq]
    positivity
  simp only [rank]
  split_ifs with zero far small
  · subst zero
    simp [BinaryFormat.round, BinaryFormat.roundUnits, divRoundEven, twoTo_eq]
  · omega
  · omega
  · simp [num, den, tenTo_eq]

namespace Json

section Grammar

/-- The texts of an exponent, which may be absent. -/
inductive ExponentText : Option (Bool × List Char) → List Char → Prop
  | absent : ExponentText none []
  | unsigned (letter : c = 'e' ∨ c = 'E') (all : AllDigits digits) (present : digits ≠ []) :
      ExponentText (some (false, digits)) (c :: digits)
  | signed (negative : Bool) (letter : c = 'e' ∨ c = 'E') (all : AllDigits digits)
      (present : digits ≠ []) :
      ExponentText (some (negative, digits)) (c :: (if negative then '-' else '+') :: digits)

/-- A fraction is written only if it has digits. -/
def fractionText : List Char → List Char
  | [] => []
  | c :: rest => '.' :: c :: rest

/-- A zero stands on its own before the point, or not at the start. -/
def NoLeadingZero (whole : List Char) : Prop :=
  whole = ['0'] ∨ whole ≠ [] ∧ whole.head? ≠ some '0'

/-- The texts of a number by the grammar of JSON. -/
structure NumberText.Written (number : NumberText) (text : List Char) : Prop where
  leading : NoLeadingZero number.whole
  whole : AllDigits number.whole
  fraction : AllDigits number.fraction
  spelled : ∃ tail, ExponentText number.exponent tail ∧
    text = (if number.negative then ['-'] else []) ++
      (number.whole ++ (fractionText number.fraction ++ tail))

variable {number : NumberText} {exponent : Option (Bool × List Char)}
  {whole fraction digits tail rest text : List Char}

/-- What follows does not go on with a number. -/
def Follows (text : List Char) : Prop :=
  ∀ c ∈ text.head?, c.isDigit = false ∧ c ≠ '.' ∧ c ≠ 'e' ∧ c ≠ 'E'

theorem Follows.stopsDigits (follows : Follows rest) : StopsDigits rest :=
  fun c head => (follows c head).1

theorem ExponentText.head (written : ExponentText exponent tail) (follows : Follows rest) :
    ∀ c ∈ (tail ++ rest).head?, c.isDigit = false ∧ c ≠ '.' := by
  cases written with
  | absent => exact fun c head => ⟨(follows c head).1, (follows c head).2.1⟩
  | unsigned letter | signed _ letter =>
      rintro _ ⟨⟩
      rcases letter with rfl | rfl <;> decide

theorem splitExponent_append (written : ExponentText exponent tail) (follows : Follows rest) :
    splitExponent (tail ++ rest) = some (exponent, rest) := by
  cases written with
  | absent =>
      cases rest with
      | nil => rfl
      | cons c rest =>
          obtain ⟨_, _, lower, upper⟩ := follows c rfl
          simp [splitExponent, lower, upper]
  | @unsigned c digits letter all present =>
      obtain ⟨first, more, rfl⟩ := List.exists_cons_of_ne_nil present
      have digit := all first List.mem_cons_self
      have sign : Numeral.splitSign (first :: (more ++ rest)) = (false, first :: (more ++ rest)) :=
        Numeral.splitSign_of_ne (Numeral.ne_of_isDigit digit rfl) (Numeral.ne_of_isDigit digit rfl)
      have split := Numeral.splitDigits_append all follows.stopsDigits
      simp only [List.cons_append] at split
      simp [splitExponent, letter, sign, split]
  | @signed c digits negative letter all present =>
      have sign : Numeral.splitSign ((if negative then '-' else '+') :: (digits ++ rest)) =
          (negative, digits ++ rest) := by cases negative <;> rfl
      have split := Numeral.splitDigits_append all follows.stopsDigits
      simp [splitExponent, letter, sign, split, present]

theorem splitFraction_append (all : AllDigits fraction)
    (stops : ∀ c ∈ rest.head?, c.isDigit = false ∧ c ≠ '.') :
    splitFraction (fractionText fraction ++ rest) = some (fraction, rest) := by
  cases fraction with
  | nil =>
      unfold splitFraction
      split
      · exact absurd rfl (stops '.' (by simp_all [fractionText])).2
      · rfl
  | cons c digits =>
      have split := Numeral.splitDigits_append all fun c head => (stops c head).1
      simp only [List.cons_append] at split
      simp [fractionText, splitFraction, split]

theorem splitWhole_append (leading : NoLeadingZero whole) (all : AllDigits whole)
    (stops : StopsDigits rest) : splitWhole (whole ++ rest) = some (whole, rest) := by
  rcases leading with rfl | ⟨present, nonzero⟩
  · rfl
  · obtain ⟨first, more, rfl⟩ := List.exists_cons_of_ne_nil present
    obtain ⟨digit, others⟩ := List.forall_mem_cons.mp all
    have other : first ≠ '0' := by simpa using nonzero
    have split := Numeral.splitDigits_append others stops
    simp [splitWhole, other, digit, split]

theorem fractionText_head (stops : ∀ c ∈ rest.head?, c.isDigit = false ∧ c ≠ '.') :
    StopsDigits (fractionText fraction ++ rest) := by
  cases fraction with
  | nil => exact fun c head => (stops c head).1
  | cons c digits =>
      rintro _ ⟨⟩
      rfl

/-- The reader takes the whole text of a number, and no more. -/
theorem splitNumber_append (written : number.Written text) (follows : Follows rest) :
    ∃ body, text = (if number.negative then ['-'] else []) ++ body ∧
      splitNumber number.negative (body ++ rest) = some (number, rest) := by
  obtain ⟨leading, whole, fraction, tail, exponent, rfl⟩ := written
  have stops := exponent.head follows
  refine ⟨_, rfl, ?_⟩
  simp only [splitNumber, List.append_assoc,
    splitWhole_append leading whole (fractionText_head stops), Option.bind_eq_bind,
    Option.bind_some, splitFraction_append fraction stops, splitExponent_append exponent follows]
  rfl

theorem NumberText.Written.whole_ne_nil (written : number.Written text) : number.whole ≠ [] := by
  rcases written.leading with zero | ⟨present, _⟩
  · simp [zero]
  · exact present

/-- A number starts with a digit after its sign. -/
theorem NumberText.Written.starts (written : number.Written text) :
    ∃ c more, text = c :: more ∧ if number.negative then c = '-' else c.isDigit = true := by
  have present := written.whole_ne_nil
  obtain ⟨_, whole, _, tail, _, rfl⟩ := written
  cases number.negative with
  | true => exact ⟨'-', _, rfl, rfl⟩
  | false => exact whole.starts present _

end Grammar

section Member

variable {number : NumberText} {key numeral : String} {chars rest : List Char}

/-- The characters that stand for themselves in a string. -/
def isPlain (c : Char) : Bool :=
  0x20 ≤ c.toNat && c != '"' && c != '\\'

theorem splitString_append (plain : ∀ c ∈ chars, isPlain c = true) :
    splitString (chars ++ '"' :: rest) = some (chars, rest) := by
  induction chars with
  | nil => rfl
  | cons c chars ih =>
      obtain ⟨first, others⟩ := List.forall_mem_cons.mp plain
      simp only [isPlain, Bool.and_eq_true, decide_eq_true_eq, bne_iff_ne] at first
      obtain ⟨⟨visible, quote⟩, escape⟩ := first
      rw [List.cons_append, splitString]
      · simp [ih others, escape, visible]
      · exact quote
      all_goals intros; contradiction

theorem tokensWithin_space {c : Char} (space : isSpace c = true) (bound : ℕ) :
    tokensWithin (bound + 1) (c :: rest) = tokensWithin bound rest := by
  rw [tokensWithin, if_pos space]

theorem tokensWithin_mark {c : Char} (solid : isSpace c = false) (mark : isMark c = true)
    (bound : ℕ) :
    tokensWithin (bound + 1) (c :: rest) = (tokensWithin bound rest).map (.mark c :: ·) := by
  simp only [tokensWithin, solid, mark, Bool.false_eq_true, if_false, if_true]
  cases tokensWithin bound rest <;> rfl

theorem tokensWithin_text {after : List Char} (closed : splitString rest = some (chars, after))
    (bound : ℕ) :
    tokensWithin (bound + 1) ('"' :: rest) = (tokensWithin bound after).map (.text chars :: ·) := by
  have solid : isSpace '"' = false := by decide
  have other : isMark '"' = false := by decide
  simp only [tokensWithin, solid, other, Bool.false_eq_true, if_false, if_true, closed,
    Option.bind_eq_bind, Option.bind_some]
  cases tokensWithin bound after <;> rfl

theorem tokensWithin_number {text : List Char} (written : number.Written text)
    (follows : Follows rest) (bound : ℕ) :
    tokensWithin (bound + 1) (text ++ rest) = (do
      let value ← number? number
      return .number value :: (← tokensWithin bound rest)) := by
  obtain ⟨c, more, start, sign⟩ := written.starts
  obtain ⟨body, spelled, split⟩ := splitNumber_append written follows
  cases negative : number.negative with
  | true =>
      simp only [negative, if_true, List.singleton_append] at spelled split
      rw [spelled, List.cons_append]
      simp [tokensWithin, isSpace, isMark, Text.openBrace, Text.closeBrace, split]
  | false =>
      simp only [negative, Bool.false_eq_true, if_false, List.nil_append] at sign spelled split
      have other (d : Char) (letter : d.isDigit = false) : c ≠ d :=
        Numeral.ne_of_isDigit sign letter
      rw [← spelled, start, List.cons_append] at split
      rw [start, List.cons_append]
      simp [tokensWithin, isSpace, isMark, Text.openBrace, Text.closeBrace, split, other]

/-- An object with a single member, whose value is a number. -/
def memberText (key numeral : String) : String :=
  "\x7b\"" ++ key ++ "\": " ++ numeral ++ "\x7d"

theorem tokens?_memberText (written : number.Written numeral.toList)
    (plain : ∀ c ∈ key.toList, isPlain c = true) :
    tokens? (memberText key numeral).toList = (number? number).map fun value =>
      [.mark Text.openBrace, .text key.toList, .mark ':', .number value,
        .mark Text.closeBrace] := by
  have spelled : (memberText key numeral).toList =
      Text.openBrace :: '"' :: (key.toList ++ '"' :: ':' :: ' ' ::
        (numeral.toList ++ [Text.closeBrace])) := by
    simp [memberText, Text.openBrace, Text.closeBrace]
  -- The text is longer than the key and the number by more characters than there are tokens.
  have bound : (memberText key numeral).toList.length =
      key.toList.length + numeral.toList.length + 6 := by
    rw [spelled]
    simp only [List.length_cons, List.length_append, List.length_nil]
    omega
  have follows : Follows [Text.closeBrace] := by
    rintro _ ⟨⟩
    decide
  rw [tokens?, bound, spelled, tokensWithin_mark (by decide) (by decide),
    tokensWithin_text (splitString_append plain), tokensWithin_mark (by decide) (by decide),
    tokensWithin_space (by decide), tokensWithin_number written follows,
    tokensWithin_mark (by decide) (by decide), tokensWithin]
  cases number? number <;> rfl

/-- The object has one member, the key with the number that was read. -/
theorem object?_memberText (written : number.Written numeral.toList)
    (plain : ∀ c ∈ key.toList, isPlain c = true) :
    object? (memberText key numeral) =
      (number? number).map fun value => [(key, value.toValue)] := by
  rw [object?, tokens?_memberText written plain]
  cases number? number with
  | none => rfl
  | some value =>
      simp [members?, membersWithin, splitMember, splitValue]

end Member

section Plain

variable {number : NumberText} {exponent : Option (Bool × List Char)} {tail text : List Char}

def exponentValue : Option (Bool × List Char) → ℤ
  | none => 0
  | some (negative, digits) => if negative then -digitsValue digits else digitsValue digits

/-- The decimal that a text denotes apart from its sign. -/
def NumberText.decimal (number : NumberText) : Decimal :=
  ⟨digitsValue (number.whole ++ number.fraction),
    exponentValue number.exponent - number.fraction.length⟩

/-- The text has neither a point nor an exponent. -/
def NumberText.isInteger (number : NumberText) : Bool :=
  number.fraction.isEmpty && number.exponent.isNone

/-- The digits before the point, with their sign. -/
def NumberText.integer (number : NumberText) : ℤ :=
  if number.negative then -digitsValue number.whole else digitsValue number.whole

theorem ExponentText.read (written : ExponentText exponent tail) :
    Numeral.exponent? tail = some (exponentValue exponent) := by
  cases written with
  | absent => rfl
  | unsigned letter all present =>
      rw [Numeral.exponent?, if_pos letter]
      exact Numeral.signedDigits?_digits all present false
  | @signed c digits negative letter all present =>
      rw [Numeral.exponent?, if_pos letter]
      cases negative with
      | true => exact Numeral.signedDigits?_digits all present true
      | false =>
          have every : digits.all Char.isDigit = true := List.all_eq_true.mpr all
          simp [Numeral.signedDigits?, Numeral.splitSign, present, every, exponentValue]

/-- On its own, the text is read as the decimal that it denotes. -/
theorem NumberText.Written.parse? (written : number.Written text) :
    Numeral.parse? text = some (.finite number.negative number.decimal) := by
  have present := written.whole_ne_nil
  obtain ⟨_, whole, fraction, tail, exponent, rfl⟩ := written
  have head : ∀ c ∈ tail.head?, c.isDigit = false ∧ c ≠ '.' := by
    have stops := exponent.head (show Follows [] from nofun)
    rwa [List.append_nil] at stops
  apply Numeral.Spells.parse?
  unfold NumberText.decimal
  cases digits : number.fraction with
  | nil =>
      have point : tail.head? ≠ some '.' := fun starts => (head '.' starts).2 rfl
      have spells := Numeral.spells_plain present whole (fun c starts => (head c starts).1) point
        exponent.read
      simpa [fractionText] using spells
  | cons c digits' =>
      rw [digits] at fraction
      exact Numeral.spells_point present whole fraction (fun c starts => (head c starts).1)
        exponent.read

theorem ExponentText.isTextChar (written : ExponentText exponent tail) {c : Char}
    (member : c ∈ tail) : Single.isTextChar c = true ∨ c = '+' := by
  cases written with
  | absent => cases member
  | unsigned letter all =>
      rcases List.mem_cons.mp member with rfl | digit
      · rcases letter with rfl | rfl <;> exact .inl rfl
      · exact .inl (Single.isTextChar_of_isDigit (all c digit))
  | signed negative letter all =>
      rcases List.mem_cons.mp member with rfl | later
      · rcases letter with rfl | rfl <;> exact .inl rfl
      · rcases List.mem_cons.mp later with rfl | digit
        · cases negative with
          | true => exact .inl rfl
          | false => exact .inr rfl
        · exact .inl (Single.isTextChar_of_isDigit (all c digit))

/-- The text of a number is made of digits, letters, points and signs. -/
theorem NumberText.Written.isTextChar (written : number.Written text) {c : Char}
    (member : c ∈ text) : Single.isTextChar c = true ∨ c = '+' := by
  obtain ⟨_, whole, fraction, tail, exponent, rfl⟩ := written
  simp only [List.mem_append] at member
  rcases member with sign | digit | point | last
  · exact .inl (Single.isTextChar_sign sign)
  · exact .inl (Single.isTextChar_of_isDigit (whole c digit))
  · cases digits : number.fraction with
    | nil =>
        rw [digits] at point
        cases point
    | cons first more =>
        rw [digits] at point fraction
        rcases List.mem_cons.mp point with rfl | digit
        · exact .inl rfl
        · exact .inl (Single.isTextChar_of_isDigit (fraction c digit))
  · exact exponent.isTextChar last

theorem NumberText.Written.trim (written : number.Written text) : Text.trim text = text := by
  have solid {c : Char} (member : c ∈ text) : Text.isBlank c = false := by
    rcases written.isTextChar member with known | rfl
    · exact Single.isBlank_of_isTextChar known
    · decide
  exact Text.trim_eq_self (fun c head => solid (List.mem_of_mem_head? head))
    (fun c last => solid (List.mem_of_mem_getLast? last))

/-- Only a text without point and exponent is read as an integer. -/
theorem NumberText.Written.parseInt? (written : number.Written text) :
    ConfigValue.parseInt? text =
      if number.isInteger && ConfigValue.fitsInt number.integer then some number.integer
      else none := by
  have present := written.whole_ne_nil
  obtain ⟨_, whole, _, tail, exponent, rfl⟩ := written
  cases integer : number.isInteger with
  | true =>
      obtain ⟨none, absent⟩ := Bool.and_eq_true_iff.mp integer
      rw [List.isEmpty_iff.mp none]
      rw [Option.isNone_iff_eq_none.mp absent] at exponent
      cases exponent
      have read := Numeral.signedDigits?_digits whole present number.negative
      simp only [fractionText, List.append_nil, ConfigValue.parseInt?, read, Bool.true_and]
      rfl
  | false =>
      have mark : ∃ c ∈ fractionText number.fraction ++ tail,
          c.isDigit = false ∧ c ≠ '+' ∧ c ≠ '-' := by
        cases digits : number.fraction with
        | cons c more => exact ⟨'.', List.mem_cons_self, by decide⟩
        | nil =>
            have exponential : number.exponent ≠ none := by
              intro absent
              simp [NumberText.isInteger, digits, absent] at integer
            generalize number.exponent = present at exponent exponential
            cases exponent with
            | absent => exact absurd rfl exponential
            | unsigned letter | signed _ letter =>
                refine ⟨_, List.mem_cons_self, ?_⟩
                rcases letter with rfl | rfl <;> decide
      obtain ⟨c, member, digit, plus, minus⟩ := mark
      rw [Bool.false_and, if_neg Bool.false_ne_true]
      exact ConfigValue.parseInt?_eq_none (by simp [member]) digit plus minus

/-- The value that the text of a number stands for on its own. -/
def NumberText.value (number : NumberText) : ConfigValue :=
  if number.isInteger && ConfigValue.fitsInt number.integer then .int number.integer
  else .float (.ofRank number.negative (number.decimal.rank .single))

theorem parse_written {numeral : String} (written : number.Written numeral.toList) :
    ConfigValue.parse numeral = .ok number.value := by
  obtain ⟨c, more, start, _⟩ := written.starts
  apply ConfigValue.parse_of_reads written.trim (by simp [start])
  have int := written.parseInt?
  unfold NumberText.value
  split_ifs with fits
  · rw [if_pos fits] at int
    exact int
  · rw [if_neg fits] at int
    refine ⟨int, ?_⟩
    rw [Single.parse?, written.parse?]
    rfl

end Plain

section Word

variable {number : NumberText} {numeral : String}

/-- The text of an integer that fits into 64 bits, with or without a sign. -/
def NumberText.IsWord (number : NumberText) : Prop :=
  number.isInteger = true ∧ -twoTo 63 ≤ number.integer ∧ number.integer ≤ maxWord

/-- The number with one more digit at its end. -/
def withDigit (n : ℕ) (c : Char) : ℕ :=
  10 * n + (c.toNat - '0'.toNat)

theorem le_foldl_withDigit (n : ℕ) (digits : List Char) : n ≤ digits.foldl withDigit n := by
  induction digits generalizing n with
  | nil => exact le_rfl
  | cons c digits ih =>
      have step : n ≤ withDigit n c := by
        rw [withDigit]
        omega
      exact step.trans (ih _)

/-- Digits that do not start with a zero denote a positive number. -/
theorem digitsValue_pos {whole : List Char} (all : AllDigits whole) (present : whole ≠ [])
    (nonzero : whole.head? ≠ some '0') : 0 < digitsValue whole := by
  obtain ⟨first, more, rfl⟩ := List.exists_cons_of_ne_nil present
  have digit := all first List.mem_cons_self
  simp only [Char.isDigit, Bool.and_eq_true, decide_eq_true_eq] at digit
  have least : '0'.toNat ≤ first.toNat := UInt32.le_iff_toNat_le.mp digit.1
  have other : '0'.toNat ≠ first.toNat := fun same =>
    nonzero (by rw [List.head?_cons, Char.toNat_inj.mp same])
  have leading : 0 < withDigit 0 first := by
    rw [withDigit]
    omega
  exact leading.trans_le (le_foldl_withDigit _ more)

/-- Minus zero is the only integer that is written with a sign and has no positive digits. -/
theorem NumberText.Written.digitsValue_pos (written : number.Written numeral.toList)
    (signed : numeral ≠ "-0") (integer : number.isInteger = true)
    (negative : number.negative = true) : 0 < digitsValue number.whole := by
  obtain ⟨leading, whole, _, tail, exponent, spelled⟩ := written
  rcases leading with zero | ⟨present, nonzero⟩
  · obtain ⟨none, absent⟩ := Bool.and_eq_true_iff.mp integer
    rw [Option.isNone_iff_eq_none.mp absent] at exponent
    cases exponent
    rw [List.isEmpty_iff.mp none, negative, zero] at spelled
    exact absurd (String.toList_inj.mp spelled) signed
  · exact Json.digitsValue_pos whole present nonzero

theorem number?_of_isWord (written : number.Written numeral.toList) (signed : numeral ≠ "-0")
    (word : number.IsWord) : number? number = some (.int number.integer) := by
  obtain ⟨integer, least, greatest⟩ := word
  have positive := written.digitsValue_pos signed integer
  unfold NumberText.integer at *
  unfold NumberText.isInteger at integer
  cases negative : number.negative with
  | false =>
      simp only [negative, Bool.false_eq_true, if_false] at least greatest ⊢
      have small : digitsValue number.whole ≤ maxWord := by exact_mod_cast greatest
      simp [number?, integer, negative, small]
  | true =>
      simp only [negative, if_true] at least greatest ⊢
      have small : digitsValue number.whole ≤ twoTo 63 := by omega
      simp [number?, integer, negative, positive negative, small]

theorem number?_of_not_isWord (word : ¬ number.IsWord) :
    number? number = (double? number).map (.double number.negative) := by
  unfold number?
  dsimp only
  rw [if_neg, if_neg]
  · simp only [Bool.and_eq_true, decide_eq_true_eq]
    rintro ⟨⟨⟨exact, negative⟩, _⟩, small⟩
    refine word ⟨Bool.and_eq_true_iff.mpr exact, ?_⟩
    rw [NumberText.integer, if_pos negative]
    omega
  · simp only [Bool.and_eq_true, decide_eq_true_eq, Bool.not_eq_true']
    rintro ⟨⟨exact, positive⟩, small⟩
    refine word ⟨Bool.and_eq_true_iff.mpr exact, ?_⟩
    rw [NumberText.integer, if_neg (by simp [positive])]
    omega

theorem toValue_of_isWord (word : number.IsWord) :
    Number.toValue (.int number.integer) = number.value := by
  obtain ⟨integer, least, greatest⟩ := word
  obtain ⟨none, absent⟩ := Bool.and_eq_true_iff.mp integer
  have decimal : number.decimal = ⟨digitsValue number.whole, 0⟩ := by
    rw [NumberText.decimal, List.isEmpty_iff.mp none, Option.isNone_iff_eq_none.mp absent,
      List.append_nil]
    rfl
  simp only [Number.toValue, NumberText.value, integer, Bool.true_and]
  split_ifs with fits
  · rfl
  · -- What does not fit with a sign is positive.
    simp only [ConfigValue.fitsInt, Bool.and_eq_true, decide_eq_true_eq, not_and, not_lt] at fits
    have large := fits least
    unfold NumberText.integer at large ⊢
    cases negative : number.negative with
    | true =>
        have positive : (0 : ℤ) < twoTo 63 := by decide
        rw [negative, if_pos rfl] at large
        omega
    | false =>
        have sign : decide ((digitsValue number.whole : ℤ) < 0) = false := by simp
        rw [decimal, Decimal.rank_whole, if_neg Bool.false_ne_true, Single.ofInt, sign,
          Int.natAbs_natCast]

theorem value_of_not_isWord (word : ¬ number.IsWord) :
    number.value = .float (.ofRank number.negative (number.decimal.rank .single)) := by
  refine if_neg fun fits => word ?_
  obtain ⟨integer, fits⟩ := Bool.and_eq_true_iff.mp fits
  simp only [ConfigValue.fitsInt, Bool.and_eq_true, decide_eq_true_eq] at fits
  have wide : twoTo 63 ≤ maxWord := by decide
  exact ⟨integer, fits.1, by omega⟩

end Word

end Json

end DistanceField
