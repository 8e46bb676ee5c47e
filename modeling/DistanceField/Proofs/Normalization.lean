import DistanceField.Config.Value
import DistanceField.Proofs.Blank
import DistanceField.Proofs.Spelling

/-! Values of a configuration settle once they are written. The kinds of value are tried in
turn, so what is written for one kind must not be taken for a kind that is tried before it. -/

namespace DistanceField

namespace Numeral

/-- Digits with a sign hold nothing else. -/
theorem signedDigits?_eq_none {text : List Char} {c : Char} (member : c ∈ text)
    (digit : c.isDigit = false) (plus : c ≠ '+') (minus : c ≠ '-') :
    signedDigits? text = none := by
  have inside : c ∈ (splitSign text).2 := by
    unfold splitSign
    split
    · exact (List.mem_cons.mp member).resolve_left plus
    · exact (List.mem_cons.mp member).resolve_left minus
    · exact member
  have mixed : (splitSign text).2.all Char.isDigit = false :=
    List.all_eq_false.mpr ⟨c, inside, by simp [digit]⟩
  simp [signedDigits?, mixed]

/-- A name that starts like that of a vector is no number. -/
theorem parse?_cons_v (rest : List Char) : parse? ('v' :: rest) = none := by
  have split : splitSign ('v' :: rest) = (false, 'v' :: rest) :=
    splitSign_of_ne (by decide) (by decide)
  have lower : ('v' :: rest).map Char.toLower = 'v' :: rest.map Char.toLower := rfl
  have unread : decimal? ('v' :: rest) = none := by
    simp [decimal?, splitDigits, splitFraction]
  simp [parse?, split, lower, unread]

end Numeral

/-- An integer is written with digits and a sign only. -/
theorem ConfigValue.parseInt?_eq_none {text : List Char} {c : Char} (member : c ∈ text)
    (digit : c.isDigit = false) (plus : c ≠ '+') (minus : c ≠ '-') : parseInt? text = none := by
  rw [parseInt?, Numeral.signedDigits?_eq_none member digit plus minus]
  rfl

namespace Single

theorem parse?_cons_v (rest : List Char) : parse? ('v' :: rest) = none := by
  rw [parse?, Numeral.parse?_cons_v]
  rfl

theorem visible_of_isTextChar {c : Char} (known : isTextChar c = true) :
    45 ≤ c.toNat ∧ c.toNat ≤ 122 := by
  have between {low high : Char} (inside : low.val ≤ c.val ∧ c.val ≤ high.val) :
      low.toNat ≤ c.toNat ∧ c.toNat ≤ high.toNat :=
    inside.imp UInt32.le_iff_toNat_le.mp UInt32.le_iff_toNat_le.mp
  simp only [isTextChar, Char.isAlphanum, Bool.or_eq_true, beq_iff_eq] at known
  rcases known with ((letter | digit) | rfl) | rfl
  · rcases Bool.or_eq_true_iff.mp letter with upper | lower
    · have range : 65 ≤ c.toNat ∧ c.toNat ≤ 90 := between (of_decide_eq_true upper)
      omega
    · have range : 97 ≤ c.toNat ∧ c.toNat ≤ 122 :=
        between ((Bool.and_eq_true_iff.mp lower).imp of_decide_eq_true of_decide_eq_true)
      omega
  · have range : 48 ≤ c.toNat ∧ c.toNat ≤ 57 :=
      between ((Bool.and_eq_true_iff.mp digit).imp of_decide_eq_true of_decide_eq_true)
    omega
  · decide
  · decide

theorem isBlank_of_isTextChar {c : Char} (known : isTextChar c = true) :
    Text.isBlank c = false := by
  have visible := visible_of_isTextChar known
  simp only [Text.isBlank, Bool.or_eq_false_iff, Bool.and_eq_false_iff, beq_eq_false_iff_ne,
    decide_eq_false_iff_not]
  omega

theorem trim_of_isTextChar {text : List Char} (all : ∀ c ∈ text, isTextChar c = true) :
    Text.trim text = text :=
  Text.trim_eq_self
    (fun c head => isBlank_of_isTextChar (all c (List.mem_of_mem_head? head)))
    (fun c last => isBlank_of_isTextChar (all c (List.mem_of_mem_getLast? last)))

/-- No text of a number is one of an integer. -/
theorem parseInt?_text (x : Single) : ConfigValue.parseInt? x.text.toList = none := by
  have mark : ∃ c ∈ x.text.toList, c.isDigit = false ∧ c ≠ '+' ∧ c ≠ '-' := by
    cases special : x.isNaN with
    | true =>
        rw [text, special, if_pos rfl]
        exact ⟨'N', by decide, by decide⟩
    | false =>
        have atMost := Nat.not_lt.mp (of_decide_eq_false special)
        rcases atMost.lt_or_eq with finite | infinite
        · rcases mark_mem_text finite with point | exponent
          · exact ⟨'.', point, by decide⟩
          · exact ⟨'e', exponent, by decide⟩
        · rw [text_eq special, infinite]
          exact ⟨'i', List.mem_append_right _ (by decide), by decide⟩
  obtain ⟨c, member, digit, plus, minus⟩ := mark
  exact ConfigValue.parseInt?_eq_none member digit plus minus

end Single

namespace ConfigValue

/-- A text without white space at its ends is taken for a value. -/
def Reads (text : List Char) : ConfigValue → Prop
  | .int n => parseInt? text = some n
  | .float x => parseInt? text = none ∧ Single.parse? text = some x
  | .vector components =>
      parseInt? text = none ∧ Single.parse? text = none ∧ parseVector? text = some components
  | .raw same =>
      parseInt? text = none ∧ Single.parse? text = none ∧ parseVector? text = none ∧
        same.toList = text

theorem parse_ok_iff {text : String} :
    parse text = .ok value ↔
      Text.trim text.toList ≠ [] ∧ Reads (Text.trim text.toList) value := by
  simp only [parse]
  generalize Text.trim text.toList = trimmed
  by_cases empty : trimmed = []
  · simp [empty]
  · rw [if_neg (by simpa using empty)]
    simp only [ne_eq, empty, not_false_eq_true, true_and]
    cases int : parseInt? trimmed with
    | some n => cases value <;> simp [Reads, int]
    | none =>
        cases float : Single.parse? trimmed with
        | some x => cases value <;> simp [Reads, int, float]
        | none =>
            cases vector : parseVector? trimmed with
            | some components => cases value <;> simp [Reads, int, float, vector]
            | none =>
                cases value <;> simp [Reads, int, float, vector, ← String.toList_inj, eq_comm]

/-- Texts without white space at their ends are read as they stand. -/
theorem parse_of_reads {text : String} (trimmed : Text.trim text.toList = text.toList)
    (some : text.toList ≠ []) (reads : Reads text.toList value) : parse text = .ok value := by
  apply parse_ok_iff.mpr
  rw [trimmed]
  exact ⟨some, reads⟩

theorem toList_intText (n : ℤ) :
    (intText n).toList = (if n < 0 then ['-'] else []) ++ Nat.toDigits 10 n.natAbs := by
  rw [intText]
  split <;> simp [Nat.repr_eq_ofList_toDigits]

theorem isTextChar_intText {n : ℤ} {c : Char} (member : c ∈ (intText n).toList) :
    Single.isTextChar c = true := by
  rw [toList_intText] at member
  rcases List.mem_append.mp member with minus | digit
  · exact Single.isTextChar_sign minus
  · exact Single.isTextChar_of_isDigit (Numeral.allDigits_toDigits _ c digit)

theorem parse_intText {n : ℤ} (fits : fitsInt n = true) : parse (intText n) = .ok (.int n) := by
  have read := Numeral.signedDigits?_int n
  rw [← toList_intText] at read
  apply parse_of_reads
  · exact Single.trim_of_isTextChar fun _ => isTextChar_intText
  · rw [toList_intText]
    exact List.append_ne_nil_of_right_ne_nil _ Nat.toDigits_ne_nil
  · rw [Reads, parseInt?, read, Option.filter_some, if_pos fits]

theorem parse_singleText {x : Single} (known : x.isNaN = false) :
    parse x.text = .ok (.float x) := by
  apply parse_of_reads
  · exact Single.trim_of_isTextChar fun _ => x.isTextChar_text
  · exact x.text_ne_nil
  · exact ⟨x.parseInt?_text, Single.parse?_text known⟩

theorem pieces_cons_v (rest : List Char) :
    ∃ first more, Text.pieces ',' ('v' :: rest) = ('v' :: first) :: more := by
  rw [Text.pieces]
  cases Text.pieces ',' rest with
  | nil => exact ⟨[], [], rfl⟩
  | cons first more => exact ⟨first, more, rfl⟩

theorem parseVector?_cons_v (rest : List Char) : parseVector? ('v' :: rest) = none := by
  obtain ⟨first, more, cut⟩ := pieces_cons_v rest
  have trimmed : ∃ name, Text.trim ('v' :: first) = 'v' :: name := by
    refine ⟨Text.trimEnd first, ?_⟩
    have solid : Text.isBlank 'v' = false := by decide
    rw [Text.trim, Text.trimStart_cons, solid, if_neg Bool.false_ne_true, Text.trimEnd_cons,
      Text.isBlankLine_cons, solid, Bool.false_and, if_neg Bool.false_ne_true]
  obtain ⟨name, trimmed⟩ := trimmed
  have unread : Single.parse? (Text.trim ('v' :: first)) = none := by
    rw [trimmed, Single.parse?_cons_v]
  rw [parseVector?, cut]
  cases more with
  | nil => rfl
  | cons second others => simp [List.mapM_cons, unread]

theorem toList_vectorText (components : List Single) :
    (text (.vector components)).toList =
      ('v' :: ("ec".toList ++ Nat.toDigits 10 components.length ++ '(' ::
        ", ".toList.intercalate (components.map (·.text.toList)))) ++ [')'] := by
  simp [text, Nat.repr_eq_ofList_toDigits, Function.comp_def]

/-- A vector is read back as the text it was written as. -/
theorem parse_vectorText (components : List Single) :
    parse (text (.vector components)) = .ok (.raw (text (.vector components))) := by
  obtain ⟨inner, shape⟩ : ∃ inner, (text (.vector components)).toList =
      ('v' :: inner) ++ [')'] := ⟨_, toList_vectorText components⟩
  apply parse_of_reads
  · rw [shape]
    apply Text.trim_eq_self
    · rintro c ⟨⟩
      decide
    · intro c last
      rw [List.getLast?_concat] at last
      cases last
      decide
  · rw [shape]
    exact List.cons_ne_nil _ _
  · rw [Reads, shape, List.cons_append]
    refine ⟨?_, Single.parse?_cons_v _, parseVector?_cons_v _, rfl⟩
    exact parseInt?_eq_none List.mem_cons_self (by decide) (by decide) (by decide)

/-- The values that come back as they are. -/
def isFaithful : ConfigValue → Bool
  | .int _ | .raw _ => true
  | .float x => !x.isNaN
  | .vector _ => false

/-- What is written for a value that was read is read again, and as a value with the same text.
It is the value itself, unless that is a vector or no number; a vector comes back as text. -/
theorem parse_text_stable {source : String} {value : ConfigValue}
    (parsed : parse source = .ok value) :
    ∃ again, parse value.text = .ok again ∧ again.text = value.text ∧
      (value.isFaithful = true → again = value) ∧
      ∀ components, value = .vector components → again = .raw value.text := by
  obtain ⟨some, reads⟩ := parse_ok_iff.mp parsed
  cases value with
  | int n =>
      obtain ⟨_, fits⟩ := Option.filter_eq_some_iff.mp reads
      exact ⟨.int n, parse_intText fits, rfl, fun _ => rfl, by simp⟩
  | float x =>
      cases special : x.isNaN with
      | false => exact ⟨.float x, parse_singleText special, rfl, fun _ => rfl, by simp⟩
      | true =>
          -- The bits are not written, so it is the standard one that comes back.
          have written : x.text = "NaN" := by rw [Single.text, special, if_pos rfl]
          refine ⟨.float .nan, ?_, ?_, ?_, by simp⟩
          · rw [text, written]
            decide +kernel
          · rw [text, text, written]
            decide +kernel
          · simp [isFaithful, special]
  | vector components =>
      exact ⟨.raw (text (.vector components)), parse_vectorText components, rfl,
        by simp [isFaithful], fun _ _ => rfl⟩
  | raw same =>
      obtain ⟨int, float, vector, spelled⟩ := reads
      refine ⟨.raw same, parse_of_reads ?_ ?_ ?_, rfl, fun _ => rfl, by simp⟩
      · rw [text, spelled, Text.trim_trim]
      · rwa [text, spelled]
      · rw [text, spelled]
        exact ⟨int, float, vector, spelled⟩

/-- The least positive integer that does not fit is rounded to a number. -/
theorem parse_text_wide :
    parse " 9223372036854775808 " = .ok (.float ⟨0x5F000000⟩) ∧
      text (.float ⟨0x5F000000⟩) = "9.223372e18" ∧
      parse "9.223372e18" = .ok (.float ⟨0x5F000000⟩) := by
  have parsed : parse " 9223372036854775808 " = .ok (.float ⟨0x5F000000⟩) := by decide +kernel
  have written : text (.float ⟨0x5F000000⟩) = "9.223372e18" := by decide +kernel
  obtain ⟨again, reread, _, same, _⟩ := parse_text_stable parsed
  rw [same (by decide), written] at reread
  exact ⟨parsed, written, reread⟩

end ConfigValue

end DistanceField
