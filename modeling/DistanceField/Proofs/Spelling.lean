import DistanceField.Number.Single
import DistanceField.Proofs.Shortest

/-! Texts of numbers. Reading undoes writing: the text of a decimal is read as the same number,
and the text of a finite single is the shortest decimal that is rounded to it. -/

namespace DistanceField

/-- A run of characters of one kind ends where the kind does. -/
theorem takeWhile_dropWhile_append {kind : Char → Bool} {word rest : List Char}
    (all : ∀ c ∈ word, kind c = true) (stops : ∀ c ∈ rest.head?, kind c = false) :
    (word ++ rest).takeWhile kind = word ∧ (word ++ rest).dropWhile kind = rest := by
  rw [List.takeWhile_append_of_pos all, List.dropWhile_append_of_pos all]
  cases rest with
  | nil => simp
  | cons c rest => simp [stops c rfl]

namespace Numeral

variable {digits rest : List Char}

theorem digitsValue_eq (digits : List Char) : digitsValue digits = Nat.ofDigitChars 10 digits 0 :=
  Nat.ofDigitChars_eq_foldl.symm

theorem digitsValue_toDigits (n : ℕ) : digitsValue (Nat.toDigits 10 n) = n := by
  rw [digitsValue_eq, Nat.ofDigitChars_ten_toDigits]

theorem digitsValue_append_zeros (digits : List Char) (zeros : ℕ) :
    digitsValue (digits ++ List.replicate zeros '0') = digitsValue digits * 10 ^ zeros := by
  rw [digitsValue_eq, digitsValue_eq, Nat.ofDigitChars_append, Nat.ofDigitChars_replicate_zero,
    mul_comm]

theorem digitsValue_zeros_append (zeros : ℕ) (digits : List Char) :
    digitsValue (List.replicate zeros '0' ++ digits) = digitsValue digits := by
  rw [digitsValue_eq, digitsValue_eq, Nat.ofDigitChars_append, Nat.ofDigitChars_replicate_zero,
    mul_zero]

/-- Digits, and nothing else. -/
def AllDigits (text : List Char) : Prop :=
  ∀ c ∈ text, c.isDigit = true

theorem allDigits_toDigits (n : ℕ) : AllDigits (Nat.toDigits 10 n) := fun _ member =>
  Nat.isDigit_of_mem_toDigits (by norm_num) le_rfl member

theorem allDigits_replicate (n : ℕ) : AllDigits (List.replicate n '0') := by
  intro c member
  rw [List.eq_of_mem_replicate member]
  rfl

theorem AllDigits.append (first : AllDigits digits) (second : AllDigits rest) :
    AllDigits (digits ++ rest) :=
  List.forall_mem_append.mpr ⟨first, second⟩

/-- A run of digits ends here. -/
def StopsDigits (text : List Char) : Prop :=
  ∀ c ∈ text.head?, c.isDigit = false

theorem splitDigits_append (all : AllDigits digits) (stops : StopsDigits rest) :
    splitDigits (digits ++ rest) = (digits, rest) := by
  obtain ⟨first, second⟩ := takeWhile_dropWhile_append all stops
  rw [splitDigits, first, second]

theorem splitSign_of_ne {c : Char} (plus : c ≠ '+') (minus : c ≠ '-') :
    splitSign (c :: rest) = (false, c :: rest) := by
  unfold splitSign
  split <;> simp_all

theorem ne_of_isDigit {c d : Char} (digit : c.isDigit = true) (other : d.isDigit = false) :
    c ≠ d := by
  rintro rfl
  simp [digit] at other

theorem signedDigits?_digits (all : AllDigits digits) (some : digits ≠ []) (negative : Bool) :
    signedDigits? ((if negative then ['-'] else []) ++ digits) =
      Option.some (if negative then -digitsValue digits else digitsValue digits : ℤ) := by
  have split : splitSign ((if negative then ['-'] else []) ++ digits) = (negative, digits) := by
    cases negative with
    | true => rfl
    | false =>
        cases digits with
        | nil => exact absurd rfl some
        | cons c digits =>
            have digit := all c List.mem_cons_self
            exact splitSign_of_ne (ne_of_isDigit digit rfl) (ne_of_isDigit digit rfl)
  have every : digits.all Char.isDigit = true := List.all_eq_true.mpr all
  unfold signedDigits?
  rw [split]
  simp only [List.isEmpty_eq_false_iff.mpr some, every]
  cases negative <;> rfl

/-- An integer in decimal digits is read as itself. -/
theorem signedDigits?_int (n : ℤ) :
    signedDigits? ((if n < 0 then ['-'] else []) ++ Nat.toDigits 10 n.natAbs) = some n := by
  have read := signedDigits?_digits (allDigits_toDigits n.natAbs) Nat.toDigits_ne_nil
    (decide (n < 0))
  simp only [decide_eq_true_eq, digitsValue_toDigits] at read
  rw [read]
  split <;> congr 1 <;> omega

/-- A text that starts with a digit and is read as a decimal. -/
structure Spells (text : List Char) (decimal : Decimal) : Prop where
  starts : ∃ c rest, text = c :: rest ∧ c.isDigit = true
  read : decimal? text = some decimal

section Spells

variable {whole fraction tail : List Char} {exponent : ℤ} {decimal : Decimal}

theorem AllDigits.starts (all : AllDigits whole) (some : whole ≠ []) (tail : List Char) :
    ∃ c rest, whole ++ tail = c :: rest ∧ c.isDigit = true := by
  obtain ⟨c, rest, rfl⟩ := List.exists_cons_of_ne_nil some
  exact ⟨c, rest ++ tail, rfl, all c List.mem_cons_self⟩

/-- Digits on both sides of a point. -/
theorem spells_point (some : whole ≠ []) (left : AllDigits whole) (right : AllDigits fraction)
    (stops : StopsDigits tail) (read : exponent? tail = Option.some exponent) :
    Spells (whole ++ '.' :: (fraction ++ tail))
      ⟨digitsValue (whole ++ fraction), exponent - fraction.length⟩ := by
  have first : StopsDigits ('.' :: (fraction ++ tail)) := by simp [StopsDigits]
  have second : splitFraction ('.' :: (fraction ++ tail)) = (fraction, tail) :=
    splitDigits_append right stops
  refine ⟨left.starts some _, ?_⟩
  unfold decimal?
  rw [splitDigits_append left first]
  simp [second, some, read]

/-- Digits without a point, and what follows them. -/
theorem spells_plain (some : whole ≠ []) (left : AllDigits whole) (stops : StopsDigits tail)
    (point : tail.head? ≠ Option.some '.') (read : exponent? tail = Option.some exponent) :
    Spells (whole ++ tail) ⟨digitsValue whole, exponent⟩ := by
  have second : splitFraction tail = ([], tail) := by
    unfold splitFraction
    split
    · simp at point
    · rfl
  refine ⟨left.starts some _, ?_⟩
  unfold decimal?
  rw [splitDigits_append left stops]
  simp [second, some, read]

/-- Digits without a point, and an exponent. -/
theorem spells_whole (some : whole ≠ []) (left : AllDigits whole)
    (read : signedDigits? tail = Option.some exponent) :
    Spells (whole ++ 'e' :: tail) ⟨digitsValue whole, exponent⟩ :=
  spells_plain some left (by simp [StopsDigits]) (by simp) read

/-- A text that starts with a digit is no name of a special value. -/
theorem Spells.parse? {text : List Char} (spells : Spells text decimal) (negative : Bool) :
    Numeral.parse? ((if negative then ['-'] else []) ++ text) =
      some (.finite negative decimal) := by
  obtain ⟨⟨c, rest, rfl, digit⟩, read⟩ := spells
  have split :
      splitSign ((if negative then ['-'] else []) ++ c :: rest) = (negative, c :: rest) := by
    cases negative with
    | true => rfl
    | false => exact splitSign_of_ne (ne_of_isDigit digit rfl) (ne_of_isDigit digit rfl)
  have lower : c.toLower = c := by
    simp only [Char.isDigit, Bool.and_eq_true, decide_eq_true_eq] at digit
    refine dif_neg fun upper => ?_
    exact absurd (UInt32.le_trans upper.1 digit.2) (by decide)
  have name (first : Char) (more : List Char) (letter : first.isDigit = false) :
      (c :: rest).map Char.toLower ≠ first :: more := by
    rw [List.map_cons, lower]
    exact fun same => ne_of_isDigit digit letter (List.cons.inj same).1
  have nan : (c :: rest).map Char.toLower ≠ "nan".toList := name 'n' ['a', 'n'] rfl
  have inf : (c :: rest).map Char.toLower ≠ "inf".toList := name 'i' ['n', 'f'] rfl
  have infinity : (c :: rest).map Char.toLower ≠ "infinity".toList :=
    name 'i' ['n', 'f', 'i', 'n', 'i', 't', 'y'] rfl
  unfold Numeral.parse?
  rw [split]
  dsimp only
  rw [if_neg nan, if_neg (not_or.mpr ⟨inf, infinity⟩), read]
  rfl

end Spells

end Numeral

namespace Single

section Decimal

variable {digits : List Char}

open Numeral

/-- A decimal without an exponent part is read as the same number. -/
theorem spells_positionalText (all : AllDigits digits) (some : digits ≠ []) (exponent : ℤ) :
    ∃ zeros : ℕ, Spells (positionalText digits exponent)
      ⟨digitsValue digits * 10 ^ zeros, exponent - zeros⟩ := by
  unfold positionalText
  split_ifs with whole
  · refine ⟨exponent.toNat + 1, ?_⟩
    have value : digitsValue (digits ++ List.replicate exponent.toNat '0' ++ ['0']) =
        digitsValue digits * 10 ^ (exponent.toNat + 1) := by
      rw [show ['0'] = List.replicate 1 '0' from rfl, List.append_assoc, ← List.replicate_add,
        digitsValue_append_zeros]
    have places : exponent - (exponent.toNat + 1 : ℕ) = 0 - (['0'].length : ℕ) := by
      rw [List.length_singleton]
      omega
    rw [← value, places]
    exact spells_point (by simp [some]) (all.append (allDigits_replicate _))
      (allDigits_replicate 1) (by simp [StopsDigits]) rfl
  · refine ⟨0, ?_⟩
    dsimp only
    generalize count : (-exponent).toNat = places
    generalize text : List.replicate (places + 1 - digits.length) '0' ++ digits = padded
    have digitsOnly : AllDigits padded := text ▸ (allDigits_replicate _).append all
    have long : places + 1 ≤ padded.length := by
      rw [← text, List.length_append, List.length_replicate]
      omega
    have value : digitsValue padded = digitsValue digits * 10 ^ 0 := by
      rw [← text, digitsValue_zeros_append, pow_zero, mul_one]
    have right : exponent - (0 : ℕ) = 0 - ((padded.drop (padded.length - places)).length : ℕ) := by
      rw [List.length_drop]
      omega
    rw [← value, right]
    have spells := spells_point
      (List.ne_nil_of_length_pos (by rw [List.length_take]; omega) :
        padded.take (padded.length - places) ≠ [])
      (fun c member => digitsOnly c (List.mem_of_mem_take member))
      (fun c member => digitsOnly c (List.mem_of_mem_drop member) :
        AllDigits (padded.drop (padded.length - places)))
      (by simp [StopsDigits] : StopsDigits []) rfl
    rwa [List.append_nil, List.take_append_drop] at spells

/-- A decimal with an exponent part is read as the same number. -/
theorem spells_exponentText (all : AllDigits digits) (some : digits ≠ []) (leading : ℤ) :
    Spells (exponentText digits leading)
      ⟨digitsValue digits, leading - (digits.length - 1 : ℕ)⟩ := by
  obtain ⟨first, more, rfl⟩ := List.exists_cons_of_ne_nil some
  have read := signedDigits?_int leading
  have left : AllDigits [first] := fun c member =>
    all c (List.mem_cons.mpr (.inl (List.mem_singleton.mp member)))
  have right : AllDigits more := fun c member => all c (List.mem_cons_of_mem first member)
  unfold exponentText
  cases more with
  | nil =>
      have spells := spells_whole (by simp) left read
      simpa using spells
  | cons second more =>
      have spells := spells_point (by simp) left right
        (by simp [StopsDigits] : StopsDigits ('e' :: _)) read
      simpa using spells

/-- The text of a decimal is read as the same number, with zeros added at most. -/
theorem spells_decimalText (decimal : Decimal) :
    ∃ zeros : ℕ, Spells (decimalText decimal)
      ⟨decimal.coefficient * 10 ^ zeros, decimal.exponent - zeros⟩ := by
  have all := allDigits_toDigits decimal.coefficient
  have value := digitsValue_toDigits decimal.coefficient
  have some : Nat.toDigits 10 decimal.coefficient ≠ [] := Nat.toDigits_ne_nil
  unfold decimalText
  generalize Nat.toDigits 10 decimal.coefficient = digits at all value some ⊢
  rw [← value]
  dsimp only
  split_ifs
  · exact spells_positionalText all some decimal.exponent
  · refine ⟨0, ?_⟩
    have count := List.length_pos_iff.mpr some
    have exponent : decimal.exponent + digits.length - 1 - (digits.length - 1 : ℕ) =
        decimal.exponent - (0 : ℕ) := by
      omega
    have spells := spells_exponentText all some (decimal.exponent + digits.length - 1)
    rwa [exponent, ← mul_one (digitsValue digits), ← pow_zero 10] at spells

/-- There is always a point or an exponent. -/
theorem mark_mem_decimalText (decimal : Decimal) :
    '.' ∈ decimalText decimal ∨ 'e' ∈ decimalText decimal := by
  unfold decimalText
  dsimp only
  split_ifs
  · unfold positionalText
    split_ifs <;> simp
  · exact .inr (by simp [exponentText])

/-- The characters that texts of numbers are made of. -/
def isTextChar (c : Char) : Bool :=
  c.isAlphanum || c == '.' || c == '-'

theorem isTextChar_of_isDigit {c : Char} (digit : c.isDigit = true) : isTextChar c = true := by
  simp [isTextChar, Char.isAlphanum, digit]

theorem isTextChar_sign {c : Char} {negative : Prop} [Decidable negative]
    (member : c ∈ if negative then ['-'] else []) : isTextChar c = true := by
  split at member
  · rw [List.mem_singleton.mp member]
    rfl
  · cases member

theorem isTextChar_positionalText (all : AllDigits digits) (exponent : ℤ) {c : Char}
    (member : c ∈ positionalText digits exponent) : isTextChar c = true := by
  unfold positionalText at member
  split_ifs at member
  · rcases List.mem_append.mp member with number | ending
    · exact isTextChar_of_isDigit (all.append (allDigits_replicate _) c number)
    · exact List.all_eq_true.mp (by decide : ".0".toList.all isTextChar = true) c ending
  · have padded {n : ℕ} (inside : c ∈ List.replicate n '0' ++ digits) : isTextChar c = true :=
      isTextChar_of_isDigit ((allDigits_replicate n).append all c inside)
    rcases List.mem_append.mp member with left | right
    · exact padded (List.mem_of_mem_take left)
    · rcases List.mem_cons.mp right with rfl | right
      · rfl
      · exact padded (List.mem_of_mem_drop right)

theorem isTextChar_exponentText (all : AllDigits digits) (leading : ℤ) {c : Char}
    (member : c ∈ exponentText digits leading) : isTextChar c = true := by
  have digit (inside : c ∈ digits) : isTextChar c = true := isTextChar_of_isDigit (all c inside)
  simp only [exponentText, List.mem_append, List.mem_cons] at member
  rcases member with ((first | more) | rfl | minus) | exponent
  · exact digit (List.mem_of_mem_take first)
  · split_ifs at more
    · cases more
    · rcases List.mem_cons.mp more with rfl | more
      · rfl
      · exact digit (List.mem_of_mem_drop more)
  · rfl
  · exact isTextChar_sign minus
  · exact isTextChar_of_isDigit (allDigits_toDigits _ c exponent)

theorem isTextChar_decimalText (decimal : Decimal) {c : Char} (member : c ∈ decimalText decimal) :
    isTextChar c = true := by
  have all := allDigits_toDigits decimal.coefficient
  unfold decimalText at member
  dsimp only at member
  split_ifs at member
  · exact isTextChar_positionalText all _ member
  · exact isTextChar_exponentText all _ member

end Decimal

section Rank

/-- The text of a finite rank is that of a decimal that is rounded to it, for a positive rank on
the coarsest grid that has one. -/
theorem rankText_eq {rank : ℕ} (finite : rank < BinaryFormat.single.infinity) :
    ∃ decimal, rankText rank = decimalText decimal ∧
      BinaryFormat.single.Nearest decimal.value rank ∧
      (0 < rank → Decimal.Coarsest .single rank decimal) := by
  unfold rankText
  split_ifs with zero infinite
  · subst zero
    refine ⟨⟨0, 0⟩, by decide, BinaryFormat.nearest_zero ?_ ?_, nofun⟩ <;> simp [Decimal.value]
  · exact absurd infinite finite.ne
  · have positive := Nat.pos_of_ne_zero zero
    have chosen : Decimal.Coarsest .single rank (Decimal.shortest .single rank) :=
      Decimal.shortest_coarsest positive
    exact ⟨_, rfl, (BinaryFormat.nearest_iff (Decimal.value_nonneg _)).mpr chosen.caught,
      fun _ => chosen⟩

end Rank

section Bits

theorem bits_eq (x : Single) :
    x.bits.toNat = x.rank + if x.negative then 2 ^ 31 else 0 := by
  have bound := x.bits.toNat_lt
  rw [rank, twoTo_eq]
  by_cases signed : 2 ^ 31 ≤ x.bits.toNat
  · have negative : x.negative = true := decide_eq_true signed
    rw [negative, if_pos rfl]
    omega
  · have positive : x.negative = false := decide_eq_false signed
    rw [positive, if_neg Bool.false_ne_true]
    omega

theorem ofRank_rank (x : Single) : ofRank x.negative x.rank = x := by
  unfold ofRank
  rw [twoTo_eq, ← bits_eq, UInt32.ofNat_toNat]

/-- A signed decimal is rounded to a number, bit for bit: the sign is that of the decimal, also
for a zero, and no other magnitude is nearer. -/
def RoundedFrom (x : Single) (negative : Bool) (decimal : Decimal) : Prop :=
  x.negative = negative ∧ BinaryFormat.single.Nearest decimal.value x.rank

end Bits

section Text

variable {x : Single}

theorem text_eq (known : x.isNaN = false) :
    x.text.toList = (if x.negative then ['-'] else []) ++ rankText x.rank := by
  unfold text
  rw [known, if_neg Bool.false_ne_true, String.toList_ofList]

theorem isNaN_of_finite (finite : x.rank < BinaryFormat.single.infinity) : x.isNaN = false :=
  decide_eq_false (Nat.not_lt.mpr finite.le)

theorem isTextChar_text (x : Single) {c : Char} (member : c ∈ x.text.toList) :
    isTextChar c = true := by
  cases special : x.isNaN with
  | true =>
      unfold text at member
      rw [special, if_pos rfl] at member
      exact List.all_eq_true.mp (by decide : "NaN".toList.all isTextChar = true) c member
  | false =>
      rw [text_eq special] at member
      rcases List.mem_append.mp member with minus | number
      · exact isTextChar_sign minus
      · unfold rankText at number
        split_ifs at number
        · exact List.all_eq_true.mp (by decide : "0.0".toList.all isTextChar = true) c number
        · exact List.all_eq_true.mp (by decide : "inf".toList.all isTextChar = true) c number
        · exact isTextChar_decimalText _ number

/-- The text of a finite number is read as a decimal that is rounded to its magnitude, and no
decimal with fewer significant digits is. -/
theorem parse?_text_finite (finite : x.rank < BinaryFormat.single.infinity) :
    ∃ decimal, Numeral.parse? x.text.toList = some (.finite x.negative decimal) ∧
      BinaryFormat.single.Nearest decimal.value x.rank ∧
      (0 < x.rank → ∀ other : Decimal, BinaryFormat.single.Nearest other.value x.rank →
        decimal.significantDigits ≤ other.significantDigits) := by
  obtain ⟨decimal, written, nearest, coarsest⟩ := rankText_eq finite
  obtain ⟨zeros, spells⟩ := spells_decimalText decimal
  have same : Decimal.value ⟨decimal.coefficient * 10 ^ zeros, decimal.exponent - zeros⟩ =
      decimal.value := by
    rw [Decimal.value, Decimal.value, zpow_sub₀ (by norm_num), zpow_natCast]
    push_cast
    field_simp
  have digits := Decimal.significantDigits_mul_pow decimal.coefficient zeros
    (decimal.exponent - zeros) decimal.exponent
  rw [text_eq (isNaN_of_finite finite), written]
  refine ⟨_, spells.parse? x.negative, same.symm ▸ nearest, fun positive other also => ?_⟩
  rw [digits]
  exact (coarsest positive).significantDigits_le positive
    ((BinaryFormat.nearest_iff other.value_nonneg).mp also)

/-- Every text is read as the number it was written for. -/
theorem parse?_text (known : x.isNaN = false) : parse? x.text.toList = some x := by
  have atMost : x.rank ≤ BinaryFormat.single.infinity := Nat.not_lt.mp (of_decide_eq_false known)
  unfold parse?
  rcases atMost.lt_or_eq with finite | infinite
  · obtain ⟨decimal, read, nearest, _⟩ := parse?_text_finite finite
    have rank := (Decimal.rank_eq_iff (by decide) finite).mpr nearest
    rw [read, Option.map_some, ofNumeral, rank, ofRank_rank]
  · have read : Numeral.parse? ((if x.negative then ['-'] else []) ++ "inf".toList) =
        some (.infinite x.negative) := by
      cases x.negative <;> decide
    have written : rankText x.rank = "inf".toList := by
      rw [infinite]
      decide
    rw [text_eq known, written, read, Option.map_some, ofNumeral, ← infinite, ofRank_rank]

theorem mark_mem_text (finite : x.rank < BinaryFormat.single.infinity) :
    '.' ∈ x.text.toList ∨ 'e' ∈ x.text.toList := by
  obtain ⟨chosen, written, _⟩ := rankText_eq finite
  rw [text_eq (isNaN_of_finite finite), written]
  exact (mark_mem_decimalText chosen).imp (List.mem_append_right _) (List.mem_append_right _)

theorem text_ne_nil (x : Single) : x.text.toList ≠ [] := by
  intro empty
  cases special : x.isNaN with
  | true =>
      rw [text, special, if_pos rfl] at empty
      exact absurd empty (by decide)
  | false =>
      have read := parse?_text special
      have unread : parse? [] = none := by decide
      rw [empty, unread] at read
      cases read

/-- The text of a finite number has a point or an exponent. It is a decimal that is rounded to
the number, bit for bit, and is read as that number; unless the number is zero, no decimal with
fewer significant digits is rounded to it. -/
theorem text_shortest (x : Single) (finite : x.rank < BinaryFormat.single.infinity) :
    ('.' ∈ x.text.toList ∨ 'e' ∈ x.text.toList) ∧
    ∃ negative decimal, Numeral.parse? x.text.toList = some (.finite negative decimal) ∧
      x.RoundedFrom negative decimal ∧ parse? x.text.toList = some x ∧
      (x.rank ≠ 0 → ∀ sign shorter, shorter.significantDigits < decimal.significantDigits →
        ¬ x.RoundedFrom sign shorter) := by
  obtain ⟨decimal, read, nearest, fewest⟩ := parse?_text_finite finite
  refine ⟨mark_mem_text finite, x.negative, decimal, read, ⟨rfl, nearest⟩,
    parse?_text (isNaN_of_finite finite), ?_⟩
  intro some sign shorter fewer rounded
  exact absurd (fewest (Nat.pos_of_ne_zero some) shorter rounded.2) (Nat.not_le.mpr fewer)

/-- Two to the power of 24, whose neighbours below are nearer than those above. -/
def powerOfTwo : Single := ⟨0x4B800000⟩

theorem powerOfTwo_shortest :
    powerOfTwo.text = "16777216.0" ∧
      ∀ sign shorter, shorter.significantDigits ≤ 7 → ¬ powerOfTwo.RoundedFrom sign shorter := by
  obtain ⟨_, negative, decimal, read, _, _, shortest⟩ :=
    text_shortest powerOfTwo (by decide +kernel)
  have text : powerOfTwo.text = "16777216.0" := by decide +kernel
  refine ⟨text, fun sign shorter few => shortest (by decide +kernel) sign shorter ?_⟩
  have known : Numeral.parse? powerOfTwo.text.toList =
      some (.finite false ⟨167772160, -1⟩) := by
    decide +kernel
  have digits : Decimal.significantDigits ⟨167772160, -1⟩ = 8 := by
    norm_num [Decimal.significantDigits]
  rw [known] at read
  cases read
  omega

end Text

end Single

end DistanceField
