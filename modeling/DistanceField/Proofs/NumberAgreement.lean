import DistanceField.Proofs.DoubleRounding
import DistanceField.Proofs.JsonNumber

/-! What a number means in a JSON configuration and on its own. Integers of 64 bits mean the
same. Everything else is rounded once on its own and at least twice in JSON, so that the two can
differ where a halfway point between two neighbouring singles comes in between. -/

namespace DistanceField

open BinaryFormat (single double)
open Numeral (digitsValue)

namespace BinaryFormat

variable {format : BinaryFormat} {x : ℚ} {rank a b num den : ℕ}

theorem nearest_value (format : BinaryFormat) (rank : ℕ) :
    format.Nearest (format.value rank) rank :=
  nearest_of_mem_catchment (Decimal.value_mem_catchment format rank)

/-- A quotient that is the value of a rank is rounded to that rank. -/
theorem round_of_value (fraction : 0 < format.fractionBits) (positive : 0 < den)
    (exact : (num / den : ℚ) = format.value rank) (finite : rank < format.infinity) :
    format.round num den = rank := by
  obtain ⟨found, nearest, computed⟩ := round_nearest fraction num positive
  rw [exact] at nearest
  rw [computed, nearest_unique nearest (format.nearest_value rank), min_eq_right finite.le]

/-- A product is rounded to the nearest rank, or to infinity if that lies beyond. -/
theorem mul_nearest (fraction : 0 < format.fractionBits) (a b : ℕ) :
    ∃ rank, format.Nearest (format.value a * format.value b) rank ∧
      format.mul a b = min format.infinity rank := by
  obtain ⟨rank, nearest, computed⟩ := round_nearest fraction (format.units a * format.units b)
    (show 0 < 2 ^ format.scale * 2 ^ format.scale by positivity)
  refine ⟨rank, ?_, computed⟩
  rw [value_eq, value_eq, div_mul_div_comm]
  exact_mod_cast nearest

theorem div_nearest (fraction : 0 < format.fractionBits) (a : ℕ) (positive : 0 < b) :
    ∃ rank, format.Nearest (format.value a / format.value b) rank ∧
      format.div a b = min format.infinity rank := by
  obtain ⟨rank, nearest, computed⟩ :=
    round_nearest fraction (format.units a) (format.units_strictMono positive).pos
  refine ⟨rank, ?_, computed⟩
  rw [value_eq, value_eq, div_div_div_cancel_right₀ (by positivity)]
  exact nearest

/-- What lies below the last finite value is rounded to a finite rank. -/
theorem Nearest.lt_infinity (nearest : format.Nearest x (rank : ℕ)) (some : 0 < format.infinity)
    (small : x < format.value (format.infinity - 1)) : rank < format.infinity := by
  by_contra beyond
  have above := nearest.halfway_le (show format.infinity - 1 < rank by omega)
  have next := format.value_strictMono (Nat.lt_add_one (format.infinity - 1))
  unfold halfway at above
  linarith

/-- Whole numbers of few binary digits are doubles. -/
theorem exists_double {mantissa shift : ℕ} (fits : mantissa < 2 ^ 53) (short : shift ≤ 22) :
    ∃ rank < double.infinity, double.value rank = mantissa * 2 ^ shift := by
  obtain ⟨rank, units⟩ :=
    exists_units (show mantissa < 2 * 2 ^ double.fractionBits from fits) (shift + double.scale)
  refine ⟨rank, double.units_strictMono.lt_iff_lt.mp ?_, ?_⟩
  · have reach : 2 ^ 53 * 2 ^ (22 + double.scale) ≤ double.units double.infinity := by
      decide +kernel
    have place : 2 ^ (shift + double.scale) ≤ 2 ^ (22 + double.scale) :=
      Nat.pow_le_pow_right (by omega) (by omega)
    rw [units]
    exact (Nat.mul_lt_mul_of_lt_of_le fits place (by positivity)).trans_le reach
  · rw [value_eq, units, pow_add]
    push_cast
    rw [← mul_assoc, mul_div_cancel_right₀ _ (by positivity)]

end BinaryFormat

namespace Json

variable {number : NumberText} {rank : ℕ}

theorem value_powerOfTen {exponent : ℕ} (small : exponent ≤ 22) :
    double.value (powerOfTen exponent) = 10 ^ exponent := by
  have fits : 5 ^ exponent < 2 ^ 53 :=
    (Nat.pow_le_pow_right (by omega) small).trans_lt (by norm_num)
  obtain ⟨rank, finite, value⟩ := BinaryFormat.exists_double fits small
  have power : double.value rank = 10 ^ exponent := by
    rw [value]
    push_cast
    rw [← mul_pow]
    norm_num
  have decimal : (⟨1, exponent⟩ : Decimal).value = double.value rank := by
    simp [Decimal.value, power]
  have same : powerOfTen exponent = rank := by
    rw [powerOfTen, Decimal.rank_eq_iff (by decide) finite, decimal]
    exact double.nearest_value rank
  rw [same, power]

theorem value_round {significand : ℕ} (fits : significand < 2 ^ 53) :
    double.value (double.round significand 1) = significand := by
  obtain ⟨rank, finite, value⟩ := BinaryFormat.exists_double fits (Nat.zero_le 22)
  rw [pow_zero, mul_one] at value
  rw [BinaryFormat.round_of_value (by decide) one_pos (by simp [value]) finite, value]

/-- Decimals of few digits lie within the range of doubles. -/
theorem value_lt_last {decimal : Decimal} (fits : decimal.coefficient < 2 ^ 53)
    (small : decimal.exponent ≤ 22) : decimal.value < double.value (double.infinity - 1) := by
  have coefficient : (decimal.coefficient : ℚ) < 2 ^ 53 := by exact_mod_cast fits
  have power : (10 : ℚ) ^ decimal.exponent ≤ 10 ^ 22 := by
    rw [← zpow_natCast]
    exact zpow_le_zpow_right₀ (by norm_num) small
  calc decimal.value
      ≤ decimal.coefficient * 10 ^ 22 := by
        unfold Decimal.value
        gcongr
    _ < 2 ^ 53 * 10 ^ 22 := by gcongr
    _ ≤ double.value (double.infinity - 1) := by
        have reach : 2 ^ 53 * 10 ^ 22 * 2 ^ double.scale ≤ double.units (double.infinity - 1) := by
          decide +kernel
        rw [BinaryFormat.value_eq, le_div_iff₀ (by positivity)]
        exact_mod_cast reach

/-- A power of ten that is a double is scaled by with one rounding only. -/
theorem scale?_nearest {significand : ℕ} {exponent : ℤ} (fits : significand < 2 ^ 53)
    (small : exponent.natAbs ≤ 22) (steps : ℕ) :
    ∃ rank, scale? steps (double.round significand 1) exponent = some rank ∧
      double.Nearest (Decimal.value ⟨significand, exponent⟩) rank := by
  have last : Decimal.value ⟨significand, exponent⟩ < double.value (double.infinity - 1) :=
    value_lt_last fits (by dsimp only; omega)
  have once : exponent.natAbs ≤ maxPower := small.trans (by decide)
  unfold scale?
  rw [if_pos once]
  split_ifs with positive
  · obtain ⟨rank, nearest, computed⟩ :=
      double.mul_nearest (by decide) (double.round significand 1) (powerOfTen exponent.natAbs)
    have exact : double.value (double.round significand 1) *
        double.value (powerOfTen exponent.natAbs) = Decimal.value ⟨significand, exponent⟩ := by
      rw [value_round fits, value_powerOfTen small, Decimal.value, ← zpow_natCast,
        Int.natAbs_of_nonneg positive]
    rw [exact] at nearest
    have finite := nearest.lt_infinity (by decide) last
    rw [min_eq_right finite.le] at computed
    simp [computed, finite.ne, nearest]
  · have power : 0 < powerOfTen exponent.natAbs := by
      rw [← double.value_strictMono.lt_iff_lt, BinaryFormat.value_zero, value_powerOfTen small]
      positivity
    obtain ⟨rank, nearest, computed⟩ :=
      double.div_nearest (by decide) (double.round significand 1) power
    have exact : double.value (double.round significand 1) /
        double.value (powerOfTen exponent.natAbs) = Decimal.value ⟨significand, exponent⟩ := by
      have opposite : exponent = -(exponent.natAbs : ℤ) := by omega
      rw [value_round fits, value_powerOfTen small, Decimal.value, div_eq_mul_inv, ← zpow_natCast,
        ← zpow_neg, ← opposite]
    rw [exact] at nearest
    have finite := nearest.lt_infinity (by decide) last
    rw [min_eq_right finite.le] at computed
    simp [computed, nearest]

/-- Digits are taken as long as their number fits into 64 bits. -/
theorem absorb_eq {significand : ℕ} {digits : List Char}
    (fits : digits.foldl withDigit significand ≤ maxWord) :
    absorb significand digits = (digits.foldl withDigit significand, digits.length) := by
  induction digits generalizing significand with
  | nil => rfl
  | cons c digits ih =>
      have next : withDigit significand c ≤ maxWord := (le_foldl_withDigit _ digits).trans fits
      have rest : absorb (withDigit significand c) digits = _ := ih fits
      rw [withDigit] at next rest
      rw [absorb, if_neg (not_lt.mpr next), rest]
      rfl

/-- If all digits are taken, they are scaled by the exponent unless that is out of all range. -/
theorem double?_eq (fits : number.decimal.coefficient ≤ maxWord) :
    double? number =
      if maxExponent < (exponentValue number.exponent).natAbs then
        if number.decimal.coefficient ≠ 0 ∧ 0 < exponentValue number.exponent then none else some 0
      else scale? 4 (double.round number.decimal.coefficient 1) number.decimal.exponent := by
  have split : number.decimal.coefficient =
      number.fraction.foldl withDigit (digitsValue number.whole) := List.foldl_append
  have fraction := absorb_eq (split ▸ fits)
  have whole : absorb 0 number.whole = (digitsValue number.whole, number.whole.length) :=
    absorb_eq ((le_foldl_withDigit _ number.fraction).trans (split ▸ fits))
  rw [← split] at fraction
  have exponent : number.decimal.exponent =
      exponentValue number.exponent - number.fraction.length := rfl
  unfold double?
  simp only [whole, fraction, exponent, Nat.sub_self]
  cases number.exponent with
  | none => simp [exponentValue]
  | some scaled =>
      obtain ⟨negative, digits⟩ := scaled
      have size : (exponentValue (some (negative, digits))).natAbs = digitsValue digits := by
        cases negative <;> simp [exponentValue]
      have total : (if negative then ((0 : ℕ) : ℤ) - number.fraction.length - digitsValue digits
          else ((0 : ℕ) : ℤ) - number.fraction.length + digitsValue digits) =
          exponentValue (some (negative, digits)) - number.fraction.length := by
        simp only [exponentValue]
        split <;> omega
      rw [size]
      dsimp only
      rw [total]
      by_cases far : maxExponent < digitsValue digits
      · have sign : negative = false ↔ 0 < exponentValue (some (negative, digits)) := by
          cases negative with
          | true => simp [exponentValue]
          | false => simpa [exponentValue] using Nat.zero_lt_of_lt far
        simp only [if_pos far, sign]
      · rw [if_neg far, if_neg far]

/-- Numbers of few digits are read as the nearest double. -/
theorem double?_nearest (read : double? number = some rank)
    (fits : number.decimal.coefficient < 2 ^ 53) (small : number.decimal.exponent.natAbs ≤ 22) :
    double.Nearest number.decimal.value rank := by
  have wide : 2 ^ 53 ≤ maxWord := by decide
  have exponent : number.decimal.exponent =
      exponentValue number.exponent - number.fraction.length := rfl
  rw [double?_eq (fits.le.trans wide)] at read
  split_ifs at read with far refused
  · have limit : 22 ≤ maxExponent := by decide
    have zero : number.decimal.coefficient = 0 := by
      by_contra some
      exact refused ⟨some, by omega⟩
    cases read
    have value : number.decimal.value = 0 := by simp [Decimal.value, zero]
    rw [value]
    exact BinaryFormat.nearest_zero le_rfl (by positivity)
  · obtain ⟨found, scaled, nearest⟩ := scale?_nearest fits small 4
    cases scaled.symm.trans read
    exact nearest

end Json

theorem Single.ofRank_inj {negative : Bool} {a b : ℕ} (first : a ≤ BinaryFormat.single.infinity)
    (second : b ≤ BinaryFormat.single.infinity) :
    Single.ofRank negative a = Single.ofRank negative b ↔ a = b := by
  have room : BinaryFormat.single.infinity < twoTo 31 := by decide
  have sum : twoTo 31 + twoTo 31 = 2 ^ 32 := by decide
  simp only [Single.ofRank, Single.mk.injEq, ← UInt32.toNat_inj, UInt32.toNat_ofNat']
  split <;> omega

namespace Config

open Json

/-- A number means the same in JSON and on its own if it is an integer of 64 bits. Any other is
rounded to the nearest single on its own, and to the one nearest to a double in JSON, or to infinity
if the nearest would lie beyond all finite ones. The two can differ only if a halfway point of
neighbouring singles lies between the number and that double, or at one of them. Where the double is
the nearest one, they differ exactly if it is such a point and the number lies on the side of the
odd neighbour. It is the nearest one at least if there are few digits. -/
theorem mergeJson_number {number : NumberText} {numeral key : String} {config later : Config}
    (written : number.Written numeral.toList) (signed : numeral ≠ "-0")
    (plain : ∀ c ∈ key.toList, isPlain c = true)
    (merged : config.mergeJson (memberText key numeral) = (.ok (), later)) :
    ∃ stored given, later.get? key = some stored ∧ ConfigValue.parse numeral = .ok given ∧
      (number.IsWord → stored = given) ∧
      (¬ number.IsWord → ∃ rank, double? number = some rank ∧
        stored = .float (.ofRank number.negative (double.convert single rank)) ∧
        given = .float (.ofRank number.negative (number.decimal.rank single)) ∧
        (∃ nearest, single.Nearest (double.value rank) nearest ∧
          double.convert single rank = min single.infinity nearest) ∧
        (∃ nearest, single.Nearest number.decimal.value nearest ∧
          number.decimal.rank single = min single.infinity nearest) ∧
        (stored ≠ given → ∃ low < single.infinity,
          single.halfway low ∈ Set.uIcc number.decimal.value (double.value rank)) ∧
        (double.Nearest number.decimal.value rank →
          (stored = given ↔ ¬ single.Torn number.decimal.value (double.value rank))) ∧
        (number.decimal.coefficient < 2 ^ 53 → number.decimal.exponent.natAbs ≤ 22 →
          double.Nearest number.decimal.value rank)) := by
  have fraction : 0 < single.fractionBits := by decide
  rcases mergeBy_eq object? config (memberText key numeral) with
    ⟨members, read, outcome⟩ | ⟨_, refused⟩
  · rw [object?_memberText written plain] at read
    obtain ⟨value, known, rfl⟩ := Option.map_eq_some_iff.mp read
    cases (Prod.mk.inj (merged.symm.trans outcome)).2
    refine ⟨value.toValue, number.value, ?_, parse_written written, fun word => ?_, fun word => ?_⟩
    · rw [get?_overlay, latest?_singleton]
      simp
    · cases (number?_of_isWord written signed word).symm.trans known
      exact toValue_of_isWord word
    · rw [number?_of_not_isWord word] at known
      obtain ⟨rank, found, rfl⟩ := Option.map_eq_some_iff.mp known
      obtain ⟨direct, nearest, computed⟩ := number.decimal.rank_nearest fraction
      -- Both are floats of one sign, so that comparing them is comparing two ranks.
      have same : Number.toValue (.double number.negative rank) = number.value ↔
          double.convert single rank = min single.infinity direct := by
        rw [value_of_not_isWord word, computed, Number.toValue, Number.toSingle,
          ConfigValue.float.injEq]
        exact Single.ofRank_inj (BinaryFormat.convert_le _ _ rank) (min_le_left _ _)
      refine ⟨rank, found, rfl, value_of_not_isWord word,
        BinaryFormat.convert_nearest BinaryFormat.double_covers_single fraction rank,
        ⟨direct, nearest, computed⟩, fun differ => ?_, fun rounded => ?_, double?_nearest found⟩
      · rw [Ne, same] at differ
        exact BinaryFormat.exists_halfway_between BinaryFormat.double_covers_single fraction nearest
          differ
      · rw [same]
        exact BinaryFormat.convert_eq_iff BinaryFormat.double_covers_single fraction rounded nearest
  · cases (Prod.mk.inj (merged.symm.trans refused)).1

/-- The least whole number that is no single. -/
def oddNumber : NumberText := ⟨false, "16777217".toList, ['0'], none⟩

theorem oddNumber_written : oddNumber.Written "16777217.0".toList where
  leading := .inr (by decide +kernel)
  whole := List.all_eq_true.mp (by decide +kernel : "16777217".toList.all Char.isDigit = true)
  fraction := Numeral.allDigits_replicate 1
  spelled := ⟨[], .absent, by decide +kernel⟩

/-- A double in the middle between two singles does no harm if it is the number itself. -/
theorem mergeJson_oddNumber :
    ∃ later value, mergeJson ∅ (memberText "K" "16777217.0") = (.ok (), later) ∧
      later.get? "K" = some value ∧ ConfigValue.parse "16777217.0" = .ok value := by
  have accepted : (mergeJson ∅ (memberText "K" "16777217.0")).1 = .ok () := by decide +kernel
  have decimal : oddNumber.decimal = ⟨167772170, -1⟩ := by decide +kernel
  generalize merged : mergeJson ∅ (memberText "K" "16777217.0") = answer at accepted
  obtain ⟨_, later⟩ := answer
  cases accepted
  have plain : "K".toList.all isPlain = true := by decide
  obtain ⟨stored, given, kept, parsed, _, other⟩ :=
    mergeJson_number oddNumber_written (by decide) (List.all_eq_true.mp plain) merged
  obtain ⟨rank, _, _, _, _, _, _, same, near⟩ :=
    other fun word => absurd word.1 (by decide +kernel)
  have nearest := near (by norm_num [decimal]) (by norm_num [decimal])
  have exact : oddNumber.decimal.value = double.value rank := by
    obtain ⟨middle, _, value⟩ :=
      BinaryFormat.exists_double (by norm_num : 16777217 < 2 ^ 53) (Nat.zero_le 22)
    have whole : oddNumber.decimal.value = double.value middle := by
      rw [decimal, value]
      norm_num [Decimal.value]
    rw [whole] at nearest ⊢
    rw [BinaryFormat.nearest_unique nearest (double.nearest_value middle)]
  have untorn : ¬ single.Torn oddNumber.decimal.value (double.value rank) := by
    rintro ⟨_, _, _, ⟨_, less⟩ | ⟨_, less⟩⟩
    · exact less.ne exact
    · exact less.ne exact.symm
  exact ⟨later, stored, rfl, kept, (same nearest).mpr untorn ▸ parsed⟩

/-- A number whose nearest double is in the middle between two singles, while the number itself is
nearer to the first of them, which is odd. -/
theorem mergeJson_torn :
    let later := (mergeJson ∅ (memberText "K" "1.00000661611557")).2
    later.get? "K" = some (.float ⟨0x3F800038⟩) ∧
      ConfigValue.parse "1.00000661611557" = .ok (.float ⟨0x3F800037⟩) ∧
      double? ⟨false, ['1'], "00000661611557".toList, none⟩ =
        some (Decimal.rank ⟨100000661611557, -14⟩ .double) := by
  decide +kernel

end Config

end DistanceField
