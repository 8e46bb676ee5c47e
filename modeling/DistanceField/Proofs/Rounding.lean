import DistanceField.Number.Binary
import Mathlib.Algebra.Order.Field.Power
import Mathlib.Data.Rat.Floor
import Mathlib.Order.Interval.Set.OrdConnected
import Mathlib.Tactic.FieldSimp
import Mathlib.Tactic.Linarith
import Mathlib.Tactic.Positivity
import Mathlib.Tactic.Ring

/-! Binary values as rational numbers. Each rank catches the numbers between the two halfway
points around its value, and what is computed for a quotient is the rank that catches it: the
nearest one, and of two equally near ones the even one. -/

namespace DistanceField

theorem twoTo_eq (exponent : ℕ) : twoTo exponent = 2 ^ exponent :=
  rfl

theorem tenTo_eq (exponent : ℕ) : tenTo exponent = 10 ^ exponent :=
  rfl

/-- The quotient is rounded to one of its two neighbours, at most half a unit away. -/
theorem divRoundEven_cases (num den : ℕ) :
    (divRoundEven num den = num / den ∧ 2 * (num % den) ≤ den ∧
      (2 * (num % den) = den → num / den % 2 = 0)) ∨
    divRoundEven num den = num / den + 1 ∧ den ≤ 2 * (num % den) ∧
      (2 * (num % den) = den → num / den % 2 = 1) := by
  simp only [divRoundEven]
  split_ifs with below above
  · exact .inl ⟨rfl, below.le, fun half => absurd half below.ne⟩
  · exact .inr ⟨rfl, above.le, fun half => absurd half above.ne'⟩
  · have half : 2 * (num % den) = den := by omega
    rcases Nat.mod_two_eq_zero_or_one (num / den) with even | odd
    · exact .inl ⟨by omega, half.le, fun _ => even⟩
    · exact .inr ⟨by omega, half.ge, fun _ => odd⟩

namespace BinaryFormat

variable {format : BinaryFormat}

/-- The number that the bits of a rank denote. While the exponent field is zero the fraction
counts multiples of the least positive value. From then on it has a leading bit, and each step
of the exponent doubles the unit. Ranks beyond the last finite one have the value that a wider
exponent field would give them. -/
def value (format : BinaryFormat) (rank : ℕ) : ℚ :=
  let exponent := rank / 2 ^ format.fractionBits
  let fraction := rank % 2 ^ format.fractionBits
  if exponent = 0 then fraction / 2 ^ format.scale
  else (2 ^ format.fractionBits + fraction) * 2 ^ (exponent - 1) / 2 ^ format.scale

/-- A rank is nearest to a number if no other is nearer; if another is as near, it is even. -/
structure Nearest (format : BinaryFormat) (x : ℚ) (rank : ℕ) : Prop where
  least : ∀ other, |x - format.value rank| ≤ |x - format.value other|
  even : ∀ other, other ≠ rank →
    |x - format.value other| = |x - format.value rank| → rank % 2 = 0

section Units

variable {shift mantissa : ℕ}

/-- A mantissa with the leading bit of a normal value; without shift it may lack that bit. -/
def Normal (format : BinaryFormat) (shift mantissa : ℕ) : Prop :=
  (shift = 0 ∨ 2 ^ format.fractionBits ≤ mantissa) ∧ mantissa < 2 * 2 ^ format.fractionBits

theorem shift_add (normal : format.Normal shift mantissa) :
    format.shift (shift * 2 ^ format.fractionBits + mantissa) = shift := by
  obtain ⟨leading, small⟩ := normal
  have positive : 0 < 2 ^ format.fractionBits := by positivity
  unfold BinaryFormat.shift
  rw [twoTo_eq, mul_comm shift, Nat.mul_add_div positive]
  have atMost : mantissa / 2 ^ format.fractionBits < 2 :=
    (Nat.div_lt_iff_lt_mul positive).mpr small
  rcases leading with rfl | large
  · omega
  · have atLeast : 1 ≤ mantissa / 2 ^ format.fractionBits :=
      (Nat.le_div_iff_mul_le positive).mpr (by omega)
    omega

theorem units_add (normal : format.Normal shift mantissa) :
    format.units (shift * 2 ^ format.fractionBits + mantissa) = mantissa * 2 ^ shift := by
  unfold units BinaryFormat.mantissa
  rw [shift_add normal, twoTo_eq, twoTo_eq, Nat.add_sub_cancel_left]

theorem exists_normal (format : BinaryFormat) (rank : ℕ) :
    ∃ shift mantissa, rank = shift * 2 ^ format.fractionBits + mantissa ∧
      format.Normal shift mantissa := by
  have split := Nat.div_add_mod rank (2 ^ format.fractionBits)
  have small := Nat.mod_lt rank (show 0 < 2 ^ format.fractionBits by positivity)
  cases field : rank / 2 ^ format.fractionBits with
  | zero => exact ⟨0, rank % 2 ^ format.fractionBits, by simp_all, .inl rfl, by omega⟩
  | succ exponent =>
      rw [field] at split
      refine ⟨exponent, 2 ^ format.fractionBits + rank % 2 ^ format.fractionBits, ?_, .inr ?_, ?_⟩
      · linarith
      · omega
      · omega

@[simp]
theorem units_zero (format : BinaryFormat) : format.units 0 = 0 := by
  simp [units, BinaryFormat.mantissa]

/-- Neighbouring ranks are one unit of the shift apart, also at the end of a binade. -/
theorem units_succ (format : BinaryFormat) (rank : ℕ) :
    format.units (rank + 1) = format.units rank + 2 ^ format.shift rank := by
  obtain ⟨shift, mantissa, rfl, normal⟩ := format.exists_normal rank
  rw [shift_add normal, units_add normal]
  obtain ⟨leading, small⟩ := normal
  rcases Nat.lt_or_ge (mantissa + 1) (2 * 2 ^ format.fractionBits) with within | full
  · have next : format.Normal shift (mantissa + 1) := ⟨leading.imp_right (by omega), within⟩
    rw [add_assoc, units_add next]
    ring
  · have first : format.Normal (shift + 1) (2 ^ format.fractionBits) := ⟨.inr le_rfl, by omega⟩
    have carry : shift * 2 ^ format.fractionBits + mantissa + 1 =
        (shift + 1) * 2 ^ format.fractionBits + 2 ^ format.fractionBits := by
      linarith
    have top : mantissa + 1 = 2 * 2 ^ format.fractionBits := by omega
    rw [carry, units_add first, ← Nat.succ_mul, Nat.succ_eq_add_one, top]
    ring

theorem units_strictMono (format : BinaryFormat) : StrictMono format.units := by
  refine strictMono_nat_of_lt_succ fun rank => ?_
  rw [units_succ]
  exact Nat.lt_add_of_pos_right (by positivity)

/-- A positive value is at least one unit of its shift. -/
theorem pow_shift_le_units {rank : ℕ} (positive : 0 < rank) :
    2 ^ format.shift rank ≤ format.units rank := by
  obtain ⟨shift, mantissa, rfl, normal⟩ := format.exists_normal rank
  rw [shift_add normal, units_add normal]
  refine Nat.le_mul_of_pos_left _ (Nat.pos_of_ne_zero ?_)
  rintro rfl
  obtain ⟨rfl | large, _⟩ := normal
  · simp at positive
  · exact absurd large (by simp)

theorem value_eq (format : BinaryFormat) (rank : ℕ) :
    format.value rank = format.units rank / 2 ^ format.scale := by
  have split := Nat.div_add_mod rank (2 ^ format.fractionBits)
  have small := Nat.mod_lt rank (show 0 < 2 ^ format.fractionBits by positivity)
  unfold value
  dsimp only
  generalize rank % 2 ^ format.fractionBits = fraction at split small ⊢
  generalize rank / 2 ^ format.fractionBits = exponent at split ⊢
  cases exponent with
  | zero =>
      have whole : format.units rank = fraction := by
        have normal : format.Normal 0 fraction := ⟨.inl rfl, by omega⟩
        have units := units_add normal
        simp_all
      rw [if_pos rfl, whole]
  | succ exponent =>
      have normal : format.Normal exponent (2 ^ format.fractionBits + fraction) :=
        ⟨.inr (by omega), by omega⟩
      have whole : rank = exponent * 2 ^ format.fractionBits +
          (2 ^ format.fractionBits + fraction) := by
        linarith
      rw [if_neg (by omega), whole, units_add normal]
      push_cast
      rfl

@[simp]
theorem value_zero (format : BinaryFormat) : format.value 0 = 0 := by
  simp [value_eq]

theorem value_strictMono (format : BinaryFormat) : StrictMono format.value := by
  intro rank other less
  rw [value_eq, value_eq]
  have units : (format.units rank : ℚ) < format.units other := by
    exact_mod_cast format.units_strictMono less
  gcongr

end Units

section Catchment

variable {x : ℚ} {rank other : ℕ}

/-- The numbers between the halfway points around a rank, with these points themselves if the
rank is even. The first rank has no neighbour below it, and catches nothing that is negative. -/
def catchment (format : BinaryFormat) (rank : ℕ) : Set ℚ :=
  let low := (format.value (rank - 1) + format.value rank) / 2
  let high := (format.value rank + format.value (rank + 1)) / 2
  if rank % 2 = 0 then Set.Icc low high else Set.Ioo low high

instance ordConnected_catchment : (format.catchment rank).OrdConnected := by
  unfold catchment
  dsimp only
  split
  · exact Set.ordConnected_Icc
  · exact Set.ordConnected_Ioo

/-- The lesser of two numbers is the nearer one up to halfway. -/
theorem abs_sub_le_abs_sub_iff {low high : ℚ} (less : low < high) :
    |x - low| ≤ |x - high| ↔ x ≤ (low + high) / 2 := by
  rw [← sq_le_sq]
  constructor <;> intro <;> nlinarith

theorem abs_sub_le_abs_sub_iff_ge {low high : ℚ} (less : low < high) :
    |x - high| ≤ |x - low| ↔ (low + high) / 2 ≤ x := by
  rw [← sq_le_sq]
  constructor <;> intro <;> nlinarith

theorem nearest_unique (first : format.Nearest x rank) (second : format.Nearest x other) :
    rank = other := by
  wlog less : rank < other generalizing rank other
  · rcases (Nat.not_lt.mp less).lt_or_eq with greater | same
    · exact (this second first greater).symm
    · exact same.symm
  exfalso
  have equal := le_antisymm (first.least other) (second.least rank)
  have even := first.even other less.ne' equal.symm
  have even' := second.even rank less.ne equal
  have apart : rank + 1 < other := by omega
  have next := format.value_strictMono (Nat.lt_add_one rank)
  have gap := format.value_strictMono apart
  have above := (abs_sub_le_abs_sub_iff_ge (next.trans gap)).mp equal.ge
  have below := (abs_sub_le_abs_sub_iff next).mp (first.least (rank + 1))
  linarith

theorem low_le_of_mem (member : x ∈ format.catchment rank) :
    (format.value (rank - 1) + format.value rank) / 2 ≤ x := by
  unfold catchment at member
  split at member
  · exact member.1
  · exact member.1.le

theorem le_high_of_mem (member : x ∈ format.catchment rank) :
    x ≤ (format.value rank + format.value (rank + 1)) / 2 := by
  unfold catchment at member
  split at member
  · exact member.2
  · exact member.2.le

theorem Nearest.mem_catchment (nearest : format.Nearest x rank) (nonneg : 0 ≤ x) :
    x ∈ format.catchment rank := by
  have next := format.value_strictMono (Nat.lt_add_one rank)
  have high := (abs_sub_le_abs_sub_iff next).mp (nearest.least (rank + 1))
  cases rank with
  | zero => simpa [catchment] using And.intro nonneg high
  | succ rank =>
      have last := format.value_strictMono (Nat.lt_add_one rank)
      have low := (abs_sub_le_abs_sub_iff_ge last).mp (nearest.least rank)
      unfold catchment
      dsimp only
      split
      · exact ⟨low, high⟩
      · next odd =>
          -- At a halfway point the neighbour would be as near.
          refine ⟨low.lt_of_ne fun half => ?_, high.lt_of_ne fun half => ?_⟩
          · have near := (abs_sub_le_abs_sub_iff last).mpr half.ge
            exact odd (nearest.even rank (by omega) (near.antisymm (nearest.least rank)))
          · have near := (abs_sub_le_abs_sub_iff_ge next).mpr half.ge
            exact odd (nearest.even _ (by omega) (near.antisymm (nearest.least _)))

theorem nearest_of_mem_catchment (member : x ∈ format.catchment rank) :
    format.Nearest x rank := by
  have low := low_le_of_mem member
  have high := le_high_of_mem member
  have strict : rank % 2 ≠ 0 → (format.value (rank - 1) + format.value rank) / 2 < x ∧
      x < (format.value rank + format.value (rank + 1)) / 2 := by
    intro odd
    unfold catchment at member
    rwa [if_neg odd] at member
  constructor
  · intro other
    rcases lt_trichotomy other rank with less | rfl | greater
    · have before := format.value_strictMono.monotone (Nat.le_sub_one_of_lt less)
      apply (abs_sub_le_abs_sub_iff_ge (format.value_strictMono less)).mpr
      linarith
    · exact le_rfl
    · have after := format.value_strictMono.monotone (Nat.succ_le_of_lt greater)
      apply (abs_sub_le_abs_sub_iff (format.value_strictMono greater)).mpr
      linarith
  · intro other different equal
    by_contra odd
    obtain ⟨above, below⟩ := strict odd
    rcases Nat.lt_or_gt_of_ne different with less | greater
    · have before := format.value_strictMono.monotone (Nat.le_sub_one_of_lt less)
      have half := (abs_sub_le_abs_sub_iff (format.value_strictMono less)).mp equal.le
      linarith
    · have after := format.value_strictMono.monotone (Nat.succ_le_of_lt greater)
      have half := (abs_sub_le_abs_sub_iff_ge (format.value_strictMono greater)).mp equal.le
      linarith

/-- The nearest rank is the one that catches the number. -/
theorem nearest_iff (nonneg : 0 ≤ x) : format.Nearest x rank ↔ x ∈ format.catchment rank :=
  ⟨fun nearest => nearest.mem_catchment nonneg, nearest_of_mem_catchment⟩

/-- Membership of a quotient of units, decided in natural numbers. -/
theorem div_mem_catchment_iff {num den : ℕ} (positive : 0 < den) :
    (num / den / 2 ^ format.scale : ℚ) ∈ format.catchment rank ↔
      if rank % 2 = 0 then
        (format.units (rank - 1) + format.units rank) * den ≤ 2 * num ∧
          2 * num ≤ (format.units rank + format.units (rank + 1)) * den
      else
        (format.units (rank - 1) + format.units rank) * den < 2 * num ∧
          2 * num < (format.units rank + format.units (rank + 1)) * den := by
  have den_pos : (0 : ℚ) < den := by exact_mod_cast positive
  have scale_pos : (0 : ℚ) < 2 ^ format.scale := by positivity
  have halfway (a b : ℕ) : ((a : ℚ) / 2 ^ format.scale + b / 2 ^ format.scale) / 2 =
      (a + b : ℕ) / 2 / 2 ^ format.scale := by
    push_cast
    ring
  have le_iff (n : ℕ) : (n / 2 / 2 ^ format.scale : ℚ) ≤ num / den / 2 ^ format.scale ↔
      n * den ≤ 2 * num := by
    rw [div_le_div_iff_of_pos_right scale_pos, div_le_div_iff₀ two_pos den_pos, mul_comm (num : ℚ)]
    exact_mod_cast Iff.rfl
  have ge_iff (n : ℕ) : (num / den / 2 ^ format.scale : ℚ) ≤ n / 2 / 2 ^ format.scale ↔
      2 * num ≤ n * den := by
    rw [div_le_div_iff_of_pos_right scale_pos, div_le_div_iff₀ den_pos two_pos, mul_comm (num : ℚ)]
    exact_mod_cast Iff.rfl
  unfold catchment
  simp only [value_eq, halfway]
  split
  · exact and_congr (le_iff _) (ge_iff _)
  · rw [Set.mem_Ioo, ← not_le, ← not_le, ← not_le, ← not_le]
    exact and_congr (ge_iff _).not (le_iff _).not

end Catchment

section Round

variable {den : ℕ}

/-- The shift of the binade that a quotient lies in. -/
theorem normal_div (format : BinaryFormat) (num den : ℕ) :
    format.Normal ((num / den).log2 - format.fractionBits)
      (num / (den * 2 ^ ((num / den).log2 - format.fractionBits))) := by
  rw [← Nat.div_div_eq_div_mul]
  generalize num / den = whole
  rcases Nat.eq_zero_or_pos whole with rfl | positive
  · exact ⟨.inl (by simp), by simp⟩
  have low := Nat.log2_self_le positive.ne'
  have high := Nat.lt_log2_self (n := whole)
  generalize whole.log2 = log at low high
  have unit_pos : 0 < 2 ^ (log - format.fractionBits) := by positivity
  refine ⟨?_, ?_⟩
  · rcases Nat.le_total log format.fractionBits with small | large
    · exact .inl (by omega)
    · refine .inr ((Nat.le_div_iff_mul_le unit_pos).mpr ?_)
      rwa [← pow_add, Nat.add_sub_cancel' large]
  · rw [Nat.div_lt_iff_lt_mul unit_pos, mul_assoc, ← pow_add, mul_comm, ← pow_succ]
    exact high.trans_le (Nat.pow_le_pow_right (by omega) (by omega))

/-- Before it is cut off at infinity, the rank that is computed catches the quotient. -/
theorem roundUnits_mem (fraction : 0 < format.fractionBits) (num : ℕ) (positive : 0 < den) :
    ∃ rank, (num / den / 2 ^ format.scale : ℚ) ∈ format.catchment rank ∧
      format.roundUnits num den = min format.infinity rank := by
  refine ⟨_, ?_, rfl⟩
  have normal := format.normal_div num den
  simp only [twoTo_eq]
  generalize (num / den).log2 - format.fractionBits = shift at normal ⊢
  have unit_pos : 0 < den * 2 ^ shift := by positivity
  have split := Nat.div_add_mod num (den * 2 ^ shift)
  have small := Nat.mod_lt num unit_pos
  have rounded := divRoundEven_cases num (den * 2 ^ shift)
  generalize num / (den * 2 ^ shift) = quotient at normal split rounded
  generalize num % (den * 2 ^ shift) = remainder at split small rounded
  have parity : (shift * 2 ^ format.fractionBits + quotient) % 2 = quotient % 2 := by
    have even : 2 ∣ shift * 2 ^ format.fractionBits :=
      Dvd.dvd.mul_left (dvd_pow_self 2 fraction.ne') shift
    omega
  have here : format.units (shift * 2 ^ format.fractionBits + quotient) * den =
      den * 2 ^ shift * quotient := by
    rw [units_add normal]
    ring
  have next : format.units (shift * 2 ^ format.fractionBits + quotient + 1) * den =
      den * 2 ^ shift * quotient + den * 2 ^ shift := by
    rw [units_succ, shift_add normal, add_mul, here]
    ring
  rcases rounded with ⟨down, half, tie⟩ | ⟨up, half, tie⟩
  · rw [down, div_mem_catchment_iff positive]
    generalize shift * 2 ^ format.fractionBits + quotient = base at *
    have before : format.units (base - 1) * den ≤ format.units base * den :=
      Nat.mul_le_mul_right _ (format.units_strictMono.monotone (Nat.sub_le base 1))
    have strict : base ≠ 0 → format.units (base - 1) * den < format.units base * den := fun some =>
      Nat.mul_lt_mul_of_pos_right (format.units_strictMono (Nat.sub_one_lt some)) positive
    rw [add_mul, add_mul, next]
    split_ifs <;> omega
  · rw [up, ← add_assoc, div_mem_catchment_iff positive]
    generalize shift * 2 ^ format.fractionBits + quotient = base at *
    have after : format.units (base + 1) * den < format.units (base + 1 + 1) * den :=
      Nat.mul_lt_mul_of_pos_right (format.units_strictMono (Nat.lt_add_one _)) positive
    rw [Nat.add_sub_cancel, add_mul, add_mul, here]
    split_ifs <;> omega

/-- The rank that is computed for a quotient is the nearest one, or infinity if that lies
beyond. -/
theorem round_nearest (fraction : 0 < format.fractionBits) (num : ℕ) (positive : 0 < den) :
    ∃ rank, format.Nearest (num / den) rank ∧ format.round num den = min format.infinity rank := by
  obtain ⟨rank, member, computed⟩ :=
    roundUnits_mem fraction (num * 2 ^ format.scale) positive
  have cancel : ((num * 2 ^ format.scale : ℕ) : ℚ) / den / 2 ^ format.scale = num / den := by
    push_cast
    field_simp
  rw [cancel] at member
  exact ⟨rank, (nearest_iff (by positivity)).mpr member, computed⟩

end Round

section Range

variable {x : ℚ} {rank : ℕ}

/-- What reaches the value of infinity is rounded to infinity. -/
theorem Nearest.infinity_le (nearest : format.Nearest x rank)
    (large : format.value format.infinity ≤ x) : format.infinity ≤ rank := by
  by_contra less
  rw [not_le] at less
  have order := format.value_strictMono less
  have half := (abs_sub_le_abs_sub_iff order).mp (nearest.least format.infinity)
  linarith

/-- What does not exceed half of the least positive value is rounded to zero. -/
theorem nearest_zero (nonneg : 0 ≤ x) (small : x ≤ 1 / 2 ^ (format.scale + 1)) :
    format.Nearest x 0 := by
  rw [nearest_iff nonneg]
  have first : format.value 1 = 1 / 2 ^ format.scale := by
    rw [value_eq, format.units_succ 0]
    simp [BinaryFormat.shift]
  have half : x ≤ 1 / 2 ^ format.scale / 2 := by rwa [div_div, ← pow_succ]
  simpa [catchment, first] using And.intro nonneg half

end Range

end BinaryFormat

end DistanceField
