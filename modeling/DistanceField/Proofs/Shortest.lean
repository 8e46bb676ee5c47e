import DistanceField.Number.Decimal
import DistanceField.Proofs.Rounding
import Mathlib.Algebra.Order.Floor.Semifield
import Mathlib.Data.Nat.Digits.Lemmas

/-! Decimals that denote a binary value. The decimal chosen for a rank is rounded to it, lies on
the coarsest grid of powers of ten that has such a decimal, and therefore has the fewest
significant digits of all of them. -/

namespace DistanceField

namespace Decimal

variable {format : BinaryFormat} {rank : ℕ} {decimal : Decimal}

/-- The number that a decimal stands for. -/
def value (decimal : Decimal) : ℚ :=
  decimal.coefficient * 10 ^ decimal.exponent

/-- The digits of the coefficient without the zeros that end it. -/
def significantDigits (decimal : Decimal) : ℕ :=
  ((Nat.digits 10 decimal.coefficient).dropWhile (· == 0)).length

theorem ten_zpow (exponent : ℤ) :
    (10 : ℚ) ^ exponent = 10 ^ exponent.toNat / 10 ^ (-exponent).toNat := by
  rw [← zpow_natCast, ← zpow_natCast, ← zpow_sub₀ (by norm_num)]
  congr 1
  omega

theorem den_pos (decimal : Decimal) : 0 < decimal.den := by
  rw [den, tenTo_eq]
  positivity

theorem num_div_den (decimal : Decimal) : (decimal.num / decimal.den : ℚ) = decimal.value := by
  rw [num, den, value, ten_zpow, tenTo_eq, tenTo_eq, mul_div_assoc']
  push_cast
  rfl

theorem value_nonneg (decimal : Decimal) : 0 ≤ decimal.value := by
  unfold value
  positivity

theorem denotes_iff :
    decimal.denotes format rank = true ↔ decimal.value ∈ format.catchment rank := by
  have cancel : ((decimal.num * 2 ^ format.scale : ℕ) : ℚ) / decimal.den / 2 ^ format.scale =
      decimal.value := by
    rw [← num_div_den]
    push_cast
    field_simp
  rw [← cancel, BinaryFormat.div_mem_catchment_iff decimal.den_pos]
  have twice : decimal.num * twoTo (format.scale + 1) = 2 * (decimal.num * 2 ^ format.scale) := by
    rw [twoTo_eq]
    ring
  unfold denotes
  dsimp only
  rw [twice]
  split <;> simp

section Rank

theorem bound_eq (format : BinaryFormat) :
    bound format = (2 ^ format.exponentBits + format.fractionBits : ℕ) := by
  rw [bound, twoTo_eq]
  push_cast
  rfl

theorem units_infinity_le (format : BinaryFormat) :
    format.units format.infinity ≤ 2 ^ (2 ^ format.exponentBits + format.fractionBits) := by
  have positive : 0 < 2 ^ format.exponentBits := by positivity
  unfold BinaryFormat.infinity
  rw [twoTo_eq, twoTo_eq]
  generalize 2 ^ format.exponentBits = exponents at positive ⊢
  rcases Nat.lt_or_ge 1 exponents with several | one
  · have normal : format.Normal (exponents - 2) (2 ^ format.fractionBits) :=
      ⟨.inr le_rfl, lt_two_mul_self (by positivity)⟩
    have split : (exponents - 1) * 2 ^ format.fractionBits =
        (exponents - 2) * 2 ^ format.fractionBits + 2 ^ format.fractionBits := by
      rw [← Nat.succ_mul]
      congr 1
      omega
    rw [split, BinaryFormat.units_add normal, ← pow_add]
    exact Nat.pow_le_pow_right (by omega) (by omega)
  · have single : exponents - 1 = 0 := by omega
    simp [single]

/-- Beyond the bound a decimal exceeds the value of infinity. -/
theorem value_infinity_le (some : decimal.coefficient ≠ 0)
    (large : bound format < decimal.exponent) : format.value format.infinity ≤ decimal.value := by
  have coefficient : (1 : ℚ) ≤ decimal.coefficient := by
    exact_mod_cast Nat.one_le_iff_ne_zero.mpr some
  have units : (format.units format.infinity : ℚ) ≤
      2 ^ (2 ^ format.exponentBits + format.fractionBits) := by
    exact_mod_cast units_infinity_le format
  rw [bound_eq] at large
  calc format.value format.infinity
      = format.units format.infinity / 2 ^ format.scale := format.value_eq _
    _ ≤ format.units format.infinity := div_le_self (by positivity) (one_le_pow₀ (by norm_num))
    _ ≤ 10 ^ (2 ^ format.exponentBits + format.fractionBits) :=
        units.trans (pow_le_pow_left₀ (by norm_num) (by norm_num) _)
    _ ≤ 10 ^ decimal.exponent := by
        rw [← zpow_natCast]
        exact zpow_le_zpow_right₀ (by norm_num) large.le
    _ ≤ decimal.value := le_mul_of_one_le_left (by positivity) coefficient

/-- Below the bound a decimal is less than half of the least positive value. -/
theorem value_le_half (small : decimal.exponent + decimal.coefficient.log2 + 1 < -bound format) :
    decimal.value ≤ 1 / 2 ^ (format.scale + 1) := by
  have coefficient : (decimal.coefficient : ℚ) ≤ 2 ^ (decimal.coefficient.log2 + 1) := by
    exact_mod_cast Nat.lt_log2_self.le
  have scale : format.scale + 1 ≤ 2 ^ format.exponentBits + format.fractionBits := by
    have half : 2 ^ (format.exponentBits - 1) ≤ 2 ^ format.exponentBits :=
      Nat.pow_le_pow_right (by omega) (by omega)
    have positive : 0 < 2 ^ (format.exponentBits - 1) := by positivity
    rw [BinaryFormat.scale, twoTo_eq]
    omega
  rw [bound_eq] at small
  -- Since the exponent is negative, its power of two exceeds its power of ten.
  obtain ⟨places, negative⟩ : ∃ places : ℕ, decimal.exponent = -places :=
    ⟨(-decimal.exponent).toNat, by omega⟩
  have power : (10 : ℚ) ^ decimal.exponent ≤ 2 ^ decimal.exponent := by
    rw [negative, zpow_neg, zpow_neg, zpow_natCast, zpow_natCast]
    exact inv_anti₀ (by positivity) (pow_le_pow_left₀ (by norm_num) (by norm_num) _)
  calc decimal.value
      ≤ 2 ^ (decimal.coefficient.log2 + 1) * 2 ^ decimal.exponent :=
        mul_le_mul coefficient power (by positivity) (by positivity)
    _ ≤ 2 ^ (-((format.scale + 1 : ℕ) : ℤ)) := by
        rw [← zpow_natCast, ← zpow_add₀ (by norm_num)]
        exact zpow_le_zpow_right₀ (by norm_num) (by omega)
    _ = 1 / 2 ^ (format.scale + 1) := by
        rw [zpow_neg, zpow_natCast, one_div]

/-- The rank that is read for a decimal is the nearest one, or infinity if that lies beyond. -/
theorem rank_nearest (fraction : 0 < format.fractionBits) (decimal : Decimal) :
    ∃ rank, format.Nearest decimal.value rank ∧
      decimal.rank format = min format.infinity rank := by
  obtain ⟨rank, nearest, computed⟩ :=
    BinaryFormat.round_nearest fraction decimal.num decimal.den_pos
  rw [num_div_den] at nearest
  have zero (tiny : decimal.value ≤ 1 / 2 ^ (format.scale + 1)) : rank = 0 :=
    BinaryFormat.nearest_unique nearest (BinaryFormat.nearest_zero decimal.value_nonneg tiny)
  refine ⟨rank, nearest, ?_⟩
  unfold Decimal.rank
  split_ifs with none large small
  · rw [zero (by simp [value, none]), Nat.min_zero]
  · exact (min_eq_left (nearest.infinity_le (value_infinity_le none large))).symm
  · rw [zero (value_le_half small), Nat.min_zero]
  · exact computed

theorem rank_eq_iff (fraction : 0 < format.fractionBits) (finite : rank < format.infinity) :
    decimal.rank format = rank ↔ format.Nearest decimal.value rank := by
  obtain ⟨found, nearest, computed⟩ := decimal.rank_nearest fraction
  rw [computed]
  constructor
  · intro same
    obtain rfl : found = rank := by omega
    exact nearest
  · intro also
    obtain rfl := BinaryFormat.nearest_unique nearest also
    omega

end Rank

section Search

theorem value_mem_catchment (format : BinaryFormat) (rank : ℕ) :
    format.value rank ∈ format.catchment rank := by
  have nonneg : 0 ≤ format.value rank := by
    rw [BinaryFormat.value_eq]
    positivity
  refine (BinaryFormat.nearest_iff nonneg).mp
    ⟨fun other => by simp, fun other different equal => ?_⟩
  rw [sub_self, abs_zero, abs_eq_zero, sub_eq_zero] at equal
  exact absurd (format.value_strictMono.injective equal).symm different

theorem zero_not_mem_catchment (positive : 0 < rank) : (0 : ℚ) ∉ format.catchment rank := by
  intro member
  have zero : format.Nearest 0 0 := BinaryFormat.nearest_zero le_rfl (by positivity)
  have nearest := (BinaryFormat.nearest_iff le_rfl).mpr member
  exact positive.ne (BinaryFormat.nearest_unique zero nearest)

/-- The two neighbours of a value on a grid lie around it. -/
theorem neighbours (format : BinaryFormat) (rank : ℕ) (exponent : ℤ) :
    let quotient := format.units rank * tenTo (-exponent).toNat /
      (twoTo format.scale * tenTo exponent.toNat)
    value ⟨quotient, exponent⟩ ≤ format.value rank ∧
      format.value rank < value ⟨quotient + 1, exponent⟩ := by
  intro quotient
  have power : (0 : ℚ) < 10 ^ exponent := by positivity
  have ratio : format.value rank / 10 ^ exponent =
      (format.units rank * tenTo (-exponent).toNat : ℕ) /
        (twoTo format.scale * tenTo exponent.toNat : ℕ) := by
    rw [BinaryFormat.value_eq, ten_zpow, twoTo_eq, tenTo_eq, tenTo_eq]
    push_cast
    field_simp
  have floor : ⌊format.value rank / 10 ^ exponent⌋₊ = quotient := by
    rw [ratio, Nat.floor_div_eq_div]
  have nonneg : 0 ≤ format.value rank / 10 ^ exponent := by
    rw [ratio]
    positivity
  constructor
  · rw [value, ← le_div_iff₀ power, ← floor]
    exact Nat.floor_le nonneg
  · rw [value, ← div_lt_iff₀ power, ← floor]
    exact_mod_cast Nat.lt_floor_add_one _

/-- On every grid the search fails only if no point of the grid is caught. -/
theorem nearest?_cases (format : BinaryFormat) (rank : ℕ) (exponent : ℤ) :
    (∃ decimal, nearest? format rank exponent = some decimal ∧ decimal.exponent = exponent ∧
      decimal.value ∈ format.catchment rank) ∨
    nearest? format rank exponent = none ∧
      ∀ coefficient, value ⟨coefficient, exponent⟩ ∉ format.catchment rank := by
  have around := neighbours format rank exponent
  unfold nearest?
  dsimp only at around ⊢
  generalize format.units rank * tenTo (-exponent).toNat /
    (twoTo format.scale * tenTo exponent.toNat) = quotient at around ⊢
  split_ifs with below above
  · rw [Bool.and_eq_true, denotes_iff] at below
    exact .inl ⟨_, rfl, rfl, below.1⟩
  · exact .inl ⟨_, rfl, rfl, denotes_iff.mp above⟩
  · refine .inr ⟨rfl, fun coefficient member => ?_⟩
    have outside : value ⟨quotient, exponent⟩ ∉ format.catchment rank := by
      intro caught
      simp [denotes_iff.mpr caught, above] at below
    have center := value_mem_catchment format rank
    have monotone {a b : ℕ} (le : a ≤ b) : value ⟨a, exponent⟩ ≤ value ⟨b, exponent⟩ := by
      unfold value
      gcongr
    rcases Nat.lt_or_ge quotient coefficient with greater | le
    · exact above (denotes_iff.mpr
        (Set.OrdConnected.out' center member ⟨around.2.le, monotone greater⟩))
    · exact outside (Set.OrdConnected.out' member center ⟨monotone le, around.1⟩)

/-- On a grid fine enough for every value of the format the value itself is a point. -/
theorem value_finest {exponent : ℤ} (fine : exponent ≤ -format.scale) :
    value ⟨format.units rank * tenTo (-exponent).toNat / twoTo format.scale, exponent⟩ =
      format.value rank := by
  obtain ⟨extra, places⟩ : ∃ extra : ℕ, exponent = -((format.scale + extra : ℕ) : ℤ) :=
    ⟨(-exponent - format.scale).toNat, by omega⟩
  subst places
  have whole : format.units rank * 10 ^ (format.scale + extra) =
      format.units rank * (5 ^ format.scale * 10 ^ extra) * 2 ^ format.scale := by
    rw [pow_add, show (10 : ℕ) = 5 * 2 from rfl, mul_pow]
    ring
  rw [neg_neg, Int.toNat_natCast, tenTo_eq, twoTo_eq, whole, Nat.mul_div_cancel _ (by positivity),
    value, BinaryFormat.value_eq, zpow_neg, zpow_natCast]
  dsimp only
  rw [eq_div_iff (by positivity), ← div_eq_mul_inv, div_mul_eq_mul_div, div_eq_iff (by positivity)]
  exact_mod_cast whole.symm

/-- What the search finds is caught, and no coarser grid that it has tried has a point that is. -/
theorem refine_coarsest (format : BinaryFormat) (rank steps : ℕ) (exponent : ℤ)
    (enough : exponent - steps ≤ -format.scale) :
    (refine format rank steps exponent).value ∈ format.catchment rank ∧
      ∀ other : Decimal, (refine format rank steps exponent).exponent < other.exponent →
        other.exponent ≤ exponent → other.value ∉ format.catchment rank := by
  induction steps generalizing exponent with
  | zero =>
      have fine : exponent ≤ -format.scale := by simpa using enough
      simp only [refine, value_finest fine]
      exact ⟨value_mem_catchment format rank, fun other finer coarser => by omega⟩
  | succ steps ih =>
      rw [refine]
      rcases nearest?_cases format rank exponent with
        ⟨decimal, found, here, caught⟩ | ⟨missed, free⟩
      · simp only [found]
        exact ⟨caught, fun other finer coarser => by omega⟩
      · simp only [missed]
        obtain ⟨caught, coarsest⟩ := ih (exponent - 1) (by push_cast at enough; omega)
        refine ⟨caught, fun other finer coarser => ?_⟩
        rcases coarser.lt_or_eq with less | rfl
        · exact coarsest other finer (by omega)
        · exact free other.coefficient

theorem value_lt_start (format : BinaryFormat) (rank : ℕ) :
    format.value rank < 10 ^ start format rank := by
  unfold start
  rw [twoTo_eq]
  have whole := Nat.lt_log2_self (n := format.units rank / 2 ^ format.scale)
  generalize (format.units rank / 2 ^ format.scale).log2 = log at whole ⊢
  rw [Nat.div_lt_iff_lt_mul (by positivity)] at whole
  rw [BinaryFormat.value_eq, div_lt_iff₀ (by positivity)]
  calc (format.units rank : ℚ) < 2 ^ (log + 1) * 2 ^ format.scale := by exact_mod_cast whole
    _ ≤ 2 ^ (3 * (log / 3 + 1)) * 2 ^ format.scale := by
        gcongr
        · norm_num
        · omega
    _ = 8 ^ (log / 3 + 1) * 2 ^ format.scale := by
        rw [pow_mul]
        norm_num
    _ ≤ 10 ^ (log / 3 + 1) * 2 ^ format.scale := by
        gcongr
        norm_num

/-- The powers of ten beyond the starting exponent exceed all that is caught. -/
theorem exponent_le_start (positive : 0 < rank) (member : decimal.value ∈ format.catchment rank) :
    decimal.exponent ≤ start format rank := by
  by_contra beyond
  rw [not_le] at beyond
  have some : decimal.coefficient ≠ 0 := by
    intro none
    apply zero_not_mem_catchment positive
    rwa [value, none, Nat.cast_zero, zero_mul] at member
  have large : (10 : ℚ) ^ (start format rank + 1) ≤ decimal.value := by
    have one : (1 : ℚ) ≤ decimal.coefficient := by
      exact_mod_cast Nat.one_le_iff_ne_zero.mpr some
    calc (10 : ℚ) ^ (start format rank + 1) ≤ 10 ^ decimal.exponent := by
          rw [← zpow_natCast]
          exact zpow_le_zpow_right₀ (by norm_num) (by push_cast; omega)
      _ ≤ decimal.value := le_mul_of_one_le_left (by positivity) one
  have next : format.value (rank + 1) ≤ 2 * format.value rank := by
    have step : ((format.units rank + 2 ^ format.shift rank : ℕ) : ℚ) ≤ 2 * format.units rank := by
      exact_mod_cast (by linarith [format.pow_shift_le_units positive] :
        format.units rank + 2 ^ format.shift rank ≤ 2 * format.units rank)
    rw [BinaryFormat.value_eq, BinaryFormat.value_eq, BinaryFormat.units_succ, ← mul_div_assoc]
    gcongr
  have high := BinaryFormat.le_high_of_mem member
  have here := value_lt_start format rank
  have power : (0 : ℚ) < 10 ^ start format rank := by positivity
  rw [pow_succ] at large
  linarith

/-- A decimal that is rounded to a rank, and on the coarsest grid that has one. -/
structure Coarsest (format : BinaryFormat) (rank : ℕ) (decimal : Decimal) : Prop where
  caught : decimal.value ∈ format.catchment rank
  grid : ∀ other : Decimal, other.value ∈ format.catchment rank → other.exponent ≤ decimal.exponent

theorem shortest_coarsest (positive : 0 < rank) : Coarsest format rank (shortest format rank) := by
  obtain ⟨caught, coarsest⟩ := refine_coarsest format rank (start format rank + format.scale)
    (start format rank) (by push_cast; omega)
  refine ⟨caught, fun other member => ?_⟩
  by_contra coarser
  exact coarsest other (not_le.mp coarser) (exponent_le_start positive member) member

end Search

section Digits

theorem ofDigits_dropWhile (digits : List ℕ) :
    Nat.ofDigits 10 digits = Nat.ofDigits 10 (digits.dropWhile (· == 0)) *
      10 ^ (digits.takeWhile (· == 0)).length := by
  induction digits with
  | nil => simp
  | cons digit digits ih =>
      by_cases zero : digit = 0
      · subst zero
        simp only [Nat.ofDigits_cons, beq_self_eq_true, List.dropWhile_cons_of_pos,
          List.takeWhile_cons_of_pos, List.length_cons, pow_succ, ih, zero_add]
        ring
      · simp [zero]

/-- The zeros that end a coefficient can be moved into the exponent. -/
theorem exists_significant (decimal : Decimal) :
    ∃ coefficient zeros, decimal.coefficient = coefficient * 10 ^ zeros ∧
      coefficient < 10 ^ decimal.significantDigits := by
  have split := ofDigits_dropWhile (Nat.digits 10 decimal.coefficient)
  rw [Nat.ofDigits_digits] at split
  refine ⟨_, _, split, Nat.ofDigits_lt_base_pow_length (by norm_num) fun digit member => ?_⟩
  exact Nat.digits_lt_base (by norm_num) ((List.dropWhile_sublist _).subset member)

/-- Zeros that are added to the coefficient are not significant. -/
theorem significantDigits_mul_pow (coefficient zeros : ℕ) (first second : ℤ) :
    significantDigits ⟨coefficient * 10 ^ zeros, first⟩ =
      significantDigits ⟨coefficient, second⟩ := by
  rcases Nat.eq_zero_or_pos coefficient with rfl | positive
  · simp [significantDigits]
  · unfold significantDigits
    dsimp only
    rw [mul_comm, Nat.digits_base_pow_mul (by norm_num) positive]
    congr 1
    exact List.dropWhile_append_of_pos (by simp)

theorem pow_significantDigits_le (last : decimal.coefficient % 10 ≠ 0) :
    10 ^ decimal.significantDigits ≤ 10 * decimal.coefficient := by
  have some : decimal.coefficient ≠ 0 := fun none => last (by simp [none])
  have digits : decimal.significantDigits = (Nat.digits 10 decimal.coefficient).length := by
    rw [significantDigits, Nat.digits_eq_cons_digits_div (by norm_num) some,
      List.dropWhile_cons_of_neg (by simpa using last)]
  rw [digits]
  exact Nat.base_pow_length_digits_le 10 _ (by norm_num) some

/-- A decimal on the coarsest grid does not end with a zero. -/
theorem Coarsest.last (chosen : Coarsest format rank decimal) : decimal.coefficient % 10 ≠ 0 := by
  intro last
  have coarser : value ⟨decimal.coefficient / 10, decimal.exponent + 1⟩ = decimal.value := by
    have whole : (decimal.coefficient : ℚ) = (decimal.coefficient / 10 : ℕ) * 10 := by
      exact_mod_cast (Nat.div_mul_cancel (Nat.dvd_of_mod_eq_zero last)).symm
    rw [value, value, whole, zpow_add₀ (by norm_num)]
    ring
  have bound := chosen.grid _ (coarser ▸ chosen.caught)
  simp at bound

/-- No decimal that is rounded to the rank has fewer significant digits. -/
theorem Coarsest.significantDigits_le {other : Decimal} (positive : 0 < rank)
    (chosen : Coarsest format rank decimal) (member : other.value ∈ format.catchment rank) :
    decimal.significantDigits ≤ other.significantDigits := by
  by_contra fewer
  rw [not_le] at fewer
  obtain ⟨coefficient, zeros, split, small⟩ := other.exists_significant
  have moved : other.value = value ⟨coefficient, other.exponent + zeros⟩ := by
    rw [value, value, split, zpow_add₀ (by norm_num), zpow_natCast]
    push_cast
    ring
  have coarse := chosen.grid _ (moved ▸ member)
  have long := pow_significantDigits_le chosen.last
  obtain ⟨more, count⟩ : ∃ more, decimal.significantDigits = more + 1 :=
    ⟨decimal.significantDigits - 1, by omega⟩
  rw [count] at fewer long
  -- The power of ten at the first digit of the chosen decimal lies between the two.
  have power : value ⟨1, more + decimal.exponent⟩ = 10 ^ more * 10 ^ decimal.exponent := by
    rw [value, Nat.cast_one, one_mul, zpow_add₀ (by norm_num), zpow_natCast]
  have below : other.value ≤ value ⟨1, more + decimal.exponent⟩ := by
    have digits : coefficient ≤ 10 ^ more :=
      small.le.trans (Nat.pow_le_pow_right (by norm_num) (by omega))
    rw [moved, power, value]
    exact mul_le_mul (by exact_mod_cast digits) (zpow_le_zpow_right₀ (by norm_num) coarse)
      (by positivity) (by positivity)
  have above : value ⟨1, more + decimal.exponent⟩ ≤ decimal.value := by
    have digits : 10 ^ more ≤ decimal.coefficient := by
      rw [pow_succ] at long
      omega
    rw [power, value]
    exact mul_le_mul_of_nonneg_right (by exact_mod_cast digits) (by positivity)
  have single := chosen.grid _ (Set.OrdConnected.out' member chosen.caught ⟨below, above⟩)
  obtain rfl : more = 0 := by simpa using single
  obtain none : other.significantDigits = 0 := by omega
  obtain rfl : coefficient = 0 := by simpa [none] using small
  rw [moved, value, Nat.cast_zero, zero_mul] at member
  exact zero_not_mem_catchment positive member

end Digits

end Decimal

end DistanceField
