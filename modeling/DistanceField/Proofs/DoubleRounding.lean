import DistanceField.Proofs.Shortest
import Mathlib.Order.Interval.Set.UnorderedInterval

/-! Rounding in two steps. If the first format has the halfway points of the second among its
values, the second step goes wrong at such a point only: there it takes the even neighbour, while
the number itself may lie on the side of the odd one. -/

namespace DistanceField.BinaryFormat

variable {format wide narrow : BinaryFormat} {x y : ℚ} {rank other low : ℕ}

/-- The number in the middle between a value and the next one. -/
def halfway (format : BinaryFormat) (rank : ℕ) : ℚ :=
  (format.value rank + format.value (rank + 1)) / 2

section Halfway

theorem halfway_mono (format : BinaryFormat) : Monotone format.halfway := by
  intro rank other less
  have here := format.value_strictMono.monotone less
  have next := format.value_strictMono.monotone (Nat.succ_le_succ less)
  unfold halfway
  linarith

theorem Nearest.le_halfway (nearest : format.Nearest x rank) : x ≤ format.halfway rank :=
  (abs_sub_le_abs_sub_iff (format.value_strictMono (Nat.lt_add_one rank))).mp (nearest.least _)

theorem Nearest.halfway_le (nearest : format.Nearest x rank) (less : low < rank) :
    format.halfway low ≤ x := by
  have above := (abs_sub_le_abs_sub_iff_ge (format.value_strictMono less)).mp (nearest.least low)
  have next := format.value_strictMono.monotone (Nat.succ_le_of_lt less)
  unfold halfway
  linarith

/-- In the middle between two neighbours the even one is nearest. -/
theorem nearest_halfway (format : BinaryFormat) (low : ℕ) :
    format.Nearest (format.halfway low) (low + low % 2) := by
  have next := format.value_strictMono (Nat.lt_add_one low)
  apply nearest_of_mem_catchment
  rcases Nat.mod_two_eq_zero_or_one low with even | odd
  · have before := format.value_strictMono.monotone (Nat.sub_le low 1)
    rw [even, Nat.add_zero, catchment, if_pos even]
    refine ⟨?_, le_rfl⟩
    unfold halfway
    linarith
  · have after := format.value_strictMono (Nat.lt_add_one (low + 1))
    rw [odd, catchment, if_pos (by omega)]
    refine ⟨le_rfl, ?_⟩
    unfold halfway
    linarith

end Halfway

section Covers

/-- A format whose values are fine enough for the halfway points of another, and reach as far as
the other's do. -/
structure Covers (wide narrow : BinaryFormat) : Prop where
  digits : narrow.fractionBits < wide.fractionBits
  scale : narrow.scale < wide.scale
  range : narrow.value narrow.infinity ≤ wide.value wide.infinity

theorem double_covers_single : Covers double single where
  digits := by decide
  scale := by decide
  range := by
    have units : single.units single.infinity * 2 ^ double.scale ≤
        double.units double.infinity * 2 ^ single.scale := by decide +kernel
    rw [value_eq, value_eq, div_le_div_iff₀ (by positivity) (by positivity)]
    exact_mod_cast units

/-- A mantissa that fits, at whatever place, is a number of units. -/
theorem exists_units {mantissa : ℕ} (fits : mantissa < 2 * 2 ^ format.fractionBits) (shift : ℕ) :
    ∃ rank, format.units rank = mantissa * 2 ^ shift := by
  induction shift generalizing mantissa with
  | zero => exact ⟨0 * 2 ^ format.fractionBits + mantissa, units_add ⟨.inl rfl, fits⟩⟩
  | succ shift ih =>
      rcases Nat.lt_or_ge mantissa (2 ^ format.fractionBits) with small | leading
      · obtain ⟨rank, units⟩ := ih (by omega : 2 * mantissa < _)
        exact ⟨rank, by rw [units]; ring⟩
      · exact ⟨_, units_add ⟨.inr leading, fits⟩⟩

/-- A halfway point has one digit more than the values around it. -/
theorem exists_value_halfway (covers : Covers wide narrow) (low : ℕ) :
    ∃ rank, wide.value rank = narrow.halfway low := by
  obtain ⟨shift, mantissa, rfl, normal⟩ := narrow.exists_normal low
  have small := normal.2
  have digits : 2 * (2 * 2 ^ narrow.fractionBits) ≤ 2 * 2 ^ wide.fractionBits := by
    have power : 2 ^ (narrow.fractionBits + 1) ≤ 2 ^ wide.fractionBits :=
      Nat.pow_le_pow_right (by omega) covers.digits
    omega
  obtain ⟨extra, finer⟩ := Nat.exists_eq_add_of_le (Nat.succ_le_of_lt covers.scale)
  obtain ⟨rank, units⟩ :=
    exists_units (by omega : 2 * mantissa + 1 < 2 * 2 ^ wide.fractionBits) (shift + extra)
  refine ⟨rank, ?_⟩
  rw [halfway, value_eq, value_eq, value_eq, units, units_succ, units_add normal, shift_add normal,
    finer]
  push_cast
  rw [pow_add _ (narrow.scale.succ), pow_succ, pow_add]
  field_simp
  ring

theorem convert_le (wide narrow : BinaryFormat) (rank : ℕ) :
    wide.convert narrow rank ≤ narrow.infinity := by
  unfold convert
  split_ifs
  · exact le_rfl
  · exact min_le_left _ _

/-- Converting a value rounds it to the nearest one, or to infinity if that lies beyond. -/
theorem convert_nearest (covers : Covers wide narrow) (fraction : 0 < narrow.fractionBits)
    (rank : ℕ) :
    ∃ other, narrow.Nearest (wide.value rank) other ∧
      wide.convert narrow rank = min narrow.infinity other := by
  obtain ⟨other, nearest, computed⟩ :=
    round_nearest fraction (wide.units rank) (show 0 < 2 ^ wide.scale by positivity)
  push_cast at nearest
  rw [← value_eq] at nearest
  refine ⟨other, nearest, ?_⟩
  unfold convert
  split_ifs with infinite
  · have far := covers.range.trans (wide.value_strictMono.monotone infinite)
    exact (min_eq_left (nearest.infinity_le far)).symm
  · exact computed

end Covers

section Twice

/-- The second number is halfway between two neighbours, and the first lies on the side of the
odd one. -/
def Torn (format : BinaryFormat) (x y : ℚ) : Prop :=
  ∃ low < format.infinity, y = format.halfway low ∧
    (low % 2 = 1 ∧ x < y ∨ low % 2 = 0 ∧ y < x)

/-- If the two steps do not give the nearest rank, a halfway point lies between the number and
the result of the first step. -/
theorem exists_halfway_between (covers : Covers wide narrow) (fraction : 0 < narrow.fractionBits)
    (direct : narrow.Nearest x other)
    (differ : wide.convert narrow rank ≠ min narrow.infinity other) :
    ∃ low < narrow.infinity, narrow.halfway low ∈ Set.uIcc x (wide.value rank) := by
  obtain ⟨twice, second, computed⟩ := convert_nearest covers fraction rank
  rw [computed] at differ
  rcases Nat.lt_trichotomy other twice with less | rfl | greater
  · exact ⟨other, by omega, Set.mem_uIcc_of_le direct.le_halfway (second.halfway_le less)⟩
  · exact absurd rfl differ
  · exact ⟨twice, by omega, Set.mem_uIcc_of_ge second.le_halfway (direct.halfway_le greater)⟩

/-- A nearest value is not beyond any other value on its side. -/
theorem Nearest.eq_of_between (nearest : format.Nearest x rank)
    (between : format.value other ∈ Set.uIcc x (format.value rank)) :
    format.value rank = format.value other := by
  have near := nearest.least other
  rcases Set.mem_uIcc.mp between with ⟨above, below⟩ | ⟨below, above⟩
  · rw [abs_of_nonpos (by linarith), abs_of_nonpos (by linarith)] at near
    linarith
  · rw [abs_of_nonneg (by linarith), abs_of_nonneg (by linarith)] at near
    linarith

/-- If the first step gives the nearest value, the second gives the nearest rank unless the number
is torn. -/
theorem convert_eq_iff (covers : Covers wide narrow) (fraction : 0 < narrow.fractionBits)
    (nearest : wide.Nearest x rank) (direct : narrow.Nearest x other) :
    wide.convert narrow rank = min narrow.infinity other ↔
      ¬ narrow.Torn x (wide.value rank) := by
  obtain ⟨twice, second, computed⟩ := convert_nearest covers fraction rank
  have even {low : ℕ} (half : wide.value rank = narrow.halfway low) : twice = low + low % 2 :=
    nearest_unique second (half ▸ narrow.nearest_halfway low)
  rw [computed]
  constructor
  · rintro same ⟨low, finite, half, ⟨odd, less⟩ | ⟨zero, greater⟩⟩
    · have below : other ≤ low := by
        by_contra above
        have := direct.halfway_le (not_le.mp above)
        linarith
      have := even half
      omega
    · have above : low < other := by
        by_contra below
        have := direct.le_halfway.trans (narrow.halfway_mono (not_lt.mp below))
        linarith
      have := even half
      omega
  · intro untorn
    by_contra differ
    have moved : x ≠ wide.value rank := by
      intro same
      rw [← same] at second
      exact differ (by rw [nearest_unique second direct])
    -- The halfway point is a value of the first format, so the first step stops there.
    rcases Nat.lt_trichotomy other twice with less | same | greater
    · have below := direct.le_halfway
      have above := second.halfway_le less
      obtain ⟨middle, value⟩ := exists_value_halfway covers other
      rw [← value] at below above
      have half := (nearest.eq_of_between (Set.mem_uIcc_of_le below above)).trans value
      have := even half
      refine untorn ⟨other, by omega, half, .inl ⟨by omega, ?_⟩⟩
      exact (below.trans above).lt_of_ne moved
    · exact differ (by rw [same])
    · have below := second.le_halfway
      have above := direct.halfway_le greater
      obtain ⟨middle, value⟩ := exists_value_halfway covers twice
      rw [← value] at below above
      have half := (nearest.eq_of_between (Set.mem_uIcc_of_ge below above)).trans value
      have := even half
      refine untorn ⟨twice, by omega, half, .inr ⟨by omega, ?_⟩⟩
      exact (below.trans above).lt_of_ne moved.symm

end Twice

end DistanceField.BinaryFormat
