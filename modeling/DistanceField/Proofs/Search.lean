import DistanceField.Proofs.Indentation
import DistanceField.Text.Search

/-! Occurrences of a marker in a text. Counting matches one behind the other may miss
occurrences that overlap; a marker that ends with a character found nowhere else in it cannot
overlap itself, so for such a marker it misses none. -/

namespace DistanceField.Text

variable {marker other before later text : List Char}

/-- A marker stands in a text right behind an initial part of it. -/
def Occurs (marker before text : List Char) : Prop :=
  before ++ marker <+: text

/-- There is one place where the marker stands, occurrences that overlap counted apart. -/
def OccursOnce (marker text : List Char) : Prop :=
  ∃! before, Occurs marker before text

/-- The marker stands in no place before this one. -/
structure OccursFirst (marker before text : List Char) : Prop where
  occurs : Occurs marker before text
  least : ∀ later, Occurs marker later text → before.length ≤ later.length

theorem occurs_append (start before text : List Char) :
    Occurs marker (start ++ before) (start ++ text) ↔ Occurs marker before text := by
  unfold Occurs
  rw [List.append_assoc, List.prefix_append_right_inj]

theorem occurs_cons {c : Char} {rest : List Char} :
    Occurs marker before (c :: rest) ↔
      (before = [] ∧ marker <+: c :: rest) ∨
        ∃ shorter, before = c :: shorter ∧ Occurs marker shorter rest := by
  cases before with
  | nil => simp [Occurs]
  | cons first shorter =>
      simp only [Occurs, List.cons_append, List.cons_prefix_cons, reduceCtorEq, false_and,
        false_or, List.cons.injEq]
      constructor
      · rintro ⟨rfl, inside⟩
        exact ⟨shorter, ⟨rfl, rfl⟩, inside⟩
      · rintro ⟨_, ⟨rfl, rfl⟩, inside⟩
        exact ⟨rfl, inside⟩

theorem not_occurs_nil (solid : marker ≠ []) : ¬ Occurs marker before [] := by
  intro inside
  exact solid (List.append_eq_nil_iff.mp (List.prefix_nil.mp inside)).2

/-- Where a marker does not stand at once, it is looked for behind the next character. -/
theorem occursFirst_cons {c : Char} {rest : List Char} (missed : ¬ marker <+: c :: rest) :
    OccursFirst marker before (c :: rest) ↔
      ∃ shorter, before = c :: shorter ∧ OccursFirst marker shorter rest := by
  constructor
  · intro first
    obtain ⟨_, starts⟩ | ⟨shorter, rfl, inside⟩ := occurs_cons.mp first.occurs
    · exact absurd starts missed
    · refine ⟨shorter, rfl, inside, fun later also => ?_⟩
      have bound := first.least (c :: later) (occurs_cons.mpr (.inr ⟨later, rfl, also⟩))
      simpa using bound
  · rintro ⟨shorter, rfl, first⟩
    refine ⟨occurs_cons.mpr (.inr ⟨shorter, rfl, first.occurs⟩), fun later also => ?_⟩
    obtain ⟨_, starts⟩ | ⟨tail, rfl, inside⟩ := occurs_cons.mp also
    · exact absurd starts missed
    · simpa using first.least tail inside

theorem occursFirst_nil (starts : marker <+: text) : OccursFirst marker [] text :=
  ⟨starts, fun _ _ => Nat.zero_le _⟩

theorem find?_eq_none_iff (solid : marker ≠ []) :
    find? marker text = none ↔ ∀ before, ¬ Occurs marker before text := by
  induction text with
  | nil =>
      have nowhere : ∀ before, ¬ Occurs marker before [] := fun _ => not_occurs_nil solid
      simp only [find?, true_iff]
      exact nowhere
  | cons c rest ih =>
      unfold find?
      split
      · next starts =>
          have here := (occursFirst_nil (List.isPrefixOf_iff_prefix.mp starts)).occurs
          simp only [reduceCtorEq, false_iff, not_forall, not_not]
          exact ⟨[], here⟩
      · next missed =>
          rw [List.isPrefixOf_iff_prefix] at missed
          rw [Option.map_eq_none_iff, ih]
          constructor
          · intro nowhere before inside
            obtain ⟨_, starts⟩ | ⟨shorter, _, deeper⟩ := occurs_cons.mp inside
            · exact missed starts
            · exact nowhere shorter deeper
          · intro nowhere before inside
            exact nowhere (c :: before) (occurs_cons.mpr (.inr ⟨before, rfl, inside⟩))

/-- A search ends where the marker stands for the first time. -/
theorem find?_eq_some_iff (solid : marker ≠ []) {position : Nat} :
    find? marker text = some position ↔
      ∃ before, OccursFirst marker before text ∧ byteLength before = position := by
  induction text generalizing position with
  | nil =>
      refine ⟨nofun, ?_⟩
      rintro ⟨before, first, _⟩
      exact absurd first.occurs (not_occurs_nil solid)
  | cons c rest ih =>
      unfold find?
      split
      · next starts =>
          have here := occursFirst_nil (List.isPrefixOf_iff_prefix.mp starts)
          constructor
          · rintro ⟨⟩
            exact ⟨[], here, rfl⟩
          · rintro ⟨before, first, rfl⟩
            have none := List.length_eq_zero_iff.mp (Nat.le_zero.mp (first.least [] here.occurs))
            rw [none]
            rfl
      · next missed =>
          rw [List.isPrefixOf_iff_prefix] at missed
          simp only [Option.map_eq_some_iff, ih, occursFirst_cons missed]
          constructor
          · rintro ⟨_, ⟨shorter, first, rfl⟩, rfl⟩
            exact ⟨c :: shorter, ⟨shorter, rfl, first⟩, rfl⟩
          · rintro ⟨_, ⟨shorter, rfl, first⟩, rfl⟩
            exact ⟨byteLength shorter, ⟨shorter, first, rfl⟩, rfl⟩

theorem exists_occursFirst (solid : marker ≠ []) (inside : Occurs marker before text) :
    ∃ before, OccursFirst marker before text := by
  cases found : find? marker text with
  | none => exact absurd inside ((find?_eq_none_iff solid).mp found before)
  | some position =>
      obtain ⟨first, leads, _⟩ := (find?_eq_some_iff solid).mp found
      exact ⟨first, leads⟩

/-- What belongs to an earlier match is passed over. -/
theorem countMatches_eq_drop (marker : List Char) (skipped : Nat) (text : List Char) :
    countMatches marker skipped text = countMatches marker 0 (text.drop skipped) := by
  induction text generalizing skipped with
  | nil => simp [countMatches]
  | cons c rest ih =>
      cases skipped with
      | zero => rfl
      | succ skipped => exact ih skipped

theorem countMatches_of_prefix (solid : marker ≠ []) (after : List Char) :
    countMatches marker 0 (marker ++ after) = countMatches marker 0 after + 1 := by
  cases marker with
  | nil => exact absurd rfl solid
  | cons c marker =>
      have starts : (c :: marker).isPrefixOf (c :: (marker ++ after)) = true :=
        List.isPrefixOf_iff_prefix.mpr (List.prefix_append (c :: marker) after)
      rw [List.cons_append, countMatches, if_pos starts, countMatches_eq_drop, List.length_cons,
        Nat.add_sub_cancel, List.drop_left]

theorem countMatches_of_missed {c : Char} {rest : List Char} (missed : ¬ marker <+: c :: rest) :
    countMatches marker 0 (c :: rest) = countMatches marker 0 rest := by
  rw [countMatches, if_neg (by rwa [List.isPrefixOf_iff_prefix])]

/-- The count goes on behind the first match. -/
theorem countMatches_of_first (solid : marker ≠ []) {after : List Char}
    (first : OccursFirst marker before (before ++ marker ++ after)) :
    countMatches marker 0 (before ++ marker ++ after) = countMatches marker 0 after + 1 := by
  induction before with
  | nil => exact countMatches_of_prefix solid after
  | cons c before ih =>
      have missed : ¬ marker <+: c :: (before ++ marker ++ after) := by
        intro starts
        have bound := first.least [] (occursFirst_nil starts).occurs
        exact absurd bound (by simp)
      obtain ⟨shorter, same, inner⟩ := (occursFirst_cons missed).mp first
      cases same
      exact (countMatches_of_missed missed).trans (ih inner)

theorem countMatches_eq_zero_iff (solid : marker ≠ []) :
    countMatches marker 0 text = 0 ↔ ∀ before, ¬ Occurs marker before text := by
  constructor
  · intro none before inside
    obtain ⟨start, first⟩ := exists_occursFirst solid inside
    obtain ⟨after, rfl⟩ := first.occurs
    rw [countMatches_of_first solid first] at none
    cases none
  · intro nowhere
    induction text with
    | nil => rfl
    | cons c rest ih =>
        have missed : ¬ marker <+: c :: rest := fun starts =>
          nowhere [] (occursFirst_nil starts).occurs
        rw [countMatches_of_missed missed]
        apply ih
        intro before inside
        exact nowhere (c :: before) (occurs_cons.mpr (.inr ⟨before, rfl, inside⟩))

/-- The last character of a text is found nowhere else in it. -/
def EndsOnlyWith (last : Char) (text : List Char) : Prop :=
  ∃ body, text = body ++ [last] ∧ last ∉ body

theorem EndsOnlyWith.ne_nil {last : Char} (ended : EndsOnlyWith last marker) : marker ≠ [] := by
  obtain ⟨body, rfl, _⟩ := ended
  simp

/-- Of two occurrences, the one that ends first lies before the other or ends together with it:
otherwise the other would hold the last character of the first within. -/
theorem EndsOnlyWith.before_or_together {last : Char} (ended : EndsOnlyWith last marker)
    (also : EndsOnlyWith last other) (inside : before ++ marker <+: later ++ other) :
    before ++ marker <+: later ∨ before ++ marker = later ++ other := by
  obtain ⟨rest, joined⟩ := inside
  obtain ⟨body, rfl, absent⟩ := also
  rcases List.eq_nil_or_concat rest with rfl | ⟨rest, c, rfl⟩
  · exact .inr (by simpa using joined)
  · left
    rw [List.concat_eq_append, ← List.append_assoc, ← List.append_assoc] at joined
    obtain ⟨joined, _⟩ := List.append_inj' joined rfl
    rcases List.append_eq_append_iff.mp joined with ⟨middle, split, _⟩ | ⟨middle, split, rfl⟩
    · exact ⟨middle, split.symm⟩
    · -- What the first one has behind `later` is part of the body of the other.
      rcases List.eq_nil_or_concat middle with rfl | ⟨middle, d, rfl⟩
      · exact ⟨[], by rw [split, List.append_nil, List.append_nil]⟩
      · obtain ⟨inner, rfl, _⟩ := ended
        rw [List.concat_eq_append, ← List.append_assoc, ← List.append_assoc] at split
        obtain ⟨_, same⟩ := List.append_inj' split rfl
        cases same
        simp at absent

theorem EndsOnlyWith.apart {last : Char} (ended : EndsOnlyWith last marker)
    (also : EndsOnlyWith last other) (one : Occurs marker before text)
    (two : Occurs other later text) :
    before ++ marker <+: later ∨ later ++ other <+: before ∨
      before ++ marker = later ++ other := by
  rcases List.prefix_or_prefix_of_prefix one two with inside | inside
  · rcases ended.before_or_together also inside with apart | together
    · exact .inl apart
    · exact .inr (.inr together)
  · rcases also.before_or_together ended inside with apart | together
    · exact .inr (.inl apart)
    · exact .inr (.inr together.symm)

/-- Counting matches one behind the other counts the places where the marker stands. -/
theorem EndsOnlyWith.countMatches_eq_one_iff {last : Char} (ended : EndsOnlyWith last marker) :
    countMatches marker 0 text = 1 ↔ OccursOnce marker text := by
  have solid := ended.ne_nil
  constructor
  · intro one
    have somewhere : ∃ before, Occurs marker before text := by
      by_contra nowhere
      rw [(countMatches_eq_zero_iff solid).mpr (not_exists.mp nowhere)] at one
      cases one
    obtain ⟨_, inside⟩ := somewhere
    obtain ⟨before, first⟩ := exists_occursFirst solid inside
    obtain ⟨after, rfl⟩ := first.occurs
    rw [countMatches_of_first solid first, Nat.add_eq_right, countMatches_eq_zero_iff solid] at one
    refine ⟨before, first.occurs, fun later further => ?_⟩
    rcases ended.apart ended first.occurs further with behind | ahead | together
    · -- A second place behind the first match would have been counted.
      obtain ⟨rest, rfl⟩ := behind
      exact absurd ((occurs_append _ rest after).mp further) (one rest)
    · have short := ahead.length_le
      have bound := first.least later further
      rw [List.length_append] at short
      have wide := List.length_pos_iff.mpr solid
      omega
    · exact (List.append_cancel_right together).symm
  · rintro ⟨before, inside, unique⟩
    have first : OccursFirst marker before text :=
      ⟨inside, fun later further => (congrArg List.length (unique later further)).ge⟩
    obtain ⟨after, rfl⟩ := inside
    rw [countMatches_of_first solid first, Nat.add_eq_right, countMatches_eq_zero_iff solid]
    intro rest further
    have same := unique _ ((occurs_append (before ++ marker) rest after).mpr further)
    have length := congrArg List.length same
    simp only [List.length_append] at length
    have wide := List.length_pos_iff.mpr solid
    omega

theorem takeBytes?_eq_some_iff {count : Nat} {part : List Char} :
    takeBytes? count text = some part ↔
      ∃ rest, text = part ++ rest ∧ byteLength part = count := by
  fun_induction takeBytes? count text generalizing part with
  | case1 text =>
      simp only [Option.some.injEq, byteLength_eq_zero_iff]
      constructor
      · rintro rfl
        exact ⟨text, rfl, rfl⟩
      · rintro ⟨_, _, none⟩
        exact none.symm
  | case2 count =>
      refine ⟨nofun, ?_⟩
      rintro ⟨rest, split, length⟩
      obtain ⟨rfl, rfl⟩ := List.append_eq_nil_iff.mp split.symm
      cases length
  | case3 count c text fits ih =>
      simp only [Option.map_eq_some_iff, ih]
      constructor
      · rintro ⟨part, ⟨rest, rfl, length⟩, rfl⟩
        exact ⟨rest, rfl, by simp only [byteLength]; omega⟩
      · rintro ⟨rest, split, length⟩
        cases part with
        | nil => cases length
        | cons first part =>
            obtain ⟨rfl, rfl⟩ := List.cons.inj split
            exact ⟨part, ⟨rest, rfl, by simp only [byteLength] at length; omega⟩, rfl⟩
  | case4 count c text wide =>
      refine ⟨nofun, ?_⟩
      rintro ⟨rest, split, length⟩
      cases part with
      | nil => cases length
      | cons first part =>
          obtain ⟨rfl, rfl⟩ := List.cons.inj split
          simp only [byteLength] at length
          omega

/-- A part can be taken exactly if it stands in the text between the two positions. -/
theorem slice?_eq_some_iff {start stop : Nat} {part : List Char} :
    slice? start stop text = some part ↔
      ∃ before after, text = before ++ part ++ after ∧ byteLength before = start ∧
        byteLength (before ++ part) = stop := by
  simp only [byteLength_append]
  unfold slice?
  split
  · next backwards =>
      refine ⟨nofun, ?_⟩
      rintro ⟨before, after, _, rfl, rfl⟩
      omega
  · next forwards =>
      simp only [Option.bind_eq_some_iff, dropBytes?_eq_some_iff, takeBytes?_eq_some_iff]
      constructor
      · rintro ⟨_, ⟨before, rfl, rfl⟩, after, rfl, length⟩
        exact ⟨before, after, (List.append_assoc before part after).symm, rfl, by omega⟩
      · rintro ⟨before, after, rfl, rfl, rfl⟩
        refine ⟨part ++ after, ⟨before, List.append_assoc before part after, rfl⟩, after, rfl, ?_⟩
        omega

end DistanceField.Text
