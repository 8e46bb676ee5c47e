import DistanceField.Table
import Mathlib.Data.List.Basic

/-! Many assignments to a table: each name has the value it was given last, and stands where
it was first entered. -/

namespace DistanceField

/-- The value that is given to a name last. -/
def latest? (name : String) (assigned : List (String × α)) : Option α :=
  assigned.reverse.lookup name

theorem latest?_append (name : String) (first second : List (String × α)) :
    latest? name (first ++ second) = (latest? name second).or (latest? name first) := by
  rw [latest?, List.reverse_append, List.lookup_append, latest?, latest?]

theorem latest?_singleton (name : String) (entry : String × α) :
    latest? name [entry] = if name = entry.1 then some entry.2 else none := by
  obtain ⟨key, value⟩ := entry
  by_cases same : name = key
  · simp [latest?, same]
  · simp [latest?, List.lookup_cons, beq_false_of_ne same, same]

theorem mem_of_latest? {assigned : List (String × α)} (given : latest? name assigned = some value) :
    (name, value) ∈ assigned := by
  obtain ⟨before, after, split, _⟩ := List.lookup_eq_some_iff.mp given
  exact List.mem_reverse.mp (by simp [split])

theorem exists_latest?_iff {assigned : List (String × α)} :
    (∃ value, latest? name assigned = some value) ↔ name ∈ assigned.map Prod.fst := by
  constructor
  · rintro ⟨value, given⟩
    exact List.mem_map.mpr ⟨(name, value), mem_of_latest? given, rfl⟩
  · intro member
    obtain ⟨entry, inside, rfl⟩ := List.mem_map.mp member
    cases given : latest? entry.1 assigned with
    | some value => exact ⟨value, rfl⟩
    | none =>
        have apart := List.lookup_eq_none_iff.mp given entry (List.mem_reverse.mpr inside)
        simp at apart

/-- The names that are not known, in the order in which they first occur. -/
def newNames (known : List String) : List String → List String
  | [] => []
  | name :: rest =>
      if name ∈ known then newNames known rest else name :: newNames (known ++ [name]) rest

theorem mem_newNames {known names : List String} :
    name ∈ newNames known names ↔ name ∈ names ∧ name ∉ known := by
  induction names generalizing known with
  | nil => simp [newNames]
  | cons first rest ih =>
      unfold newNames
      split
      · next old =>
          rw [ih, List.mem_cons]
          refine and_congr_left fun fresh => (or_iff_right ?_).symm
          rintro rfl
          exact fresh old
      · next fresh =>
          rw [List.mem_cons, ih, List.mem_append, List.mem_singleton, List.mem_cons]
          by_cases same : name = first
          · simp [same, fresh]
          · simp [same]

theorem newNames_sublist (known names : List String) : (newNames known names).Sublist names := by
  induction names generalizing known with
  | nil => exact .slnil
  | cons first rest ih =>
      unfold newNames
      split
      · exact (ih known).cons first
      · exact (ih _).cons_cons first

/-- New names are ordered by their first occurrences. -/
theorem pairwise_newNames (known names : List String) :
    (newNames known names).Pairwise fun a b => names.idxOf a < names.idxOf b := by
  induction names generalizing known with
  | nil => exact .nil
  | cons first rest ih =>
      have shift : ∀ name, name ≠ first → (first :: rest).idxOf name = rest.idxOf name + 1 :=
        fun name different => List.idxOf_cons_ne rest different.symm
      unfold newNames
      split
      · next old =>
          refine (ih known).imp_of_mem fun {a b} memberA memberB less => ?_
          rw [shift a, shift b]
          · exact Nat.succ_lt_succ less
          · rintro rfl
            exact (mem_newNames.mp memberB).2 old
          · rintro rfl
            exact (mem_newNames.mp memberA).2 old
      · next fresh =>
          have apart : ∀ name ∈ newNames (known ++ [first]) rest, name ≠ first := by
            rintro name member rfl
            exact (mem_newNames.mp member).2 (List.mem_append_right known List.mem_cons_self)
          refine List.pairwise_cons.mpr ⟨fun name member => ?_, ?_⟩
          · rw [List.idxOf_cons_self, shift name (apart name member)]
            exact Nat.succ_pos _
          · refine (ih _).imp_of_mem fun {a b} memberA memberB less => ?_
            rw [shift a (apart a memberA), shift b (apart b memberB)]
            exact Nat.succ_lt_succ less

namespace Table

theorem setAll_cons (table : Table α) (entry : String × α) (rest : List (String × α)) :
    table.setAll (entry :: rest) = (table.set entry.1 entry.2).setAll rest :=
  rfl

theorem get?_setAll (table : Table α) (assigned : List (String × α)) (name : String) :
    (table.setAll assigned).get? name = (latest? name assigned).or (table.get? name) := by
  induction assigned generalizing table with
  | nil => rfl
  | cons entry rest ih =>
      have split : latest? name (entry :: rest) =
          (latest? name rest).or (latest? name [entry]) := latest?_append name [entry] rest
      rw [setAll_cons, ih, get?_set, split, Option.or_assoc, latest?_singleton]
      by_cases same : name = entry.1 <;> simp [same]

theorem keys_setAll (table : Table α) (assigned : List (String × α)) :
    (table.setAll assigned).keys = table.keys ++ newNames table.keys (assigned.map Prod.fst) := by
  induction assigned generalizing table with
  | nil => exact (List.append_nil _).symm
  | cons entry rest ih =>
      rw [setAll_cons, ih, keys_set, List.map_cons, newNames]
      split
      · rfl
      · rw [List.append_assoc, List.singleton_append]

end Table

end DistanceField
