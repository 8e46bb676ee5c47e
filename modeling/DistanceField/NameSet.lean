/-! Finite sets of names, listed in ascending order. -/

namespace DistanceField

/-- Puts a name where it belongs in an ascending list. -/
def insertAscending (name : String) : List String → List String
  | [] => [name]
  | first :: rest =>
      if name < first then name :: first :: rest
      else if name = first then first :: rest
      else first :: insertAscending name rest

theorem mem_insertAscending {name other : String} {names : List String} :
    other ∈ insertAscending name names ↔ other = name ∨ other ∈ names := by
  induction names with
  | nil => simp [insertAscending]
  | cons first rest ih =>
      simp only [insertAscending]
      split
      · simp
      · split
        · next same => simp [same]
        · simp only [List.mem_cons, ih]
          exact or_left_comm

theorem pairwise_insertAscending (name : String) (names : List String)
    (ascending : names.Pairwise (· < ·)) :
    (insertAscending name names).Pairwise (· < ·) := by
  induction names with
  | nil => simp [insertAscending]
  | cons first rest ih =>
      have ⟨above, tail⟩ := List.pairwise_cons.mp ascending
      simp only [insertAscending]
      split
      · next below =>
          refine List.pairwise_cons.mpr ⟨fun other member => ?_, ascending⟩
          rcases List.mem_cons.mp member with same | member
          · exact same ▸ below
          · exact String.lt_trans below (above other member)
      · split
        · exact ascending
        · next notBelow different =>
            refine List.pairwise_cons.mpr ⟨fun other member => ?_, ih tail⟩
            rcases mem_insertAscending.mp member with same | member
            · subst same
              by_cases less : first < other
              · exact less
              · exact absurd (String.le_antisymm (String.not_lt.mp less)
                  (String.not_lt.mp notBelow)) different
            · exact above other member

/-- A finite set of names. -/
@[ext]
structure NameSet where
  names : List String
  ascending : names.Pairwise (· < ·)

namespace NameSet

def empty : NameSet := ⟨[], .nil⟩

instance : EmptyCollection NameSet := ⟨empty⟩

instance : Inhabited NameSet := ⟨empty⟩

instance : Membership String NameSet := ⟨fun set name => name ∈ set.names⟩

instance (name : String) (set : NameSet) : Decidable (name ∈ set) :=
  inferInstanceAs (Decidable (name ∈ set.names))

def insert (set : NameSet) (name : String) : NameSet :=
  ⟨insertAscending name set.names, pairwise_insertAscending name set.names set.ascending⟩

def insertAll (set : NameSet) (names : List String) : NameSet :=
  names.foldl insert set

def ofList (names : List String) : NameSet :=
  empty.insertAll names

def union (a b : NameSet) : NameSet :=
  a.insertAll b.names

theorem mem_insert {set : NameSet} {name other : String} :
    other ∈ set.insert name ↔ other = name ∨ other ∈ set :=
  mem_insertAscending

theorem mem_insertAll {set : NameSet} {names : List String} {other : String} :
    other ∈ set.insertAll names ↔ other ∈ set ∨ other ∈ names := by
  induction names generalizing set with
  | nil => simp [insertAll]
  | cons name rest ih =>
      have unfolded : set.insertAll (name :: rest) = (set.insert name).insertAll rest := rfl
      rw [unfolded, ih, mem_insert, List.mem_cons, or_comm (a := other = name), or_assoc]

theorem mem_ofList {names : List String} {other : String} :
    other ∈ ofList names ↔ other ∈ names := by
  have none : ¬ other ∈ (empty : NameSet) := List.not_mem_nil
  simp [ofList, mem_insertAll, none]

theorem mem_union {a b : NameSet} {other : String} :
    other ∈ a.union b ↔ other ∈ a ∨ other ∈ b :=
  mem_insertAll

end NameSet

end DistanceField
