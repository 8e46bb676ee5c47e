/-! Finite maps from names that remember in which order the names were first entered. -/

namespace DistanceField

/-- Assigns a value to a name. A known name keeps its place, a new one goes last. -/
def assign (name : String) (value : α) : List (String × α) → List (String × α)
  | [] => [(name, value)]
  | entry :: rest =>
      if entry.1 = name then (name, value) :: rest else entry :: assign name value rest

theorem keys_assign (name : String) (value : α) (entries : List (String × α)) :
    (assign name value entries).map Prod.fst =
      if name ∈ entries.map Prod.fst then entries.map Prod.fst
      else entries.map Prod.fst ++ [name] := by
  induction entries with
  | nil => simp [assign]
  | cons entry rest ih =>
      by_cases same : entry.1 = name
      · simp [assign, same]
      · have other : name ≠ entry.1 := fun h => same h.symm
        simp only [assign, if_neg same, List.map_cons, ih, List.mem_cons, other, false_or]
        split <;> simp

theorem nodup_keys_assign (name : String) (value : α) (entries : List (String × α))
    (distinct : (entries.map Prod.fst).Nodup) :
    ((assign name value entries).map Prod.fst).Nodup := by
  rw [keys_assign]
  split
  · exact distinct
  · next absent =>
      refine List.nodup_append.mpr ⟨distinct, by simp, fun a member b last => ?_⟩
      simp only [List.mem_singleton] at last
      exact fun equal => absent (last ▸ equal ▸ member)

theorem lookup_assign (name other : String) (value : α) (entries : List (String × α)) :
    (assign name value entries).lookup other =
      if other = name then some value else entries.lookup other := by
  induction entries with
  | nil =>
      by_cases same : other = name
      · simp [assign, same]
      · simp [assign, List.lookup_cons, beq_false_of_ne same, same]
  | cons entry rest ih =>
      obtain ⟨key, old⟩ := entry
      by_cases found : key = name
      · subst found
        by_cases same : other = key
        · simp [assign, same]
        · simp [assign, List.lookup_cons, beq_false_of_ne same, same]
      · simp only [assign, if_neg found, List.lookup_cons, ih]
        by_cases same : other = name
        · subst same
          simp [beq_false_of_ne (Ne.symm found)]
        · simp [same]

/-- Named values in the order in which the names were first entered. -/
structure Table (α : Type u) where
  entries : List (String × α)
  distinct : (entries.map Prod.fst).Nodup

namespace Table

def empty : Table α := ⟨[], by simp⟩

instance : EmptyCollection (Table α) := ⟨empty⟩

instance : Inhabited (Table α) := ⟨empty⟩

def keys (table : Table α) : List String :=
  table.entries.map Prod.fst

def size (table : Table α) : Nat :=
  table.entries.length

def get? (table : Table α) (name : String) : Option α :=
  table.entries.lookup name

def contains (table : Table α) (name : String) : Bool :=
  (table.get? name).isSome

def set (table : Table α) (name : String) (value : α) : Table α :=
  ⟨assign name value table.entries, nodup_keys_assign name value table.entries table.distinct⟩

@[simp]
theorem length_keys (table : Table α) : table.keys.length = table.size :=
  List.length_map _

theorem keys_set (table : Table α) (name : String) (value : α) :
    (table.set name value).keys =
      if name ∈ table.keys then table.keys else table.keys ++ [name] :=
  keys_assign name value table.entries

theorem get?_set (table : Table α) (name other : String) (value : α) :
    (table.set name value).get? other =
      if other = name then some value else table.get? other :=
  lookup_assign name other value table.entries

theorem mem_keys_of_get? {table : Table α} (found : table.get? name = some value) :
    name ∈ table.keys := by
  obtain ⟨before, after, split, _⟩ := List.lookup_eq_some_iff.mp found
  exact List.mem_map.mpr ⟨(name, value), by simp [split], rfl⟩

theorem get?_of_mem_keys {table : Table α} (member : name ∈ table.keys) :
    ∃ value, table.get? name = some value := by
  obtain ⟨⟨key, value⟩, inside, rfl⟩ := List.mem_map.mp member
  cases found : table.get? key with
  | some value => exact ⟨value, rfl⟩
  | none =>
      have apart := List.lookup_eq_none_iff.mp found (key, value) inside
      simp at apart

theorem contains_iff_mem_keys {table : Table α} :
    table.contains name = true ↔ name ∈ table.keys := by
  constructor
  · intro present
    obtain ⟨value, found⟩ := Option.isSome_iff_exists.mp present
    exact mem_keys_of_get? found
  · intro member
    exact Option.isSome_iff_exists.mpr (get?_of_mem_keys member)

/-- Enters all the given pairs, the later ones last. -/
def setAll (table : Table α) (entries : List (String × α)) : Table α :=
  entries.foldl (fun table entry => table.set entry.1 entry.2) table

end Table

end DistanceField
