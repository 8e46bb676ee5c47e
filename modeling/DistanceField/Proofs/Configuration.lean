import DistanceField.Config.Json
import DistanceField.Proofs.Assignment
import DistanceField.Proofs.ByteOrder
import Mathlib.Data.List.Induction

/-! Configurations over whole histories of changes. Every key has the value it was assigned
last and the place it was given first; the new keys of a JSON object come in the order of their
bytes. -/

namespace DistanceField

namespace Json

variable {members : List (String × ConfigValue)}

theorem get?_ofMembers (members : List (String × ConfigValue)) (key : String) :
    ((Table.empty : Config).setAll members).get? key = latest? key members := by
  rw [Table.get?_setAll]
  exact Option.or_none

theorem mem_keys_ofMembers {key : String} :
    key ∈ ((Table.empty : Config).setAll members).keys ↔ key ∈ members.map Prod.fst := by
  have start : (Table.empty : Config).keys = [] := rfl
  rw [Table.keys_setAll, start, List.nil_append, mem_newNames]
  exact and_iff_left List.not_mem_nil

theorem mem_ascending {key : String} {value : ConfigValue} :
    (key, value) ∈ ascending members ↔ latest? key members = some value := by
  unfold ascending
  simp only [List.mem_filterMap, get?_ofMembers, Option.map_eq_some_iff, Prod.mk.injEq]
  constructor
  · rintro ⟨_, _, _, given, rfl, rfl⟩
    exact given
  · intro given
    have listed := mem_keys_ofMembers.mpr (exists_latest?_iff.mp ⟨value, given⟩)
    exact ⟨key, NameSet.mem_ofList.mpr listed, value, given, rfl, rfl⟩

theorem pairwise_ascending (members : List (String × ConfigValue)) :
    ((ascending members).map Prod.fst).Pairwise (· < ·) := by
  unfold ascending
  rw [List.pairwise_map, List.pairwise_filterMap]
  refine (NameSet.ofList _).ascending.imp fun {a b} less => ?_
  intro first atFirst second atSecond
  obtain ⟨_, _, rfl⟩ := Option.map_eq_some_iff.mp atFirst
  obtain ⟨_, _, rfl⟩ := Option.map_eq_some_iff.mp atSecond
  exact less

theorem latest?_ascending (key : String) (members : List (String × ConfigValue)) :
    latest? key (ascending members) = latest? key members := by
  apply Option.ext
  intro value
  constructor
  · intro given
    exact mem_ascending.mp (mem_of_latest? given)
  · intro given
    have member := List.mem_map_of_mem (f := Prod.fst) (mem_ascending.mpr given)
    obtain ⟨other, found⟩ := exists_latest?_iff.mpr member
    have same := (mem_ascending.mp (mem_of_latest? found)).symm.trans given
    rw [found, same]

theorem mem_keys_ascending {key : String} :
    key ∈ (ascending members).map Prod.fst ↔ key ∈ members.map Prod.fst := by
  rw [← exists_latest?_iff, ← exists_latest?_iff, latest?_ascending]

end Json

namespace Config

theorem get?_overlay (config : Config) (members : List (String × ConfigValue)) (key : String) :
    (config.overlay members).get? key = (latest? key members).or (config.get? key) := by
  rw [overlay, Table.get?_setAll, Json.latest?_ascending]

/-- The keys that an object adds to a configuration, in the order of their bytes. -/
def added (config : Config) (members : List (String × ConfigValue)) : List String :=
  newNames config.keys ((Json.ascending members).map Prod.fst)

theorem keys_overlay (config : Config) (members : List (String × ConfigValue)) :
    (config.overlay members).keys = config.keys ++ config.added members :=
  config.keys_setAll _

theorem mem_added {config : Config} {members : List (String × ConfigValue)} {key : String} :
    key ∈ config.added members ↔ key ∈ members.map Prod.fst ∧ key ∉ config.keys := by
  rw [added, mem_newNames, Json.mem_keys_ascending]

theorem pairwise_added (config : Config) (members : List (String × ConfigValue)) :
    (config.added members).Pairwise Text.ByteBefore :=
  ((Json.pairwise_ascending members).imp Text.byteBefore_of_lt).sublist (newNames_sublist _ _)

/-- A change to a configuration. -/
inductive Edit where
  | set (key : String) (value : ConfigValue)
  | merge (text : String)

/-- The configuration after a change, also if the change was refused. -/
def edit (read : ObjectReader) (config : Config) : Edit → Config
  | .set key value => config.set key value
  | .merge text => (config.mergeBy read text).2

def edits (read : ObjectReader) (config : Config) (history : List Edit) : Config :=
  history.foldl (edit read) config

/-- What a change assigns, in the order of its text. Text that is no object assigns nothing. -/
def Edit.assigned (read : ObjectReader) : Edit → List (String × ConfigValue)
  | .set key value => [(key, value)]
  | .merge text => (read text).getD []

def Edit.keys (read : ObjectReader) (change : Edit) : List String :=
  (change.assigned read).map Prod.fst

theorem mergeBy_eq (read : ObjectReader) (config : Config) (text : String) :
    (∃ members, read text = some members ∧
      config.mergeBy read text = (.ok (), config.overlay members)) ∨
    read text = none ∧ config.mergeBy read text = (.error .malformedJson, config) := by
  unfold mergeBy
  cases read text with
  | some members => exact .inl ⟨members, rfl, rfl⟩
  | none => exact .inr ⟨rfl, rfl⟩

variable {read : ObjectReader} {start config : Config}

theorem get?_edit (config : Config) (change : Edit) (key : String) :
    (config.edit read change).get? key =
      (latest? key (change.assigned read)).or (config.get? key) := by
  cases change with
  | set name value =>
      rw [edit, Table.get?_set, Edit.assigned, latest?_singleton]
      by_cases same : key = name <;> simp [same]
  | merge text =>
      rcases mergeBy_eq read config text with ⟨members, found, merged⟩ | ⟨refused, merged⟩
      · rw [edit, merged, get?_overlay, Edit.assigned, found]
        rfl
      · rw [edit, merged, Edit.assigned, refused]
        rfl

/-- A change leaves every key in its place and adds the new ones, ordered by their bytes. -/
theorem keys_edit (config : Config) (change : Edit) :
    ∃ fresh, (config.edit read change).keys = config.keys ++ fresh ∧
      fresh.Pairwise Text.ByteBefore ∧
      ∀ key, key ∈ fresh ↔ key ∈ change.keys read ∧ key ∉ config.keys := by
  cases change with
  | set name value =>
      rw [edit, Table.keys_set]
      split
      · next known =>
          refine ⟨[], (List.append_nil _).symm, .nil, fun key => ?_⟩
          simp only [Edit.keys, Edit.assigned, List.map_cons, List.map_nil, List.mem_singleton,
            List.not_mem_nil, false_iff, not_and, not_not]
          rintro rfl
          exact known
      · next unknown =>
          refine ⟨[name], rfl, List.pairwise_singleton _ _, fun key => ?_⟩
          simp only [Edit.keys, Edit.assigned, List.map_cons, List.map_nil, List.mem_singleton]
          refine (and_iff_left_of_imp ?_).symm
          rintro rfl
          exact unknown
  | merge text =>
      rcases mergeBy_eq read config text with ⟨members, found, merged⟩ | ⟨refused, merged⟩
      · rw [edit, merged, Edit.keys, Edit.assigned, found, Option.getD_some]
        exact ⟨config.added members, config.keys_overlay members, config.pairwise_added members,
          fun key => mem_added⟩
      · rw [edit, merged, Edit.keys, Edit.assigned, refused]
        exact ⟨[], (List.append_nil _).symm, .nil, fun key => by simp⟩

theorem edits_snoc (start : Config) (history : List Edit) (change : Edit) :
    start.edits read (history ++ [change]) = (start.edits read history).edit read change := by
  rw [edits, List.foldl_concat]
  rfl

theorem edits_append (start : Config) (history more : List Edit) :
    start.edits read (history ++ more) = (start.edits read history).edits read more :=
  List.foldl_append

theorem get?_edits (start : Config) (history : List Edit) (key : String) :
    (start.edits read history).get? key =
      (latest? key (history.flatMap (Edit.assigned read))).or (start.get? key) := by
  induction history using List.reverseRecOn with
  | nil => rfl
  | append_singleton history change ih =>
      rw [edits_snoc, get?_edit, ih, List.flatMap_append, List.flatMap_singleton, latest?_append,
        Option.or_assoc]

theorem keys_edits_prefix (read : ObjectReader) (config : Config) (more : List Edit) :
    config.keys <+: (config.edits read more).keys := by
  induction more using List.reverseRecOn with
  | nil => exact List.prefix_refl _
  | append_singleton more change ih =>
      obtain ⟨fresh, keys, _⟩ := (config.edits read more).keys_edit change
      rw [edits_snoc, keys]
      exact ih.trans (List.prefix_append _ _)

theorem mem_keys_edits {history : List Edit} {key : String} :
    key ∈ (start.edits read history).keys ↔
      key ∈ start.keys ∨ ∃ change ∈ history, key ∈ change.keys read := by
  induction history using List.reverseRecOn with
  | nil => simp [edits]
  | append_singleton history change ih =>
      obtain ⟨fresh, keys, _, isFresh⟩ := (start.edits read history).keys_edit change
      rw [edits_snoc, keys, List.mem_append, isFresh, ih]
      simp only [List.mem_append, List.mem_singleton]
      grind

/-- When a key was entered: the number of the first change that assigned it, counted from
one, or zero for a key that was there before all of them. -/
def entered (read : ObjectReader) (start : Config) (history : List Edit) (key : String) : Nat :=
  if key ∈ start.keys then 0
  else history.findIdx (fun change => decide (key ∈ change.keys read)) + 1

theorem entered_of_mem {history : List Edit} {key : String}
    (present : key ∈ (start.edits read history).keys) (change : Edit) :
    start.entered read (history ++ [change]) key = start.entered read history key ∧
      start.entered read history key ≤ history.length := by
  unfold entered
  split
  · exact ⟨rfl, Nat.zero_le _⟩
  · next unknown =>
      have assigned := (mem_keys_edits.mp present).resolve_left unknown
      have found : history.findIdx (fun change => decide (key ∈ change.keys read)) <
          history.length := by
        apply List.findIdx_lt_length.mpr
        simpa only [decide_eq_true_eq] using assigned
      rw [List.findIdx_append, if_pos found]
      exact ⟨rfl, found⟩

theorem entered_of_not_mem {history : List Edit} {key : String} {change : Edit}
    (absent : key ∉ (start.edits read history).keys) (assigned : key ∈ change.keys read) :
    start.entered read (history ++ [change]) key = history.length + 1 := by
  rw [mem_keys_edits, not_or] at absent
  have nowhere : ¬ history.findIdx (fun change => decide (key ∈ change.keys read)) <
      history.length := by
    rw [List.findIdx_lt_length]
    simpa only [decide_eq_true_eq] using absent.2
  have first : [change].findIdx (fun change => decide (key ∈ change.keys read)) = 0 := by
    rw [List.findIdx_singleton, decide_eq_true assigned]
    rfl
  rw [entered, if_neg absent.1, List.findIdx_append, if_neg nowhere, first, Nat.zero_add]

/-- One key was entered before the other, or with it in the order of their bytes. Keys that
were there from the start have no such order. -/
def Precedes (read : ObjectReader) (start : Config) (history : List Edit) (a b : String) : Prop :=
  start.entered read history a < start.entered read history b ∨
    start.entered read history a = start.entered read history b ∧
      (start.entered read history a = 0 ∨ Text.ByteBefore a b)

theorem pairwise_keys_edits (start : Config) (history : List Edit) :
    (start.edits read history).keys.Pairwise (start.Precedes read history) := by
  induction history using List.reverseRecOn with
  | nil =>
      have zero : ∀ key ∈ start.keys, start.entered read [] key = 0 := fun key known => if_pos known
      refine List.pairwise_of_forall_mem_list fun a knownA b knownB => ?_
      exact .inr ⟨(zero a knownA).trans (zero b knownB).symm, .inl (zero a knownA)⟩
  | append_singleton history change ih =>
      obtain ⟨fresh, keys, ordered, isFresh⟩ := (start.edits read history).keys_edit change
      have late : ∀ key ∈ fresh,
          start.entered read (history ++ [change]) key = history.length + 1 :=
        fun key member => entered_of_not_mem ((isFresh key).mp member).2 ((isFresh key).mp member).1
      rw [edits_snoc, keys, List.pairwise_append]
      refine ⟨?_, ?_, ?_⟩
      · refine ih.imp_of_mem fun {a b} memberA memberB before => ?_
        unfold Precedes at before ⊢
        rw [(entered_of_mem memberA change).1, (entered_of_mem memberB change).1]
        exact before
      · refine ordered.imp_of_mem fun {a b} memberA memberB before => ?_
        exact .inr ⟨(late a memberA).trans (late b memberB).symm, .inr before⟩
      · intro a memberA b memberB
        obtain ⟨same, early⟩ := entered_of_mem memberA change
        refine .inl ?_
        rw [same, late b memberB]
        omega

/-- After any changes to a configuration, refused ones included: no key is listed twice; each
has the value that it was assigned last; each stays where it is, whatever changes follow; the
keys stand in the order in which they were entered, those of one object ordered by their bytes;
and an object is merged exactly if it can be read, or else changes nothing. All this holds however
texts are read as objects. -/
theorem last_writer_wins (read : ObjectReader) (start : Config) (history : List Edit) :
    let config := start.edits read history
    config.keys.Nodup ∧
    (∀ key, config.get? key =
      (latest? key (history.flatMap (Edit.assigned read))).or (start.get? key)) ∧
    (∀ (more : List Edit) (place : Nat) (key : String), config.keys[place]? = some key →
      (start.edits read (history ++ more)).keys[place]? = some key) ∧
    config.keys.Pairwise (start.Precedes read history) ∧
    ∀ text,
      ((config.mergeBy read text).1 = .ok () ↔ ∃ members, read text = some members) ∧
      ∀ error, (config.mergeBy read text).1 = .error error →
        (config.mergeBy read text).2 = config := by
  intro config
  refine ⟨config.distinct, start.get?_edits history, ?_, start.pairwise_keys_edits history, ?_⟩
  · intro more place key found
    obtain ⟨fresh, keys⟩ := config.keys_edits_prefix read more
    rw [edits_append, ← keys, List.getElem?_append_left]
    · exact found
    · exact (List.getElem?_eq_some_iff.mp found).1
  · intro text
    rcases mergeBy_eq read config text with ⟨members, found, merged⟩ | ⟨refused, merged⟩
    · rw [merged, found]
      exact ⟨⟨fun _ => ⟨members, rfl⟩, fun _ => rfl⟩, nofun⟩
    · rw [merged, refused]
      exact ⟨⟨nofun, nofun⟩, fun _ _ => rfl⟩

example :
    (edits Json.object? .empty [.set "B" (.int 1),
      .merge "\x7b\"z\": 2, \"A\": 3, \"B\": 4\x7d", .merge "\x7b\"A\": 5, \"C\"\x7d",
      .set "A" (.int 6)]).entries =
    [("B", .int 4), ("A", .int 6), ("z", .int 2)] := by
  decide +kernel

end Config

end DistanceField
