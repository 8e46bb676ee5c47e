import DistanceField.Command.Run
import DistanceField.Proofs.Blank
import DistanceField.Proofs.Configuration
import DistanceField.Proofs.Usage
import Mathlib.Data.List.Forall2

/-! The layers of the configuration of a command: the standard one, the user's file, the file
of the command and its assignments. Each layer goes before the ones below it, and lists the
keys that they do not have after theirs. -/

namespace DistanceField

theorem except_bind_ok_iff {first : Except ε α} {next : α → Except ε β} :
    (first >>= next) = .ok result ↔ ∃ value, first = .ok value ∧ next value = .ok result := by
  constructor
  · exact except_bind_ok
  · rintro ⟨value, rfl, done⟩
    exact done

theorem except_ok_iff {value later : α} :
    (.ok value : Except ε α) = .ok later ↔ later = value := by
  rw [Except.ok.injEq, eq_comm]

theorem Text.splitFirst?_eq_some_iff {separator : Char} {text before after : List Char} :
    splitFirst? separator text = some (before, after) ↔
      text = before ++ separator :: after ∧ separator ∉ before := by
  induction text generalizing before with
  | nil => simp [splitFirst?]
  | cons c rest ih =>
      unfold splitFirst?
      split
      · next same =>
          subst same
          cases before with
          | nil => simp
          | cons first before => simp +contextual [eq_comm]
      · next other =>
          simp only [Option.map_eq_some_iff, Prod.exists, Prod.mk.injEq]
          constructor
          · rintro ⟨start, _, found, rfl, rfl⟩
            obtain ⟨rfl, absent⟩ := ih.mp found
            simp [absent, Ne.symm other]
          · rintro ⟨split, absent⟩
            cases before with
            | nil => exact absurd (List.cons.inj split).1 other
            | cons first before =>
                obtain ⟨rfl, rfl⟩ := List.cons.inj split
                have below := List.not_mem_of_not_mem_cons absent
                exact ⟨before, after, ih.mpr ⟨rfl, below⟩, rfl, rfl⟩

theorem ConfigValue.exists_parse_iff {text : String} :
    (∃ value, ConfigValue.parse text = .ok value) ↔
      ∃ c ∈ text.toList, Text.isBlank c = false := by
  rw [← Text.isBlankLine_eq_false_iff, ← Bool.not_eq_true, ← Text.trim_eq_nil_iff]
  by_cases empty : Text.trim text.toList = []
  · simp [ConfigValue.parse, empty]
  · refine iff_of_true ?_ empty
    simp only [ConfigValue.parse, List.isEmpty_iff, if_neg empty]
    cases parseInt? (Text.trim text.toList) with
    | some value => exact ⟨_, rfl⟩
    | none =>
        cases Single.parse? (Text.trim text.toList) with
        | some value => exact ⟨_, rfl⟩
        | none => cases parseVector? (Text.trim text.toList) <;> exact ⟨_, rfl⟩

namespace Command

/-- The text assigns a value to a key: the key stands before the first equals sign, without
the white space around it, and the value after that sign. -/
def Assigns (text : String) (entry : String × ConfigValue) : Prop :=
  ∃ before after, text.toList = before ++ '=' :: after ∧ '=' ∉ before ∧
    entry.1 = String.ofList (Text.trim before) ∧
    ConfigValue.parse (String.ofList after) = .ok entry.2

theorem explain_ok_iff {outcome : Except Error α} :
    explain message outcome = .ok value ↔ outcome = .ok value := by
  cases outcome <;> simp [explain]

theorem splitAssignment?_eq_some_iff :
    splitAssignment? text = some (key, value) ↔
      ∃ before after, text.toList = before ++ '=' :: after ∧ '=' ∉ before ∧
        key = String.ofList (Text.trim before) ∧ value = String.ofList after := by
  simp only [splitAssignment?, Option.map_eq_some_iff, Prod.exists, Text.splitFirst?_eq_some_iff,
    Prod.mk.injEq, and_assoc, eq_comm (a := key), eq_comm (a := value)]

theorem applyAssignment_ok_iff :
    applyAssignment config text = .ok later ↔
      ∃ entry, Assigns text entry ∧ later = config.set entry.1 entry.2 := by
  unfold applyAssignment
  cases split : splitAssignment? text with
  | none =>
      refine iff_of_false nofun ?_
      rintro ⟨_, ⟨before, after, cut, absent, _⟩, _⟩
      have found := splitAssignment?_eq_some_iff.mpr ⟨before, after, cut, absent, rfl, rfl⟩
      cases split.symm.trans found
  | some parts =>
      obtain ⟨key, written⟩ := parts
      simp only [except_bind_ok_iff, explain_ok_iff]
      constructor
      · rintro ⟨value, parsed, done⟩
        obtain ⟨before, after, cut, absent, rfl, rfl⟩ := splitAssignment?_eq_some_iff.mp split
        exact ⟨(_, value), ⟨before, after, cut, absent, rfl, parsed⟩, (Except.ok.inj done).symm⟩
      · rintro ⟨⟨_, value⟩, ⟨before, after, cut, absent, rfl, parsed⟩, rfl⟩
        have found := splitAssignment?_eq_some_iff.mpr ⟨before, after, cut, absent, rfl, rfl⟩
        obtain ⟨rfl, rfl⟩ := Prod.mk.inj (Option.some.inj (split.symm.trans found))
        exact ⟨value, parsed, rfl⟩

theorem exists_assigns_iff {text : String} :
    (∃ entry, Assigns text entry) ↔ ∃ before after, text.toList = before ++ '=' :: after ∧
      '=' ∉ before ∧ ∃ c ∈ after, Text.isBlank c = false := by
  constructor
  · rintro ⟨_, before, after, cut, absent, _, parsed⟩
    have solid := ConfigValue.exists_parse_iff.mp ⟨_, parsed⟩
    rw [String.toList_ofList] at solid
    exact ⟨before, after, cut, absent, solid⟩
  · rintro ⟨before, after, cut, absent, solid⟩
    rw [← String.toList_ofList (l := after)] at solid
    obtain ⟨value, parsed⟩ := ConfigValue.exists_parse_iff.mpr solid
    exact ⟨(_, value), before, after, cut, absent, rfl, parsed⟩

/-- Assignments succeed exactly if each of them does, and are then carried out in turn. -/
theorem applyAssignments_ok_iff {texts : List String} :
    texts.foldlM applyAssignment config = .ok later ↔
      ∃ assigned, List.Forall₂ Assigns texts assigned ∧ later = config.setAll assigned := by
  induction texts generalizing config with
  | nil =>
      simp only [List.foldlM_nil, List.forall₂_nil_left_iff, exists_eq_left]
      exact except_ok_iff
  | cons text rest ih =>
      simp only [List.foldlM_cons, except_bind_ok_iff, applyAssignment_ok_iff, ih]
      constructor
      · rintro ⟨_, ⟨entry, assigns, rfl⟩, assigned, others, rfl⟩
        exact ⟨entry :: assigned, .cons assigns others, rfl⟩
      · rintro ⟨_, assigns, rfl⟩
        cases assigns with
        | cons assigns others => exact ⟨_, ⟨_, assigns, rfl⟩, _, others, rfl⟩

variable {read : Config.ObjectReader}

/-- A file can be read, and holds an object with the given members. -/
def Holds (read : Config.ObjectReader) (content : Option String)
    (members : List (String × ConfigValue)) : Prop :=
  ∃ text, content = some text ∧ read text = some members

/-- What the user's file sets. Without such a file it is nothing. -/
def Disk.UserSets (read : Config.ObjectReader) (disk : Disk)
    (members : List (String × ConfigValue)) : Prop :=
  match disk.userConfig with
  | none => members = []
  | some (_, content) => Holds read content members

/-- What the file of a command sets. Without such a file it is nothing. -/
def Disk.FileSets (read : Config.ObjectReader) (disk : Disk) (file : Option String)
    (members : List (String × ConfigValue)) : Prop :=
  match file with
  | none => members = []
  | some path => Holds read (disk.read? path) members

theorem mergeFile_ok_iff :
    mergeFile read config path content = .ok later ↔
      ∃ members, Holds read content members ∧ later = config.overlay members := by
  cases content with
  | none =>
      refine iff_of_false nofun ?_
      rintro ⟨_, ⟨_, found, _⟩, _⟩
      cases found
  | some text =>
      simp only [mergeFile, explain_ok_iff]
      rcases Config.mergeBy_eq read config text with
        ⟨members, holds, merged⟩ | ⟨refused, merged⟩
      · rw [merged]
        constructor
        · rintro ⟨⟩
          exact ⟨members, ⟨text, rfl, holds⟩, rfl⟩
        · rintro ⟨others, ⟨_, ⟨⟩, found⟩, rfl⟩
          cases holds.symm.trans found
          rfl
      · rw [merged]
        refine iff_of_false nofun ?_
        rintro ⟨_, ⟨_, ⟨⟩, found⟩, _⟩
        cases refused.symm.trans found

theorem mergeUserConfig_ok_iff {disk : Disk} :
    mergeUserConfig read disk config = .ok later ↔
      ∃ members, disk.UserSets read members ∧ later = config.overlay members := by
  unfold mergeUserConfig Disk.UserSets
  cases disk.userConfig with
  | none =>
      simp only [exists_eq_left]
      exact except_ok_iff
  | some entry => exact mergeFile_ok_iff

theorem mergeConfigFile_ok_iff {disk : Disk} :
    mergeConfigFile read disk file config = .ok later ↔
      ∃ members, disk.FileSets read file members ∧ later = config.overlay members := by
  cases file with
  | none =>
      simp only [mergeConfigFile, Disk.FileSets, exists_eq_left]
      exact except_ok_iff
  | some path => exact mergeFile_ok_iff

theorem loadConfig_ok_iff {disk : Disk} {settings : Settings} :
    loadConfig read disk settings = .ok config ↔
      ∃ user file assigned, disk.UserSets read user ∧ disk.FileSets read settings.configFile file ∧
        List.Forall₂ Assigns settings.assignments assigned ∧
        config = ((Config.standard.overlay user).overlay file).setAll assigned := by
  simp only [loadConfig, except_bind_ok_iff, mergeUserConfig_ok_iff, mergeConfigFile_ok_iff,
    applyAssignments_ok_iff]
  constructor
  · rintro ⟨_, ⟨user, users, rfl⟩, _, ⟨file, files, rfl⟩, assigned, assigns, rfl⟩
    exact ⟨user, file, assigned, users, files, assigns, rfl⟩
  · rintro ⟨user, file, assigned, users, files, assigns, rfl⟩
    exact ⟨_, ⟨user, users, rfl⟩, _, ⟨file, files, rfl⟩, assigned, assigns, rfl⟩

theorem exists_forall₂_iff {related : α → β → Prop} {items : List α} :
    (∃ others, List.Forall₂ related items others) ↔
      ∀ item ∈ items, ∃ other, related item other := by
  induction items with
  | nil => exact iff_of_true ⟨[], .nil⟩ nofun
  | cons item rest ih =>
      rw [List.forall_mem_cons, ← ih]
      constructor
      · rintro ⟨_, _ | ⟨first, others⟩⟩
        exact ⟨⟨_, first⟩, _, others⟩
      · rintro ⟨⟨other, first⟩, others, all⟩
        exact ⟨other :: others, .cons first all⟩

theorem Disk.exists_userSets_iff {disk : Disk} :
    (∃ members, disk.UserSets read members) ↔
      ∀ path content, disk.userConfig = some (path, content) →
        ∃ members, Holds read content members := by
  unfold Disk.UserSets
  cases disk.userConfig with
  | none => simp
  | some entry =>
      obtain ⟨path, content⟩ := entry
      simp

theorem Disk.exists_fileSets_iff {disk : Disk} {file : Option String} :
    (∃ members, disk.FileSets read file members) ↔
      ∀ path, file = some path → ∃ members, Holds read (disk.read? path) members := by
  cases file <;> simp [Disk.FileSets]

/-- The configuration of a command exists exactly if the files that are there can be read and
hold objects, and every assignment has an equals sign with more than white space after it. Each
key then has the value of the last assignment to it, or else of the file of the command, of the
user's file or of the standard configuration; the standard keys come first, then the new ones of
the two files, each in the order of their bytes, and those of the assignments as they first
occur. This holds however texts are read as objects. -/
theorem loadConfig_layers (read : Config.ObjectReader) (disk : Disk) (settings : Settings) :
    ((∃ config, loadConfig read disk settings = .ok config) ↔
      (∀ path content, disk.userConfig = some (path, content) →
        ∃ members, Holds read content members) ∧
      (∀ path, settings.configFile = some path → ∃ members, Holds read (disk.read? path) members) ∧
      ∀ text ∈ settings.assignments, ∃ before after, text.toList = before ++ '=' :: after ∧
        '=' ∉ before ∧ ∃ c ∈ after, Text.isBlank c = false) ∧
    ∀ config, loadConfig read disk settings = .ok config →
      ∃ user file assigned, disk.UserSets read user ∧ disk.FileSets read settings.configFile file ∧
        List.Forall₂ Assigns settings.assignments assigned ∧
        (∀ key, config.get? key = (latest? key assigned).or ((latest? key file).or
          ((latest? key user).or (Config.standard.get? key)))) ∧
        ∃ userKeys fileKeys ownKeys,
          config.keys = Config.standard.keys ++ userKeys ++ fileKeys ++ ownKeys ∧
          userKeys.Pairwise Text.ByteBefore ∧
          (∀ key, key ∈ userKeys ↔
            key ∈ user.map Prod.fst ∧ key ∉ Config.standard.keys) ∧
          fileKeys.Pairwise Text.ByteBefore ∧
          (∀ key, key ∈ fileKeys ↔
            key ∈ file.map Prod.fst ∧ key ∉ Config.standard.keys ++ userKeys) ∧
          ownKeys.Pairwise (fun a b =>
            (assigned.map Prod.fst).idxOf a < (assigned.map Prod.fst).idxOf b) ∧
          ∀ key, key ∈ ownKeys ↔
            key ∈ assigned.map Prod.fst ∧ key ∉ Config.standard.keys ++ userKeys ++ fileKeys := by
  constructor
  · rw [← Disk.exists_userSets_iff, ← Disk.exists_fileSets_iff]
    simp only [← exists_assigns_iff]
    rw [← exists_forall₂_iff]
    constructor
    · rintro ⟨config, loaded⟩
      obtain ⟨user, file, assigned, users, files, assigns, _⟩ := loadConfig_ok_iff.mp loaded
      exact ⟨⟨user, users⟩, ⟨file, files⟩, assigned, assigns⟩
    · rintro ⟨⟨user, users⟩, ⟨file, files⟩, assigned, assigns⟩
      exact ⟨_, loadConfig_ok_iff.mpr ⟨user, file, assigned, users, files, assigns, rfl⟩⟩
  · intro config loaded
    obtain ⟨user, file, assigned, users, files, assigns, rfl⟩ := loadConfig_ok_iff.mp loaded
    refine ⟨user, file, assigned, users, files, assigns, fun key => ?_, ?_⟩
    · rw [Table.get?_setAll, Config.get?_overlay, Config.get?_overlay]
    · let lower := Config.standard.overlay user
      have lowerKeys := Config.standard.keys_overlay user
      have upperKeys := lower.keys_overlay file
      rw [lowerKeys] at upperKeys
      refine ⟨Config.standard.added user, lower.added file,
        newNames (lower.overlay file).keys (assigned.map Prod.fst), ?_,
        Config.standard.pairwise_added user, fun key => Config.mem_added,
        lower.pairwise_added file, fun key => ?_, pairwise_newNames _ _, fun key => ?_⟩
      · rw [Table.keys_setAll, upperKeys]
      · rw [Config.mem_added, lowerKeys]
      · rw [mem_newNames, upperKeys]

example :
    let disk : Disk := ⟨fun _ => some "\x7b\"Z\": 3, \"B\": 4, \"Z\": \"z\"\x7d", fun _ => false,
      some ("user.json", some "\x7b\"B\": 1, \"ANTIALIAS\": 2\x7d")⟩
    (loadConfig Json.object? disk ⟨some "scene.json", [" Y =a=b", "ANTIALIAS=7", "X=8", "Y=9"]⟩).map
      (fun config => (config.get? "ANTIALIAS", config.entries.drop Config.standard.size)) =
    .ok (some (.int 7), [("B", .int 4), ("Z", .raw "z"), ("Y", .int 9), ("X", .int 8)]) := by
  decide +kernel

end Command

end DistanceField
