import DistanceField.Proofs.Blank
import DistanceField.Session
import Mathlib.Data.List.Nodup

/-! What a registry accepts. A definition is registered exactly if the registry is open, its
name is free and it is valid; from then on it stays under its name, whatever is registered
later. -/

namespace DistanceField

namespace Text

/-- Braces that match: none is closed before it is opened, and none is left open. -/
structure Balanced (text : List Char) : Prop where
  opened : ∀ start, start <+: text → start.count closeBrace ≤ start.count openBrace
  closed : text.count closeBrace = text.count openBrace

theorem forall_prefix_cons {P : List Char → Prop} :
    (∀ start, start <+: c :: rest → P start) ↔
      P [] ∧ ∀ start, start <+: rest → P (c :: start) := by
  constructor
  · intro every
    refine ⟨every [] List.nil_prefix, fun start inside => every (c :: start) ?_⟩
    exact List.cons_prefix_cons.mpr ⟨rfl, inside⟩
  · rintro ⟨first, others⟩ start inside
    rcases List.prefix_cons_iff.mp inside with rfl | ⟨tail, rfl, shorter⟩
    · exact first
    · exact others tail shorter

theorem braceDepth?_eq_some_iff :
    braceDepth? depth text = some final ↔
      (∀ start, start <+: text → start.count closeBrace ≤ depth + start.count openBrace) ∧
        final + text.count closeBrace = depth + text.count openBrace := by
  induction text generalizing depth with
  | nil =>
      simp only [braceDepth?, List.prefix_nil, forall_eq, List.count_nil, Option.some.injEq]
      omega
  | cons c rest ih =>
      rw [forall_prefix_cons]
      by_cases opens : c = openBrace
      · have other : openBrace ≠ closeBrace := by decide
        simp only [braceDepth?, opens, if_true, ih, List.count_cons_self,
          List.count_cons_of_ne other, List.count_nil]
        grind
      · by_cases closes : c = closeBrace
        · have other : closeBrace ≠ openBrace := by decide
          simp only [closes, List.count_cons_self, List.count_cons_of_ne other, List.count_nil]
          cases depth with
          | zero =>
              -- The brace alone is a prefix that closes what was never opened.
              have first := List.nil_prefix (l := rest)
              simp only [braceDepth?, if_neg other, if_true]
              grind
          | succ depth =>
              simp only [braceDepth?, if_neg other, if_true, ih]
              grind
        · simp only [braceDepth?, if_neg opens, if_neg closes, ih, List.count_nil,
            List.count_cons_of_ne opens, List.count_cons_of_ne closes]
          grind

theorem bracesBalanced_iff : bracesBalanced text = true ↔ Balanced text := by
  rw [bracesBalanced, beq_iff_eq, braceDepth?_eq_some_iff]
  simp only [Nat.zero_add]
  exact ⟨fun ⟨opened, closed⟩ => ⟨opened, closed⟩, fun ⟨opened, closed⟩ => ⟨opened, closed⟩⟩

end Text

/-- A definition that can be registered: everything it names is an identifier, no two of its
parameters share a name, its returned type is known, and it has a builder exactly if it is an
object, or else a text that is not blank and has matching braces. -/
structure Definition.Valid (d : Definition) : Prop where
  named : Text.isIdentifier d.name = true
  params : ∀ param ∈ d.signature, Text.isIdentifier param.name = true
  distinct : (d.signature.map Param.name).Nodup
  declared : ∀ name ∈ d.declared, Text.isIdentifier name = true
  returns : ∃ type, d.returnType = some type
  built_iff : d.category = .object ↔ ∃ recipe, d.body = .recipe recipe
  written : ∀ text, d.body = .template text →
    (∃ c ∈ text.toList, Text.isBlank c = false) ∧ Text.Balanced text.toList

theorem except_seq_ok {first second : Except ε Unit} :
    (first >>= fun _ => second) = .ok () ↔ first = .ok () ∧ second = .ok () := by
  cases first <;> simp [bind, Except.bind]

theorem checkIdentifier_ok_iff : checkIdentifier name = .ok () ↔ Text.isIdentifier name = true := by
  unfold checkIdentifier
  split <;> simp_all

theorem checkIdentifiers_ok_iff {names : List String} :
    names.forM checkIdentifier = .ok () ↔ ∀ name ∈ names, Text.isIdentifier name = true := by
  induction names with
  | nil => simp [pure, Except.pure]
  | cons name rest ih =>
      rw [List.forall_mem_cons, ← ih, ← checkIdentifier_ok_iff, ← except_seq_ok]
      rfl

theorem checkParams_ok_iff :
    checkParams owner seen params = .ok () ↔
      (∀ param ∈ params, Text.isIdentifier param.name = true) ∧
        (params.map Param.name).Nodup ∧ ∀ param ∈ params, param.name ∉ seen := by
  induction params generalizing seen with
  | nil => simp [checkParams]
  | cons param rest ih =>
      simp only [checkParams, except_seq_ok, checkIdentifier_ok_iff]
      split
      · next twice => simp [twice]
      · next fresh =>
          simp only [ih, List.map_cons, List.nodup_cons, List.mem_cons, List.mem_map]
          grind

namespace Definition

theorem checkReturn_ok_iff {d : Definition} :
    d.checkReturn = .ok () ↔ ∃ type, d.returnType = some type := by
  unfold checkReturn
  split <;> simp_all

theorem checkBody_ok_iff {d : Definition} :
    d.checkBody = .ok () ↔
      (d.category = .object ↔ ∃ recipe, d.body = .recipe recipe) ∧
        ∀ text, d.body = .template text →
          (∃ c ∈ text.toList, Text.isBlank c = false) ∧ Text.Balanced text.toList := by
  unfold checkBody
  split
  · next body category => simp [body, category]
  · next body category => simp_all
  · next body category => simp_all
  · next text body category =>
      simp only [body, ← Text.isBlankLine_eq_false_iff, ← Text.bracesBalanced_iff]
      split
      · simp_all
      · split <;> simp_all

theorem check_ok_iff {d : Definition} : d.check = .ok () ↔ d.Valid := by
  simp only [check, except_seq_ok, checkIdentifier_ok_iff, checkParams_ok_iff,
    checkIdentifiers_ok_iff, checkReturn_ok_iff, checkBody_ok_iff]
  constructor
  · rintro ⟨named, ⟨params, distinct, _⟩, declared, returns, built, written⟩
    exact ⟨named, params, distinct, declared, returns, built, written⟩
  · intro valid
    exact ⟨valid.named, ⟨valid.params, valid.distinct, by simp⟩, valid.declared, valid.returns,
      valid.built_iff, valid.written⟩

end Definition

namespace Registry

variable {registry later : Registry}

theorem register_ok_iff : registry.register d = .ok later ↔
    registry.isSealed = false ∧ registry.contains d.name = false ∧ d.Valid ∧
      later = { registry with definitions := registry.definitions.set d.name d } := by
  rw [← Definition.check_ok_iff]
  unfold register
  split
  · next closed => simp [closed]
  · next isOpen =>
      split
      · next taken => simp [taken]
      · next free =>
          rw [Bool.not_eq_true] at isOpen free
          cases d.check with
          | error error => simp [bind, Except.bind]
          | ok _ => simp [isOpen, free, bind, Except.bind, pure, Except.pure, eq_comm]

/-- What is registered in the first is registered in the second, as it was. -/
def Extends (registry later : Registry) : Prop :=
  ∀ name d, registry.definitions.get? name = some d → later.definitions.get? name = some d

theorem Extends.refl (registry : Registry) : registry.Extends registry :=
  fun _ _ found => found

theorem Extends.trans (first : Registry.Extends a b) (second : Registry.Extends b c) :
    a.Extends c :=
  fun name d found => second name d (first name d found)

theorem get?_of_not_contains (absent : registry.contains name = false) :
    registry.definitions.get? name = none := by
  unfold contains Table.contains at absent
  exact Option.not_isSome_iff_eq_none.mp (by simp [absent])

theorem ne_of_register (registered : registry.register d = .ok later)
    (found : registry.definitions.get? name = some old) : name ≠ d.name := by
  obtain ⟨_, absent, _, _⟩ := register_ok_iff.mp registered
  rintro rfl
  cases (get?_of_not_contains absent).symm.trans found

theorem register_extends (registered : registry.register d = .ok later) :
    registry.Extends later := by
  intro name old found
  have different := ne_of_register registered found
  obtain ⟨_, _, _, rfl⟩ := register_ok_iff.mp registered
  rw [Table.get?_set, if_neg different, found]

/-- Every definition is valid and sits under its own name. -/
def Sound (registry : Registry) : Prop :=
  ∀ name d, registry.definitions.get? name = some d → d.name = name ∧ d.Valid

theorem Sound.register (sound : Registry.Sound registry)
    (registered : registry.register d = .ok later) : later.Sound := by
  obtain ⟨_, _, valid, rfl⟩ := register_ok_iff.mp registered
  intro name other found
  rw [Table.get?_set] at found
  split at found
  · next same =>
      cases found
      exact ⟨same.symm, valid⟩
  · exact sound name other found

end Registry

namespace Session

/-- A change to the registry of a session. -/
inductive Edit where
  | register (d : Definition)
  | close

def edit (session : Session) : Edit → Session
  | .register d => (session.register d).2
  | .close => session.close

def edits (session : Session) (changes : List Edit) : Session :=
  changes.foldl edit session

variable {session : Session}

theorem edits_keeps {P : Session → Prop}
    (step : ∀ session change, P session → P (session.edit change)) (start : P session)
    (changes : List Edit) : P (session.edits changes) := by
  induction changes generalizing session with
  | nil => exact start
  | cons change rest ih => exact ih (step session change start)

theorem register_cases (session : Session) (d : Definition) :
    (∃ error, session.registry.register d = .error error ∧
      session.register d = (.error error, session)) ∨
    ∃ registry, session.registry.register d = .ok registry ∧
      session.register d = (.ok d.handle,
        ⟨registry, session.known.set d.name d, session.store.setProgress d.name .fresh⟩) := by
  unfold Session.register
  cases registered : session.registry.register d with
  | error error => exact .inl ⟨error, rfl, rfl⟩
  | ok registry => exact .inr ⟨registry, rfl, rfl⟩

theorem edit_sound (session : Session) (change : Edit) (sound : session.registry.Sound) :
    (session.edit change).registry.Sound := by
  cases change with
  | close => exact sound
  | register d =>
      rcases session.register_cases d with ⟨error, _, outcome⟩ | ⟨registry, registered, outcome⟩
      · rw [edit, outcome]
        exact sound
      · rw [edit, outcome]
        exact sound.register registered

theorem edit_extends (session : Session) (change : Edit) :
    session.registry.Extends (session.edit change).registry := by
  cases change with
  | close => exact .refl _
  | register d =>
      rcases session.register_cases d with ⟨error, _, outcome⟩ | ⟨registry, registered, outcome⟩
      · rw [edit, outcome]
        exact .refl _
      · rw [edit, outcome]
        exact Registry.register_extends registered

theorem edit_sealed (change : Edit) (closed : session.registry.isSealed = true) :
    (session.edit change).registry = session.registry := by
  cases change with
  | close =>
      simp only [edit, Session.close, Registry.close, ← closed]
  | register d =>
      rcases session.register_cases d with ⟨error, _, outcome⟩ | ⟨registry, registered, _⟩
      · rw [edit, outcome]
      · rw [(Registry.register_ok_iff.mp registered).1] at closed
        cases closed

theorem edit_isSealed (session : Session) (change : Edit) :
    (session.edit change).registry.isSealed = true ↔
      session.registry.isSealed = true ∨ change = .close := by
  cases change with
  | close => simp [edit, Session.close, Registry.close]
  | register d =>
      rcases session.register_cases d with ⟨error, _, outcome⟩ | ⟨registry, registered, outcome⟩
      · simp [edit, outcome]
      · obtain ⟨_, _, _, rfl⟩ := Registry.register_ok_iff.mp registered
        simp [edit, outcome]

theorem edits_isSealed (session : Session) (changes : List Edit) :
    (session.edits changes).registry.isSealed = true ↔
      session.registry.isSealed = true ∨ .close ∈ changes := by
  induction changes generalizing session with
  | nil => simp [edits]
  | cons change rest ih =>
      have unfolded : session.edits (change :: rest) = (session.edit change).edits rest := rfl
      rw [unfolded, ih, edit_isSealed, List.mem_cons, or_assoc, eq_comm (a := change)]

theorem register_succeeds_iff (session : Session) (d : Definition) :
    (∃ handle, (session.register d).1 = .ok handle) ↔
      session.registry.isSealed = false ∧ session.registry.contains d.name = false ∧
        d.Valid := by
  rcases session.register_cases d with ⟨error, refused, outcome⟩ | ⟨registry, registered, outcome⟩
  · rw [outcome]
    refine ⟨nofun, ?_⟩
    rintro ⟨isOpen, free, valid⟩
    cases refused.symm.trans (Registry.register_ok_iff.mpr ⟨isOpen, free, valid, rfl⟩)
  · obtain ⟨isOpen, free, valid, _⟩ := Registry.register_ok_iff.mp registered
    rw [outcome]
    exact ⟨fun _ => ⟨isOpen, free, valid⟩, fun _ => ⟨d.handle, rfl⟩⟩

theorem register_refused (refused : (Session.register session d).1 = .error error) :
    (session.register d).2 = session := by
  rcases session.register_cases d with ⟨_, _, outcome⟩ | ⟨_, _, outcome⟩
  · rw [outcome]
  · rw [outcome] at refused
    cases refused

theorem register_entered {handle : Handle}
    (entered : (Session.register session d).1 = .ok handle) :
    handle = d.handle ∧ ∀ name, (session.register d).2.registry.definitions.get? name =
      if name = d.name then some d else session.registry.definitions.get? name := by
  rcases session.register_cases d with ⟨_, _, outcome⟩ | ⟨registry, registered, outcome⟩
  · rw [outcome] at entered
    cases entered
  · obtain ⟨_, _, _, rfl⟩ := Registry.register_ok_iff.mp registered
    rw [outcome] at entered ⊢
    cases entered
    exact ⟨rfl, fun name => Table.get?_set _ _ _ _⟩

/-- After any registrations, successful or not, and closures of a registry: a registration
succeeds exactly if the registry is open, the name free and the definition valid, and fails
without a trace; what is registered is valid, sits under its own name and stays; and a closed
registry stays as it is. -/
theorem registry_invariant (changes : List Edit) :
    let session := Session.empty.edits changes
    (∀ d,
      ((∃ handle, (session.register d).1 = .ok handle) ↔
        session.registry.isSealed = false ∧ session.registry.contains d.name = false ∧
          d.Valid) ∧
      (∀ error, (session.register d).1 = .error error → (session.register d).2 = session) ∧
      ∀ handle, (session.register d).1 = .ok handle → handle = d.handle ∧
        ∀ name, (session.register d).2.registry.definitions.get? name =
          if name = d.name then some d else session.registry.definitions.get? name) ∧
    (∀ name d, session.registry.definitions.get? name = some d → d.name = name ∧ d.Valid) ∧
    (session.registry.isSealed = true ↔ .close ∈ changes) ∧
    ∀ more, session.registry.Extends (session.edits more).registry ∧
      (session.registry.isSealed = true → (session.edits more).registry = session.registry) := by
  intro session
  refine ⟨fun d => ⟨session.register_succeeds_iff d, fun _ => register_refused,
    fun _ => register_entered⟩, ?_, ?_, fun more => ⟨?_, fun closed => ?_⟩⟩
  · exact edits_keeps (P := fun session => session.registry.Sound) edit_sound
      (fun _ _ absent => by cases absent) changes
  · have start : Session.empty.registry.isSealed ≠ true := by decide
    rw [edits_isSealed, or_iff_right start]
  · refine edits_keeps (P := fun later => session.registry.Extends later.registry) ?_ (.refl _) more
    exact fun later change kept => kept.trans (later.edit_extends change)
  · refine edits_keeps (P := fun later => later.registry = session.registry) ?_ rfl more
    intro later change same
    exact (edit_sealed change (same ▸ closed)).trans same

end Session

end DistanceField
