import DistanceField.Proofs.Growth
import Mathlib.Logic.Basic

/-! What an object yields does not depend on when it is asked for. The recording that a
builder would make with a given store is described without running anything; a request
that succeeds makes it, and it stays what it was when other builders succeed first. -/

namespace DistanceField

/-- Every definition is kept under its own name. -/
def OwnNames (known : Table Definition) : Prop :=
  ∀ name d, known.get? name = some d → d.name = name

/-- The builder passes on the errors of all its requests. -/
def Recipe.Strict (recipe : Recipe) : Prop :=
  ∀ surroundings other, .tryBody other ∉ recipe.steps surroundings

def StrictRecipes (known : Table Definition) : Prop :=
  ∀ name d recipe, known.get? name = some d → d.body = .recipe recipe → recipe.Strict

/-- A request for a body can be met, if objects yield what the predicate says. -/
inductive Answered (known : Table Definition) (Yielded : String → Recording → Prop)
    (name : String) : Prop
  | template (found : known.get? name = some d) (body : d.body = .template text)
  | object (found : known.get? name = some d) (body : d.body = .recipe recipe)
      (yielded : Yielded name recording) (written : recording.body = .ok result)

/-- What an object has recorded, or records if its builder is started with the given
store. Requests for other bodies are nested to the given depth at most. -/
def Yields (known : Table Definition) (store : Store) : Nat → String → Recording → Prop
  | 0, _, _ => False
  | depth + 1, name, recording =>
      store.progressOf name = .done recording ∨
        store.progressOf name = .fresh ∧ ∃ d recipe, known.get? name = some d ∧
          d.body = .recipe recipe ∧
          replay .empty (recipe.steps (d.surroundings known store)) = .ok recording ∧
          ∀ other, .requestBody other ∈ recipe.steps (d.surroundings known store) →
            Answered known (Yields known store depth) other

/-- Both stores agree about a name: how far its body has come and how often its builder
has been started. -/
structure Store.SameAt (name : String) (a b : Store) : Prop where
  progress : b.progressOf name = a.progressOf name
  runs : b.runCount name = a.runCount name

namespace Store.SameAt

theorem refl (name : String) (store : Store) : store.SameAt name store :=
  ⟨rfl, rfl⟩

theorem symm (same : Store.SameAt name a b) : b.SameAt name a :=
  ⟨same.progress.symm, same.runs.symm⟩

theorem trans (first : Store.SameAt name a b) (second : Store.SameAt name b c) :
    a.SameAt name c :=
  ⟨second.progress.trans first.progress, second.runs.trans first.runs⟩

end Store.SameAt

/-- The second store differs from the first only by recordings that objects yield with
the first. -/
def Store.Ahead (known : Table Definition) (before after : Store) : Prop :=
  ∀ name, before.SameAt name after ∨ before.progressOf name = .fresh ∧
    ∃ recording depth, after.progressOf name = .done recording ∧
      Yields known before depth name recording

variable {known : Table Definition} {store later before after : Store}

theorem Answered.mono {P Q : String → Recording → Prop} (answered : Answered known P name)
    (weaker : ∀ recording, P name recording → Q name recording) : Answered known Q name := by
  cases answered with
  | template found body => exact .template found body
  | object found body yielded written => exact .object found body (weaker _ yielded) written

namespace Yields

theorem succ (yields : Yields known store depth name recording) :
    Yields known store (depth + 1) name recording := by
  induction depth generalizing name recording with
  | zero => cases yields
  | succ depth ih =>
      rcases yields with done | ⟨fresh, d, recipe, found, body, replayed, answered⟩
      · exact .inl done
      · refine .inr ⟨fresh, d, recipe, found, body, replayed, fun other requested => ?_⟩
        exact (answered other requested).mono fun _ yields => ih yields

theorem mono (yields : Yields known store depth name recording) (deeper : depth ≤ larger) :
    Yields known store larger name recording := by
  induction deeper with
  | refl => exact yields
  | step _ ih => exact ih.succ

theorem unique (first : Yields known store depth name recording)
    (second : Yields known store other name result) : recording = result := by
  cases depth with
  | zero => cases first
  | succ depth =>
      cases other with
      | zero => cases second
      | succ other =>
          rcases first with done | ⟨fresh, d, recipe, found, body, replayed, _⟩
          · rcases second with again | ⟨fresh, _⟩
            · exact Progress.done.inj (done.symm.trans again)
            · cases done.symm.trans fresh
          · rcases second with done | ⟨_, d', recipe', found', body', replayed', _⟩
            · cases done.symm.trans fresh
            · cases found.symm.trans found'
              cases body.symm.trans body'
              exact Except.ok.inj (replayed.symm.trans replayed')

theorem least (yields : Yields known store depth name recording) :
    ∃ least, Yields known store (least + 1) name recording ∧
      ∀ result, ¬ Yields known store least name result := by
  induction depth with
  | zero => cases yields
  | succ depth ih =>
      by_cases earlier : ∃ result, Yields known store depth name result
      · obtain ⟨result, earlier⟩ := earlier
        obtain rfl := earlier.unique yields
        exact ih earlier
      · exact ⟨depth, yields, fun result yielded => earlier ⟨result, yielded⟩⟩

end Yields

theorem surroundings_eq (own : OwnNames known) (found : known.get? name = some d)
    (same : before.SameAt name after) :
    d.surroundings known after = d.surroundings known before := by
  unfold Definition.surroundings
  rw [own name d found, same.runs]

/-- What an object yields with one store it yields with another, if the stores agree
about it and everything it asks for, or the other has it recorded. -/
theorem Yields.transfer (own : OwnNames known)
    (same : ∀ name recording, Yields known before depth name recording →
      before.SameAt name after ∨ after.progressOf name = .done recording)
    (yields : Yields known before depth name recording) :
    Yields known after depth name recording := by
  induction depth generalizing name recording with
  | zero => cases yields
  | succ depth ih =>
      rcases same name recording yields with agree | done
      · rcases yields with done | ⟨fresh, d, recipe, found, body, replayed, answered⟩
        · exact .inl (agree.progress.trans done)
        · refine .inr ⟨agree.progress.trans fresh, d, recipe, found, body, ?_⟩
          rw [surroundings_eq own found agree]
          refine ⟨replayed, fun other requested => (answered other requested).mono ?_⟩
          exact fun result => ih fun name recording deeper => same name recording deeper.succ
      · exact .inl done

theorem exists_common_depth {steps : List BuildStep}
    (each : ∀ other, .requestBody other ∈ steps →
      ∃ depth, Answered known (Yields known store depth) other) :
    ∃ depth, ∀ other, .requestBody other ∈ steps →
      Answered known (Yields known store depth) other := by
  induction steps with
  | nil => exact ⟨0, by simp⟩
  | cons step rest ih =>
      obtain ⟨depth, answered⟩ := ih fun other member => each other (List.mem_cons_of_mem _ member)
      by_cases request : ∃ name, step = .requestBody name
      · obtain ⟨name, rfl⟩ := request
        obtain ⟨first, met⟩ := each name List.mem_cons_self
        refine ⟨max first depth, fun other member => ?_⟩
        rcases List.mem_cons.mp member with same | member
        · cases same
          exact met.mono fun _ yields => yields.mono (Nat.le_max_left _ _)
        · exact (answered other member).mono fun _ yields => yields.mono (Nat.le_max_right _ _)
      · refine ⟨depth, fun other member => ?_⟩
        rcases List.mem_cons.mp member with same | member
        · exact absurd ⟨other, same.symm⟩ request
        · exact answered other member

namespace Store.Ahead

theorem refl (store : Store) : store.Ahead known store :=
  fun name => .inl (.refl name store)

theorem yields (ahead : before.Ahead known after) (own : OwnNames known)
    (yields : Yields known before depth name recording) :
    Yields known after depth name recording := by
  refine yields.transfer own fun other result yielded => ?_
  rcases ahead other with same | ⟨_, old, deep, done, earlier⟩
  · exact .inl same
  · obtain rfl := earlier.unique yielded
    exact .inr done

theorem yields_before (ahead : before.Ahead known after) (own : OwnNames known)
    (yields : Yields known after depth name recording) :
    ∃ deeper, Yields known before deeper name recording := by
  induction depth generalizing name recording with
  | zero => cases yields
  | succ depth ih =>
      rcases ahead name with same | ⟨_, old, deep, done, earlier⟩
      · rcases yields with done | ⟨fresh, d, recipe, found, body, replayed, answered⟩
        · exact ⟨1, .inl (same.progress.symm.trans done)⟩
        · rw [surroundings_eq own found same] at replayed answered
          have each : ∀ other,
              .requestBody other ∈ recipe.steps (d.surroundings known before) →
              ∃ deeper, Answered known (Yields known before deeper) other := by
            intro other requested
            cases answered other requested with
            | template found body => exact ⟨0, .template found body⟩
            | object found body yielded written =>
                obtain ⟨deeper, earlier⟩ := ih yielded
                exact ⟨deeper, .object found body earlier written⟩
          obtain ⟨deeper, all⟩ := exists_common_depth each
          exact ⟨deeper + 1, .inr ⟨same.progress.symm.trans fresh, d, recipe, found, body,
            replayed, all⟩⟩
      · have again : Yields known after 1 name old := .inl done
        obtain rfl := again.unique yields
        exact ⟨deep, earlier⟩

theorem trans (first : before.Ahead known store) (second : store.Ahead known after)
    (own : OwnNames known) : before.Ahead known after := by
  intro name
  rcases first name with same | ⟨fresh, recording, depth, done, yields⟩
  · rcases second name with onwards | ⟨fresh, recording, depth, done, yields⟩
    · exact .inl (same.trans onwards)
    · obtain ⟨deeper, earlier⟩ := first.yields_before own yields
      exact .inr ⟨same.progress.symm.trans fresh, recording, deeper, done, earlier⟩
  · rcases second name with onwards | ⟨unbuilt, _⟩
    · exact .inr ⟨fresh, recording, depth, onwards.progress.trans done, yields⟩
    · cases done.symm.trans unbuilt

end Store.Ahead

/-- The store in which the builder of an object runs. -/
def Store.mark (store : Store) (name : String) : Store :=
  (store.setProgress name .building).addRun name

namespace Store

theorem mark_building (store : Store) (name : String) :
    (store.mark name).progressOf name = .building := by
  simp [mark]

theorem setProgress_sameAt (store : Store) (progress : Progress) (different : other ≠ name) :
    store.SameAt other (store.setProgress name progress) :=
  ⟨by simp [different], rfl⟩

theorem mark_sameAt (store : Store) (different : other ≠ name) :
    store.SameAt other (store.mark name) where
  progress := by simp [mark, different]
  runs := by
    unfold mark
    rw [runCount_addRun_of_ne _ (Ne.symm different), runCount_setProgress]

end Store

namespace Yields

theorem of_mark (own : OwnNames known)
    (yields : Yields known (store.mark marked) depth name recording) :
    Yields known store depth name recording := by
  refine yields.transfer own fun other result yielded => .inl ?_
  refine (store.mark_sameAt ?_).symm
  -- A body that is being built is neither recorded nor open, so nothing yields it.
  rintro rfl
  have building := store.mark_building other
  cases depth with
  | zero => cases yielded
  | succ depth =>
      rcases yielded with done | ⟨fresh, _⟩
      · cases building.symm.trans done
      · cases building.symm.trans fresh

theorem mark (own : OwnNames known)
    (deeper : ∀ recording, ¬ Yields known store depth marked recording)
    (yields : Yields known store depth name recording) :
    Yields known (store.mark marked) depth name recording := by
  refine yields.transfer own fun other result yielded => .inl ?_
  refine store.mark_sameAt ?_
  rintro rfl
  exact deeper result yielded

end Yields

theorem requestBy_ok {record : Definition → Recipe → Query Recording}
    (done : requestBy known record name store = (.ok (), later)) :
    ∃ d, known.get? name = some d ∧
      ((∃ text, d.body = .template text ∧ later = store) ∨
        ∃ recipe recording text, d.body = .recipe recipe ∧
          record d recipe store = (.ok recording, later) ∧ recording.body = .ok text) := by
  unfold requestBy at done
  cases found : known.get? name with
  | none =>
      simp only [found] at done
      cases done
  | some d =>
      simp only [found] at done
      cases body : d.body with
      | template text =>
          simp only [body] at done
          exact ⟨d, rfl, .inl ⟨text, body, (Query.pure_ok done).2.symm⟩⟩
      | recipe recipe =>
          simp only [body] at done
          obtain ⟨recording, middle, recorded, finish⟩ := Query.bind_ok done
          obtain ⟨text, written, finish⟩ := Query.lift_bind_ok finish
          obtain ⟨_, rfl⟩ := Query.pure_ok finish
          exact ⟨d, rfl, .inr ⟨recipe, recording, text, body, recorded, written⟩⟩

/-- The requests of a running builder are met by what other objects yield. -/
def Meets (known : Table Definition) (marked : Store) (request : String → Query Unit) : Prop :=
  ∀ other start next, marked.Ahead known start → request other start = (.ok (), next) →
    marked.Ahead known next ∧ ∃ depth, Answered known (Yields known marked depth) other

/-- Where no request is only tried, each one has been met when a builder succeeds. -/
theorem performAll_met {request : String → Query Unit} {Holds : Store → Prop}
    {Met : String → Prop}
    (meets : ∀ name start next, Holds start → request name start = (.ok (), next) →
      Holds next ∧ Met name)
    (strict : ∀ name, .tryBody name ∉ steps) (start : Holds store)
    (done : performAll request recording steps store = (.ok result, later)) :
    Holds later ∧ ∀ name, .requestBody name ∈ steps → Met name := by
  induction steps generalizing recording store with
  | nil =>
      obtain ⟨_, rfl⟩ := Query.pure_ok done
      exact ⟨start, by simp⟩
  | cons step rest ih =>
      have others : ∀ name, .tryBody name ∉ rest :=
        fun name member => strict name (List.mem_cons_of_mem step member)
      obtain ⟨next, middle, _, remaining, made⟩ := performAll_cons_ok done
      rcases made with ⟨silent, rfl⟩ | ⟨name, rfl, met⟩ | ⟨name, rfl, _⟩
      · obtain ⟨holds, each⟩ := ih others start remaining
        refine ⟨holds, fun name member => ?_⟩
        rcases List.mem_cons.mp member with rfl | member
        · cases silent
        · exact each name member
      · obtain ⟨middling, answered⟩ := meets name store middle start met
        obtain ⟨holds, each⟩ := ih others middling remaining
        refine ⟨holds, fun other member => ?_⟩
        rcases List.mem_cons.mp member with same | member
        · cases same
          exact answered
        · exact each other member
      · exact absurd List.mem_cons_self (strict name)

namespace Definition

variable {name : String} {d : Definition}

theorem run_yields {request : String → Query Unit} (own : OwnNames known)
    (strict : StrictRecipes known)
    (found : known.get? name = some d) (object : d.body = .recipe recipe)
    (fresh : store.progressOf name = .fresh)
    (meets : Meets known (store.mark name) request)
    (ran : d.run recipe known request (store.setProgress name .building) =
      (.ok recording, during)) :
    (∃ depth, Yields known store depth name recording) ∧
      store.Ahead known (during.setProgress name (.done recording)) := by
  have start : (store.mark name).Ahead known
      ((store.setProgress name .building).addRun d.name) := by
    rw [own name d found]
    exact .refl _
  have replayed := replay_of_performAll ran
  obtain ⟨ahead, each⟩ := performAll_met meets (strict name d recipe found object _) start ran
  obtain ⟨depth, answered⟩ := exists_common_depth each
  have yields : Yields known store (depth + 1) name recording := by
    refine .inr ⟨fresh, d, recipe, found, object, replayed, fun other requested => ?_⟩
    exact (answered other requested).mono fun _ yields => yields.of_mark own
  refine ⟨⟨depth + 1, yields⟩, fun other => ?_⟩
  by_cases same : other = name
  · subst same
    exact .inr ⟨fresh, recording, depth + 1, by simp, yields⟩
  · have agree := store.mark_sameAt same
    rcases ahead other with onwards | ⟨unbuilt, result, deep, done, yielded⟩
    · exact .inl ((agree.trans onwards).trans (during.setProgress_sameAt _ same))
    · refine .inr ⟨agree.progress.symm.trans unbuilt, result, deep, by simpa [same] using done, ?_⟩
      exact yielded.of_mark own

/-- An object that is recorded records what it yields, and leaves a store with more of
what objects yield. -/
theorem recordWithin_yields (own : OwnNames known) (strict : StrictRecipes known)
    (found : known.get? name = some d) (object : d.body = .recipe recipe)
    (done : d.recordWithin known bound recipe store = (.ok recording, later)) :
    (∃ depth, Yields known store depth name recording) ∧ store.Ahead known later := by
  induction bound generalizing name d recipe store recording later with
  | zero =>
      rcases recordWithin_ok done with ⟨recorded, rfl⟩ | ⟨_, _, _, none, _⟩
      · rw [own name d found] at recorded
        exact ⟨⟨1, .inl recorded⟩, .refl _⟩
      · cases none
  | succ bound ih =>
      rcases recordWithin_ok done with ⟨recorded, rfl⟩ | ⟨fresh, _, during, same, ran, rfl⟩
      · rw [own name d found] at recorded
        exact ⟨⟨1, .inl recorded⟩, .refl _⟩
      · cases same
        rw [own name d found] at fresh ran ⊢
        refine run_yields own strict found object fresh ?_ ran
        intro other start next ahead met
        obtain ⟨asked, present, outcome⟩ := requestBy_ok met
        rcases outcome with ⟨text, body, rfl⟩ | ⟨recipe', result, text, body, recorded, written⟩
        · exact ⟨ahead, 0, .template present body⟩
        · obtain ⟨⟨depth, yields⟩, onwards⟩ := ih present body recorded
          obtain ⟨deeper, earlier⟩ := ahead.yields_before own yields
          exact ⟨ahead.trans onwards own, deeper, .object present body earlier written⟩

end Definition

def Progress.isFresh : Progress → Bool
  | .fresh => true
  | .building | .done _ => false

/-- How many known names have a body that is still to be built. Requests cannot be nested
deeper than that. -/
def Store.unbuilt (known : Table Definition) (store : Store) : Nat :=
  known.keys.countP fun name => (store.progressOf name).isFresh

namespace Store

theorem isFresh_iff : (store.progressOf name).isFresh = true ↔ store.progressOf name = .fresh := by
  cases store.progressOf name <;> simp [Progress.isFresh]

theorem unbuilt_le_size (known : Table Definition) (store : Store) :
    store.unbuilt known ≤ known.size := by
  have bound := List.countP_le_length (l := known.keys)
    (p := fun name => (store.progressOf name).isFresh)
  simpa [unbuilt] using bound

theorem Ahead.unbuilt_le (ahead : before.Ahead known after) :
    after.unbuilt known ≤ before.unbuilt known := by
  refine List.countP_mono_left fun name _ unbuilt => ?_
  rw [isFresh_iff] at unbuilt ⊢
  rcases ahead name with same | ⟨fresh, _⟩
  · exact same.progress.symm.trans unbuilt
  · exact fresh

theorem Grows.unbuilt_le (grows : before.Grows after) (known : Table Definition) :
    after.unbuilt known ≤ before.unbuilt known := by
  refine List.countP_mono_left fun name _ unbuilt => ?_
  rw [isFresh_iff] at unbuilt ⊢
  by_cases fresh : before.progressOf name = .fresh
  · exact fresh
  · exact (grows.kept name fresh).symm.trans unbuilt

theorem unbuilt_mark (present : name ∈ known.keys) (fresh : store.progressOf name = .fresh) :
    (store.mark name).unbuilt known < store.unbuilt known := by
  obtain ⟨first, rest, split⟩ := List.append_of_mem present
  have fewer : ∀ names : List String,
      names.countP (fun name' => ((store.mark name).progressOf name').isFresh) ≤
        names.countP fun name' => (store.progressOf name').isFresh := by
    intro names
    refine List.countP_mono_left fun other _ unbuilt => ?_
    rw [isFresh_iff] at unbuilt ⊢
    have different : other ≠ name := by
      rintro rfl
      cases (store.mark_building other).symm.trans unbuilt
    exact (store.mark_sameAt different).progress.symm.trans unbuilt
  have marked : ((store.mark name).progressOf name).isFresh = false := by
    rw [mark_building]
    rfl
  have before : (store.progressOf name).isFresh = true := isFresh_iff.mpr fresh
  have left := fewer first
  have right := fewer rest
  simp only [unbuilt, split, List.countP_append, List.countP_cons, marked, before]
  simp only [Bool.false_eq_true, if_false, if_true]
  omega

end Store

theorem performAll_complete {request : String → Query Unit} {Holds : Store → Prop}
    (meets : ∀ name, .requestBody name ∈ steps → ∀ start, Holds start →
      ∃ next, request name start = (.ok (), next) ∧ Holds next)
    (strict : ∀ name, .tryBody name ∉ steps) (replayed : replay recording steps = .ok result)
    (start : Holds store) :
    ∃ later, performAll request recording steps store = (.ok result, later) := by
  induction steps generalizing recording store with
  | nil =>
      cases replayed
      exact ⟨store, rfl⟩
  | cons step rest ih =>
      have others := fun name member => meets name (List.mem_cons_of_mem step member)
      have passes : ∀ name, .tryBody name ∉ rest :=
        fun name member => strict name (List.mem_cons_of_mem step member)
      rw [replay_cons] at replayed
      cases effect : step.effect recording with
      | error error =>
          rw [effect] at replayed
          cases replayed
      | ok middle =>
          rw [effect] at replayed
          cases step with
          | requestBody name =>
              obtain ⟨next, met, holds⟩ := meets name List.mem_cons_self store start
              cases effect
              rw [performAll_request, met]
              exact ih others passes replayed holds
          | tryBody name => exact absurd List.mem_cons_self (strict name)
          | accumulate | transform | transformCall | fail =>
              rw [performAll_silent rfl, effect]
              exact ih others passes replayed start

namespace Definition

variable {name : String} {d : Definition}

theorem recordWithin_of_run (fresh : store.progressOf d.name = .fresh)
    (ran : d.run recipe known (requestBy known (recordWithin known bound))
      (store.setProgress d.name .building) = (.ok recording, during)) :
    d.recordWithin known (bound + 1) recipe store =
      (.ok recording, during.setProgress d.name (.done recording)) := by
  rw [recordWithin, fresh]
  simp only [ran]

theorem recordWithin_complete (own : OwnNames known) (strict : StrictRecipes known)
    (found : known.get? name = some d) (object : d.body = .recipe recipe)
    (yields : Yields known store depth name recording)
    (room : store.unbuilt known ≤ bound) :
    ∃ later, d.recordWithin known bound recipe store = (.ok recording, later) := by
  induction bound generalizing name d recipe store depth recording with
  | zero =>
      cases depth with
      | zero => cases yields
      | succ depth =>
          rcases yields with done | ⟨fresh, _⟩
          · refine ⟨store, ?_⟩
            rw [recordWithin, own name d found, done]
          · -- An open body counts as unbuilt, which leaves no room for a bound of zero.
            have one := Store.unbuilt_mark (Table.mem_keys_of_get? found) fresh
            omega
  | succ bound ih =>
      -- The answer of least depth does not involve the object itself; nothing on the way
      -- asks for a body that is being built.
      obtain ⟨least, shallow, none⟩ := yields.least
      rcases shallow with done | ⟨fresh, d', recipe', found', object', replayed, answered⟩
      · refine ⟨store, ?_⟩
        rw [recordWithin, own name d found, done]
      · cases found.symm.trans found'
        cases object.symm.trans object'
        have one := Store.unbuilt_mark (Table.mem_keys_of_get? found) fresh
        have meets : ∀ other,
            .requestBody other ∈ recipe.steps (d.surroundings known store) →
            ∀ start, (store.mark name).Ahead known start →
              ∃ next, requestBy known (recordWithin known bound) other start = (.ok (), next) ∧
                (store.mark name).Ahead known next := by
          intro other requested start ahead
          cases answered other requested with
          | template present body =>
              refine ⟨start, ?_, ahead⟩
              simp only [requestBy, present, body]
              rfl
          | @object asked wanted result text present body yielded written =>
              have still := ahead.yields own (yielded.mark own none)
              have fewer := ahead.unbuilt_le
              obtain ⟨next, recorded⟩ := ih present body still (by omega)
              have onwards := (recordWithin_yields own strict present body recorded).2
              refine ⟨next, ?_, ahead.trans onwards own⟩
              simp only [requestBy, present, body]
              rw [Query.bind_of_ok recorded, written]
              rfl
        obtain ⟨during, ran⟩ := performAll_complete meets
          (strict name d recipe found object _) replayed (.refl _)
        have called := own name d found
        have started : d.run recipe known (requestBy known (recordWithin known bound))
            (store.setProgress d.name .building) = (.ok recording, during) := by
          unfold Definition.run
          rw [called]
          exact ran
        exact ⟨_, recordWithin_of_run (called ▸ fresh) started⟩

theorem dependencies_ahead (own : OwnNames known) (strict : StrictRecipes known)
    (found : known.get? name = some d)
    (answer : (d.dependencies known before).1 = .ok names) (ahead : before.Ahead known after) :
    ∃ later, d.dependencies known after = (.ok names, later) ∧ before.Ahead known later := by
  cases body : d.body with
  | template text =>
      simp only [dependencies, dependenciesBy, body] at answer ⊢
      exact ⟨after, congrArg (·, after) answer, ahead⟩
  | recipe recipe =>
      simp only [dependencies, dependenciesBy, body] at answer ⊢
      rcases recorded : d.record known recipe before with ⟨error | recording, middle⟩
      · rw [Query.bind_of_error recorded] at answer
        cases answer
      · rw [Query.bind_of_ok recorded] at answer
        obtain ⟨⟨depth, yields⟩, _⟩ := recordWithin_yields own strict found body recorded
        have still := ahead.yields own yields
        have room := Nat.le_succ_of_le (after.unbuilt_le_size known)
        obtain ⟨later, again⟩ := recordWithin_complete own strict found body still room
        have onwards := (recordWithin_yields own strict found body again).2
        have same : d.record known recipe after = (.ok recording, later) := again
        refine ⟨later, ?_, ahead.trans onwards own⟩
        rw [Query.bind_of_ok same]
        exact congrArg (·, later) answer

end Definition

end DistanceField
