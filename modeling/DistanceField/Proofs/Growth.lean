import DistanceField.Proofs.Recording
import DistanceField.Proofs.Requests

/-! What a request can do to the store. Requests only ever add finished recordings: what
has been built, or is being built further out, stays as it is. -/

namespace DistanceField

namespace Query

theorem bind_apply (query : Query α) (next : α → Query β) (store : Store) :
    (query >>= next) store = match query store with
      | (.ok value, later) => next value later
      | (.error error, later) => (.error error, later) := by
  simp only [bind, ExceptT.bind, ExceptT.mk, StateT.bind, ExceptT.bindCont, pure]
  rcases query store with ⟨outcome | outcome, later⟩ <;> rfl

theorem lift_apply (outcome : Except Error α) (store : Store) :
    (liftExcept outcome : Query α) store = (outcome, store) := by
  cases outcome <;> rfl

theorem bind_ok {query : Query α} {next : α → Query β}
    (done : (query >>= next) store = (.ok result, later)) :
    ∃ value middle, query store = (.ok value, middle) ∧
      next value middle = (.ok result, later) := by
  rw [bind_apply] at done
  rcases first : query store with ⟨outcome | value, middle⟩
  · rw [first] at done
    cases (Prod.mk.inj done).1
  · rw [first] at done
    exact ⟨value, middle, rfl, done⟩

theorem lift_bind_ok {outcome : Except Error α} {next : α → Query β}
    (done : (liftExcept outcome >>= next) store = (.ok result, later)) :
    ∃ value, outcome = .ok value ∧ next value store = (.ok result, later) := by
  obtain ⟨value, middle, lifted, remaining⟩ := bind_ok done
  rw [lift_apply] at lifted
  obtain ⟨same, rfl⟩ := Prod.mk.inj lifted
  exact ⟨value, same, remaining⟩

theorem pure_ok (done : (pure value : Query α) store = (.ok result, later)) :
    value = result ∧ store = later := by
  obtain ⟨same, stored⟩ := Prod.mk.inj done
  exact ⟨Except.ok.inj same, stored⟩

theorem bind_of_ok {query : Query α} {next : α → Query β}
    (first : query store = (.ok value, middle)) :
    (query >>= next) store = next value middle := by
  rw [bind_apply, first]

theorem bind_of_error {query : Query α} {next : α → Query β}
    (first : query store = (.error error, middle)) :
    (query >>= next) store = (.error error, middle) := by
  rw [bind_apply, first]

end Query

namespace Store

@[simp]
theorem progressOf_setProgress (store : Store) (name other : String) (progress : Progress) :
    (store.setProgress name progress).progressOf other =
      if other = name then progress else store.progressOf other := by
  simp only [progressOf, setProgress, Table.get?_set]
  split <;> rfl

@[simp]
theorem progressOf_addRun (store : Store) (started name : String) :
    (store.addRun started).progressOf name = store.progressOf name :=
  rfl

@[simp]
theorem runCount_setProgress (store : Store) (name other : String) (progress : Progress) :
    (store.setProgress name progress).runCount other = store.runCount other :=
  rfl

theorem runCount_addRun_of_ne (store : Store) (different : name ≠ other) :
    (store.addRun name).runCount other = store.runCount other :=
  List.count_cons_of_ne different

/-- The second store holds everything that the first one holds, and more finished
recordings. -/
structure Grows (before after : Store) : Prop where
  kept : ∀ name, before.progressOf name ≠ .fresh →
    after.progressOf name = before.progressOf name
  built : ∀ name, before.progressOf name = .fresh →
    after.progressOf name = .fresh ∨
      ∃ recording, after.progressOf name = .done recording ∧ recording.Sound

namespace Grows

theorem refl (store : Store) : store.Grows store :=
  ⟨fun _ _ => rfl, fun _ fresh => .inl fresh⟩

theorem trans (first : Store.Grows a b) (second : Store.Grows b c) : a.Grows c where
  kept := by
    intro name present
    have same := first.kept name present
    exact (second.kept name (same ▸ present)).trans same
  built := by
    intro name fresh
    rcases first.built name fresh with still | ⟨recording, done, sound⟩
    · exact second.built name still
    · have present : b.progressOf name ≠ .fresh := by simp [done]
      exact .inr ⟨recording, (second.kept name present).trans done, sound⟩

theorem done (grows : Store.Grows before after)
    (recorded : before.progressOf name = .done recording) :
    after.progressOf name = .done recording := by
  rw [grows.kept name (by simp [recorded]), recorded]

theorem building_iff (grows : Store.Grows before after) (name : String) :
    after.progressOf name = .building ↔ before.progressOf name = .building := by
  by_cases fresh : before.progressOf name = .fresh
  · rcases grows.built name fresh with still | ⟨recording, done, _⟩
    · simp [fresh, still]
    · simp [fresh, done]
  · rw [grows.kept name fresh]

theorem unmark (fresh : Store.progressOf before name = .fresh)
    (grows : ((before.setProgress name .building).addRun name).Grows during)
    (outcome : last = .fresh ∨ ∃ recording, last = .done recording ∧ recording.Sound) :
    before.Grows (during.setProgress name last) where
  kept := by
    intro other present
    have different : other ≠ name := fun same => present (same ▸ fresh)
    have same := grows.kept other (by simpa [different] using present)
    simpa [different] using same
  built := by
    intro other unbuilt
    by_cases same : other = name
    · rcases outcome with rfl | ⟨recording, rfl, sound⟩
      · exact .inl (by simp [same])
      · exact .inr ⟨recording, by simp [same], sound⟩
    · simpa [same] using grows.built other (by simpa [same] using unbuilt)

end Grows

/-- What has been recorded for a name stays recorded. -/
def Keeps (before : Store) (name : String) (after : Store) : Prop :=
  ∀ recording, before.progressOf name = .done recording →
    after.progressOf name = .done recording

theorem Grows.keeps (grows : Store.Grows before after) (name : String) :
    before.Keeps name after :=
  fun _ recorded => grows.done recorded

theorem addRun_grows (store : Store) (name : String) : store.Grows (store.addRun name) :=
  ⟨fun _ _ => rfl, fun _ fresh => .inl fresh⟩

end Store

/-- Whatever its outcome, a request only adds finished recordings. -/
def Query.Grows (query : Query α) : Prop :=
  ∀ store : Store, store.Grows (query store).2

namespace Query

theorem pure_grows (value : α) : Query.Grows (pure value) :=
  fun store => .refl store

theorem throw_grows (error : Error) : Query.Grows (throw error : Query α) :=
  fun store => .refl store

theorem Grows.bind {query : Query α} {next : α → Query β} (first : Query.Grows query)
    (second : ∀ value, Query.Grows (next value)) : Query.Grows (query >>= next) := by
  intro store
  have grown := first store
  rw [bind_apply]
  rcases answer : query store with ⟨error | value, middle⟩
  · simpa [answer] using grown
  · rw [answer] at grown
    exact grown.trans (second value middle)

theorem Grows.closed : Query.Tolerant Query.Grows where
  pure := pure_grows
  throw := throw_grows
  bind := Grows.bind
  attempt grows := grows

theorem lift_grows (outcome : Except Error α) : Query.Grows (liftExcept outcome) :=
  Grows.closed.lift outcome

theorem Grows.ok (grows : Query.Grows query) (answer : query store = (outcome, later)) :
    store.Grows later := by
  have grown := grows store
  rwa [answer] at grown

end Query

theorem requestBy_grows {known : Table Definition}
    {record : Definition → Recipe → Query Recording}
    (grows : ∀ d recipe, Query.Grows (record d recipe)) (name : String) :
    Query.Grows (requestBy known record name) :=
  Query.Grows.closed.requestBy name fun d recipe _ _ => grows d recipe

/-- The name that a step asks for. -/
def BuildStep.asked? : BuildStep → Option String
  | .requestBody name | .tryBody name => some name
  | _ => none

section

variable {request : String → Query Unit} {recording : Recording} {rest : List BuildStep}
  {store : Store}

theorem performAll_silent {step : BuildStep} (silent : step.asked? = none) :
    performAll request recording (step :: rest) store =
      match step.effect recording with
      | .ok later => performAll request later rest store
      | .error error => (.error error, store) := by
  have performed : step.perform request recording store = (.ok (step.record recording), store) := by
    cases step with
    | requestBody name | tryBody name => cases silent
    | _ => rfl
  rw [performAll, Query.bind_of_ok performed, BuildStep.effect]
  rcases step.record recording with ⟨error | _, later⟩
  · exact Query.bind_of_error (Query.lift_apply _ _)
  · exact Query.bind_of_ok (Query.lift_apply _ _)

theorem performAll_request :
    performAll request recording (.requestBody name :: rest) store =
      match request name store with
      | (.ok _, middle) => performAll request recording rest middle
      | (.error error, middle) => (.error error, middle) := by
  have performed : (BuildStep.requestBody name).perform request recording store =
      (.ok ((request name store).1, recording), (request name store).2) := rfl
  rw [performAll, Query.bind_of_ok performed]
  rcases request name store with ⟨error | _, middle⟩
  · exact Query.bind_of_error (Query.lift_apply _ _)
  · exact Query.bind_of_ok (Query.lift_apply _ _)

theorem performAll_try :
    performAll request recording (.tryBody name :: rest) store =
      performAll request recording rest (request name store).2 :=
  rfl

/-- What a step that succeeds has done, and where the steps after it go on. -/
theorem performAll_cons_ok {step : BuildStep}
    (done : performAll request recording (step :: rest) store = (.ok result, later)) :
    ∃ next middle, step.effect recording = .ok next ∧
      performAll request next rest middle = (.ok result, later) ∧
      (step.asked? = none ∧ middle = store ∨
        (∃ name, step = .requestBody name ∧ request name store = (.ok (), middle)) ∨
        ∃ name, step = .tryBody name ∧ middle = (request name store).2) := by
  cases silent : step.asked? with
  | none =>
      rw [performAll_silent silent] at done
      cases effect : step.effect recording with
      | error error =>
          rw [effect] at done
          cases (Prod.mk.inj done).1
      | ok next =>
          rw [effect] at done
          exact ⟨next, store, rfl, done, .inl ⟨rfl, rfl⟩⟩
  | some asked =>
      cases step with
      | requestBody name =>
          rw [performAll_request] at done
          rcases met : request name store with ⟨error | _, middle⟩
          · rw [met] at done
            cases (Prod.mk.inj done).1
          · rw [met] at done
            exact ⟨recording, middle, rfl, done, .inr (.inl ⟨name, rfl, met⟩)⟩
      | tryBody name =>
          rw [performAll_try] at done
          exact ⟨recording, _, rfl, done, .inr (.inr ⟨name, rfl, rfl⟩)⟩
      | accumulate | transform | transformCall | fail => cases silent

/-- A builder that succeeds has recorded what its steps record, whatever became of the requests
that it could do without. -/
theorem replay_of_performAll
    (done : performAll request recording steps store = (.ok result, later)) :
    replay recording steps = .ok result := by
  induction steps generalizing recording store with
  | nil => exact (Prod.mk.inj done).1
  | cons step rest ih =>
      obtain ⟨next, middle, effect, remaining, _⟩ := performAll_cons_ok done
      rw [replay_cons, effect]
      exact ih remaining

end

namespace Definition

variable {known : Table Definition} {d : Definition} {recipe : Recipe}

theorem recordWithin_ok
    (done : d.recordWithin known bound recipe store = (.ok recording, later)) :
    store.progressOf d.name = .done recording ∧ later = store ∨
      store.progressOf d.name = .fresh ∧ ∃ smaller during, bound = smaller + 1 ∧
        d.run recipe known (requestBy known (recordWithin known smaller))
          (store.setProgress d.name .building) = (.ok recording, during) ∧
        later = during.setProgress d.name (.done recording) := by
  unfold recordWithin at done
  cases progress : store.progressOf d.name with
  | done old =>
      simp only [progress] at done
      cases done
      exact .inl ⟨rfl, rfl⟩
  | building =>
      simp only [progress] at done
      cases (Prod.mk.inj done).1
  | fresh =>
      cases bound with
      | zero =>
          simp only [progress] at done
          cases (Prod.mk.inj done).1
      | succ smaller =>
          simp only [progress] at done
          rcases ran : d.run recipe known (requestBy known (recordWithin known smaller))
              (store.setProgress d.name .building) with ⟨error | result, during⟩
          · rw [ran] at done
            cases (Prod.mk.inj done).1
          · rw [ran] at done
            cases done
            exact .inr ⟨rfl, smaller, during, rfl, ran, rfl⟩

theorem recordWithin_fresh (fresh : store.progressOf d.name = .fresh) :
    d.recordWithin known (bound + 1) recipe store =
      match d.run recipe known (requestBy known (recordWithin known bound))
          (store.setProgress d.name .building) with
      | (.ok recording, later) => (.ok recording, later.setProgress d.name (.done recording))
      | (.error error, later) => (.error error, later.setProgress d.name .fresh) := by
  rcases ran : d.run recipe known (requestBy known (recordWithin known bound))
    (store.setProgress d.name .building) with ⟨error | recording, later⟩
  all_goals simp only [recordWithin, fresh, ran]

theorem run_grows {request : String → Query Unit}
    (grows : ∀ name, Query.Grows (request name)) (store : Store) :
    (store.addRun d.name).Grows (d.run recipe known request store).2 :=
  Query.Grows.closed.performAll grows .empty _ _

theorem run_sound {request : String → Query Unit}
    (done : d.run recipe known request store = (.ok recording, later)) : recording.Sound := by
  exact replay_sound Recording.empty_sound (replay_of_performAll done)

theorem recordWithin_grows (known : Table Definition) (bound : Nat) (d : Definition)
    (recipe : Recipe) : Query.Grows (d.recordWithin known bound recipe) := by
  induction bound generalizing d recipe with
  | zero =>
      intro store
      unfold recordWithin
      split <;> exact .refl store
  | succ bound ih =>
      intro store
      unfold recordWithin
      split
      · exact .refl store
      · exact .refl store
      · next fresh =>
          let request := requestBy known (recordWithin known bound)
          have requests : ∀ name, Query.Grows (request name) := requestBy_grows ih
          have grown : ((store.setProgress d.name .building).addRun d.name).Grows
              (d.run recipe known request (store.setProgress d.name .building)).2 :=
            run_grows requests _
          rcases ran : d.run recipe known request (store.setProgress d.name .building)
            with ⟨error | recording, during⟩
          · rw [ran] at grown
            simp only [request, ran]
            exact grown.unmark fresh (.inl rfl)
          · rw [ran] at grown
            simp only [request, ran]
            exact grown.unmark fresh (.inr ⟨recording, rfl, run_sound ran⟩)

theorem record_grows (known : Table Definition) (d : Definition) (recipe : Recipe) :
    Query.Grows (d.record known recipe) :=
  recordWithin_grows known (known.size + 1) d recipe

theorem record_done (done : d.record known recipe store = (.ok recording, later)) :
    later.progressOf d.name = .done recording := by
  rcases recordWithin_ok done with ⟨recorded, rfl⟩ | ⟨_, _, during, _, _, rfl⟩
  · exact recorded
  · simp

theorem recordWithin_of_done (recorded : store.progressOf d.name = .done recording) :
    d.recordWithin known bound recipe store = (.ok recording, store) := by
  unfold recordWithin
  rw [recorded]

theorem record_of_done (recorded : store.progressOf d.name = .done recording) :
    d.record known recipe store = (.ok recording, store) :=
  recordWithin_of_done recorded

theorem bodyTextBy_grows {record : Recipe → Query Recording}
    (grows : ∀ recipe, Query.Grows (record recipe)) : Query.Grows (d.bodyTextBy record) :=
  Query.Grows.closed.bodyTextBy fun recipe _ => grows recipe

theorem renderBy_grows {record : Recipe → Query Recording}
    (grows : ∀ recipe, Query.Grows (record recipe)) : Query.Grows (d.renderBy record) :=
  Query.Grows.closed.renderBy fun recipe _ => grows recipe

theorem record_again (done : d.record known recipe store = (.ok recording, later))
    (kept : later.Keeps d.name last) : d.record other recipe last = (.ok recording, last) :=
  record_of_done (kept recording (record_done done))

end Definition

end DistanceField
