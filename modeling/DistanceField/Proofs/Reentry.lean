import DistanceField.Proofs.Lifecycle
import Mathlib.Logic.Relation

/-! Builders that ask for each other's bodies. However they do so, every request comes to an
end: an object whose builder is running is refused, and only so many builders can run at a
time. A loop of requests therefore leaves nothing behind. -/

namespace DistanceField

/-- What can be under way: the evaluation of an object, or the rest of a builder's run. -/
inductive Task where
  | evaluate (d : Definition) (recipe : Recipe)
  | perform (recording : Recording) (steps : List BuildStep)

mutual

/-- How a task comes to an end. The rules set no bound on the depth of requests. -/
inductive Runs (known : Table Definition) :
    Task → Store → Except Error Recording → Store → Prop
  | recorded (done : store.progressOf d.name = .done recording) :
      Runs known (.evaluate d recipe) store (.ok recording) store
  | refused (building : store.progressOf d.name = .building) :
      Runs known (.evaluate d recipe) store (.error (.cycle [d.name, d.name])) store
  | built (fresh : store.progressOf d.name = .fresh)
      (run : Runs known (.perform .empty (recipe.steps (d.surroundings known store)))
        (store.mark d.name) outcome during) :
      Runs known (.evaluate d recipe) store outcome
        (during.setProgress d.name (.ofKept outcome.toOption))
  | finished : Runs known (.perform recording []) store (.ok recording) store
  | stopped (silent : step.asked? = none) (effect : step.effect recording = .error error) :
      Runs known (.perform recording (step :: rest)) store (.error error) store
  | performed (silent : step.asked? = none) (effect : step.effect recording = .ok next)
      (others : Runs known (.perform next rest) store outcome later) :
      Runs known (.perform recording (step :: rest)) store outcome later
  | failed (fetch : Fetches known name store (.error error) middle) :
      Runs known (.perform recording (.requestBody name :: rest)) store (.error error) middle
  | met (fetch : Fetches known name store (.ok ()) middle)
      (others : Runs known (.perform recording rest) middle outcome later) :
      Runs known (.perform recording (.requestBody name :: rest)) store outcome later
  | tried (fetch : Fetches known name store answer middle)
      (others : Runs known (.perform recording rest) middle outcome later) :
      Runs known (.perform recording (.tryBody name :: rest)) store outcome later

/-- How a request for a body comes to an end. -/
inductive Fetches (known : Table Definition) :
    String → Store → Except Error Unit → Store → Prop
  | unknown (missing : known.get? name = none) :
      Fetches known name store (.error (.unknownName name)) store
  | template (found : known.get? name = some d) (body : d.body = .template text) :
      Fetches known name store (.ok ()) store
  | object (found : known.get? name = some d) (body : d.body = .recipe recipe)
      (evaluated : Runs known (.evaluate d recipe) store answer later) :
      Fetches known name store ((answer >>= Recording.body).map fun _ => ()) later

end

/-- The builder of the first object, started with the first store, comes to ask for the body
of the second one, with the second store. -/
inductive Enters (known : Table Definition) : Definition × Store → Definition × Store → Prop
  | request (fresh : store.progressOf d.name = .fresh) (body : d.body = .recipe recipe)
      (steps : recipe.steps (d.surroundings known store) = before ++ step :: after)
      (asks : step.asked? = some name)
      (run : Runs known (.perform .empty before) (store.mark d.name) (.ok recording) during)
      (found : known.get? name = some other) :
      Enters known (d, store) (other, during)

/-- The builder of the first object asks for the body of the second one. -/
def BodyRequest (known : Table Definition) (name other : String) : Prop :=
  ∃ d recipe, known.get? name = some d ∧ d.body = .recipe recipe ∧
    .requestBody other ∈ recipe.steps (d.surroundings known .empty)

/-- Following requests for bodies, one can come to an object that asks for its own body,
directly or through others. -/
def LeadsIntoLoop (known : Table Definition) (name : String) : Prop :=
  ∃ other, Relation.ReflTransGen (BodyRequest known) name other ∧
    Relation.TransGen (BodyRequest known) other other

variable {known : Table Definition} {store later : Store} {d : Definition}
  {recipe : Recipe}

namespace Runs

variable {recording next : Recording} {step : BuildStep} {rest : List BuildStep}
  {outcome : Except Error Recording}

theorem nil_iff : Runs known (.perform recording []) store outcome later ↔
    (.ok recording, store) = (outcome, later) := by
  constructor
  · intro runs
    cases runs
    rfl
  · intro same
    cases same
    exact .finished

theorem evaluate_iff_of_done (done : store.progressOf d.name = .done recording) :
    Runs known (.evaluate d recipe) store outcome later ↔
      (.ok recording, store) = (outcome, later) := by
  constructor
  · intro runs
    cases runs <;> simp_all
  · intro same
    cases same
    exact .recorded done

theorem evaluate_iff_of_building (building : store.progressOf d.name = .building) :
    Runs known (.evaluate d recipe) store outcome later ↔
      (.error (.cycle [d.name, d.name]), store) = (outcome, later) := by
  constructor
  · intro runs
    cases runs <;> simp_all
  · intro same
    cases same
    exact .refused building

theorem evaluate_iff_of_fresh (fresh : store.progressOf d.name = .fresh) :
    Runs known (.evaluate d recipe) store outcome later ↔
      ∃ during, Runs known (.perform .empty (recipe.steps (d.surroundings known store)))
          (store.mark d.name) outcome during ∧
        during.setProgress d.name (.ofKept outcome.toOption) = later := by
  constructor
  · intro runs
    cases runs with
    | recorded done => cases fresh.symm.trans done
    | refused building => cases fresh.symm.trans building
    | built _ run => exact ⟨_, run, rfl⟩
  · rintro ⟨during, run, rfl⟩
    exact .built fresh run

end Runs

theorem requestBy_object {record : Definition → Recipe → Query Recording}
    (found : known.get? name = some d) (body : d.body = .recipe recipe)
    (evaluated : record d recipe store = (answer, middle)) :
    requestBy known record name store =
      ((answer >>= Recording.body).map fun _ => (), middle) := by
  simp only [requestBy, found, body]
  cases answer with
  | error error => exact Query.bind_of_error evaluated
  | ok result =>
      rw [Query.bind_of_ok evaluated]
      change (discard (liftExcept result.body) : Query Unit) middle =
        (result.body.map fun _ => (), middle)
      cases result.body <;> rfl

/-- Objects are evaluated within the bound as the rules say, as long as no more bodies are to
be built. -/
def RunsWithin (known : Table Definition) (bound : Nat) : Prop :=
  ∀ name d recipe store outcome later, known.get? name = some d → d.body = .recipe recipe →
    store.unbuilt known ≤ bound →
    (Runs known (.evaluate d recipe) store outcome later ↔
      d.recordWithin known bound recipe store = (outcome, later))

namespace RunsWithin

variable {recording : Recording} {outcome : Except Error Recording} {rest : List BuildStep}

theorem fetches_iff (within : RunsWithin known bound) (room : store.unbuilt known ≤ bound) :
    Fetches known name store answer later ↔
      requestBy known (Definition.recordWithin known bound) name store = (answer, later) := by
  constructor
  · intro fetch
    cases fetch with
    | unknown missing =>
        simp only [requestBy, missing]
        rfl
    | template found body =>
        simp only [requestBy, found, body]
        rfl
    | object found body evaluated =>
        exact requestBy_object found body ((within _ _ _ _ _ _ found body room).mp evaluated)
  · intro fetched
    cases found : known.get? name with
    | none =>
        simp only [requestBy, found] at fetched
        cases fetched
        exact .unknown found
    | some d =>
        cases body : d.body with
        | template text =>
            simp only [requestBy, found, body] at fetched
            cases fetched
            exact .template found body
        | recipe recipe =>
            rcases evaluated : d.recordWithin known bound recipe store with ⟨result, middle⟩
            rw [requestBy_object found body evaluated] at fetched
            cases fetched
            exact .object found body ((within _ _ _ _ _ _ found body room).mpr evaluated)

theorem room_after (room : store.unbuilt known ≤ bound)
    (fetched : requestBy known (Definition.recordWithin known bound) name store =
      (answer, middle)) : middle.unbuilt known ≤ bound := by
  have grows := (requestBy_grows (Definition.recordWithin_grows known bound) name).ok fetched
  exact (grows.unbuilt_le known).trans room

section

variable (within : RunsWithin known bound) (room : store.unbuilt known ≤ bound)
  (others : ∀ next middle, middle.unbuilt known ≤ bound →
    (Runs known (.perform next rest) middle outcome later ↔
      performAll (requestBy known (Definition.recordWithin known bound)) next rest middle =
        (outcome, later)))

include room others

theorem silent_iff (silent : step.asked? = none) :
    Runs known (.perform recording (step :: rest)) store outcome later ↔
      performAll (requestBy known (Definition.recordWithin known bound)) recording
        (step :: rest) store = (outcome, later) := by
  rw [performAll_silent silent]
  constructor
  · intro run
    cases run with
    | stopped _ effect => rw [effect]
    | performed _ effect onwards =>
        rw [effect]
        exact (others _ store room).mp onwards
    | failed | met | tried => cases silent
  · intro performed
    split at performed
    · next next effect => exact .performed silent effect ((others next store room).mpr performed)
    · next error effect =>
        cases performed
        exact .stopped silent effect

include within

theorem request_iff :
    Runs known (.perform recording (.requestBody name :: rest)) store outcome later ↔
      performAll (requestBy known (Definition.recordWithin known bound)) recording
        (.requestBody name :: rest) store = (outcome, later) := by
  rw [performAll_request]
  constructor
  · intro run
    cases run with
    | stopped silent | performed silent => cases silent
    | failed fetch => rw [(within.fetches_iff room).mp fetch]
    | met fetch onwards =>
        have fetched := (within.fetches_iff room).mp fetch
        rw [fetched]
        exact (others _ _ (room_after room fetched)).mp onwards
  · intro performed
    rcases fetched : requestBy known (Definition.recordWithin known bound) name store
      with ⟨error | _, middle⟩
    · rw [fetched] at performed
      cases performed
      exact .failed ((within.fetches_iff room).mpr fetched)
    · rw [fetched] at performed
      exact .met ((within.fetches_iff room).mpr fetched)
        ((others _ _ (room_after room fetched)).mpr performed)

theorem try_iff :
    Runs known (.perform recording (.tryBody name :: rest)) store outcome later ↔
      performAll (requestBy known (Definition.recordWithin known bound)) recording
        (.tryBody name :: rest) store = (outcome, later) := by
  rw [performAll_try]
  constructor
  · intro run
    cases run with
    | stopped silent | performed silent => cases silent
    | tried fetch onwards =>
        have fetched := (within.fetches_iff room).mp fetch
        rw [fetched]
        exact (others _ _ (room_after room fetched)).mp onwards
  · intro performed
    rcases fetched : requestBy known (Definition.recordWithin known bound) name store
      with ⟨answer, middle⟩
    rw [fetched] at performed
    exact .tried ((within.fetches_iff room).mpr fetched)
      ((others _ _ (room_after room fetched)).mpr performed)

end

theorem perform_iff (within : RunsWithin known bound) (room : store.unbuilt known ≤ bound) :
    Runs known (.perform recording steps) store outcome later ↔
      performAll (requestBy known (Definition.recordWithin known bound)) recording steps store =
        (outcome, later) := by
  induction steps generalizing recording store with
  | nil => exact Runs.nil_iff
  | cons step rest ih =>
      have others := fun next middle => @ih middle next
      cases step with
      | requestBody name => exact within.request_iff room others
      | tryBody name => exact within.try_iff room others
      | accumulate | transform | transformCall | fail => exact silent_iff room others rfl

end RunsWithin

theorem Runs.evaluate_iff_of_settled (settled : store.progressOf d.name ≠ .fresh) :
    Runs known (.evaluate d recipe) store outcome later ↔
      d.recordWithin known bound recipe store = (outcome, later) := by
  unfold Definition.recordWithin
  cases progress : store.progressOf d.name with
  | fresh => exact absurd progress settled
  | building => exact Runs.evaluate_iff_of_building progress
  | done recording => exact Runs.evaluate_iff_of_done progress

/-- The rules lead to one end, which is the one found within a bound on the depth. Every
builder that runs leaves one body less to be built. -/
theorem runsWithin (own : OwnNames known) (bound : Nat) : RunsWithin known bound := by
  induction bound with
  | zero =>
      intro name d recipe store outcome later found _ room
      refine Runs.evaluate_iff_of_settled fun fresh => ?_
      rw [own name d found] at fresh
      have fewer := Store.unbuilt_mark (Table.mem_keys_of_get? found) fresh
      omega
  | succ bound ih =>
      intro name d recipe store outcome later found _ room
      by_cases fresh : store.progressOf d.name = .fresh
      · rcases launched : d.launch known bound recipe store with ⟨answer, during⟩
        have present : d.name ∈ known.keys := by
          rw [own name d found]
          exact Table.mem_keys_of_get? found
        have fewer := Store.unbuilt_mark present fresh
        have ran : ∀ other last, Runs known
            (.perform .empty (recipe.steps (d.surroundings known store)))
            (store.mark d.name) other last ↔ (answer, during) = (other, last) := by
          intro other last
          rw [ih.perform_iff (by omega), ← launched]
          rfl
        rw [Runs.evaluate_iff_of_fresh fresh, Definition.recordWithin_of_launch fresh launched]
        constructor
        · rintro ⟨last, run, rfl⟩
          cases (ran outcome last).mp run
          rfl
        · intro same
          cases same
          exact ⟨during, (ran _ _).mpr rfl, rfl⟩
      · exact Runs.evaluate_iff_of_settled fresh

theorem Definition.runs_iff_record {name : String} (own : OwnNames known)
    (found : known.get? name = some d) (body : d.body = .recipe recipe) (store : Store)
    (outcome : Except Error Recording) (later : Store) :
    Runs known (.evaluate d recipe) store outcome later ↔
      d.record known recipe store = (outcome, later) :=
  runsWithin own (known.size + 1) name d recipe store outcome later found body
    ((store.unbuilt_le_size known).trans (Nat.le_succ _))

theorem LeadsIntoLoop.step (leads : LeadsIntoLoop known name) :
    ∃ next, BodyRequest known name next ∧ LeadsIntoLoop known next := by
  obtain ⟨other, follows, loop⟩ := leads
  rcases follows.cases_head with rfl | ⟨next, request, onwards⟩
  · obtain ⟨next, request, onwards⟩ := Relation.TransGen.head'_iff.mp loop
    exact ⟨next, request, _, onwards, loop⟩
  · exact ⟨next, request, other, onwards, loop⟩

theorem answered_of_replayBy {answer : String → Except Error Unit}
    (replayed : replayBy answer recording steps = .ok result)
    (requested : .requestBody name ∈ steps) : answer name = .ok () := by
  induction steps generalizing recording with
  | nil => cases requested
  | cons step rest ih =>
      rw [replayBy_cons] at replayed
      obtain ⟨next, first, remaining⟩ := except_bind_ok replayed
      rcases List.mem_cons.mp requested with rfl | later
      · obtain ⟨_, answered, _⟩ := except_bind_ok first
        exact answered
      · exact ih remaining later

/-- A loop of requests cannot be built without memory, at whatever depth it is given up. -/
theorem not_leadsIntoLoop_of_rebuild (found : known.get? name = some d)
    (body : d.body = .recipe recipe)
    (rebuilt : d.rebuild known bound outer recipe = .ok recording) :
    ¬ LeadsIntoLoop known name := by
  induction bound generalizing name d recipe outer recording with
  | zero => cases rebuilt
  | succ bound ih =>
      intro leads
      obtain ⟨next, ⟨_, _, found', body', requested⟩, onwards⟩ := leads.step
      cases found.symm.trans found'
      cases body.symm.trans body'
      simp only [Definition.rebuild] at rebuilt
      split at rebuilt
      · cases rebuilt
      · obtain ⟨_, ⟨asked, wanted, present, object, _⟩, _⟩ := onwards.step
        have answered := answered_of_replayBy rebuilt requested
        simp only [answerBy, present, object] at answered
        obtain ⟨result, again, _⟩ := except_bind_ok answered
        exact ih present object again onwards

theorem Runs.grows (own : OwnNames known)
    (run : Runs known (.perform recording steps) store outcome later) : store.Grows later := by
  have within := runsWithin own (known.size + 1)
  have room := (store.unbuilt_le_size known).trans (Nat.le_succ _)
  have performed := (within.perform_iff room).mp run
  exact (Query.Grows.closed.performAll
    (requestBy_grows (Definition.recordWithin_grows known _)) recording steps).ok performed

theorem Store.building_mark (building : store.progressOf other = .building) (name : String) :
    (store.mark name).progressOf other = .building := by
  by_cases same : other = name
  · rw [same, mark_building]
  · exact (store.mark_sameAt same).progress.trans building

/-- The builder that asks is running, and those that were running still are. -/
theorem Enters.building {outer entered : Definition × Store} (own : OwnNames known)
    (enters : Enters known outer entered) :
    entered.2.progressOf outer.1.name = .building ∧
      ∀ name, outer.2.progressOf name = .building → entered.2.progressOf name = .building := by
  obtain ⟨_, _, _, _, run, _⟩ := enters
  have kept := (run.grows own).building_iff
  exact ⟨(kept _).mpr (Store.mark_building _ _),
    fun name building => (kept name).mpr (Store.building_mark building _)⟩

theorem building_of_entered {outer entered : Definition × Store} (own : OwnNames known)
    (enters : Relation.TransGen (Enters known) outer entered) :
    entered.2.progressOf outer.1.name = .building := by
  induction enters with
  | single enters => exact (enters.building own).1
  | tail _ enters ih => exact (enters.building own).2 _ ih

namespace Session

/-- Whatever builders ask for, every evaluation has one end, and no other builder is running
then than before. An object that leads into a loop of requests is never built, and one that is
asked for while its own builder is running is refused and left alone. -/
theorem evaluation_ends {session : Session} (collection : session.Collection)
    (history : List Request) :
    let state := session.after history
    ∀ name d recipe, state.known.get? name = some d → d.body = .recipe recipe →
      (∀ store, ∃ outcome later, d.record state.known recipe store = (outcome, later) ∧
        (∀ other last, Runs state.known (.evaluate d recipe) store other last ↔
          (outcome, later) = (other, last)) ∧
        ∀ other, later.progressOf other = .building ↔ store.progressOf other = .building) ∧
      (LeadsIntoLoop state.known name →
        (∀ recording, state.store.progressOf name ≠ .done recording) ∧
          ∃ error later, d.record state.known recipe state.store = (.error error, later)) ∧
      ∀ store inner, Relation.TransGen (Enters state.known) (d, store) (d, inner) →
        d.record state.known recipe inner = (.error (.cycle [d.name, d.name]), inner) := by
  intro state name d recipe found body
  have sound := collection.reached.sound
  obtain ⟨last, arrived, consistent⟩ :=
    after_consistent sound collection.fixed collection.consistent history
  have whole : state = { session with store := last } := arrived
  rw [whole] at found ⊢
  refine ⟨fun store => ?_, fun leads => ⟨fun recording done => ?_, ?_⟩,
    fun store inner entered => ?_⟩
  · rcases evaluated : d.record session.known recipe store with ⟨outcome, later⟩
    have grows := (d.record_grows session.known recipe).ok evaluated
    refine ⟨outcome, later, rfl, fun other last => ?_, grows.building_iff⟩
    rw [Definition.runs_iff_record sound.named found body, evaluated]
  · obtain ⟨_, _, found', body', again⟩ := consistent.rebuilds name recording done
    have rebuilt := again _ _ (.nil session.known) nofun
    exact not_leadsIntoLoop_of_rebuild found' body' rebuilt leads
  · obtain ⟨later, evaluated, _⟩ := Definition.recordWithin_gives sound.named collection.fixed
      found body (.nil session.known) last consistent
    cases rebuilt : d.rebuild session.known (session.known.size + 1) [] recipe with
    | error error => exact ⟨error, later, evaluated.trans (by rw [rebuilt])⟩
    | ok recording => exact absurd leads (not_leadsIntoLoop_of_rebuild found body rebuilt)
  · have building := building_of_entered sound.named entered
    simp only [Definition.record, Definition.recordWithin, building]

/-- An object whose builder does nothing but ask for another body. -/
def asking (name other : String) : Definition :=
  Gallery.object name [.requestBody other]

theorem asking_enters (fresh : Store.progressOf store name = .fresh)
    (found : known.get? other = some d) :
    Enters known (asking name other, store) (d, store.mark name) := by
  have steps : [BuildStep.requestBody other] = [] ++ .requestBody other :: [] := rfl
  exact .request fresh rfl steps rfl .finished found

def knot : Session :=
  (Session.empty.install [asking "Left" "Right", asking "Right" "Left"]).2

theorem knot_evaluation_ends :
    let state := knot.after [.evaluate "Left", .order "Right"]
    let inside := (state.store.mark "Left").mark "Right"
    LeadsIntoLoop state.known "Left" ∧
      (∀ recording, state.store.progressOf "Left" ≠ .done recording) ∧
      (asking "Left" "Right").record state.known ⟨fun _ => [.requestBody "Right"]⟩ inside =
        (.error (.cycle ["Left", "Left"]), inside) := by
  intro state inside
  have collection : knot.Collection := by
    refine Collection.empty.install ?_
    simp only [List.forall_mem_cons]
    refine ⟨?_, ?_, nofun⟩
    all_goals
      rintro recipe ⟨⟩
      exact fun _ _ => rfl
  have there : BodyRequest state.known "Left" "Right" := ⟨_, _, rfl, rfl, .head _⟩
  have back : BodyRequest state.known "Right" "Left" := ⟨_, _, rfl, rfl, .head _⟩
  have leads : LeadsIntoLoop state.known "Left" := ⟨"Left", .refl, .tail (.single there) back⟩
  have outwards : Enters state.known (asking "Left" "Right", state.store)
      (asking "Right" "Left", state.store.mark "Left") := asking_enters rfl rfl
  have inwards : Enters state.known (asking "Right" "Left", state.store.mark "Left")
      (asking "Left" "Right", inside) := asking_enters rfl rfl
  obtain ⟨_, loops, reentered⟩ := evaluation_ends collection
    [.evaluate "Left", .order "Right"] "Left" _ _ rfl rfl
  exact ⟨leads, (loops leads).1, reentered _ _ (.tail (.single outwards) inwards)⟩

end Session

end DistanceField
