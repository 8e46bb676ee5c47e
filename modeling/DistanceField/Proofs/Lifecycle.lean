import DistanceField.Proofs.Emission
import DistanceField.Proofs.History

/-! The life of an object. Until its builder has succeeded, each request starts the builder
once and fails as the builder does, without a trace. What the first successful run has
recorded answers every request from then on. -/

namespace DistanceField

/-- If the name is that of a body that is built or being built, it is left alone: it stays, and
its builder is not started. -/
def Query.SparesAt (name : String) (query : Query α) : Prop :=
  ∀ store : Store, store.progressOf name ≠ .fresh → store.SameAt name (query store).2

theorem Query.SparesAt.closed (name : String) : Query.Tolerant (Query.SparesAt name) where
  pure _ := fun store _ => .refl name store
  throw _ := fun store _ => .refl name store
  bind := by
    intro α β query next first second store present
    have same := first store present
    rw [Query.bind_apply]
    rcases answer : query store with ⟨error | value, middle⟩
    · rwa [answer] at same
    · rw [answer] at same
      exact same.trans (second value middle (same.progress ▸ present))
  attempt spares := spares

/-- All bodies that are built or being built are left alone. -/
def Query.Spares (query : Query α) : Prop :=
  ∀ (store : Store) (name : String), store.progressOf name ≠ .fresh →
    store.SameAt name (query store).2

theorem Query.Spares.at (spares : Query.Spares query) (name : String) : query.SparesAt name :=
  fun store => spares store name

theorem Query.Spares.closed : Query.Tolerant Query.Spares where
  pure _ := fun store name _ => .refl name store
  throw _ := fun store name _ => .refl name store
  bind first second := fun store name =>
    (Query.SparesAt.closed name).bind (first.at name) (fun value => (second value).at name) store
  attempt spares := spares

/-- How far an object has come, by what its first successful run has recorded. -/
def Progress.ofKept : Option Recording → Progress
  | none => .fresh
  | some recording => .done recording

namespace Definition

variable {known : Table Definition} {name : String} {d : Definition} {recipe : Recipe}
  {store : Store}

/-- Starts the builder of an object that has not been built. -/
def launch (known : Table Definition) (bound : Nat) (d : Definition) (recipe : Recipe) :
    Query Recording :=
  fun store => d.run recipe known (requestBy known (recordWithin known bound))
    (store.setProgress d.name .building)

theorem launch_sound (succeeds : (d.launch known bound recipe store).1 = .ok recording) :
    recording.Sound := by
  rcases launched : d.launch known bound recipe store with ⟨outcome, during⟩
  rw [launched] at succeeds
  subst succeeds
  exact run_sound launched

theorem recordWithin_of_launch (fresh : store.progressOf d.name = .fresh)
    (launched : d.launch known bound recipe store = (outcome, during)) :
    d.recordWithin known (bound + 1) recipe store =
      (outcome, during.setProgress d.name (.ofKept outcome.toOption)) := by
  unfold launch at launched
  rw [recordWithin_fresh fresh, launched]
  cases outcome <;> rfl

theorem launch_spares (recipe : Recipe)
    (spares : ∀ d recipe, Query.Spares (recordWithin known bound d recipe))
    (present : (store.mark d.name).progressOf name ≠ .fresh) :
    (store.mark d.name).SameAt name (d.launch known bound recipe store).2 := by
  have requests : ∀ other, Query.Spares (requestBy known (recordWithin known bound) other) :=
    fun other => Query.Spares.closed.requestBy other fun d recipe _ _ => spares d recipe
  exact Query.Spares.closed.performAll requests .empty _ _ name present

theorem recordWithin_spares (known : Table Definition) (bound : Nat) (d : Definition)
    (recipe : Recipe) : Query.Spares (d.recordWithin known bound recipe) := by
  induction bound generalizing d recipe with
  | zero =>
      intro store name present
      unfold recordWithin
      split <;> exact .refl name store
  | succ bound ih =>
      intro store name present
      cases progress : store.progressOf d.name with
      | done recording =>
          simp only [recordWithin, progress]
          exact .refl name store
      | building =>
          simp only [recordWithin, progress]
          exact .refl name store
      | fresh =>
          have different : name ≠ d.name := by
            rintro rfl
            exact present progress
          -- The marks around the run are those of this object, and the run spares the others.
          have marked := store.mark_sameAt different
          have same := launch_spares recipe ih (marked.progress ▸ present)
          rcases launched : d.launch known bound recipe store with ⟨outcome, during⟩
          rw [launched] at same
          rw [recordWithin_of_launch progress launched]
          exact (marked.trans same).trans (during.setProgress_sameAt _ different)

/-- An object that has not been built is built by one run, whatever the run asks for. -/
theorem recordWithin_starts (fresh : store.progressOf d.name = .fresh) :
    ∃ later, d.recordWithin known (bound + 1) recipe store =
        ((d.launch known bound recipe store).1, later) ∧
      later.progressOf d.name = .ofKept (d.launch known bound recipe store).1.toOption ∧
      later.runCount d.name = store.runCount d.name + 1 := by
  have building : (store.mark d.name).progressOf d.name ≠ .fresh := by
    simp [store.mark_building]
  -- While it runs, the object counts as being built, so nothing starts it a second time.
  have same := launch_spares recipe (recordWithin_spares known bound) building
  have counted : (store.mark d.name).runCount d.name = store.runCount d.name + 1 :=
    List.count_cons_self
  rcases launched : d.launch known bound recipe store with ⟨outcome, during⟩
  rw [launched] at same
  exact ⟨_, recordWithin_of_launch fresh launched, by simp, same.runs.trans counted⟩

end Definition

/-- What can be asked of an object and needs its body. -/
inductive ObjectRequest where
  | evaluate
  | body
  | dependencies
  | statements

namespace ObjectRequest

def of (name : String) : ObjectRequest → Request
  | .evaluate => .evaluate name
  | .body => .body name
  | .dependencies => .dependencies name
  | .statements => .statements name

/-- How a request is made, directly or by another builder. The bound is that on the requests
nested in it. -/
def ask (known : Table Definition) (bound : Nat) (d : Definition) (recipe : Recipe) :
    (request : ObjectRequest) → Query (request.of d.name).Answer
  | .evaluate => discard (d.recordWithin known bound recipe)
  | .body => d.bodyTextBy (d.recordWithin known bound)
  | .dependencies => d.dependenciesBy (d.recordWithin known bound)
  | .statements => do return (← d.recordWithin known bound recipe).statements

/-- What a recording says about its object. -/
def answer (d : Definition) (recording : Recording) :
    (request : ObjectRequest) → Except Error (request.of d.name).Answer
  | .evaluate => .ok ()
  | .body => recording.body
  | .dependencies => .ok (recording.used.union d.declared)
  | .statements => .ok recording.statements

variable {known : Table Definition} {d : Definition} {recipe : Recipe} {store : Store}

theorem ask_eq (object : d.body = .recipe recipe) (request : ObjectRequest) :
    request.ask known bound d recipe = (do
      let recording ← d.recordWithin known bound recipe
      liftExcept (request.answer d recording)) := by
  cases request with
  | evaluate => rfl
  | body =>
      simp only [ask, Definition.bodyTextBy, object]
      rfl
  | dependencies =>
      simp only [ask, Definition.dependenciesBy, object]
      rfl
  | statements => rfl

end ObjectRequest

namespace Session

variable {session : Session} {d : Definition} {recipe : Recipe}

theorem answer_of (found : session.registry.lookup d.name = .ok d)
    (object : d.body = .recipe recipe) (request : ObjectRequest) :
    session.answer (request.of d.name) =
      request.ask session.known (session.known.size + 1) d recipe := by
  have recorded : session.recording d.name = d.record session.known recipe :=
    recording_eq found (by rw [Definition.recipe?, object])
  cases request with
  | evaluate => exact congrArg (discard ·) recorded
  | body =>
      simp only [ObjectRequest.of, Session.answer, Session.bodyText, Session.lookup, found]
      rfl
  | dependencies => exact Registry.needs_eq found
  | statements => exact congrArg (Recording.statements <$> ·) recorded

theorem isEvaluated_eq (found : session.registry.lookup name = .ok d)
    (progress : session.store.progressOf d.name = .ofKept kept) :
    session.isEvaluated name = .ok kept.isSome := by
  unfold Session.isEvaluated
  rw [found]
  cases kept <;> simp [progress, Progress.ofKept, bind, Except.bind, pure, Except.pure]

end Session

/-- The stores met while an object is asked for its body, and what the first successful run
of its builder has recorded by then. Between requests anything may happen to others. -/
inductive Asked (d : Definition) (recipe : Recipe) (start : Store) :
    Option Recording → Store → Prop
  | start : Asked d recipe start none start
  | elsewhere (asked : Asked d recipe start kept store) (same : store.SameAt d.name later) :
      Asked d recipe start kept later
  | request (asked : Asked d recipe start kept store) (known : Table Definition)
      (bound : Nat) (request : ObjectRequest) :
      Asked d recipe start (kept.or (d.launch known bound recipe store).1.toOption)
        (request.ask known (bound + 1) d recipe store).2

namespace ObjectRequest

variable {known : Table Definition} {d : Definition} {recipe : Recipe} {store : Store}

theorem ask_fresh (object : d.body = .recipe recipe) (fresh : store.progressOf d.name = .fresh)
    (request : ObjectRequest) :
    ∃ later, request.ask known (bound + 1) d recipe store =
        ((d.launch known bound recipe store).1 >>= fun recording => request.answer d recording,
          later) ∧
      later.progressOf d.name = .ofKept (d.launch known bound recipe store).1.toOption ∧
      later.runCount d.name = store.runCount d.name + 1 := by
  obtain ⟨later, recorded, progress, counted⟩ := Definition.recordWithin_starts fresh
  refine ⟨later, ?_, progress, counted⟩
  rw [ask_eq object, Query.bind_apply, recorded]
  cases (d.launch known bound recipe store).1 with
  | error error => rfl
  | ok recording => exact Query.lift_apply _ later

theorem ask_done (object : d.body = .recipe recipe)
    (done : store.progressOf d.name = .done recording) (request : ObjectRequest) :
    request.ask known bound d recipe store = (request.answer d recording, store) := by
  rw [ask_eq object, Query.bind_of_ok (Definition.recordWithin_of_done done), Query.lift_apply]

end ObjectRequest

namespace Asked

variable {d : Definition} {recipe : Recipe} {start store : Store} {kept : Option Recording}

theorem progress (asked : Asked d recipe start kept store) (object : d.body = .recipe recipe)
    (fresh : start.progressOf d.name = .fresh) : store.progressOf d.name = .ofKept kept := by
  induction asked with
  | start => exact fresh
  | elsewhere asked same ih => exact same.progress.trans ih
  | @request kept store asked known bound request ih =>
      -- The first success is what is kept; later requests find it recorded.
      cases kept with
      | none =>
          obtain ⟨later, answer, progress, _⟩ := request.ask_fresh object ih
          rw [answer, Option.none_or]
          exact progress
      | some recording =>
          rw [request.ask_done object ih]
          exact ih

theorem sound (asked : Asked d recipe start kept store) (recorded : kept = some recording) :
    recording.Sound := by
  induction asked with
  | start => cases recorded
  | elsewhere asked same ih => exact ih recorded
  | @request kept store asked known bound request ih =>
      cases kept with
      | some old => exact ih recorded
      | none =>
          rw [Option.none_or] at recorded
          cases outcome : (d.launch known bound recipe store).1 with
          | error error =>
              rw [outcome] at recorded
              cases recorded
          | ok result =>
              rw [outcome] at recorded
              cases recorded
              exact Definition.launch_sound outcome

end Asked

/-- Before the builder of an object has succeeded, each request starts it once; if it fails,
so does the request, and the object is as it was. From its first success on, no request
starts it, and all are answered by what it has recorded then. -/
theorem Definition.builds_once {start store : Store} (object : d.body = .recipe recipe)
    (fresh : start.progressOf d.name = .fresh) (asked : Asked d recipe start kept store) :
    (kept = none → store.progressOf d.name = .fresh ∧
      ∀ known bound (request : ObjectRequest),
        ∃ outcome later, request.ask known (bound + 1) d recipe store = (outcome, later) ∧
          later.runCount d.name = store.runCount d.name + 1 ∧
          match (d.launch known bound recipe store).1 with
          | .error error => outcome = .error error ∧ later.progressOf d.name = .fresh
          | .ok recording => outcome = request.answer d recording ∧
              later.progressOf d.name = .done recording) ∧
    (∀ recording, kept = some recording → store.progressOf d.name = .done recording ∧
      (∀ name, name ∈ recording.used ↔
        ∃ statement ∈ recording.statements, name ∈ statement.value.usage) ∧
      ∀ known bound (request : ObjectRequest),
        request.ask known bound d recipe store = (request.answer d recording, store)) ∧
    ∀ session : Session, session.store = store → session.registry.lookup d.name = .ok d →
      session.isEvaluated d.name = .ok kept.isSome ∧
      ∀ request : ObjectRequest, session.answer (request.of d.name) =
        request.ask session.known (session.known.size + 1) d recipe := by
  have progress := asked.progress object fresh
  refine ⟨?_, ?_, ?_⟩
  · rintro rfl
    refine ⟨progress, fun known bound request => ?_⟩
    obtain ⟨later, answer, reached, counted⟩ := request.ask_fresh object progress
    refine ⟨_, later, answer, counted, ?_⟩
    cases outcome : (d.launch known bound recipe store).1 with
    | error error =>
        rw [outcome] at reached
        exact ⟨rfl, reached⟩
    | ok recording =>
        rw [outcome] at reached
        exact ⟨rfl, reached⟩
  · rintro recording rfl
    exact ⟨progress, asked.sound rfl, fun known bound request => request.ask_done object progress⟩
  · rintro session rfl found
    exact ⟨session.isEvaluated_eq found progress, session.answer_of found object⟩

/-- A script that gives up half-way in its first run. -/
def reluctantScript : Script :=
  [⟨.accumulate "Union" [.call (.apply (.named "Plane") [] [])], none⟩, ⟨.fail "Nope", some 1⟩]

def reluctant : Definition :=
  { Gallery.object "Reluctant" [] with body := .recipe reluctantScript.recipe }

def reluctantSession : Session :=
  (Session.empty.install
    [Shapes.combinator "Union" [] ["return min(d1, d2);"],
      Shapes.primitive "Plane" [] ["return p.y;"], reluctant]).2

theorem reluctant_builds_once :
    let failed := reluctantSession.serve (.evaluate "Reluctant")
    let built := failed.2.serve (.body "Reluctant")
    failed.1 = .error (.unknownName "Nope") ∧
      failed.2.isEvaluated "Reluctant" = .ok false ∧ failed.2.runs "Reluctant" = 1 ∧
      built.1 = .ok "res = Union(res, Plane(p));\nreturn res;" ∧
      built.2.isEvaluated "Reluctant" = .ok true ∧ built.2.runs "Reluctant" = 2 ∧
      ∀ request : ObjectRequest,
        (built.2.serve (request.of "Reluctant")).2.store = built.2.store := by
  intro failed built
  have object : reluctant.body = .recipe reluctantScript.recipe := rfl
  have fresh : reluctantSession.store.progressOf reluctant.name = .fresh := rfl
  have waiting : Asked reluctant reluctantScript.recipe reluctantSession.store none
      failed.2.store :=
    Asked.start.request reluctantSession.known reluctantSession.known.size .evaluate
  have ⟨recording, done⟩ : ∃ recording, Asked reluctant reluctantScript.recipe
      reluctantSession.store (some recording) built.2.store :=
    ⟨_, waiting.request reluctantSession.known reluctantSession.known.size .body⟩
  obtain ⟨_, _, before⟩ := Definition.builds_once object fresh waiting
  obtain ⟨_, kept, after⟩ := Definition.builds_once object fresh done
  obtain ⟨evaluated, answers⟩ := after built.2 rfl rfl
  refine ⟨by decide +kernel, (before failed.2 rfl rfl).1, by decide +kernel, by decide +kernel,
    evaluated, by decide +kernel, fun request => ?_⟩
  have same := (kept recording rfl).2.2 built.2.known (built.2.known.size + 1) request
  rw [← answers request] at same
  exact congrArg Prod.snd same

end DistanceField
