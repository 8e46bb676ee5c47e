import DistanceField.Proofs.Rebuild
import DistanceField.Proofs.Session

/-! What was asked before makes no difference. If builders do the same in every run, each
request to a collection of definitions is answered as it would be if no body had been
built before, whatever has been asked since, with whatever success. -/

namespace DistanceField

/-- The request has one and the same outcome from all stores of a kind, and keeps to
them. -/
def Query.Steady (Holds : Store → Prop) (query : Query α) : Prop :=
  ∃ outcome, Query.Gives Holds query outcome

namespace Query.Steady

variable {Holds : Store → Prop} {query : Query α}

theorem closed (Holds : Store → Prop) : Query.Closed (Query.Steady Holds) where
  pure value := ⟨_, Query.pure_gives value⟩
  throw error := ⟨_, Query.throw_gives error⟩
  bind := by
    rintro α β query next ⟨outcome, first⟩ second
    cases outcome with
    | error error =>
        have failed : Query.Gives Holds (query >>= next)
            (.error error >>= fun _ => (.error error : Except Error β)) := first.bind nofun
        exact ⟨.error error, failed⟩
    | ok value =>
        obtain ⟨last, onwards⟩ := second value
        have whole : Query.Gives Holds (query >>= next) (.ok value >>= fun _ => last) := by
          refine first.bind ?_
          rintro _ ⟨⟩
          exact onwards
        exact ⟨last, whole⟩

theorem kept (steady : Query.Steady Holds query) (holds : Holds store) :
    Holds (query store).2 := by
  obtain ⟨outcome, gives⟩ := steady
  obtain ⟨later, answer, kept⟩ := gives store holds
  rwa [answer]

theorem same (steady : Query.Steady Holds query) (first : Holds a) (second : Holds b) :
    (query a).1 = (query b).1 := by
  obtain ⟨outcome, gives⟩ := steady
  obtain ⟨_, left, _⟩ := gives a first
  obtain ⟨_, right, _⟩ := gives b second
  rw [left, right]

end Query.Steady

/-- What can be asked of a collection of definitions. -/
inductive Request where
  | evaluate (name : String)
  | body (name : String)
  | dependencies (name : String)
  | statements (name : String)
  | evaluateObjects
  | order (root : String)
  | functions (root : String)
  | emit (root : String) (config : Config) (template : Template)

abbrev Request.Answer : Request → Type
  | .evaluate _ | .evaluateObjects => Unit
  | .body _ | .functions _ | .emit _ _ _ => String
  | .dependencies _ => NameSet
  | .statements _ => List Statement
  | .order _ => List String

namespace Session

def answer (session : Session) : (request : Request) → Query request.Answer
  | .evaluate name => discard (session.recording name)
  | .body name => session.bodyText name
  | .dependencies name => session.dependencies name
  | .statements name => do return (← session.recording name).statements
  | .evaluateObjects => session.evaluateObjects
  | .order root => session.order root
  | .functions root => session.functions root
  | .emit root config template => session.emit root config template

def serve (session : Session) (request : Request) : Except Error request.Answer × Session :=
  session.ask (session.answer request)

/-- The session after the given requests, whether they were met or not. -/
def after (session : Session) : List Request → Session
  | [] => session
  | request :: rest => (session.serve request).2.after rest

/-- A collection of definitions: no body has been built, and builders do the same in every
run. -/
structure Collection (session : Session) : Prop where
  reached : session.Reached
  fixed : FixedRecipes session.known
  untouched : ∀ name, session.store.progressOf name = .fresh

variable {session : Session}

namespace Collection

theorem empty : Session.empty.Collection where
  reached := .empty
  fixed := nofun
  untouched := fun _ => rfl

theorem register (collection : session.Collection)
    (fixed : ∀ recipe, d.body = .recipe recipe → recipe.Fixed) :
    (session.register d).2.Collection := by
  refine ⟨collection.reached.register d, ?_, ?_⟩
  · unfold Session.register
    split
    · exact collection.fixed
    · intro name other recipe found object
      rw [Table.get?_set] at found
      split at found
      · cases found
        exact fixed recipe object
      · exact collection.fixed name other recipe found object
  · intro name
    unfold Session.register
    split
    · exact collection.untouched name
    · rw [Store.progressOf_setProgress]
      split
      · rfl
      · exact collection.untouched name

theorem install (collection : session.Collection)
    (fixed : ∀ d ∈ definitions, ∀ recipe, d.body = .recipe recipe → recipe.Fixed) :
    (session.install definitions).2.Collection :=
  install_keeps (fun d member _ collection => collection.register (fixed d member)) collection

theorem consistent (collection : session.Collection) :
    session.store.Consistent session.known [] where
  building_iff := by simp [collection.untouched]
  rebuilds := by
    intro name recording done
    cases (collection.untouched name).symm.trans done

end Collection

theorem record_steady (sound : session.Sound) (fixed : FixedRecipes session.known)
    (found : session.registry.lookup name = .ok d) (object : d.body = .recipe recipe) :
    Query.Steady (Store.Consistent session.known []) (d.record session.known recipe) := by
  have known := sound.covered name d (Registry.lookup_ok found)
  exact ⟨_, Definition.recordWithin_gives sound.named fixed known object (.nil _)⟩

/-- What holds of the recordings of all registered objects holds of all requests. -/
theorem answer_holds {P : {α : Type} → Query α → Prop} (closed : Query.Closed P)
    (records : ∀ name d recipe, session.registry.lookup name = .ok d → d.body = .recipe recipe →
      P (d.record session.known recipe)) (request : Request) : P (session.answer request) := by
  have recorded (name : String) : P (session.recording name) := by
    refine closed.lift_bind fun d found => ?_
    cases body : d.body with
    | template text =>
        simp only [Definition.recipe?, body]
        exact closed.throw _
    | recipe recipe =>
        simp only [Definition.recipe?, body]
        exact records name d recipe found body
  cases request with
  | evaluate name => exact closed.bind (recorded name) fun _ => closed.pure ()
  | body name =>
      exact closed.lift_bind fun d found =>
        closed.bodyTextBy fun recipe => records name d recipe found
  | dependencies name => exact closed.needs records name
  | statements name => exact closed.bind (recorded name) fun _ => closed.pure _
  | evaluateObjects => exact closed.evaluateAll records _
  | order root => exact closed.orderFrom records root
  | functions root =>
      exact closed.bind (closed.lift _) fun handle => closed.functions records handle.name
  | emit root config template =>
      exact closed.bind (closed.lift _) fun handle =>
        closed.emit records handle.name config template

theorem answer_steady (sound : session.Sound) (fixed : FixedRecipes session.known)
    (request : Request) :
    Query.Steady (Store.Consistent session.known []) (session.answer request) :=
  answer_holds (Query.Steady.closed _) (fun _ _ _ => record_steady sound fixed) request

/-- Requests change nothing but the store, and leave it consistent. -/
theorem after_consistent (sound : session.Sound) (fixed : FixedRecipes session.known)
    {start : Store} (consistent : start.Consistent session.known []) (history : List Request) :
    ∃ later, { session with store := start }.after history = { session with store := later } ∧
      later.Consistent session.known [] := by
  induction history generalizing start with
  | nil => exact ⟨start, rfl, consistent⟩
  | cons request rest ih => exact ih ((answer_steady sound fixed request).kept consistent)

/-- Whatever has been asked before, each request is answered as if nothing had been. -/
theorem serve_after (collection : session.Collection) (history : List Request)
    (request : Request) :
    ((session.after history).serve request).1 = (session.serve request).1 := by
  have sound := collection.reached.sound
  have start := collection.consistent
  obtain ⟨later, arrived, consistent⟩ := after_consistent sound collection.fixed start history
  have same := (answer_steady sound collection.fixed request).same consistent start
  have whole : session.after history = { session with store := later } := arrived
  rw [whole]
  exact same

/-- A tower asks for the body of its base, and a loop for those of the tower and itself. -/
def towerAndLoop : Session :=
  let shape (name : String) (kind : ShapeKind) : BuildStep :=
    .accumulate ⟨"Union", .combinator⟩ [.call (.shape name kind [] none none)]
  (Session.empty.install
    [Shapes.combinator "Union" [] ["return min(d1, d2);"],
      Shapes.primitive "Plane" [] ["return p.y;"],
      Gallery.object "Base" [shape "Plane" .primitive],
      Gallery.object "Tower" [.requestBody "Base", shape "Base" .object],
      Gallery.object "Loop" [.requestBody "Tower", .requestBody "Loop"]]).2

theorem towerAndLoop_serve_after :
    towerAndLoop.Collection ∧
      (towerAndLoop.serve (.evaluate "Loop")).1 = .error (.cycle ["Loop", "Loop"]) ∧
      (towerAndLoop.after [.evaluate "Loop"]).isEvaluated "Tower" = .ok true ∧
      ((towerAndLoop.after [.evaluate "Loop"]).serve (.order "Tower")).1 =
        .ok ["Plane", "Union", "Base", "Tower"] ∧
      ((towerAndLoop.after [.evaluate "Loop"]).serve (.evaluate "Loop")).1 =
        .error (.cycle ["Loop", "Loop"]) := by
  have collection : towerAndLoop.Collection := by
    refine Collection.empty.install ?_
    simp only [List.forall_mem_cons]
    refine ⟨nofun, nofun, ?_, ?_, ?_, nofun⟩
    all_goals
      rintro recipe ⟨⟩
      exact fun _ _ => rfl
  have ordered : (towerAndLoop.serve (.order "Tower")).1 =
      .ok ["Plane", "Union", "Base", "Tower"] := by decide +kernel
  have refused : (towerAndLoop.serve (.evaluate "Loop")).1 =
      .error (.cycle ["Loop", "Loop"]) := by decide +kernel
  refine ⟨collection, refused, by decide +kernel, ?_, ?_⟩
  · rw [serve_after collection, ordered]
  · rw [serve_after collection, refused]

end Session

end DistanceField
