import DistanceField.Config.Json
import DistanceField.Gallery
import DistanceField.Program.Emit
import DistanceField.Script

/-! Sessions: a registry together with everything that was ever registered in it or in
its predecessors. -/

namespace DistanceField

structure Session where
  registry : Registry
  /-- The latest definition of every name, also from registries that were replaced. -/
  known : Table Definition
  store : Store

structure Description where
  definition : Definition
  dependencies : Except Error NameSet
  body : Except Error String
  text : Except Error String

namespace Session

def empty : Session := ⟨.empty, ∅, .empty⟩

/-- Registers a definition. Its body has not been built, whatever was known before. -/
def register (session : Session) (d : Definition) : Except Error Handle × Session :=
  match session.registry.register d with
  | .error error => (.error error, session)
  | .ok registry =>
      (.ok d.handle,
        { registry := registry
          known := session.known.set d.name d
          store := session.store.setProgress d.name .fresh })

/-- Registers definitions in turn. Those before one that is refused remain. -/
def install (session : Session) : List Definition → Except Error Unit × Session
  | [] => (.ok (), session)
  | d :: rest =>
      match session.register d with
      | (.ok _, session) => session.install rest
      | (.error error, session) => (.error error, session)

/-- Registers the stock of shapes; the answer is the number of names. -/
def installShapes (session : Session) : Except Error Nat × Session :=
  match session.install Shapes.stock with
  | (outcome, session) => (outcome.map fun _ => session.registry.definitions.size, session)

/-- Registers the objects of a scene; the answer is its root. -/
def installScene (session : Session) (scene : Scene) : Except Error Handle × Session :=
  match session.install scene.definitions with
  | (outcome, session) => (outcome.map fun _ => scene.root.handle, session)

/-- Starts over with an empty registry. What is known remains known. -/
def restart (session : Session) : Session :=
  { session with registry := .empty }

def close (session : Session) : Session :=
  { session with registry := session.registry.close }

/-- Answers a request and keeps what it has changed. -/
def ask (session : Session) (query : Query α) : Except Error α × Session :=
  match query session.store with
  | (outcome, store) => (outcome, { session with store := store })

def handle? (session : Session) (name : String) : Option Handle :=
  (session.known.get? name).map Definition.handle

def handle (session : Session) (name : String) : Except Error Handle :=
  (Callee.named name).resolve ⟨session.handle?, []⟩

def resolveDraft (session : Session) (draft : Draft) : Except Error Expr :=
  draft.resolve ⟨session.handle?, []⟩

def lookup (session : Session) (name : String) : Query Definition :=
  liftExcept (session.registry.lookup name)

def dependencies (session : Session) (name : String) : Query NameSet :=
  session.registry.needs session.known name

def bodyText (session : Session) (name : String) : Query String := do
  (← session.lookup name).bodyText session.known

def render (session : Session) (name : String) : Query String := do
  (← session.lookup name).render session.known

def evaluateObjects (session : Session) : Query Unit :=
  session.registry.evaluateObjects session.known

def recording (session : Session) (name : String) : Query Recording := do
  let d ← session.lookup name
  match d.recipe? with
  | none => throw (.notAnObject name)
  | some recipe => d.record session.known recipe

def isEvaluated (session : Session) (name : String) : Except Error Bool := do
  let d ← session.registry.lookup name
  match session.store.progressOf d.name with
  | .done _ => return true
  | _ => return false

def objectSummary (name : String) (evaluated : Bool) : String :=
  "ObjectDef \x7b name: \"" ++ name ++ "\", evaluated: " ++
    (if evaluated then "true" else "false") ++ ", .. \x7d"

/-- How often builders of the given name have been started. -/
def runs (session : Session) (name : String) : Nat :=
  session.store.runCount name

def order (session : Session) (root : String) : Query (List String) :=
  session.registry.orderFrom session.known root

def rootMacro (session : Session) (root : String) : Query String := do
  let handle ← liftExcept (session.handle root)
  liftExcept (session.registry.rootMacro handle.name)

def functions (session : Session) (root : String) : Query String := do
  let handle ← liftExcept (session.handle root)
  session.registry.functions session.known handle.name

def emit (session : Session) (root : String) (config : Config) (template : Template) :
    Query String := do
  let handle ← liftExcept (session.handle root)
  session.registry.emit session.known handle.name config template

/-- Compiles with the base template, for a file that may not be writable. -/
def compileToFile (session : Session) (root : String) (config : Config) (writable : Bool) :
    Query String := do
  let program ← session.emit root config .base
  if writable then return program else throw .fileAccess

/-- Asks in turn for what must precede a definition, for its body and for its text. -/
def describe (session : Session) (d : Definition) : Query Description := do
  let dependencies ← (d.dependencies session.known).attempt
  let body ← (d.bodyText session.known).attempt
  let text ← (d.render session.known).attempt
  return ⟨d, dependencies, body, text⟩

/-- The recorded body of an object that is not registered, built anew unless it was
built before. -/
def recordLoose (session : Session) (d : Definition) (recipe : Recipe)
    (before : Option Recording) : Query Recording :=
  match before with
  | some recording => pure recording
  | none =>
      d.run recipe session.known
        (requestBy session.known (Definition.recordWithin session.known (session.known.size + 1)))

/-- Keeps a recording for the questions that follow. -/
def attemptLoose (session : Session) (d : Definition) (before : Option Recording) :
    Query (Except Error Recording) :=
  match d.recipe? with
  | none => pure (.ok .empty)
  | some recipe => (session.recordLoose d recipe before).attempt

/-- Describes a definition without registering it. Its body is not kept for later. -/
def inspect (session : Session) (d : Definition) : Query Description := do
  let first ← session.attemptLoose d none
  let dependencies ← (d.dependenciesBy fun _ => liftExcept first).attempt
  let second ← session.attemptLoose d first.toOption
  let body ← (d.bodyTextBy fun _ => liftExcept second).attempt
  let third ← session.attemptLoose d second.toOption
  let text ← (d.renderBy fun _ => liftExcept third).attempt
  return ⟨d, dependencies, body, text⟩

/-- Performs the lines of a script one after the other, going on after failures. Each
answer is the recording after a line, or why the line failed. -/
def rehearse (session : Session) (recording : Recording) :
    Script → Query (List (Except Error Recording) × Recording)
  | [] => pure ([], recording)
  | line :: rest => do
      let step := line.action.toStep ⟨session.handle?, []⟩
      let request := requestBy session.known (Definition.record session.known)
      let result ← step.perform request recording
      let (outcomes, last) ← session.rehearse result.2 rest
      return (Recording.changed result :: outcomes, last)

end Session

end DistanceField
