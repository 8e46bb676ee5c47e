import DistanceField.Store

/-! Running builders. The body of an object is built when it is first needed and kept
from then on. A builder that asks for the body it is itself building is refused. -/

namespace DistanceField

/-- One action of a builder; `request` answers its requests for other bodies. -/
def BuildStep.perform (request : String → Query Unit) (recording : Recording) :
    BuildStep → Query (Except Error Unit × Recording)
  | .requestBody name => do return (← (request name).attempt, recording)
  | .tryBody name => do
      let _ ← (request name).attempt
      return (.ok (), recording)
  | step => pure (step.record recording)

/-- The actions of a builder up to the first one that fails. -/
def performAll (request : String → Query Unit) (recording : Recording) :
    List BuildStep → Query Recording
  | [] => pure recording
  | step :: rest => do
      let (outcome, recording) ← step.perform request recording
      liftExcept outcome
      performAll request recording rest

/-- What the builder of an object finds when it is started. -/
def Definition.surroundings (d : Definition) (known : Table Definition) (store : Store) :
    Surroundings :=
  { run := store.runCount d.name + 1
    placeholders := d.placeholders
    handle? := fun name => (known.get? name).map Definition.handle }

/-- Starts the builder of an object. -/
def Definition.run (d : Definition) (recipe : Recipe) (known : Table Definition)
    (request : String → Query Unit) : Query Recording :=
  fun store =>
    performAll request .empty (recipe.steps (d.surroundings known store))
      (store.addRun d.name)

/-- Answers a request for a body by a way to record the bodies of objects. -/
def requestBy (known : Table Definition)
    (record : Definition → Recipe → Query Recording) (name : String) : Query Unit :=
  match known.get? name with
  | none => throw (.unknownName name)
  | some d =>
      match d.body with
      | .template _ => pure ()
      | .recipe recipe => do
          let recording ← record d recipe
          discard (liftExcept recording.body)

/-- The recorded body of an object, built now unless it has been built before. The
bound on nested requests is never met when it is at least the number of definitions,
since every object on the way is being built. -/
def Definition.recordWithin (known : Table Definition) (bound : Nat) (d : Definition)
    (recipe : Recipe) : Query Recording :=
  fun store =>
    match store.progressOf d.name with
    | .done recording => (.ok recording, store)
    | .building => (.error (.cycle [d.name, d.name]), store)
    | .fresh =>
        match bound with
        | 0 => (.error (.cycle [d.name, d.name]), store)
        | bound + 1 =>
            match d.run recipe known (requestBy known (recordWithin known bound))
                (store.setProgress d.name .building) with
            | (.ok recording, store) =>
                (.ok recording, store.setProgress d.name (.done recording))
            | (.error error, store) => (.error error, store.setProgress d.name .fresh)

def Definition.record (known : Table Definition) (d : Definition) (recipe : Recipe) :
    Query Recording :=
  d.recordWithin known (known.size + 1) recipe

namespace Definition

/-- The names that must be defined before a definition. -/
def dependenciesBy (d : Definition) (record : Recipe → Query Recording) : Query NameSet :=
  match d.body with
  | .template _ => pure d.declared
  | .recipe recipe => do
      let recording ← record recipe
      return recording.used.union d.declared

def bodyTextBy (d : Definition) (record : Recipe → Query Recording) : Query String :=
  match d.body with
  | .template text => pure (String.ofList (Text.dedent text.toList))
  | .recipe recipe => do
      let recording ← record recipe
      liftExcept recording.body

/-- The emitted definition. -/
def renderBy (d : Definition) (record : Recipe → Query Recording) : Query String :=
  match d.returnType with
  | none => throw (.missingReturnType d.name)
  | some type => do
      let body ← d.bodyTextBy record
      return d.layout type body

def dependencies (d : Definition) (known : Table Definition) : Query NameSet :=
  d.dependenciesBy (record known d)

def bodyText (d : Definition) (known : Table Definition) : Query String :=
  d.bodyTextBy (record known d)

def render (d : Definition) (known : Table Definition) : Query String :=
  d.renderBy (record known d)

end Definition

/-- Builds the objects of the given names that have not been built, up to the first
failure. -/
def Registry.evaluateAll (registry : Registry) (known : Table Definition) :
    List String → Query Unit
  | [] => pure ()
  | name :: rest => do
      let d ← liftExcept (registry.lookup name)
      match d.recipe? with
      | none => pure ()
      | some recipe => discard (d.record known recipe)
      registry.evaluateAll known rest

def Registry.evaluateObjects (registry : Registry) (known : Table Definition) : Query Unit :=
  registry.evaluateAll known registry.names.names

end DistanceField
