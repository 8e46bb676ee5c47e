import DistanceField.Registry

/-! What is remembered of the objects between one request and the next. -/

namespace DistanceField

/-- How far the body of an object has come. -/
inductive Progress where
  | fresh
  | building
  | done (recording : Recording)

structure Store where
  progress : Table Progress
  /-- The names of the objects whose builders have been started, the latest first. -/
  runs : List String

namespace Store

def empty : Store := ⟨∅, []⟩

instance : Inhabited Store := ⟨empty⟩

def progressOf (store : Store) (name : String) : Progress :=
  (store.progress.get? name).getD .fresh

def setProgress (store : Store) (name : String) (progress : Progress) : Store :=
  { store with progress := store.progress.set name progress }

def addRun (store : Store) (name : String) : Store :=
  { store with runs := name :: store.runs }

def runCount (store : Store) (name : String) : Nat :=
  store.runs.count name

end Store

/-- A request that may start builders. What it changes in the store remains when it
fails. -/
abbrev Query := ExceptT Error (StateM Store)

/-- The outcome of a request, whether it fails or not. -/
def Query.attempt (query : Query α) : Query (Except Error α) :=
  fun store => match query store with | (outcome, store) => (.ok outcome, store)

end DistanceField
