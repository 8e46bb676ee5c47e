import DistanceField.Evaluation

/-! The order of definitions: every definition comes after those it depends on. -/

namespace DistanceField

structure Walk where
  visited : List String
  /-- The names being visited, the outermost first. -/
  path : List String
  order : List String

namespace Walk

def empty : Walk := ⟨[], [], []⟩

def enter (walk : Walk) (name : String) : Walk :=
  { walk with visited := name :: walk.visited, path := walk.path ++ [name] }

def leave (walk : Walk) (name : String) : Walk :=
  { walk with path := walk.path.dropLast, order := walk.order ++ [name] }

end Walk

section

variable {m : Type → Type} [Monad m] [MonadExceptOf Error m]

/-- Follows the dependencies one by one; one that is being visited closes a cycle. -/
def visitAll (visit : String → Walk → m Walk) : List String → Walk → m Walk
  | [], walk => pure walk
  | name :: rest, walk =>
      if name ∈ walk.path then
        throw (.cycle (walk.path.dropWhile (· != name) ++ [name]))
      else if name ∈ walk.visited then visitAll visit rest walk
      else do
        let walk ← visit name walk
        visitAll visit rest walk

/-- Visits a name after everything it needs. The bound on the depth of the walk is
never met when it exceeds the number of names whose needs are known, since the names on
the path are distinct. -/
def visitWithin (needs : String → m NameSet) : Nat → String → Walk → m Walk
  | 0, name, _ => throw (.unknownName name)
  | bound + 1, name, walk => do
      let names ← needs name
      let walk ← visitAll (visitWithin needs bound) names.names (walk.enter name)
      return walk.leave name

end

namespace Registry

def needs (registry : Registry) (known : Table Definition) (name : String) :
    Query NameSet := do
  let d ← liftExcept (registry.lookup name)
  d.dependencies known

/-- The names that a root needs, each after those it depends on. -/
def orderFrom (registry : Registry) (known : Table Definition) (root : String) :
    Query (List String) := do
  let walk ← visitWithin (registry.needs known) (registry.definitions.size + 1) root .empty
  return walk.order

end Registry

end DistanceField
