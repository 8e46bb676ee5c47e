import DistanceField.Definition
import DistanceField.Table

/-! The definitions that a scene can use. -/

namespace DistanceField

structure Registry where
  definitions : Table Definition
  isSealed : Bool

namespace Registry

def empty : Registry := ⟨∅, false⟩

instance : Inhabited Registry := ⟨empty⟩

def contains (registry : Registry) (name : String) : Bool :=
  registry.definitions.contains name

/-- Adds a definition, if the registry is open, the name free and the definition
sound. -/
def register (registry : Registry) (d : Definition) : Except Error Registry := do
  if registry.isSealed then .error (.registrySealed d.name)
  else if registry.contains d.name then .error (.duplicateName d.name)
  else do
    d.check
    return { registry with definitions := registry.definitions.set d.name d }

def close (registry : Registry) : Registry :=
  { registry with isSealed := true }

def lookup (registry : Registry) (name : String) : Except Error Definition :=
  match registry.definitions.get? name with
  | some d => .ok d
  | none => .error (.unknownName name)

/-- The registered names in ascending order. -/
def names (registry : Registry) : NameSet :=
  .ofList registry.definitions.keys

end Registry

end DistanceField
