import DistanceField.Config.Basic
import DistanceField.Order
import DistanceField.Program.Template

/-! Complete programs for a scene. -/

namespace DistanceField

/-- The macro that evaluates the scene, and the distance that it starts from. -/
def rootMacroName : String := "DE"

def farAway : Single := 1e20

namespace Registry

def rootMacro (registry : Registry) (root : String) : Except Error String := do
  let d ← registry.lookup root
  if d.category ≠ .object then .error (.notAnObject d.name)
  else if d.params ≠ [] then .error (.incomplete d.name .rootParameters)
  else return "#define " ++ rootMacroName ++ "(p) " ++ d.name ++ "(p, " ++ farAway.text ++ ")\n"

def renderAll (registry : Registry) (known : Table Definition) :
    List String → Query (List String)
  | [] => pure []
  | name :: rest => do
      let d ← liftExcept (registry.lookup name)
      let text ← d.render known
      return text :: (← registry.renderAll known rest)

/-- The definitions that a root needs, each after those it depends on. -/
def functions (registry : Registry) (known : Table Definition) (root : String) :
    Query String := do
  let order ← registry.orderFrom known root
  return "\n\n".intercalate (← registry.renderAll known order)

def emit (registry : Registry) (known : Table Definition) (root : String) (config : Config)
    (template : Template) : Query String := do
  let macros ← liftExcept config.macros
  let rootMacro ← liftExcept (registry.rootMacro root)
  let functions ← registry.functions known root
  return template.render (macros ++ rootMacro) functions

end Registry

end DistanceField
