/-! Types, categories and parameters of shader functions. -/

namespace DistanceField

inductive ShaderType where
  | float
  | vec2
  | vec3
  deriving DecidableEq, Repr

def ShaderType.text : ShaderType → String
  | .float => "float"
  | .vec2 => "vec2"
  | .vec3 => "vec3"

/-- The part a function plays in a scene. -/
inductive Category where
  /-- A distance as a function of a point. -/
  | primitive
  /-- Several distances made into one. -/
  | combinator
  /-- A point moved to another point. -/
  | operator
  /-- A fragment of a scene, built from statements. -/
  | object
  /-- A helper of no particular kind. -/
  | function
  deriving DecidableEq, Repr

namespace Category

def text : Category → String
  | .primitive => "primitive"
  | .combinator => "combinator"
  | .operator => "operator"
  | .object => "object"
  | .function => "function"

/-- The returned type of a definition that declares none. -/
def defaultReturn : Category → Option ShaderType
  | .primitive | .combinator | .object => some .float
  | .operator => some .vec3
  | .function => none

end Category

structure Param where
  name : String
  type : ShaderType
  deriving DecidableEq, Repr

def Param.text (param : Param) : String :=
  param.type.text ++ " " ++ param.name

/-- What is needed to call a function: its name, and the part it plays. -/
structure Handle where
  name : String
  category : Category
  deriving DecidableEq, Repr

def pointName : String := "p"

def resultName : String := "res"

/-- The operator that moves a point, used for calls that are placed at a location. -/
def translateName : String := "Translate"

end DistanceField
