import DistanceField.Recipe
import DistanceField.Text.Braces
import DistanceField.Text.Identifier
import DistanceField.Text.Lines

/-! Definitions of shader functions. -/

namespace DistanceField

/-- Where the body of a definition comes from. -/
inductive Body where
  | template (text : String)
  | recipe (recipe : Recipe)

/-- A function of the shader, as it is handed to a registry. -/
structure Definition where
  name : String
  category : Category
  params : List Param
  returns : Option ShaderType
  body : Body
  /-- Functions that the definition says it calls. -/
  declared : NameSet

def checkIdentifier (name : String) : Except Error Unit :=
  if Text.isIdentifier name then .ok () else .error (.invalidName name)

/-- Every parameter is an identifier and differs from those seen before it. -/
def checkParams (owner : String) : List String → List Param → Except Error Unit
  | _, [] => .ok ()
  | seen, param :: rest => do
      checkIdentifier param.name
      if param.name ∈ seen then .error (.duplicateParam owner param.name)
      else checkParams owner (param.name :: seen) rest

namespace Definition

def handle (d : Definition) : Handle :=
  ⟨d.name, d.category⟩

/-- The parameters in the order of the emitted signature. An object takes the point
and the result before its own. -/
def signature (d : Definition) : List Param :=
  match d.category with
  | .object => ⟨pointName, .vec3⟩ :: ⟨resultName, .float⟩ :: d.params
  | _ => d.params

def returnType (d : Definition) : Option ShaderType :=
  d.returns <|> d.category.defaultReturn

def recipe? (d : Definition) : Option Recipe :=
  match d.body with
  | .template _ => none
  | .recipe recipe => some recipe

def placeholders (d : Definition) : List Expr :=
  d.params.map fun param => .var param.name

def checkReturn (d : Definition) : Except Error Unit :=
  match d.returnType with
  | none => .error (.missingReturnType d.name)
  | some _ => .ok ()

def checkBody (d : Definition) : Except Error Unit :=
  match d.body, d.category with
  | .recipe _, .object => .ok ()
  | .recipe _, _ => .error (.invalidBody d.name .builderOutsideObject)
  | .template _, .object => .error (.invalidBody d.name .templateInObject)
  | .template text, _ =>
      if Text.isBlankLine text.toList then .error (.invalidBody d.name .blank)
      else if Text.bracesBalanced text.toList then .ok ()
      else .error (.invalidBody d.name .unbalanced)

/-- The first reason why a definition cannot be registered. -/
def check (d : Definition) : Except Error Unit := do
  checkIdentifier d.name
  checkParams d.name [] d.signature
  d.declared.names.forM checkIdentifier
  d.checkReturn
  d.checkBody

/-- A line of the body, set in by four columns unless it is empty. -/
def bodyLine (line : List Char) : String :=
  if line.isEmpty then "\n" else "    " ++ String.ofList line ++ "\n"

/-- The emitted definition with a given returned type and body. -/
def layout (d : Definition) (type : ShaderType) (body : String) : String :=
  type.text ++ " " ++ d.name ++ "(" ++ ", ".intercalate (d.signature.map Param.text) ++
    ")\n\x7b\n" ++ String.join ((Text.lines body.toList).map bodyLine) ++ "\x7d"

end Definition

end DistanceField
