import DistanceField.Signature

/-! The ways in which registration, emission and configuration can fail. -/

namespace DistanceField

/-- Why a call cannot be written out yet. -/
inductive PartialReason where
  | noPoint
  | rootParameters
  deriving DecidableEq, Repr

def PartialReason.text : PartialReason → String
  | .noPoint => "has no point to evaluate at"
  | .rootParameters => "has parameters that the scene root cannot supply"

/-- Why a definition cannot have the body it was given. -/
inductive BodyFault where
  | builderOutsideObject
  | templateInObject
  | blank
  | unbalanced
  deriving DecidableEq, Repr

def BodyFault.text : BodyFault → String
  | .builderOutsideObject => "only objects can have a builder"
  | .templateInObject => "objects take their body from a builder"
  | .blank => "body is empty"
  | .unbalanced => "unbalanced braces"

/-- Why a text cannot serve as a program template. -/
inductive TemplateFault where
  | missing (marker : String)
  | repeated (marker : String) (count : Nat)
  deriving DecidableEq, Repr

def TemplateFault.text : TemplateFault → String
  | .missing marker => s!"missing marker `{marker}`"
  | .repeated marker count => s!"marker `{marker}` appears {count} times"

/-- Why a configuration entry is unusable. -/
inductive ConfigFault where
  | emptyValue
  | macroName (key : String)
  deriving DecidableEq, Repr

def ConfigFault.text : ConfigFault → String
  | .emptyValue => "empty value"
  | .macroName key => s!"`{key}` is not a valid macro name"

inductive Error where
  /-- A definition of this name is registered already. -/
  | duplicateName (name : String)
  /-- Neither the definition nor its category gives a returned type. -/
  | missingReturnType (name : String)
  | unknownName (name : String)
  /-- Definitions that need each other; the first name is repeated at the end. -/
  | cycle (names : List String)
  /-- A call that still lacks something it must have before it is written. -/
  | incomplete (name : String) (reason : PartialReason)
  | invalidName (name : String)
  | duplicateParam (name param : String)
  | invalidBody (name : String) (fault : BodyFault)
  | wrongCategory (name : String) (expected found : Category)
  /-- Only an object can be the root of a scene. -/
  | notAnObject (name : String)
  | registrySealed (name : String)
  | template (fault : TemplateFault)
  | config (fault : ConfigFault)
  /-- A file could not be read or written. -/
  | fileAccess
  /-- A text is no JSON object of configuration values. -/
  | malformedJson
  deriving DecidableEq, Repr

def Error.message : Error → String
  | .duplicateName name => s!"Name `{name}` has already been used"
  | .missingReturnType name => s!"`{name}` has no return type specified and no default type"
  | .unknownName name => s!"Unknown function `{name}`"
  | .cycle names =>
      "Recursive or mutually recursive definitions are unsupported: " ++
        " -> ".intercalate names
  | .incomplete name reason => s!"Compiling a partial: `{name}` " ++ reason.text
  | .invalidName name => s!"Invalid identifier `{name}`"
  | .duplicateParam name param => s!"`{name}` declares parameter `{param}` more than once"
  | .invalidBody name fault => s!"Invalid body for `{name}`: " ++ fault.text
  | .wrongCategory name expected found =>
      s!"`{name}` is a " ++ found.text ++ ", expected a " ++ expected.text
  | .notAnObject name => s!"`{name}` is not an object and cannot be compiled as a scene root"
  | .registrySealed name => s!"Registry is sealed, cannot register `{name}`"
  | .template fault => "Invalid program template: " ++ fault.text
  | .config fault => "Invalid configuration: " ++ fault.text
  | .fileAccess => "IO error"
  | .malformedJson => "JSON error"

end DistanceField
