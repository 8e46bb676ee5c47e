import DistanceField.Command.Arguments
import DistanceField.Session

/-! What the commands do, as a function of the files they find. -/

namespace DistanceField.Command

/-- The files within reach. -/
structure Disk where
  read? : String → Option String
  writable : String → Bool
  /-- The path of the user's own configuration and its content, if it exists. -/
  userConfig : Option (String × Option String)

/-- Why a command failed, and what was behind it. -/
structure Failure where
  message : String
  causes : List String
  deriving DecidableEq, Repr

/-- What a successful command prints, and the file it writes. -/
structure Output where
  text : String
  file : Option (String × String)
  deriving DecidableEq, Repr

def Failure.ofMessage (message : String) : Failure :=
  ⟨message, []⟩

def explain (message : String) : Except Error α → Except Failure α
  | .ok value => .ok value
  | .error error => .error ⟨message, [error.message]⟩

def mergeFile (read : Config.ObjectReader) (config : Config) (path : String) :
    Option String → Except Failure Config
  | none => .error (.ofMessage ("Failed to read config file " ++ path))
  | some content =>
      explain ("Failed to parse config file " ++ path)
        (Config.changed (config.mergeBy read content))

/-- The key and the text of the value, before and after the first equals sign. -/
def splitAssignment? (text : String) : Option (String × String) :=
  (Text.splitFirst? '=' text.toList).map fun (key, value) =>
    (String.ofList (Text.trim key), String.ofList value)

def applyAssignment (config : Config) (text : String) : Except Failure Config :=
  match splitAssignment? text with
  | none => .error (.ofMessage s!"Expected KEY=VALUE, got `{text}`")
  | some (key, value) => do
      let value ← explain s!"Invalid value for `{key}`" (ConfigValue.parse value)
      return config.set key value

def mergeUserConfig (read : Config.ObjectReader) (disk : Disk) (config : Config) :
    Except Failure Config :=
  match disk.userConfig with
  | none => .ok config
  | some (path, content) => mergeFile read config path content

def mergeConfigFile (read : Config.ObjectReader) (disk : Disk) (file : Option String)
    (config : Config) : Except Failure Config :=
  match file with
  | none => .ok config
  | some path => mergeFile read config path (disk.read? path)

/-- The standard configuration, changed by the user's file, by the file of the command
and by its assignments, in this order. -/
def loadConfig (read : Config.ObjectReader) (disk : Disk) (settings : Settings) :
    Except Failure Config := do
  let config ← mergeUserConfig read disk .standard
  let config ← mergeConfigFile read disk settings.configFile config
  settings.assignments.foldlM applyAssignment config

/-- A line with the name of a scene, filled up to twelve columns, and what it shows. -/
def sceneLine (scene : Scene) : String :=
  scene.name ++ String.ofList (List.replicate (12 - scene.name.length) ' ') ++ " " ++
    scene.description ++ "\n"

def findScene (name : String) : Except Failure Scene :=
  match Gallery.find? name with
  | some scene => .ok scene
  | none => .error (.ofMessage s!"Unknown scene `{name}` (run `marcher scenes` for the list)")

def loadTemplate (disk : Disk) : Option String → Except Failure Template
  | none => .ok .base
  | some path =>
      explain ("Failed to load template " ++ path) <|
        match disk.read? path with
        | none => .error .fileAccess
        | some text => Template.parse text

def sceneProgram (scene : Scene) (config : Config) (template : Template) :
    Except Error String := do
  let (outcome, session) := Session.empty.install (Shapes.stock ++ scene.definitions)
  outcome
  (session.close.ask (session.close.emit scene.root.name config template)).1

def deliver (disk : Disk) (program : String) : Option String → Except Failure Output
  | none => .ok ⟨program, none⟩
  | some path =>
      if disk.writable path then .ok ⟨"", some (path, program)⟩
      else .error (.ofMessage ("Failed to write " ++ path))

def versionText : String := "marcher 0.3.0\n"

def run (disk : Disk) : Request → Except Failure Output
  | .version => .ok ⟨versionText, none⟩
  | .scenes => .ok ⟨String.join (Gallery.scenes.map sceneLine), none⟩
  | .config settings => do
      let config ← loadConfig Json.object? disk settings
      match config.macros with
      | .ok text => return ⟨text, none⟩
      | .error error => .error (.ofMessage error.message)
  | .compile name output template settings => do
      let config ← loadConfig Json.object? disk settings
      let scene ← findScene name
      let template ← loadTemplate disk template
      let program ← explain s!"Failed to compile scene `{name}`"
        (sceneProgram scene config template)
      deliver disk program output

end DistanceField.Command
