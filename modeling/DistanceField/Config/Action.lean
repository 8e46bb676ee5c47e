import DistanceField.Config.Json

/-! Changes and questions to a configuration, as a list of actions. -/

namespace DistanceField

/-- A value, or a text that is still to be read as one. -/
inductive ValueSource where
  | given (value : ConfigValue)
  | written (text : String)

def ValueSource.value : ValueSource → Except Error ConfigValue
  | .given value => .ok value
  | .written text => ConfigValue.parse text

inductive ConfigAction where
  | set (key : String) (source : ValueSource)
  | merge (json : String)
  | replace (json : String)
  /-- Replaces the configuration by the content of a file, if the file exists. -/
  | replaceByFile (content : Option String)
  | get (key : String)
  | macros
  | entries

def ConfigAction.perform (config : Config) : ConfigAction → Except Error Config
  | .set key source => do return config.set key (← source.value)
  | .merge json => Config.changed (config.mergeJson json)
  | .replace json => Config.ofJson json
  | .replaceByFile none => .error .fileAccess
  | .replaceByFile (some json) => Config.ofJson json
  | .get _ => .ok config
  | .macros => config.macros.map fun _ => config
  | .entries => .ok config

/-- The configuration after all actions, up to the first failure. -/
def Config.performAll (config : Config) (actions : List ConfigAction) : Except Error Config :=
  actions.foldlM ConfigAction.perform config

end DistanceField
