import DistanceField.Config.Value
import DistanceField.Table
import DistanceField.Text.Identifier

/-! Configurations: the macros that are defined ahead of a program. -/

namespace DistanceField

/-- Macros in the order in which they were first set. -/
abbrev Config := Table ConfigValue

namespace Config

/-- The macros that the base template expects. -/
def standard : Config :=
  (Table.empty : Config).setAll
    [("MAX_STEPS", .int 100),
      ("MAX_DISTANCE", .float 100.0),
      ("MIN_DISTANCE", .float 0.001),
      ("ANTIALIAS", .int 1),
      ("BACKGROUND", .vector [0.5, 0.5, 0.5]),
      ("MATERIAL", .vector [0.8, 0.8, 0.8]),
      ("CAMERA_ORIGIN", .vector [1.0, 1.0, 1.0]),
      ("CAMERA_TARGET", .vector [0.0, 0.0, 0.0]),
      ("LIGHT_POS", .vector [1.0, 4.0, 1.0])]

def macroLine (key : String) (value : ConfigValue) : String :=
  "#define " ++ key ++ " " ++ value.text ++ "\n"

def checkedLine (entry : String × ConfigValue) : Except Error String :=
  if Text.isIdentifier entry.1 then .ok (macroLine entry.1 entry.2)
  else .error (.config (.macroName entry.1))

def macros (config : Config) : Except Error String :=
  (config.entries.mapM checkedLine).map String.join

end Config

end DistanceField
