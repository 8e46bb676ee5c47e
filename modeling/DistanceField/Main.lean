import DistanceField.Command.Run

/-! The command line. -/

namespace DistanceField.Command

def readFile? (path : String) : IO (Option String) := do
  try
    return some (← IO.FS.readFile path)
  catch _ =>
    return none

/-- The path of the user's own configuration. -/
def userConfigPath? : IO (Option String) := do
  match ← IO.getEnv "XDG_CONFIG_HOME" with
  | some folder =>
      if folder.startsWith "/" then return some (folder ++ "/marcher/config.json")
  | none => pure ()
  return (← IO.getEnv "HOME").map (· ++ "/.config/marcher/config.json")

/-- The user's own configuration. A file that exists but cannot be read has no content. -/
def loadUserConfig : IO (Option (String × Option String)) := do
  match ← userConfigPath? with
  | none => return none
  | some path =>
      try
        return some (path, some (← IO.FS.readFile path))
      catch
        | .noFileOrDirectory .. => return none
        | _ => return some (path, none)

/-- The paths that a request reads from. -/
def inputPaths : Request → List String
  | .version | .scenes => []
  | .config settings => settings.configFile.toList
  | .compile _ _ template settings => settings.configFile.toList ++ template.toList

def loadDisk (request : Request) : IO Disk := do
  let mut files : List (String × Option String) := []
  for path in inputPaths request do
    files := (path, ← readFile? path) :: files
  let found := files
  return {
    read? := fun path => (found.lookup path).join
    writable := fun _ => true
    userConfig := ← loadUserConfig }

def report (failure : Failure) : IO UInt32 := do
  IO.eprintln ("Error: " ++ failure.message)
  if failure.causes ≠ [] then
    IO.eprintln "\nCaused by:"
    for cause in failure.causes do
      IO.eprintln ("    " ++ cause)
  return 1

def finish (output : Output) : IO UInt32 := do
  IO.print output.text
  match output.file with
  | none => return 0
  | some (path, content) =>
      try
        IO.FS.writeFile path content
        IO.eprintln ("Saved to: " ++ path)
        return 0
      catch error =>
        report ⟨"Failed to write " ++ path, [toString error]⟩

end DistanceField.Command

open DistanceField.Command in
def main (arguments : List String) : IO UInt32 := do
  match Request.parse? arguments with
  | none =>
      IO.eprintln "Usage: marcher [-v] <scenes | compile SCENE | config> [OPTIONS]"
      return 2
  | some request =>
      match run (← loadDisk request) request with
      | .ok output => finish output
      | .error failure => report failure
