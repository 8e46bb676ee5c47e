import DistanceField.Text.Split

/-! The arguments of the command line. -/

namespace DistanceField.Command

structure Settings where
  configFile : Option String
  /-- Texts of the form `KEY=VALUE`, in the order in which they were given. -/
  assignments : List String
  deriving DecidableEq, Repr

/-- What the command line asks for. -/
inductive Request where
  | version
  | scenes
  | compile (scene : String) (output template : Option String) (settings : Settings)
  | config (settings : Settings)
  deriving DecidableEq, Repr

inductive Opt where
  | verbose
  | output
  | configFile
  | assignment
  | template
  deriving DecidableEq, Repr

namespace Opt

def long : Opt → String
  | .verbose => "verbose"
  | .output => "output"
  | .configFile => "config"
  | .assignment => "set"
  | .template => "template"

def short? : Opt → Option Char
  | .verbose => some 'v'
  | .output => some 'o'
  | .configFile => some 'c'
  | .assignment => none
  | .template => none

def takesValue : Opt → Bool
  | .verbose => false
  | _ => true

/-- Only assignments may be given more than once. -/
def repeatable : Opt → Bool
  | .assignment => true
  | _ => false

/-- A path cannot be empty. -/
def accepts (option : Opt) (value : String) : Bool :=
  option = .assignment || !value.isEmpty

end Opt

inductive Item where
  | option (option : Opt) (value : String)
  | operand (text : String)
  deriving DecidableEq, Repr

/-- What one argument gives: some options, the last of which may still wait for its
value. -/
structure Reading where
  items : List Item
  waiting : Option Opt

/-- An argument that starts like an option. A single dash does not. -/
def startsOption : List Char → Bool
  | '-' :: _ :: _ => true
  | _ => false

def findLong? (options : List Opt) (name : List Char) : Option Opt :=
  options.find? fun option => option.long.toList == name

def findShort? (options : List Opt) (c : Char) : Option Opt :=
  options.find? fun option => option.short? == some c

def readLong (options : List Opt) (text : List Char) : Option Reading :=
  match Text.splitFirst? '=' text with
  | none => do
      let option ← findLong? options text
      if option.takesValue then return ⟨[], some option⟩
      else return ⟨[.option option ""], none⟩
  | some (name, value) => do
      let option ← findLong? options name
      if option.takesValue then return ⟨[.option option (String.ofList value)], none⟩
      else none

/-- Options in their short form, after the dash. What follows an option that takes a
value is its value; an equals sign between the two is dropped. -/
def readShort (options : List Opt) : List Char → Option Reading
  | [] => some ⟨[], none⟩
  | c :: rest => do
      let option ← findShort? options c
      if option.takesValue then
        match rest with
        | [] => return ⟨[], some option⟩
        | '=' :: value => return ⟨[.option option (String.ofList value)], none⟩
        | value => return ⟨[.option option (String.ofList value)], none⟩
      else
        let reading ← readShort options rest
        return { reading with items := .option option "" :: reading.items }

def readArgument (options : List Opt) (argument : String) : Option Reading :=
  match argument.toList with
  | '-' :: '-' :: text => readLong options text
  | '-' :: c :: text => readShort options (c :: text)
  | _ => some ⟨[.operand argument], none⟩

/-- The items of a list of arguments. Two dashes make everything after them an
operand. -/
def readItems (options : List Opt) : List String → Option (List Item)
  | [] => some []
  | argument :: rest =>
      if argument = "--" then some (rest.map .operand)
      else
        match readArgument options argument with
        | none => none
        | some ⟨items, none⟩ => (readItems options rest).map (items ++ ·)
        | some ⟨items, some option⟩ =>
            match rest with
            | [] => none
            | value :: rest =>
                if startsOption value.toList then none
                else (readItems options rest).map (items ++ .option option value :: ·)

def valuesOf (option : Opt) (items : List Item) : List String :=
  items.filterMap fun
    | .option other value => if other = option then some value else none
    | .operand _ => none

def operandsOf (items : List Item) : List String :=
  items.filterMap fun
    | .option _ _ => none
    | .operand text => some text

/-- No option is given twice that may be given only once, and every value is fit for
its option. -/
def wellUsed (options : List Opt) (items : List Item) : Bool :=
  options.all fun option =>
    let values := valuesOf option items
    (option.repeatable || values.length ≤ 1) &&
      (!option.takesValue || values.all option.accepts)

def settingsOf (items : List Item) : Settings :=
  ⟨(valuesOf .configFile items).head?, valuesOf .assignment items⟩

def readCommand (options : List Opt) (arguments : List String) : Option (List Item) :=
  (readItems options arguments).filter (wellUsed options)

def readScenes (arguments : List String) : Option Request := do
  let items ← readCommand [.verbose] arguments
  if operandsOf items = [] then some .scenes else none

def readCompile (arguments : List String) : Option Request := do
  let items ← readCommand [.verbose, .output, .configFile, .assignment, .template] arguments
  match operandsOf items with
  | [scene] =>
      return .compile scene (valuesOf .output items).head? (valuesOf .template items).head?
        (settingsOf items)
  | _ => none

def readConfig (arguments : List String) : Option Request := do
  let items ← readCommand [.verbose, .configFile, .assignment] arguments
  if operandsOf items = [] then some (.config (settingsOf items)) else none

/-- Short options ahead of the command: whether the log is asked for, and whether the
version is. -/
def readGlobal : Bool → List Char → Option (Bool × Bool)
  | verbose, [] => some (verbose, false)
  | verbose, 'v' :: rest => if verbose then none else readGlobal true rest
  | verbose, 'V' :: _ => some (verbose, true)
  | _, _ => none

/-- The request that a command line spells. The option for the log may stand ahead of
the command and after it, once each. -/
def readRequest (verbose : Bool) : List String → Option Request
  | [] => none
  | argument :: rest =>
      match argument with
      | "scenes" => readScenes rest
      | "compile" => readCompile rest
      | "config" => readConfig rest
      | "--version" => some .version
      | "--verbose" => if verbose then none else readRequest true rest
      | _ =>
          match argument.toList with
          | '-' :: c :: cs =>
              match readGlobal verbose (c :: cs) with
              | some (_, true) => some .version
              | some (verbose, false) => readRequest verbose rest
              | none => none
          | _ => none

def Request.parse? (arguments : List String) : Option Request :=
  readRequest false arguments

end DistanceField.Command
