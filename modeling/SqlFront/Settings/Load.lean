import SqlFront.Failure
import SqlFront.Files.Path
import SqlFront.Settings.File
import SqlFront.Settings.Variable

/-!
# Loading settings

Settings are loaded from a directory: from its settings file, if it has one, and then from the
variables of the environment.  A file `.env` in the directory adds variables, but changes none
that has a value.
-/

namespace SqlFront

/-- The values of variables that files have added. -/
abbrev AddedVariables := List (String × String)

namespace Surroundings

variable {m : Type → Type} [Monad m] (around : Surroundings m)

/-- The value of a variable of the environment or, if it has none, of an added one. -/
def valueOf? (added : AddedVariables) (name : String) : m (Option String) := do
  return (← around.environment name).or (added.lookup name)

/-- The text of a part of a value; a variable without value gives none. -/
def textOf (added : AddedVariables) : ValuePart → m String
  | .char c => return .singleton c
  | .reference name => return (← around.valueOf? added name).getD ""

/-- Adds variables one after another, except those that have a value. -/
def add (added : AddedVariables) : List Variable → m AddedVariables
  | [] => return added
  | v :: rest => do
    if (← around.valueOf? added v.name).isSome then add added rest
    else
      let texts ← v.value.mapM (around.textOf added)
      add (added ++ [(v.name, String.join texts)]) rest

/-- The variables that the file `.env` of a directory adds; none if it cannot be read. -/
def addedIn (directory : String) : m AddedVariables := do
  match ← around.readText (Path.within directory ".env") with
  | .error _ => return []
  | .ok text => around.add [] (Variable.ofText text)

/-- The settings that the settings file of a directory gives; the defaults if there is none. -/
def settingsIn (directory : String) : m (Except Failure Settings) := do
  let path := Path.within directory Settings.fileName
  match ← around.status path with
  | .error _ => return .ok .default
  | .ok _ =>
    match ← around.readText path with
    | .error e => return .error (.file e)
    | .ok text => return (Settings.ofText text).mapError .settings

/-- Loads the settings from a directory and the environment. -/
def loadSettings (directory : String) : m (Except Failure Settings) := do
  let added ← around.addedIn directory
  match ← around.settingsIn directory with
  | .error e => return .error e
  | .ok settings =>
    let limit ← around.valueOf? added Settings.limitVariable
    let skip ← around.valueOf? added Settings.skipVariable
    let log ← around.valueOf? added Settings.logVariable
    let output ← around.valueOf? added Settings.outputVariable
    return (settings.override limit skip log output).mapError .settings

end Surroundings

end SqlFront
