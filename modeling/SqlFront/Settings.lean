import SqlFront.Files
import SqlFront.Number.Whole
import SqlFront.Text.Blank

/-!
# Settings

The settings of the tools: how large a file may be to be scanned, whether files are filtered
at all, what is logged, and how results are written.  Each setting has a default, which the
settings file changes, and variables of the environment change it again.
-/

namespace SqlFront

/-- How results are written. -/
inductive OutputFormat where
  | json | debug
deriving DecidableEq, Repr

/-- The name of a format. -/
def OutputFormat.name : OutputFormat → String
  | json => "json"
  | debug => "debug"

/-- The format with a name. -/
def OutputFormat.ofName? (name : String) : Option OutputFormat :=
  [json, debug].find? (·.name = name)

/-- Why settings are refused. -/
inductive SettingsError where
  /-- The settings file is not TOML, or gives a setting a value of another type. -/
  | badFile
  /-- A limit is not a number of bytes. -/
  | badLimit (text : String)
  /-- A flag is neither true nor false. -/
  | badFlag (text : String)
  /-- A name that no output format has, in lower case. -/
  | unknownFormat (name : String)
  /-- A limit is too large to be saved. -/
  | limitNotSaved
deriving DecidableEq, Repr

/-- The settings of the tools. -/
structure Settings where
  /-- The largest size, in bytes, of a file to be scanned. -/
  scanLimit : Nat
  /-- Whether all files are scanned. -/
  skipsFilter : Bool
  /-- What is logged. -/
  logFilter : String
  /-- How results are written. -/
  output : OutputFormat
deriving DecidableEq, Repr

namespace Settings

/-- The settings where none is given: a limit of 128 MiB. -/
def default : Settings := ⟨134217728, false, "sqlext=info", .json⟩

/-! ### Settings as texts -/

/-- The key of the largest size of a file to be scanned. -/
def limitKey : String := "sqlext.merge.filter.size"

/-- The key of the flag by which all files are scanned. -/
def skipKey : String := "sqlext.skip.path.filter"

/-- The text of the setting with a key. -/
def get? (s : Settings) (key : String) : Option String :=
  if key = limitKey then some (toString s.scanLimit)
  else if key = skipKey then some (toString s.skipsFilter)
  else none

/-- The number of bytes that a text writes, between blanks. -/
def limit? (text : String) : Option Nat := Number.word? (Text.trim text.toList)

/-- The flag that a text writes, between blanks. -/
def flag? (text : String) : Option Bool :=
  match Text.trimmed text with
  | "true" => some true
  | "false" => some false
  | _ => none

/-- The output format with a name, in any case. -/
def format (name : String) : Except SettingsError OutputFormat :=
  (OutputFormat.ofName? name.toLower).elim (.error (.unknownFormat name.toLower)) .ok

/-! ### The environment -/

/-- The variable with the largest size of a file to be scanned. -/
def limitVariable : String := "SQLEXT_MERGE_FILTER_SIZE"

/-- The variable with the flag by which all files are scanned. -/
def skipVariable : String := "SQLEXT_SKIP_PATH_FILTER"

/-- The variable that says what is logged. -/
def logVariable : String := "SQLEXT_LOG"

/-- The variable that names the output format. -/
def outputVariable : String := "SQLEXT_OUTPUT"

/-- The settings as the values of the four variables change them, in this order; an empty
log variable changes nothing. -/
def override (s : Settings) (limit skip log output : Option String) :
    Except SettingsError Settings := do
  let scanLimit ←
    limit.elim (.ok s.scanLimit) fun t => (limit? t).elim (.error (.badLimit t)) .ok
  let skipsFilter ←
    skip.elim (.ok s.skipsFilter) fun t => (flag? t).elim (.error (.badFlag t)) .ok
  let logFilter := (log.filter (· ≠ "")).getD s.logFilter
  let output ← output.elim (.ok s.output) format
  return ⟨scanLimit, skipsFilter, logFilter, output⟩

end Settings

/-- The message for the reason why settings are refused. -/
def SettingsError.message : SettingsError → String
  | badFile => "TOML parse error"
  | badLimit text => Settings.limitVariable ++ " must be a byte count, got '" ++ text ++ "'"
  | badFlag text => Settings.skipVariable ++ " must be true or false, got '" ++ text ++ "'"
  | unknownFormat name => "unknown output format '" ++ name ++ "'"
  | limitNotSaved => "out-of-range value for u64 type"

end SqlFront
