import SqlFront.Settings
import SqlFront.Toml.Document

/-!
# The settings file

The settings file is a TOML document with the tables `scan`, `log` and `output`.  What it does
not mention keeps its default, and what it mentions besides is ignored.
-/

namespace SqlFront.Settings

/-- The name of the settings file. -/
def fileName : String := "sqlext.toml"

/-! ### Reading -/

/-- The fields of a record, by number and by key.  A table gives them by key, an array by
number, and a moment gives none. -/
def fields? : Toml.Item → Option (Nat → String → Option Toml.Item)
  | .table _ members => some fun _ key => members.lookup key
  | .array items => some fun n _ => items[n]?
  | .tables all => some fun n _ => all[n]?.map (.table .header)
  | .moment => some fun _ _ => none
  | _ => none

/-- A size in bytes. -/
def readSize? : Toml.Item → Option Nat
  | .integer (.ofNat n) => some n
  | _ => none

/-- A truth value. -/
def readFlag? : Toml.Item → Option Bool
  | .boolean b => some b
  | _ => none

/-- A text. -/
def readText? : Toml.Item → Option String
  | .text s => some s
  | _ => none

/-- The name of an output format, or a table in which it is the only key, of an empty table. -/
def readFormat? : Toml.Item → Option OutputFormat
  | .text s => OutputFormat.ofName? s
  | .table _ [(name, .table _ [])] => OutputFormat.ofName? name
  | _ => none

/-- A field of a section of the document, or its default if the section or the field is
missing; none if the section is no record or the field is of another type. -/
def field? {α : Type} (document : Toml.Members) (title : String) (n : Nat) (key : String)
    (read : Toml.Item → Option α) (default : α) : Option α :=
  match document.lookup title with
  | none => some default
  | some item => do
    let fields ← fields? item
    (fields n key).elim (some default) read

/-- The settings that a document gives. -/
def ofDocument? (document : Toml.Members) : Option Settings := do
  return {
    scanLimit := ← field? document "scan" 0 "merge_filter_size" readSize? default.scanLimit
    skipsFilter := ← field? document "scan" 1 "skip_path_filter" readFlag? default.skipsFilter
    logFilter := ← field? document "log" 0 "filter" readText? default.logFilter
    output := ← field? document "output" 0 "format" readFormat? default.output }

/-- The settings that a text gives. -/
def ofText (text : String) : Except SettingsError Settings :=
  ((Toml.Members.ofText? text).bind ofDocument?).elim (.error .badFile) .ok

/-! ### Writing -/

/-- The text that gives the settings; a size that TOML has no number for is refused. -/
def toText (s : Settings) : Except SettingsError String :=
  if Number.wordSize 63 ≤ s.scanLimit then .error .limitNotSaved
  else .ok (
    "[scan]\nmerge_filter_size = " ++ toString s.scanLimit ++
    "\nskip_path_filter = " ++ toString s.skipsFilter ++
    "\n\n[log]\nfilter = " ++ Toml.quote s.logFilter ++
    "\n\n[output]\nformat = " ++ Toml.quote s.output.name ++ "\n")

end SqlFront.Settings
