import SqlFront.Command.Dispatch
import SqlFront.CommandLine.Outcome
import SqlFront.Json.Command
import SqlFront.Scan.Filter
import SqlFront.Settings.Load
import SqlFront.Text.Quoted

/-!
# The command line

The tool has three commands.  `parse` writes the commands of a script, `tokens` writes
its tokens, and `scan` writes the files of a directory that a scan reads.  Settings are loaded
before the command does its work.
-/

namespace SqlFront

/-- Where a script comes from: from an argument or else from a file. -/
structure ScriptSource where
  text : Option String
  file : Option String
deriving DecidableEq, Repr

/-- What the tool is asked to do. -/
inductive Request where
  | parse (source : ScriptSource) (format : Option OutputFormat)
  | tokens (source : ScriptSource) (all : Bool)
  | scan (directory : String)
deriving DecidableEq, Repr

/-- What the command line asks for, and the directory with the settings. -/
structure CommandLine where
  settingsDirectory : String
  request : Request
deriving DecidableEq, Repr

namespace CommandLine

/-! ### Reading arguments -/

/-- How to call the tool. -/
def usage : String :=
  "Parse extended SQL into typed commands\n\n" ++
  "Usage: sqlext [--config-dir <DIR>] parse [SQL] [-f <FILE>] [--format <FORMAT>]\n" ++
  "       sqlext [--config-dir <DIR>] tokens [SQL] [-f <FILE>] [--all]\n" ++
  "       sqlext [--config-dir <DIR>] scan <DIR>\n"

/-- The texts that are paths: all but the empty one. -/
def isPath (text : String) : Bool := text ≠ ""

/-- The option that names the directory with the settings. -/
def settingsOption (letter : Option Char) : ArgumentOption := ⟨"config-dir", letter, some isPath⟩

/-- The option that names a script file. -/
def fileOption : ArgumentOption := ⟨"file", some 'f', some isPath⟩

/-- The option that names an output format. -/
def formatOption : ArgumentOption := ⟨"format", none, some fun name => (Settings.format name).isOk⟩

/-- The option for hidden tokens. -/
def allOption : ArgumentOption := ⟨"all", none, none⟩

/-- The source of a script that arguments name. -/
def scriptSource (a : Arguments) : ScriptSource := ⟨a.words.head?, a.get? fileOption.name⟩

/-- The request that the arguments after the name of a command make. -/
def requestOf (command : String) (arguments : List String) : Except ArgumentError Request :=
  match command with
  | "parse" => do
    let a ← Arguments.read [fileOption, formatOption] [fun _ => true] arguments
    let format := (a.get? formatOption.name).bind fun name => (Settings.format name).toOption
    return .parse (scriptSource a) format
  | "tokens" => do
    let a ← Arguments.read [fileOption, allOption] [fun _ => true] arguments
    return .tokens (scriptSource a) (a.get? allOption.name).isSome
  | "scan" => do
    let a ← Arguments.read [] [isPath] arguments
    a.words.head?.elim (.error .malformed) fun directory => .ok (.scan directory)
  | "help" =>
    match arguments with
    | [] => .error .help
    | [topic] =>
      if topic ∈ ["parse", "tokens", "scan", "help"] then .error .help else .error .malformed
    | _ => .error .malformed
  | _ => .error .malformed

/-- The command line that arguments write.  The options before the command are accepted when
the command has been read. -/
def ofArguments (arguments : List String) : Except ArgumentError CommandLine := do
  match ← (ArgumentReading.start []).read [settingsOption none] true arguments with
  | (_, []) => .error .malformed
  | (reading, command :: rest) =>
    let request ← requestOf command rest
    let a ← reading.settle
    return ⟨(a.get? "config-dir").getD ".", request⟩

/-! ### Output -/

/-- A text, and blanks up to a width. -/
def padded (width : Nat) (text : String) : String :=
  text ++ String.ofList (List.replicate (width - text.length) ' ')

/-- The line for a token. -/
def tokenLine (t : Token) : String :=
  padded 22 t.kind.listing ++ " " ++ padded 28 (Text.display t.text) ++ " " ++
    t.span.describe ++ "\n"

/-- The text for a command. -/
def commandText (format : OutputFormat) (c : Command) : String :=
  match format with
  | .json => (c.toJson Double.toJson).pretty
  | .debug => c.name ++ " " ++ (c.toJson Double.toJson).compact

/-- The lines for the commands of a script. -/
def parse (format : OutputFormat) (source : String) : Outcome :=
  match parseCommands source with
  | .error fault => .refused fault.diagnostic source
  | .ok commands => .done (String.join (commands.map fun c => commandText format c ++ "\n"))

/-- The lines for the tokens of a script, hidden tokens included or not. -/
def tokens (all : Bool) (source : String) : Outcome :=
  match Token.list source with
  | .error fault => .refused fault.diagnostic source
  | .ok tokens =>
    .done (String.join ((tokens.filter fun t => all || !t.kind.isHidden).map tokenLine))

/-- The lines for the files of a directory. -/
def fileLines (directory : String) (files : List String) : String :=
  if files = [] then "! No input files accepted in " ++ directory ++ "\n"
  else String.join (files.map (· ++ "\n"))

/-! ### Running -/

variable {m : Type → Type} [Monad m]

/-- Works on a script from its source. -/
def withScript (around : Surroundings m) (source : ScriptSource) (work : String → Outcome) :
    m Outcome := do
  match source.text, source.file with
  | some text, _ => return work text
  | none, none => return .noInput
  | none, some file =>
    match ← around.readText file with
    | .error e => return .unreadable e
    | .ok text => return work text

/-- Does what a request asks for. -/
def perform (around : Surroundings m) (settings : Settings) : Request → m Outcome
  | .parse source format => withScript around source (parse (format.getD settings.output))
  | .tokens source all => withScript around source (tokens all)
  | .scan directory => do
    let files ← ScanFilter.list ⟨settings.skipsFilter⟩ around settings.get? directory
    return .done (fileLines directory files)

/-- Runs the tool with arguments. -/
def run (around : Surroundings m) (arguments : List String) : m Outcome := do
  match ofArguments arguments with
  | .error e => return .misused e usage
  | .ok line =>
    match ← around.loadSettings line.settingsDirectory with
    | .error e => return .failed e
    | .ok settings => perform around settings line.request

end CommandLine

end SqlFront
