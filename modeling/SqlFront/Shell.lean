import SqlFront.CommandLine
import SqlFront.Text.Split
import SqlFront.Token.Complete

/-!
# The shell

The shell reads statements line by line and writes the commands that they stand for; it
executes nothing.  Lines are gathered until the text is complete.  Between statements a line
that begins with a dot is an instruction to the shell itself.
-/

namespace SqlFront

/-- How commands are written, and the lines of a text that is not complete yet. -/
structure Shell where
  format : OutputFormat
  gathered : String
deriving DecidableEq, Repr

namespace Shell

/-! ### Texts -/

/-- What the shell writes first. -/
def banner : String :=
  "  sqlext interactive shell 0.9.0\n" ++
  "  End statements with ;. Type .help for help, .exit to quit\n\n"

/-- What the shell writes last. -/
def farewell : String := "Goodbye!\n"

/-- Help on the instructions and the statements. -/
def helpText : String :=
  "\nCommands:\n" ++
  "  .help        Show this help\n" ++
  "  .exit        Exit the shell\n" ++
  "  .clear       Clear the screen\n" ++
  "  .format      Switch output between json and debug\n" ++
  "\nExtended statements:\n" ++
  "  MERGE INTO t USING s ON t.id = s.id WHEN MATCHED THEN DELETE;\n" ++
  "  LOAD DATA INPATH '/data/day1' INTO TABLE events PARTITION (dt);\n" ++
  "  EXPORT SELECT * FROM events TO '/out' FORMAT parquet;\n" ++
  "\n  Anything else is parsed and passed through.\n\n"

/-- The control sequences that clear the screen. -/
def clearing : String := "\x1b[2J\x1b[1;1H"

/-- The title of a format. -/
def formatTitle : OutputFormat → String
  | .json => "Json"
  | .debug => "Debug"

/-- The other format. -/
def otherFormat : OutputFormat → OutputFormat
  | .json => .debug
  | .debug => .json

/-! ### Lines -/

/-- What the shell answers to a line, and the shell afterwards unless it ends. -/
structure Reply where
  text : String
  next : Option Shell
deriving DecidableEq, Repr

/-- The answer to an instruction. -/
def instruct (s : Shell) (instruction : String) : Reply :=
  if instruction ∈ [".exit", ".quit", ".q"] then ⟨farewell, none⟩
  else if instruction ∈ [".help", ".h", ".?"] then ⟨helpText, some s⟩
  else if instruction = ".clear" then ⟨clearing ++ banner, some s⟩
  else if instruction = ".format" then
    let format := otherFormat s.format
    ⟨"  Output format: " ++ formatTitle format ++ "\n", some { s with format := format }⟩
  else
    ⟨"  Unknown command: " ++ instruction ++ "\n  Type .help for help\n", some s⟩

/-- The answer to a complete text. -/
def submit (format : OutputFormat) (source : String) : String :=
  match parseCommands source with
  | .error fault => fault.diagnostic.report source
  | .ok commands =>
    String.join (commands.map fun c =>
      match format with
      | .json => c.name ++ " " ++ CommandLine.commandText .json c ++ "\n"
      | .debug => CommandLine.commandText .debug c ++ "\n")

/-- The answer to a line. -/
def answer (s : Shell) (line : String) : Reply :=
  let trimmed := Text.trimmed line
  if s.gathered = "" ∧ trimmed.startsWith "." then s.instruct trimmed
  else if s.gathered = "" ∧ trimmed = "" then ⟨"", some s⟩
  else
    let source := s.gathered ++ line ++ "\n"
    if isComplete source then ⟨submit s.format source, some { s with gathered := "" }⟩
    else ⟨"", some { s with gathered := source }⟩

/-- The answers to lines, until the shell or the input ends. -/
def answers (s : Shell) : List String → String
  | [] => farewell
  | line :: rest =>
    let reply := s.answer line
    match reply.next with
    | none => reply.text
    | some s => reply.text ++ answers s rest

/-! ### Running -/

/-- A line without the line feed at its end and a carriage return before it. -/
def withoutEnd (line : List Char) : List Char :=
  match line.reverse with
  | '\n' :: '\r' :: front => front.reverse
  | '\n' :: front => front.reverse
  | _ => line

/-- The lines of an input. -/
def inputLines (input : String) : List String :=
  (Text.linesWithEnds input.toList).map fun line => String.ofList (withoutEnd line)

/-- How to call the shell. -/
def usage : String :=
  "Interactive shell for the extended SQL parser\n\n" ++
  "Usage: sqlext-repl [-c <DIR>] [-d]\n"

/-- The directory with the settings that arguments name, and whether they ask for the debug
format. -/
def ofArguments (arguments : List String) : Except ArgumentError (String × Bool) := do
  let options := [CommandLine.settingsOption (some 'c'), ⟨"debug", some 'd', none⟩]
  let a ← Arguments.read options [] arguments
  return ((a.get? "config-dir").getD ".", (a.get? "debug").isSome)

/-- The shell that arguments and settings ask for, unless one of them is refused. -/
def start {m : Type → Type} [Monad m] (around : Surroundings m) (arguments : List String) :
    m (Except Outcome Shell) := do
  match ofArguments arguments with
  | .error e => return .error (.misused e usage)
  | .ok (directory, debug) =>
    match ← around.loadSettings directory with
    | .error e => return .error (.failed e)
    | .ok settings => return .ok ⟨if debug then .debug else settings.output, ""⟩

/-- Runs the shell with arguments on an input. -/
def run {m : Type → Type} [Monad m] (around : Surroundings m) (arguments : List String)
    (input : String) : m Outcome := do
  match ← start around arguments with
  | .error outcome => return outcome
  | .ok shell => return .done (banner ++ shell.answers (inputLines input))

end Shell

end SqlFront
