import SqlFront.Shell

/-!
# The program

Runs the shell if the program is called by a name that ends in `repl`, and the command line
otherwise, among the files and the variables of the system.
-/

namespace SqlFront

/-- The reason with a number of the system, which may also be given as its negative. -/
def FileError.ofCode (code : UInt32) (details : String) : FileError :=
  match min code.toNat (-code).toNat with
  | 2 => .notFound
  | 20 => .notDirectory
  | 21 => .isDirectory
  | 36 => .nameTooLong
  | 40 => .tooManyLinks
  | number => .other (details ++ " (os error " ++ toString number ++ ")")

/-- The reason why the system refuses a file. -/
def FileError.ofSystem : IO.Error → FileError
  | .noFileOrDirectory _ code details => .ofCode code details
  | .alreadyExists _ code details | .invalidArgument _ code details
  | .permissionDenied _ code details | .resourceExhausted _ code details
  | .inappropriateType _ code details | .noSuchThing _ code details
  | .otherError code details => .ofCode code details
  | e => .other (toString e)

/-- The result of an action on files. -/
def fileResult {α : Type} (action : IO α) : IO (Except FileError α) := do
  try return .ok (← action)
  catch e => return .error (.ofSystem e)

/-- What the system says of a file, links followed. -/
def systemStatus (path : String) : IO (Except FileError FileStatus) :=
  fileResult do
    let found ← (← IO.FS.realPath path).metadata
    let kind := match found.type with
      | .file => FileKind.regular
      | .dir => .directory
      | _ => .special
    return ⟨kind, found.byteSize.toNat⟩

/-- The text of a file of the system. -/
def systemText (path : String) : IO (Except FileError String) := do
  match ← fileResult (IO.FS.readBinFile path) with
  | .error e => return .error e
  | .ok bytes => return (String.fromUTF8? bytes).elim (.error .notText) .ok

/-- The names in a directory of the system. -/
def systemNames (path : String) : IO (Except FileError (List String)) :=
  fileResult do
    let entries ← (← IO.FS.realPath path).readDir
    return (entries.map (·.fileName)).toList

/-- The files and the variables of the system. -/
def systemSurroundings : Surroundings IO where
  readText := systemText
  status := systemStatus
  names := systemNames
  environment name := IO.getEnv name

/-- Writes how a run ended and gives its exit code. -/
def Outcome.report (o : Outcome) : IO UInt32 := do
  IO.print o.output
  IO.eprint o.errors
  return o.exitCode.toUInt32

/-- Answers the lines of the standard input until the shell or the input ends. -/
partial def Shell.converse (input : IO.FS.Stream) (s : Shell) : IO Unit := do
  let line ← input.getLine
  if line.isEmpty then IO.print Shell.farewell
  else
    let reply := s.answer (String.ofList (Shell.withoutEnd line.toList))
    IO.print reply.text
    match reply.next with
    | none => return
    | some s => Shell.converse input s

/-- Runs the shell on the standard input. -/
def runShell (arguments : List String) : IO UInt32 := do
  match ← Shell.start systemSurroundings arguments with
  | .error outcome => outcome.report
  | .ok shell =>
    IO.print Shell.banner
    Shell.converse (← IO.getStdin) shell
    return 0

end SqlFront

/-- Runs the shell or the command line. -/
def main (arguments : List String) : IO UInt32 := do
  let program := (← IO.appPath).fileName.getD ""
  if program.endsWith "repl" then SqlFront.runShell arguments
  else (← SqlFront.CommandLine.run SqlFront.systemSurroundings arguments).report
