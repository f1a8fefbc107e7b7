import SqlFront.CommandLine.Arguments
import SqlFront.Failure

/-!
# Outcomes

How a run of a tool ends: its exit code, and what it writes to the standard output and to the
standard error.
-/

namespace SqlFront

/-- How a run of a tool ends. -/
inductive Outcome where
  /-- The work is done. -/
  | done (output : String)
  /-- A text is refused. -/
  | refused (diagnostic : Diagnostic) (source : String)
  /-- The work fails. -/
  | failed (failure : Failure)
  /-- A file that an argument names cannot be read. -/
  | unreadable (error : FileError)
  /-- There is nothing to work on. -/
  | noInput
  /-- The arguments are refused; `usage` tells how to give them. -/
  | misused (error : ArgumentError) (usage : String)
deriving DecidableEq, Repr

/-- The kind of a fault and its report. -/
def Diagnostic.report (d : Diagnostic) (source : String) : String :=
  "Error: " ++ d.kind.describe ++ "\n" ++ d.render source ++ "\n"

/-- A failure with what has caused it. -/
def Failure.report (f : Failure) : String :=
  "Error: " ++ f.display ++ "\n" ++
    match f with
    | .file e => "\nCaused by:\n    " ++ e.message ++ "\n"
    | _ => ""

namespace Outcome

/-- The exit code: two for malformed arguments, and one for other errors. -/
def exitCode : Outcome → Nat
  | done _ | misused .help _ => 0
  | misused .malformed _ => 2
  | _ => 1

/-- What is written to the standard output. -/
def output : Outcome → String
  | done output => output
  | misused .help usage => usage
  | _ => ""

/-- What is written to the standard error. -/
def errors : Outcome → String
  | done _ | misused .help _ => ""
  | misused .malformed usage => usage
  | refused diagnostic source => diagnostic.report source
  | failed failure => failure.report
  | unreadable error => "Error: " ++ error.message ++ "\n"
  | noInput => "Error: Provide SQL text or --file <path>\n"

end Outcome

end SqlFront
