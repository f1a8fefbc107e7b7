import SqlFront.Fault
import SqlFront.Text.Split

/-!
# Reports

A report shows a diagnostic against the text that it belongs to: the message with its
position, the lines up to the faulty one, a line that points at the faulty column, and the
remaining lines.
-/

namespace SqlFront

/-- The lines of a text: the pieces between line feeds. -/
def lines (text : List Char) : List (List Char) := Text.split '\n' text

/-- A line without the carriage returns at its end. -/
def trimReturns (line : List Char) : List Char :=
  (line.reverse.dropWhile (· = '\r')).reverse

namespace Diagnostic

/-- The line of the fault, from one. -/
def line (d : Diagnostic) : Nat := d.span.start.line

/-- The column of the fault, from zero. -/
def column (d : Diagnostic) : Nat := d.span.start.column

/-- The message and the position, on one line. -/
def display (d : Diagnostic) : String := d.message ++ " (" ++ d.span.start.describe ++ ")"

/-- The line that points at a column. -/
def pointer (column : Nat) : List Char := List.replicate column '-' ++ "^^^".toList

/-- The lines of a text with the pointer after the faulty one. -/
def annotated (d : Diagnostic) (source : List Char) : List (List Char) :=
  let all := (lines source).map trimReturns
  all.take d.line ++ pointer d.column :: all.drop d.line

/-- The report: a header, and the annotated lines, each with a line feed. -/
def render (d : Diagnostic) (source : String) : String :=
  d.message ++ "(" ++ d.span.start.describe ++ ")\n\n== SQL ==\n" ++
    String.ofList ((d.annotated source.toList).flatMap (· ++ ['\n']))

end Diagnostic

end SqlFront
