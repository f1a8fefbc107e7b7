import SqlFront.Grammar.Statement

/-!
# Reading texts

Reads statements, scripts and expressions from streams and from whole texts.  A stream can
be read from again after a fault: it stands where the fault was met.
-/

namespace SqlFront

namespace Stream

/-- Reads with the productions of the outermost level, for lists as long as the tokens that
have not been taken. -/
def read {α : Type} (s : Stream) (production : Grammar.Inner → Production α) :
    Except Fault α × Stream :=
  (production (.outermost (s.size + 1))).run s

/-- Reads one statement that ends the text. -/
def statement (s : Stream) : Except Fault Node × Stream := s.read Grammar.soleStatement

/-- Reads the statements of a script. -/
def script (s : Stream) : Except Fault (List Node) × Stream := s.read Grammar.script

/-- Reads one expression that ends the text. -/
def expression (s : Stream) : Except Fault Node × Stream := s.read Grammar.soleExpression

end Stream

/-- The statement that a text consists of. -/
def parseStatement (text : String) : Except Fault Node := (Stream.ofString text).statement.1

/-- The statements of a script. -/
def parseScript (text : String) : Except Fault (List Node) := (Stream.ofString text).script.1

/-- The expression that a text consists of. -/
def parseExpression (text : String) : Except Fault Node := (Stream.ofString text).expression.1

end SqlFront
