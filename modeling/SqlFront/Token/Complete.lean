import SqlFront.Token.Next

/-!
# Complete texts

A text is complete if its last visible token is a semicolon.  A text with an unterminated
string or comment is not complete.
-/

namespace SqlFront

/-- Whether the grammar sees a token of a text, the end of the text apart. -/
def Token.isVisible (t : Token) : Bool := !t.kind.isHidden && t.kind ≠ .eof

/-- Whether the last visible token of a text is a semicolon. -/
def isComplete (text : String) : Bool :=
  match Token.list text with
  | .error _ => false
  | .ok tokens => ((tokens.filter (·.isVisible)).getLast?.map (·.kind)) = some .semicolon

end SqlFront
