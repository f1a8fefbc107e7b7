import SqlFront.Json
import SqlFront.Token

/-!
# Tokens in structured output

Positions, regions and tokens as JSON.  A kind of token is its title; a keyword is an object
that names the keyword.
-/

namespace SqlFront

/-- A position as JSON. -/
def Position.toJson (p : Position) : Json :=
  .record [("line", .ofNat p.line), ("column", .ofNat p.column), ("offset", .ofNat p.offset)]

/-- A region as JSON. -/
def Span.toJson (a : Span) : Json := .record [("start", a.start.toJson), ("end", a.stop.toJson)]

/-- A kind of token as JSON. -/
def Kind.toJson : Kind → Json
  | .keyword word => .tagged "Keyword" (.string word.title)
  | kind => .string kind.title

/-- A token as JSON. -/
def Token.toJson (t : Token) : Json :=
  .record [("kind", t.kind.toJson), ("text", .string t.text), ("span", t.span.toJson)]

end SqlFront
