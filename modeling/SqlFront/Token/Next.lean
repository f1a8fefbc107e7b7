import SqlFront.Cursor
import SqlFront.Fault
import SqlFront.Token.Match

/-!
# The next token

`Token.measure` says what kind of token a text begins with and how many characters it has,
or that a string or a comment has no end; `Cursor.next` takes that token.  The length of a
token is given as the number of characters after its first one, so a token is never empty:
`Cursor.length_rest_next` states that what lies ahead becomes shorter.

`Token.list` lists the tokens of a text, hidden ones included, with the token `eof` at its
end.
-/

namespace SqlFront.Token

/-! ### Measuring -/

/-- Whether a character is white space between tokens. -/
def isBlank (c : Char) : Bool := c = ' ' || c = '\t' || c = '\n' || c = '\r'

/-- The number of characters up to and with the closing quote of a string literal; a
backslash takes the character after it along. -/
def stringLength? (quote : Char) : List Char → Option Nat
  | [] => none
  | '\\' :: [] => none
  | '\\' :: _ :: rest => (stringLength? quote rest).map (· + 2)
  | c :: rest => if c = quote then some 1 else (stringLength? quote rest).map (· + 1)

/-- The number of characters up to and with the closing back-quote of a name.  A doubled
back-quote belongs to the name where some later back-quote closes it, and closes the name
itself where none does. -/
def backQuotedLength? : List Char → Option Nat
  | [] => none
  | '\x60' :: '\x60' :: rest => some ((backQuotedLength? rest).elim 1 (· + 2))
  | '\x60' :: _ => some 1
  | _ :: rest => (backQuotedLength? rest).map (· + 1)

/-- The number of characters of the line end at the front: a carriage return, a line feed,
or both in this order. -/
def lineEndLength : List Char → Nat
  | '\r' :: '\n' :: _ => 2
  | '\r' :: _ => 1
  | '\n' :: _ => 1
  | _ => 0

/-- The number of characters up to and with the end of the line. -/
def lineLength (cs : List Char) : Nat :=
  let line := Match.runLength (fun c => c != '\r' && c != '\n') cs
  line + lineEndLength (cs.drop line)

/-- The number of characters up to and with the end of a comment. -/
def commentLength? : List Char → Option Nat
  | '*' :: '/' :: _ => some 2
  | _ :: rest => (commentLength? rest).map (· + 1)
  | [] => none

/-- The token at a slash: a comment unless a plus sign follows the star, which marks a hint,
or a slash alone.  The count is of the characters after the slash. -/
def measureSlash : List Char → Except Cause (Kind × Nat)
  | '*' :: '*' :: '/' :: _ => .ok (.emptyComment, 3)
  | '*' :: '+' :: _ => .ok (.slash, 0)
  | '*' :: _ :: rest =>
    match commentLength? rest with
    | some n => .ok (.blockComment, n + 2)
    | none => .error .openComment
  | '*' :: [] => .error .openComment
  | _ => .ok (.slash, 0)

/-- The operator at the character `c`: two or three characters if they make one.  The count
is of the characters after the first. -/
def measureOperator (c : Char) (rest : List Char) : Kind × Nat :=
  match c, rest with
  | '<', '=' :: '>' :: _ => (.nullSafeEq, 2)
  | '<', '=' :: _ => (.ltEq, 1)
  | '<', '>' :: _ => (.notEq, 1)
  | '<', _ => (.lt, 0)
  | '>', '=' :: _ => (.gtEq, 1)
  | '>', _ => (.gt, 0)
  | '=', '=' :: _ => (.eq, 1)
  | '=', _ => (.eq, 0)
  | '!', '=' :: _ => (.bangEq, 1)
  | '!', '>' :: _ => (.ltEq, 1)
  | '!', '<' :: _ => (.gtEq, 1)
  | '!', _ => (.keyword .NOT, 0)
  | '(', _ => (.leftParen, 0)
  | ')', _ => (.rightParen, 0)
  | ',', _ => (.comma, 0)
  | ';', _ => (.semicolon, 0)
  | '+', _ => (.plus, 0)
  | '-', _ => (.minus, 0)
  | '*', _ => (.asterisk, 0)
  | '%', _ => (.percent, 0)
  | '~', _ => (.tilde, 0)
  | '&', _ => (.ampersand, 0)
  | '|', _ => (.pipe, 0)
  | '^', _ => (.caret, 0)
  | _, _ => (.unrecognized, 0)

/-- The kind of the token that begins with `c`, and the number of its further characters. -/
def measure (c : Char) (rest : List Char) : Except Cause (Kind × Nat) :=
  if isBlank c then .ok (.whitespace, Match.runLength isBlank rest)
  else if c = '\x27' ∨ c = '\x22' then
    match stringLength? c rest with
    | some n => .ok (.string, n)
    | none => .error .openString
  else if c = '\x60' then
    match backQuotedLength? rest with
    | some n => .ok (.quotedIdentifier, n)
    | none => .ok (.unrecognized, 0)
  else if c = '-' ∧ rest.head? = some '-' then .ok (.lineComment, 1 + lineLength (rest.drop 1))
  else if c = '/' then measureSlash rest
  else if Match.isWordChar c ∨ c = '.' then
    match Match.longest? (Match.wordMatches (c :: rest)) with
    | some (kind, n) => .ok (kind, n - 1)
    | none => .ok (.unrecognized, 0)
  else .ok (measureOperator c rest)

/-- The text of a token: the name inside a back-quoted form, else the characters. -/
def textOf (kind : Kind) (written : List Char) : String :=
  String.ofList (if kind = .quotedIdentifier then Text.unBackQuote written else written)

end Token

namespace Cursor

/-- The number of characters that an unterminated token is blamed on: its opening. -/
def openingLength : Cause → Nat
  | .openComment => 2
  | _ => 1

/-- The token at the cursor and the cursor after it; at the end of the text, `eof` and the
same cursor. -/
def next (c : Cursor) : Except Fault (Token × Cursor) :=
  match c.rest with
  | [] => .ok (.eof c.position, c)
  | x :: rest =>
    match Token.measure x rest with
    | .error cause => .error ⟨cause, c.position, c.position.right (openingLength cause)⟩
    | .ok (kind, n) =>
      let after := c.skip (n + 1)
      .ok (⟨kind, Token.textOf kind (c.rest.take (n + 1)), c.position, after.position⟩, after)

/-- A token that is taken makes what lies ahead shorter. -/
theorem length_rest_next {c d : Cursor} {t : Token}
    (h : c.next = .ok (t, d)) (hc : c.rest ≠ []) :
  d.rest.length < c.rest.length
  := by
  unfold next at h
  split at h
  · contradiction
  · split at h
    · simp at h
    · simp only [Except.ok.injEq, Prod.mk.injEq] at h
      obtain ⟨-, rfl⟩ := h
      rw [length_rest_skip]
      have : 0 < c.rest.length := List.length_pos_iff.2 hc
      omega

/-- The tokens ahead, hidden ones included, and the token `eof` that ends them. -/
def tokens (c : Cursor) : Except Fault (List Token) :=
  if _hc : c.rest = [] then .ok [.eof c.position]
  else
    match _h : c.next with
    | .error e => .error e
    | .ok (t, d) => (tokens d).map (t :: ·)
termination_by c.rest.length
decreasing_by exact length_rest_next _h _hc

end Cursor

/-- The tokens of a text, hidden ones included, and the token `eof` that ends them. -/
def Token.list (text : String) : Except Fault (List Token) := (Cursor.ofString text).tokens

end SqlFront
