import SqlFront.Position

/-!
# Cursors

A cursor is a place in a text together with the text that lies ahead.  It moves forward one
character at a time and knows its position.
-/

namespace SqlFront

/-- The text ahead and the position of its first character. -/
structure Cursor where
  rest : List Char
  position : Position
deriving DecidableEq, Repr

namespace Cursor

/-- The cursor at the beginning of a text. -/
def ofList (text : List Char) : Cursor := ⟨text, .start⟩

/-- The cursor at the beginning of a text. -/
def ofString (text : String) : Cursor := ofList text.toList

/-- The character `k` places ahead; the cursor stands on number zero. -/
def peek? (c : Cursor) (k : Nat) : Option Char := c.rest[k]?

/-- Whether no text lies ahead. -/
def atEnd (c : Cursor) : Bool := c.rest.isEmpty

/-- The cursor one character on; at the end it stays. -/
def advance (c : Cursor) : Cursor :=
  match c.rest with
  | [] => c
  | x :: rest => ⟨rest, c.position.after x⟩

/-- The cursor `n` characters on, or at the end. -/
def skip (c : Cursor) (n : Nat) : Cursor :=
  ⟨c.rest.drop n, c.position.afterAll (c.rest.take n)⟩

/-- The next `n` characters, or all that lie ahead. -/
def upcoming (c : Cursor) (n : Nat) : String := String.ofList (c.rest.take n)

/-- The number of characters from the one `k` places ahead that all satisfy `p`. -/
def runLength (c : Cursor) (k : Nat) (p : Char → Bool) : Nat :=
  ((c.rest.drop k).takeWhile p).length

/-- Whether the text ahead begins with `text`, in any case. -/
def startsWith (c : Cursor) (text : String) : Bool :=
  c.upcoming text.length |>.toUpper |> (· == text.toUpper)

@[simp]
theorem skip_zero (c : Cursor) :
  c.skip 0 = c
  := rfl

theorem skip_succ (x : Char) (rest : List Char) (p : Position) (n : Nat) :
  skip ⟨x :: rest, p⟩ (n + 1) = skip ⟨rest, p.after x⟩ n
  := rfl

theorem length_rest_skip (c : Cursor) (n : Nat) :
  (c.skip n).rest.length = c.rest.length - n
  := List.length_drop

end Cursor

end SqlFront
