/-!
# Positions and spans

A position names a place in a text three ways at once: the line, counted from one, the
column, counted in characters from zero, and the offset, counted in UTF-8 bytes from zero.
Only a line feed ends a line.  A span is the half-open region between two positions.

`Position.after` moves a position over one character, so the position reached after a
prefix of the text is `Position.afterAll` of that prefix.
-/

namespace SqlFront

/-- A place in a text: line from one, column in characters and offset in bytes from zero.  None of
them is bounded here; 32 bits hold lines and columns as long as a text has fewer than 2³² lines and
no line has 2³² characters. -/
structure Position where
  line : Nat
  column : Nat
  offset : Nat
deriving DecidableEq, Repr

namespace Position

/-- The place of the first character of a text. -/
def start : Position := ⟨1, 0, 0⟩

instance : Inhabited Position := ⟨start⟩

/-- The place just after the character `c` that stands at `p`. -/
def after (p : Position) (c : Char) : Position :=
  if c = '\n' then ⟨p.line + 1, 0, p.offset + 1⟩
  else ⟨p.line, p.column + 1, p.offset + c.utf8Size⟩

/-- The place just after the characters `cs` that stand at `p`. -/
def afterAll (p : Position) (cs : List Char) : Position := cs.foldl after p

/-- The place `n` one-byte characters further on the same line. -/
def right (p : Position) (n : Nat) : Position := ⟨p.line, p.column + n, p.offset + n⟩

/-- Positions are ordered by offset; line and column decide between equal offsets. -/
def compare (p q : Position) : Ordering :=
  ((Ord.compare p.offset q.offset).then (Ord.compare p.line q.line)).then
    (Ord.compare p.column q.column)

instance : Ord Position := ⟨compare⟩

/-- The earlier of two positions. -/
def earlier (p q : Position) : Position := if p.compare q = .gt then q else p

/-- The later of two positions. -/
def later (p q : Position) : Position := if p.compare q = .gt then p else q

/-- How a position is written in messages. -/
def describe (p : Position) : String :=
  "line " ++ toString p.line ++ ", pos " ++ toString p.column

@[simp]
theorem afterAll_nil (p : Position) :
  p.afterAll [] = p
  := rfl

@[simp]
theorem afterAll_cons (p : Position) (c : Char) (cs : List Char) :
  p.afterAll (c :: cs) = (p.after c).afterAll cs
  := rfl

theorem afterAll_append (p : Position) (cs ds : List Char) :
  p.afterAll (cs ++ ds) = (p.afterAll cs).afterAll ds
  := List.foldl_append

end Position

/-- A half-open region of a text. -/
structure Span where
  start : Position
  stop : Position
deriving DecidableEq, Repr, Inhabited

namespace Span

/-- The empty region at a position. -/
def point (p : Position) : Span := ⟨p, p⟩

/-- The smallest region that holds both `a` and `b`. -/
def merge (a b : Span) : Span := ⟨a.start.earlier b.start, a.stop.later b.stop⟩

/-- Whether the region holds no byte. -/
def isEmpty (a : Span) : Bool := a.start.offset == a.stop.offset

/-- The number of bytes of the region; none if its ends are exchanged. -/
def byteLength (a : Span) : Nat := a.stop.offset - a.start.offset

/-- How a region is written: the line is not repeated when both ends share it. -/
def describe (a : Span) : String :=
  if a.start.line = a.stop.line then
    toString a.start.line ++ ":" ++ toString a.start.column ++ "-" ++ toString a.stop.column
  else
    toString a.start.line ++ ":" ++ toString a.start.column ++ "-" ++
      toString a.stop.line ++ ":" ++ toString a.stop.column

end Span

/-- The number of bytes of characters. -/
def byteLength : List Char → Nat
  | [] => 0
  | c :: cs => c.utf8Size + byteLength cs

/-- Cuts a text `n` bytes on, if no character straddles the cut. -/
def splitBytes : Nat → List Char → Option (List Char × List Char)
  | 0, cs => some ([], cs)
  | _ + 1, [] => none
  | n + 1, c :: cs =>
    if c.utf8Size ≤ n + 1 then
      (splitBytes (n + 1 - c.utf8Size) cs).map fun (front, rest) => (c :: front, rest)
    else none

/-- The part of `text` that a region covers: none if its ends are exchanged, lie outside
the text or cut a character. -/
def Span.slice? (a : Span) (text : String) : Option String := do
  if a.stop.offset < a.start.offset then none
  else
    let (_, rest) ← splitBytes a.start.offset text.toList
    let (front, _) ← splitBytes a.byteLength rest
    return String.ofList front

end SqlFront
