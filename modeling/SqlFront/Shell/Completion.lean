import SqlFront.Keyword
import SqlFront.Position
import SqlFront.Text.Blank

/-!
# Completion of keywords

A word under the cursor starts after the last white space, open parenthesis or comma before
the cursor.  `complete?` offers the keywords that begin with it, and `hint?` the rest of the
first of them that is longer.  A separator counts as one byte long: after a longer one the
start of the word cuts a character, and there is neither.
-/

namespace SqlFront.Shell

/-- Whether a character ends the words before it. -/
def isSeparator (c : Char) : Bool := Text.isBlank c || c = '(' || c = ','

/-- The place, in bytes, of the word at the end of the characters: one byte after the start of
the last separator. -/
def wordStart (cs : List Char) : Nat :=
  match cs.reverse.dropWhile (!isSeparator ·) with
  | [] => 0
  | _ :: earlier => byteLength earlier + 1

/-- The place of the word at the end of the characters and the word in upper case; none if
the place cuts a character. -/
def lastWord? (cs : List Char) : Option (Nat × List Char) :=
  (splitBytes (wordStart cs) cs).map fun (_, word) => (wordStart cs, word.map Char.toUpper)

/-- The place of the word under the cursor, and what it may be completed to. -/
structure Completion where
  start : Nat
  words : List String
deriving DecidableEq, Repr

/-- The keywords that begin with the word before the cursor, which stands `place` bytes into
the line; none if the cursor or the start of the word cuts a character. -/
def complete? (line : String) (place : Nat) : Option Completion := do
  let (front, _) ← splitBytes place line.toList
  let (start, word) ← lastWord? front
  let words := Keyword.all.map (·.spelling)
  return ⟨start, words.filter fun w => word ≠ [] ∧ word.isPrefixOf w.toList⟩

/-- What the last word of the line lacks of the first keyword that continues it, if the cursor
stands at the end of the line. -/
def hint? (line : String) (place : Nat) : Option String := do
  if place < line.utf8ByteSize then none
  else
    let (_, word) ← lastWord? line.toList
    if word = [] then none
    else
      let words := Keyword.all.map (·.spelling.toList)
      let found ← words.find? fun w => word.isPrefixOf w ∧ word.length < w.length
      return String.ofList (found.drop word.length)

end SqlFront.Shell
