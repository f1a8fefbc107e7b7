/-!
# Splitting texts

A text is split at a separator into the pieces between its occurrences, of which there is
always at least one, or into lines that keep their ends.
-/

namespace SqlFront.Text

/-- The pieces of a text between the occurrences of a separator. -/
def split (separator : Char) : List Char → List (List Char)
  | [] => [[]]
  | c :: rest =>
    if c = separator then [] :: split separator rest
    else
      match split separator rest with
      | [] => [[c]]
      | piece :: others => (c :: piece) :: others

/-- The lines of a text, each with the line feed that ends it; the last one may lack it. -/
def linesWithEnds : List Char → List (List Char)
  | [] => []
  | c :: rest =>
    if c = '\n' then [c] :: linesWithEnds rest
    else
      match linesWithEnds rest with
      | [] => [[c]]
      | line :: others => (c :: line) :: others

end SqlFront.Text
