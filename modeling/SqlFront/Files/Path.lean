import SqlFront.Text.Split

/-!
# Paths

A path is a list of parts, from the root or from the place where it is used.  Written paths
have slashes between their parts.  Repeated slashes, a slash at the end, and the part `.`
make no difference, except for a `.` that begins a relative path.
-/

namespace SqlFront

/-- The nonempty pieces of a text between slashes. -/
def pathPieces (written : String) : List String :=
  ((Text.split '/' written.toList).filter (· ≠ [])).map String.ofList

/-- A path: whether it starts at the root, and its parts. -/
structure Path where
  isAbsolute : Bool
  parts : List String
deriving DecidableEq, Repr

namespace Path

/-- The path that a text writes. -/
def ofString (written : String) : Path :=
  match written.startsWith "/", pathPieces written with
  | false, "." :: rest => ⟨false, "." :: rest.filter (· ≠ ".")⟩
  | isAbsolute, pieces => ⟨isAbsolute, pieces.filter (· ≠ ".")⟩

/-- The name of the file that a path leads to; a path that ends in `.` or `..` names none. -/
def fileName? (p : Path) : Option String :=
  p.parts.getLast?.filter fun name => name ≠ "." ∧ name ≠ ".."

/-- Whether the name of the file begins with a dot. -/
def isHidden (p : Path) : Bool := p.fileName?.any (·.startsWith ".")

/-- The written path of a name in a directory. -/
def within (directory name : String) : String :=
  if directory = "" ∨ directory.endsWith "/" then directory ++ name
  else directory ++ "/" ++ name

end Path

end SqlFront
