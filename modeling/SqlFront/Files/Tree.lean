import SqlFront.Files
import SqlFront.Files.Path

/-!
# File trees

A file tree is a root directory held in memory, with files, directories and links, and a place
in it where relative paths start.  A link stands for the path that it holds, read from the
directory of the link.  `FileTree.create` makes the nodes of a tree, and
`FileTree.surroundings` gives a program access to it; both follow links.
-/

namespace SqlFront

/-- The content of a file: bytes, or a number of zeros. -/
inductive FileContent where
  | bytes (content : ByteArray)
  | zeros (size : Nat)

namespace FileContent

/-- The number of bytes. -/
def size : FileContent → Nat
  | bytes content => content.size
  | zeros n => n

/-- The text that the bytes encode. -/
def text? : FileContent → Option String
  | bytes content => String.fromUTF8? content
  | zeros n => some (String.ofList (List.replicate n '\x00'))

end FileContent

/-- What a place of a file tree holds. -/
inductive FileNode where
  | file (content : FileContent)
  | directory
  | link (target : String)

/-- What the places of a tree hold, and the place where relative paths start.  A place is the
list of names that lead to it from the root. -/
structure FileTree where
  entries : List (List String × FileNode)
  here : List String

namespace FileTree

/-- The lists of the first parts of a path, from one part on. -/
def fronts (parts : List String) : List (List String) :=
  (List.range parts.length).map fun n => parts.take (n + 1)

/-- A tree that holds no more than the directories on the way to where paths start. -/
def empty (here : List String) : FileTree := ⟨(fronts here).map (·, .directory), here⟩

/-- What a place holds; the root is a directory. -/
def get? (t : FileTree) (place : List String) : Option FileNode :=
  if place = [] then some .directory else t.entries.lookup place

/-- The tree with a node at a place. -/
def set (t : FileTree) (place : List String) (node : FileNode) : FileTree :=
  { t with entries := (place, node) :: t.entries.filter (·.1 ≠ place) }

/-- The names that a directory holds. -/
def children (t : FileTree) (place : List String) : List String :=
  (t.entries.filter (·.1.dropLast = place)).filterMap (·.1.getLast?)

/-- The parts of a path, in the order in which they are followed; a slash at the end asks for
a directory, as `.` does. -/
def steps (written : String) : List String :=
  pathPieces written ++ if written.endsWith "/" then ["."] else []

/-- The place where a written path starts. -/
def origin (written : String) (directory : List String) : List String :=
  if written.startsWith "/" then [] else directory

/-- How many links a path may lead through. -/
def maxLinks : Nat := 40

/-- How many bytes a part of a path may have. -/
def maxNameSize : Nat := 255

/-- How many bytes a path may have. -/
def maxPathSize : Nat := 4095

/-- Follows the parts of a path from a place that holds a node, through at most `links`
links, to the place that they lead to and what it holds.  Only the last part may lead to a
place that holds nothing, and the root is above itself. -/
def follow (t : FileTree) (links : Nat) (place : List String) (node : FileNode)
    (parts : List String) : Except FileError (List String × Option FileNode) :=
  match node, parts with
  | .link target, parts =>
    match links with
    | 0 => .error .tooManyLinks
    | links + 1 =>
      if target = "" then .error .notFound
      else follow t links (origin target place.dropLast) .directory (steps target ++ parts)
  | node, [] => .ok (place, some node)
  | .file _, _ :: _ => .error .notDirectory
  | .directory, "." :: rest => follow t links place .directory rest
  | .directory, ".." :: rest => follow t links place.dropLast .directory rest
  | .directory, name :: rest =>
    if maxNameSize < name.utf8ByteSize then .error .nameTooLong
    else
      match t.get? (place ++ [name]), rest with
      | none, [] => .ok (place ++ [name], none)
      | none, _ :: _ => .error .notFound
      | some next, rest => follow t links (place ++ [name]) next rest
termination_by (links, parts.length)

/-! ### Making nodes -/

/-- The tree with a node at the place that the parts of a path lead to, if `replaces` allows it
in the place of what is there. -/
def put (t : FileTree) (parts : List String) (node : FileNode)
    (replaces : Option FileNode → Bool) : FileTree :=
  match t.follow maxLinks t.here .directory parts with
  | .ok (place, found) => if replaces found then t.set place node else t
  | .error _ => t

/-- The tree with all directories of a path. -/
def createDirectories (t : FileTree) (parts : List String) : FileTree :=
  (fronts parts).foldl (fun t parts => t.put parts .directory (·.isNone)) t

/-- The tree with a node at the end of a path, and directories on the way to it.  A file takes
the place of a file, or of the one that a link leads to.  A node that cannot be made is left
out. -/
def create (t : FileTree) (parts : List String) (node : FileNode) : FileTree :=
  match node with
  | .directory => t.createDirectories parts
  | .file _ =>
    (t.createDirectories parts.dropLast).put parts node fun
      | some .directory => false
      | _ => true
  | .link _ =>
    let t := t.createDirectories parts.dropLast
    match t.follow maxLinks t.here .directory parts.dropLast, parts.getLast? with
    | .ok (above, some .directory), some name =>
      if (t.get? (above ++ [name])).isNone then t.set (above ++ [name]) node else t
    | _, _ => t

/-! ### Access -/

/-- The place and the node that a path leads to. -/
def find (t : FileTree) (path : String) : Except FileError (List String × FileNode) := do
  if path = "" then .error .notFound
  else if maxPathSize < path.utf8ByteSize then .error .nameTooLong
  else
    match ← t.follow maxLinks (origin path t.here) .directory (steps path) with
    | (place, some node) => return (place, node)
    | (_, none) => .error .notFound

/-- The text of the file that a path leads to. -/
def readText (t : FileTree) (path : String) : Except FileError String := do
  match ← t.find path with
  | (_, .file content) => content.text?.elim (.error .notText) .ok
  | _ => .error .isDirectory

/-- The kind and the size of what a path leads to. -/
def status (t : FileTree) (path : String) : Except FileError FileStatus := do
  match ← t.find path with
  | (_, .file content) => return ⟨.regular, content.size⟩
  | _ => return ⟨.directory, 0⟩

/-- The names in the directory that a path leads to. -/
def names (t : FileTree) (path : String) : Except FileError (List String) := do
  match ← t.find path with
  | (_, .file _) => .error .notDirectory
  | (place, _) => return t.children place

/-- Access to a tree, in which variables have the given values. -/
def surroundings (t : FileTree) (values : List (String × String)) : Surroundings Id where
  readText := t.readText
  status := t.status
  names := t.names
  environment name := values.lookup name

end FileTree

end SqlFront
