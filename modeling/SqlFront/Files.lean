/-!
# Files and variables

What a program sees around it: files, found by their paths, and the variables of its
environment.  `Surroundings` gives access to both in any monad, so that a program can run
among real files or in a file tree held in memory.
-/

namespace SqlFront

/-- Why a file cannot be used. -/
inductive FileError where
  /-- A part of the path names nothing. -/
  | notFound
  /-- A file stands where a directory is wanted. -/
  | notDirectory
  /-- A directory stands where a file is wanted. -/
  | isDirectory
  /-- The path, or a part of it, has too many bytes. -/
  | nameTooLong
  /-- Links lead to links without end. -/
  | tooManyLinks
  /-- The bytes of the file are not UTF-8. -/
  | notText
  /-- Another reason, in the words of the system. -/
  | other (reason : String)
deriving DecidableEq, Repr

/-- The message for a reason. -/
def FileError.message : FileError → String
  | notFound => "No such file or directory (os error 2)"
  | notDirectory => "Not a directory (os error 20)"
  | isDirectory => "Is a directory (os error 21)"
  | nameTooLong => "File name too long (os error 36)"
  | tooManyLinks => "Too many levels of symbolic links (os error 40)"
  | notText => "stream did not contain valid UTF-8"
  | other reason => reason

/-- What a path leads to. -/
inductive FileKind where
  | regular | directory | special
deriving DecidableEq, Repr

/-- The kind and the size, in bytes, of what a path leads to. -/
structure FileStatus where
  kind : FileKind
  size : Nat
deriving DecidableEq, Repr

/-- Access to files by their paths, and to variables by their names.  Links are followed. -/
structure Surroundings (m : Type → Type) where
  /-- The text of a file. -/
  readText : String → m (Except FileError String)
  /-- What a path leads to. -/
  status : String → m (Except FileError FileStatus)
  /-- The names in a directory, in any order. -/
  names : String → m (Except FileError (List String))
  /-- The value of a variable of the environment. -/
  environment : String → m (Option String)

end SqlFront
