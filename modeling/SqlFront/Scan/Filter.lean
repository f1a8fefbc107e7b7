import SqlFront.Files.Path
import SqlFront.Settings

/-!
# Files to scan

The files of a directory that a scan reads: regular files, not hidden, and not larger than a
limit.  A filter that skips accepts every path.  Settings are looked up as texts by their
keys, and a limit that is no number excludes every file.
-/

namespace SqlFront

/-- Whether every path is accepted. -/
structure ScanFilter where
  skips : Bool
deriving DecidableEq, Repr

namespace ScanFilter

/-- The filter that settings ask for; it skips only if the flag is set. -/
def ofSettings (setting : String → Option String) : ScanFilter :=
  ⟨((setting Settings.skipKey).bind Settings.flag?).getD false⟩

/-- The largest accepted size: the default if no setting gives one. -/
def limit? (setting : String → Option String) : Option Nat :=
  (setting Settings.limitKey).elim (some Settings.default.scanLimit) Settings.limit?

/-- Whether a path with a status is accepted; a path without status leads to nothing. -/
def accepts (f : ScanFilter) (setting : String → Option String) (path : Path)
    (status : Option FileStatus) : Bool :=
  f.skips ||
    match status, limit? setting with
    | some s, some limit => s.kind = .regular ∧ ¬path.isHidden ∧ s.size ≤ limit
    | _, _ => false

/-- The accepted paths directly in a directory, in the order of their names.  Directories and
links to nothing are left out, and a directory that cannot be read holds nothing. -/
def list {m : Type → Type} [Monad m] (f : ScanFilter) (around : Surroundings m)
    (setting : String → Option String) (directory : String) : m (List String) := do
  match ← around.names directory with
  | .error _ => return []
  | .ok names =>
    let accepted ← names.filterM fun name => do
      let path := Path.within directory name
      match ← around.status path with
      | .error _ => return false
      | .ok s => return s.kind ≠ .directory && f.accepts setting (.ofString path) (some s)
    return (accepted.mergeSort fun a b => decide (a ≤ b)).map (Path.within directory)

end ScanFilter

end SqlFront
