import SqlFront.Command.Dispatch
import SqlFront.Failure

/-!
# Script files

Reads the commands of a file.
-/

namespace SqlFront

/-- The commands of the script in a file. -/
def Surroundings.commandsOf {m : Type → Type} [Monad m] (around : Surroundings m)
    (path : String) : m (Except Failure (List Command)) := do
  match ← around.readText path with
  | .error e => return .error (.file e)
  | .ok text => return (parseCommands text).mapError .parse

end SqlFront
