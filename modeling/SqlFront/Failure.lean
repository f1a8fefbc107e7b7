import SqlFront.Report
import SqlFront.Settings

/-!
# Failures

Why work on files fails: a text is refused, a file cannot be used, or settings are refused.
-/

namespace SqlFront

/-- Why work on files fails. -/
inductive Failure where
  | parse (fault : Fault)
  | file (error : FileError)
  | settings (error : SettingsError)
deriving DecidableEq, Repr

/-- A failure as it is displayed. -/
def Failure.display : Failure → String
  | parse fault => "Parse error: " ++ fault.diagnostic.display
  | file error => "IO error: " ++ error.message
  | settings error => "Configuration error: " ++ error.message

end SqlFront
