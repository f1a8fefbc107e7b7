/-!
# The rows of a merge

A clause of a merge concerns the rows of the target that a row of the source matches, the
rows of the source that match none of the target, or the rows of the target that no row of
the source matches.
-/

namespace SqlFront

/-- The rows that a clause of a merge concerns. -/
inductive MergeRows where
  | matched | notMatched | notMatchedBySource
deriving DecidableEq, Repr

/-- How the rows of a clause are written. -/
def MergeRows.describe : MergeRows → String
  | .matched => "MATCHED"
  | .notMatched => "NOT MATCHED"
  | .notMatchedBySource => "NOT MATCHED BY SOURCE"

end SqlFront
