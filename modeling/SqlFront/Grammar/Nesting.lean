import SqlFront.Production
import SqlFront.Tree

/-!
# Nesting

Expressions, queries, relations and types hold one another.  A production that reads one of
them gets the productions for those that are nested one level further in, so the grammar is
built from the innermost level outwards and ends at `maxNesting` levels: what is nested
deeper than that is refused.
-/

namespace SqlFront.Grammar

/-- The deepest nesting that is read. -/
def maxNesting : Nat := 32

/-- The productions one level further in, and a bound on the length of lists. -/
structure Inner where
  bound : Nat
  expression : Production Expression
  negation : Production Expression
  signed : Production Expression
  query : Production Query
  primary : Production Primary
  dataType : Production DataType

/-- The productions beyond the deepest level: each is refused. -/
def Inner.tooDeep (bound : Nat) : Inner where
  bound := bound
  expression := .fail fun _ => .tooDeep
  negation := .fail fun _ => .tooDeep
  signed := .fail fun _ => .tooDeep
  query := .fail fun _ => .tooDeep
  primary := .fail fun _ => .tooDeep
  dataType := .fail fun _ => .tooDeep

end SqlFront.Grammar
