import SqlFront.Command.Value

/-!
# Commands

A command is what a statement asks for, checked and freed from its written form: merges,
loads and exports, and every other statement as it is.
-/

namespace SqlFront

/-- A part of the name of a table. -/
structure NamePart where
  name : String
  quoted : Bool
deriving DecidableEq, Repr

/-- The name of a table, perhaps in a database. -/
structure Table where
  parts : List NamePart
  span : Span
deriving DecidableEq, Repr

namespace Table

/-- The table that names joined by dots stand for. -/
def ofName (name : QualifiedName) : Table :=
  ⟨name.parts.map fun part => ⟨part.value, part.quoted⟩, name.span⟩

/-- The last part: the table itself. -/
def table (t : Table) : String := t.parts.getLast?.elim "" (·.name)

/-- The part before the last one, if there is one: the database. -/
def database? (t : Table) : Option String := t.parts.dropLast.getLast?.map (·.name)

/-- The parts joined by dots; the parts that were back-quoted are so again. -/
def qualifiedName (t : Table) : String :=
  ".".intercalate (t.parts.map fun part =>
    if part.quoted then Text.backQuote part.name else part.name)

end Table

/-- A partition column with its value, if the data do not decide it. -/
structure PartitionValue where
  column : String
  value : Option Value
deriving DecidableEq, Repr

/-- The partition that data are loaded into. -/
structure PartitionSpec where
  entries : List PartitionValue
deriving DecidableEq, Repr

namespace PartitionSpec

/-- Whether the data decide some column. -/
def isDynamic (p : PartitionSpec) : Bool := p.entries.any (·.value.isNone)

/-- The entry of a column, in any case. -/
def get? (p : PartitionSpec) (column : String) : Option PartitionValue :=
  p.entries.find? fun entry => entry.column.toUpper == column.toUpper

end PartitionSpec

/-- The options of a command, in the order in which they are given. -/
structure Options where
  entries : List (String × Value)
deriving DecidableEq, Repr

/-- The value of an option. -/
def Options.get? (o : Options) (key : String) : Option Value :=
  (o.entries.find? (·.1 = key)).map (·.2)

/-- What a merge takes its rows from. -/
inductive RowSource where
  | table (table : Table)
  | query (query : Query)

/-- A column of a merged row, by the parts of its name, and its new value. -/
structure ColumnUpdate where
  column : List String
  value : Expression

/-- What a merge does with rows. -/
inductive RowAction where
  | updateAll
  | update (columns : List ColumnUpdate)
  | delete
  | insertAll
  | insert (columns : List String) (values : List Expression)

/-- A rule of a merge: which rows it concerns and what it does with them. -/
structure RowRule where
  rows : MergeRows
  condition : Option Expression
  action : RowAction

/-- The command of a merge. -/
structure MergeCommand where
  target : Table
  targetLabel : Option String
  source : RowSource
  sourceLabel : Option String
  condition : Expression
  rules : List RowRule

/-- The command of a load. -/
structure LoadCommand where
  path : String
  isLocal : Bool
  overwrite : Bool
  table : Table
  partition : Option PartitionSpec
  options : Options
deriving DecidableEq, Repr

/-- The command of an export. -/
structure ExportCommand where
  query : Query
  path : String
  format : String
  options : Options

/-- What a statement asks for. -/
inductive Command where
  | merge (command : MergeCommand)
  | load (command : LoadCommand)
  | exportRows (command : ExportCommand)
  | passthrough (statement : Statement)

/-- The name of a kind of command. -/
def Command.name : Command → String
  | merge _ => "MERGE"
  | load _ => "LOAD"
  | exportRows _ => "EXPORT"
  | passthrough _ => "PASSTHROUGH"

end SqlFront
