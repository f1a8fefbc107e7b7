import SqlFront.Command
import SqlFront.Parse

/-!
# From statements to commands

A merge becomes a command if no clause without a condition hides a later clause for the same
rows, and every insertion supplies as many values as it names columns.  A load or an export
becomes a command if its path is a text that is not empty, its partition columns and option
keys are given once, and its numbers fit.  All other statements pass through; an expression
by itself is no command.
-/

namespace SqlFront

/-! ### Merges -/

/-- The fault of the first clause without a condition that a later clause for the same rows
follows. -/
def hidingClause? : List Clause → Option Fault
  | [] => none
  | c :: later =>
    if c.condition.isNone ∧ later.any (·.rows = c.rows) then
      some ⟨.hidingClause c.rows, c.span⟩
    else hidingClause? later

/-- The rule that a clause states. -/
def RowRule.ofClause (c : Clause) : Except Fault RowRule :=
  match c.action with
  | .updateAll => .ok ⟨c.rows, c.condition, .updateAll⟩
  | .delete => .ok ⟨c.rows, c.condition, .delete⟩
  | .insertAll => .ok ⟨c.rows, c.condition, .insertAll⟩
  | .update assignments =>
    let columns := assignments.map fun a => ⟨a.target.parts.map (·.value), a.value⟩
    .ok ⟨c.rows, c.condition, .update columns⟩
  | .insert columns values =>
    if columns ≠ [] ∧ columns.length ≠ values.length then
      .error ⟨.insertArity columns.length values.length, c.span⟩
    else .ok ⟨c.rows, c.condition, .insert (columns.map (·.value)) values⟩

/-- The rows that a source stands for. -/
def RowSource.ofSource : MergeSource → RowSource
  | .table name => .table (.ofName name)
  | .query q => .query q

/-- The command of a merge. -/
def MergeCommand.ofMerge (m : Merge) : Except Fault MergeCommand :=
  match hidingClause? m.clauses with
  | some fault => .error fault
  | none => do
    let rules ← m.clauses.mapM RowRule.ofClause
    return {
      target := .ofName m.target
      targetLabel := m.targetLabel.map (·.value)
      source := .ofSource m.source
      sourceLabel := m.sourceLabel.map (·.value)
      condition := m.condition
      rules := rules }

/-! ### Loads and exports -/

/-- The path that a constant names. -/
def pathOf (c : Constant) : Except Fault String :=
  match c.value with
  | .string path => if path = "" then .error ⟨.emptyPath, c.span⟩ else .ok path
  | _ => .error ⟨.pathNotText, c.span⟩

/-- The value of a constant that may be left out. -/
def valueOf? : Option Constant → Except Fault (Option Value)
  | none => .ok none
  | some c => (Value.ofConstant c).map some

/-- The values of partition columns, after those of the columns `seen`, in lower case. -/
def partitionValues (seen : List String) :
    List PartitionEntry → Except Fault (List PartitionValue)
  | [] => .ok []
  | e :: rest =>
    let column := e.column.value.toLower
    if column ∈ seen then .error ⟨.repeatedColumn e.column.value, e.span⟩
    else do
      let value ← valueOf? e.value
      return ⟨e.column.value, value⟩ :: (← partitionValues (column :: seen) rest)

/-- The partition of a load. -/
def PartitionSpec.ofPartition? : Option Partition → Except Fault (Option PartitionSpec)
  | none => .ok none
  | some p => (partitionValues [] p.entries).map fun entries => some ⟨entries⟩

/-- The values of options, after those with the keys `seen`. -/
def optionValues (seen : List String) : List OptionEntry → Except Fault (List (String × Value))
  | [] => .ok []
  | e :: rest =>
    if e.key ∈ seen then .error ⟨.repeatedOption e.key, e.keySpan⟩
    else do
      let value ← Value.ofConstant e.value
      return (e.key, value) :: (← optionValues (e.key :: seen) rest)

/-- The options of a statement. -/
def Options.ofList? : Option OptionList → Except Fault Options
  | none => .ok ⟨[]⟩
  | some list => (optionValues [] list.entries).map (⟨·⟩)

/-- The command of a load. -/
def LoadCommand.ofLoad (l : Load) : Except Fault LoadCommand := do
  let path ← pathOf l.path
  let partition ← PartitionSpec.ofPartition? l.partition
  let options ← Options.ofList? l.options
  return {
    path := path
    isLocal := l.isLocal
    overwrite := l.overwrite
    table := .ofName l.table
    partition := partition
    options := options }

/-- The format of an export that names none. -/
def defaultFormat : String := "csv"

/-- The command of an export. -/
def ExportCommand.ofExport (e : Export) : Except Fault ExportCommand := do
  let path ← pathOf e.path
  let options ← Options.ofList? e.options
  return {
    query := e.query
    path := path
    format := e.format.elim defaultFormat (·.value.toLower)
    options := options }

/-! ### Nodes -/

namespace Command

/-- The command that a node asks for. -/
def ofNode : Node → Except Fault Command
  | .statement (.merge m) => (MergeCommand.ofMerge m).map .merge
  | .statement (.load l) => (LoadCommand.ofLoad l).map .load
  | .statement (.exportRows e) => (ExportCommand.ofExport e).map .exportRows
  | .statement s => .ok (.passthrough s)
  | .expression e => .error ⟨.bareExpression, e.span⟩

end Command

/-- The command of a text that is one statement. -/
def parseCommand (text : String) : Except Fault Command := do
  Command.ofNode (← parseStatement text)

/-- The commands of a script: the whole is read before the first command is made. -/
def parseCommands (text : String) : Except Fault (List Command) := do
  (← parseScript text).mapM Command.ofNode

end SqlFront
