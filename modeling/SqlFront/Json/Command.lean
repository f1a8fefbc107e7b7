import SqlFront.Command
import SqlFront.Json.Tree

/-!
# Commands in structured output

Commands as JSON.  How a double is written is left to the reader of the output, so every
function here takes the encoding of doubles.
-/

namespace SqlFront

/-- A double as a JSON number. -/
def Double.toJson (x : Double) : Json := .number (x.toText Double.structured)

/-- A value as JSON. -/
def Value.toJson (double : Double → Json) : Value → Json
  | .null => .string "Null"
  | .boolean b => .tagged "Boolean" (.boolean b)
  | .string s => .tagged "String" (.string s)
  | .int n => .tagged "Int" (.ofInt n)
  | .long n => .tagged "Long" (.ofInt n)
  | .short n => .tagged "Short" (.ofInt n)
  | .byte n => .tagged "Byte" (.ofInt n)
  | .double x => .tagged "Double" (double x)
  | .decimal s => .tagged "Decimal" (.string s)
  | .byteLength n => .tagged "ByteLength" (.ofNat n)
  | .interval fields => .tagged "Interval" (intervalToJson fields)
  | .typed type value =>
    .tagged "Typed" (.record [("type_name", .string type), ("value", .string value)])

/-- A part of a table name as JSON. -/
def NamePart.toJson (p : NamePart) : Json :=
  .record [("name", .string p.name), ("quoted", .boolean p.quoted)]

/-- A table as JSON. -/
def Table.toJson (t : Table) : Json :=
  .record [("parts", .ofList NamePart.toJson t.parts), ("span", t.span.toJson)]

/-- A partition column as JSON. -/
def PartitionValue.toJson (double : Double → Json) (p : PartitionValue) : Json :=
  .record [("column", .string p.column), ("value", .ofOption (Value.toJson double) p.value)]

/-- A partition as JSON. -/
def PartitionSpec.toJson (double : Double → Json) (p : PartitionSpec) : Json :=
  .record [("entries", .ofList (PartitionValue.toJson double) p.entries)]

/-- Options as JSON. -/
def Options.toJson (double : Double → Json) (o : Options) : Json :=
  .ofList (fun (key, value) => .record [("key", .string key), ("value", value.toJson double)])
    o.entries

/-- The source of a merge as JSON. -/
def RowSource.toJson : RowSource → Json
  | .table t => .tagged "Table" t.toJson
  | .query q => .tagged "Query" q.toJson

/-- A column and its new value as JSON. -/
def ColumnUpdate.toJson (u : ColumnUpdate) : Json :=
  .record [("column", .ofList .string u.column), ("value", u.value.toJson)]

/-- What a merge does with rows as JSON. -/
def RowAction.toJson : RowAction → Json
  | .updateAll => .string "UpdateAll"
  | .update columns => .tagged "Update" (.ofList ColumnUpdate.toJson columns)
  | .delete => .string "Delete"
  | .insertAll => .string "InsertAll"
  | .insert columns values =>
    .tagged "Insert" (.record [("columns", .ofList .string columns),
      ("values", .ofList Expression.toJson values)])

/-- A rule of a merge as JSON. -/
def RowRule.toJson (r : RowRule) : Json :=
  .record [("kind", .string r.rows.title), ("condition", .ofOption Expression.toJson r.condition),
    ("action", r.action.toJson)]

/-- The command of a merge as JSON. -/
def MergeCommand.toJson (m : MergeCommand) : Json :=
  .record [("target", m.target.toJson), ("target_alias", .ofOption .string m.targetLabel),
    ("source", m.source.toJson), ("source_alias", .ofOption .string m.sourceLabel),
    ("condition", m.condition.toJson), ("clauses", .ofList RowRule.toJson m.rules)]

/-- The command of a load as JSON. -/
def LoadCommand.toJson (double : Double → Json) (l : LoadCommand) : Json :=
  .record [("path", .string l.path), ("local", .boolean l.isLocal),
    ("overwrite", .boolean l.overwrite), ("table", l.table.toJson),
    ("partition", .ofOption (PartitionSpec.toJson double) l.partition),
    ("options", l.options.toJson double)]

/-- The command of an export as JSON. -/
def ExportCommand.toJson (double : Double → Json) (e : ExportCommand) : Json :=
  .record [("query", e.query.toJson), ("path", .string e.path), ("format", .string e.format),
    ("options", e.options.toJson double)]

/-- A command as JSON. -/
def Command.toJson (double : Double → Json) : Command → Json
  | .merge c => .tagged "Merge" c.toJson
  | .load c => .tagged "Load" (c.toJson double)
  | .exportRows c => .tagged "Export" (c.toJson double)
  | .passthrough s => .tagged "Passthrough" s.toJson

end SqlFront
