import SqlFront.Json.Token
import SqlFront.Tree

/-!
# Syntax trees in structured output

Every node is an object of its parts, and a choice between forms is an object with one
member that is named for the form, or the name alone where the form has no parts.
-/

namespace SqlFront

/-! ### Names, constants and operators -/

/-- A name as JSON. -/
def Ident.toJson (i : Ident) : Json :=
  .record [("value", .string i.value), ("quoted", .boolean i.quoted), ("span", i.span.toJson)]

/-- Names joined by dots as JSON. -/
def QualifiedName.toJson (n : QualifiedName) : Json :=
  .record [("parts", .ofList Ident.toJson n.parts), ("span", n.span.toJson)]

/-- A field of an interval as JSON. -/
def IntervalField.toJson (f : IntervalField) : Json :=
  .record [("value", .string f.value), ("unit", .string f.unit),
    ("to_unit", .ofOption .string f.toUnit)]

/-- The fields of an interval as JSON. -/
def intervalToJson (fields : List IntervalField) : Json :=
  .record [("fields", .ofList IntervalField.toJson fields)]

/-- A literal as JSON. -/
def Literal.toJson : Literal → Json
  | .null => .string "Null"
  | .boolean b => .tagged "Boolean" (.boolean b)
  | .string s => .tagged "String" (.string s)
  | .number form text =>
    .tagged "Number" (.record [("kind", .string form.title), ("text", .string text)])
  | .typed type value =>
    .tagged "Typed" (.record [("type_name", .string type), ("value", .string value)])
  | .interval fields => .tagged "Interval" (intervalToJson fields)

/-- A constant as JSON. -/
def Constant.toJson (c : Constant) : Json :=
  .record [("value", c.value.toJson), ("span", c.span.toJson)]

/-- A type as JSON. -/
def DataType.toJson : DataType → Json
  | .primitive name parameters =>
    .tagged "Primitive" (.record [("name", .string name), ("params", .ofList .ofNat parameters)])
  | .array element => .tagged "Array" element.toJson
  | .map key value => .tagged "Map" (.array [key.toJson, value.toJson])

/-- The name of an operator in structured output. -/
def UnaryOp.title : UnaryOp → String
  | .minus => "Minus"
  | .plus => "Plus"
  | .bitNot => "BitNot"
  | .not => "Not"

/-- The name of an operator in structured output. -/
def BinaryOp.title : BinaryOp → String
  | .or => "Or"
  | .and => "And"
  | .eq => "Eq"
  | .nullSafeEq => "NullSafeEq"
  | .notEq => "NotEq"
  | .lt => "Lt"
  | .ltEq => "LtEq"
  | .gt => "Gt"
  | .gtEq => "GtEq"
  | .bitOr => "BitOr"
  | .bitXor => "BitXor"
  | .bitAnd => "BitAnd"
  | .add => "Add"
  | .subtract => "Subtract"
  | .multiply => "Multiply"
  | .divide => "Divide"
  | .modulo => "Modulo"
  | .intDivide => "IntDivide"

/-- The name of an operator in structured output. -/
def SetOp.title : SetOp → String
  | .union => "Union"
  | .except => "Except"
  | .intersect => "Intersect"

/-- The name of a quantifier in structured output. -/
def Quantifier.title : Quantifier → String
  | .distinct => "Distinct"
  | .all => "All"

/-- The name of a join in structured output. -/
def JoinKind.title : JoinKind → String
  | .inner => "Inner"
  | .cross => "Cross"
  | .leftOuter => "LeftOuter"
  | .leftSemi => "LeftSemi"
  | .leftAnti => "LeftAnti"
  | .rightOuter => "RightOuter"
  | .fullOuter => "FullOuter"

/-- The name of the rows of a clause in structured output. -/
def MergeRows.title : MergeRows → String
  | .matched => "Matched"
  | .notMatched => "NotMatched"
  | .notMatchedBySource => "NotMatchedBySource"

/-- A quantifier as JSON, if there is one. -/
def quantifierToJson (q : Option Quantifier) : Json := .ofOption (fun q => .string q.title) q

/-! ### Expressions, queries and relations -/

mutual

/-- An expression as JSON. -/
def Expression.toJson : Expression → Json
  | ⟨form, span⟩ => .record [("kind", form.toJson), ("span", span.toJson)]

/-- What an expression says as JSON. -/
def Form.toJson : Form → Json
  | .literal value => .tagged "Literal" value.toJson
  | .column name => .tagged "Column" name.toJson
  | .star qualifier =>
    .tagged "Star" (.record [("qualifier", .ofOption QualifiedName.toJson qualifier)])
  | .unary op operand =>
    .tagged "Unary" (.record [("op", .string op.title), ("operand", operand.toJson)])
  | .binary op left right =>
    .tagged "Binary" (.record [("op", .string op.title), ("left", left.toJson),
      ("right", right.toJson)])
  | .between subject negated low high =>
    .tagged "Between" (.record [("expr", subject.toJson), ("negated", .boolean negated),
      ("low", low.toJson), ("high", high.toJson)])
  | .inList subject negated items =>
    .tagged "InList" (.record [("expr", subject.toJson), ("negated", .boolean negated),
      ("list", .array (expressionsToJson items))])
  | .inQuery subject negated query =>
    .tagged "InSubquery" (.record [("expr", subject.toJson), ("negated", .boolean negated),
      ("query", query.toJson)])
  | .like subject negated regex pattern =>
    .tagged "Like" (.record [("expr", subject.toJson), ("negated", .boolean negated),
      ("regex", .boolean regex), ("pattern", pattern.toJson)])
  | .isNull subject negated =>
    .tagged "IsNull" (.record [("expr", subject.toJson), ("negated", .boolean negated)])
  | .exist query => .tagged "Exists" query.toJson
  | .call function distinct arguments =>
    .tagged "Function" (.record [("name", function.toJson), ("distinct", .boolean distinct),
      ("args", .array (expressionsToJson arguments))])
  | .case operand branches otherwise =>
    .tagged "Case" (.record [("operand", expression?ToJson operand),
      ("branches", .array (branchesToJson branches)),
      ("else_result", expression?ToJson otherwise)])
  | .cast subject type =>
    .tagged "Cast" (.record [("expr", subject.toJson), ("data_type", type.toJson)])
  | .currentDate => .string "CurrentDate"
  | .currentTimestamp => .string "CurrentTimestamp"
  | .subquery query => .tagged "Subquery" query.toJson
  | .row items => .tagged "Row" (.array (expressionsToJson items))
  | .nested inner => .tagged "Nested" inner.toJson

/-- Expressions as JSON. -/
def expressionsToJson : List Expression → List Json
  | [] => []
  | e :: rest => e.toJson :: expressionsToJson rest

/-- An expression that may be left out as JSON. -/
def expression?ToJson : Option Expression → Json
  | none => .null
  | some e => e.toJson

/-- The branches of a case as JSON. -/
def branchesToJson : List Branch → List Json
  | [] => []
  | ⟨condition, result⟩ :: rest =>
    .record [("condition", condition.toJson), ("result", result.toJson)] :: branchesToJson rest

/-- A query as JSON. -/
def Query.toJson : Query → Json
  | ⟨named, body, order, limit, span⟩ =>
    .record [("with", .array (namedToJson named)), ("body", body.toJson),
      ("order_by", .array (sortItemsToJson order)), ("limit", expression?ToJson limit),
      ("span", span.toJson)]

/-- Named queries as JSON. -/
def namedToJson : List NamedQuery → List Json
  | [] => []
  | ⟨name, columns, query, span⟩ :: rest =>
    .record [("name", name.toJson), ("columns", .ofList Ident.toJson columns),
      ("query", query.toJson), ("span", span.toJson)] :: namedToJson rest

/-- The body of a query as JSON. -/
def Body.toJson : Body → Json
  | .select select => .tagged "Select" select.toJson
  | .combination op quantifier left right span =>
    .tagged "SetOperation" (.record [("op", .string op.title),
      ("quantifier", quantifierToJson quantifier), ("left", left.toJson),
      ("right", right.toJson), ("span", span.toJson)])
  | .table name span => .tagged "Table" (.record [("name", name.toJson), ("span", span.toJson)])
  | .values rows span =>
    .tagged "Values" (.record [("rows", .array (expressionsToJson rows)), ("span", span.toJson)])
  | .nested query => .tagged "Nested" query.toJson

/-- A selection as JSON. -/
def Select.toJson : Select → Json
  | ⟨quantifier, items, relations, condition, grouping, having, span⟩ =>
    .record [("quantifier", quantifierToJson quantifier),
      ("projection", .array (selectItemsToJson items)),
      ("from", .array (relationsToJson relations)),
      ("selection", expression?ToJson condition), ("group_by", groupBy?ToJson grouping),
      ("having", expression?ToJson having), ("span", span.toJson)]

/-- Selected expressions as JSON. -/
def selectItemsToJson : List SelectItem → List Json
  | [] => []
  | ⟨value, label, span⟩ :: rest =>
    .record [("expr", value.toJson), ("alias", .ofOption Ident.toJson label),
      ("span", span.toJson)] :: selectItemsToJson rest

/-- A grouping that may be left out as JSON. -/
def groupBy?ToJson : Option GroupBy → Json
  | none => .null
  | some ⟨keys, grouping, span⟩ =>
    .record [("expressions", .array (expressionsToJson keys)), ("grouping", grouping.toJson),
      ("span", span.toJson)]

/-- How rows are grouped as JSON. -/
def Grouping.toJson : Grouping → Json
  | .plain => .string "Plain"
  | .rollup => .string "Rollup"
  | .cube => .string "Cube"
  | .sets sets => .tagged "Sets" (.array (setsToJson sets))

/-- Grouping sets as JSON. -/
def setsToJson : List (List Expression) → List Json
  | [] => []
  | set :: rest => .array (expressionsToJson set) :: setsToJson rest

/-- Expressions that rows are ordered by as JSON. -/
def sortItemsToJson : List SortItem → List Json
  | [] => []
  | ⟨key, ascending, nullsFirst, span⟩ :: rest =>
    .record [("expr", key.toJson), ("ascending", .ofOption .boolean ascending),
      ("nulls_first", .ofOption .boolean nullsFirst), ("span", span.toJson)] ::
      sortItemsToJson rest

/-- A relation as JSON. -/
def Relation.toJson : Relation → Json
  | ⟨first, joins, span⟩ =>
    .record [("primary", first.toJson), ("joins", .array (joinsToJson joins)),
      ("span", span.toJson)]

/-- Relations as JSON. -/
def relationsToJson : List Relation → List Json
  | [] => []
  | r :: rest => r.toJson :: relationsToJson rest

/-- A relation that stands for itself as JSON. -/
def Primary.toJson : Primary → Json
  | .table name label span =>
    .tagged "Table" (.record [("name", name.toJson), ("alias", .ofOption Ident.toJson label),
      ("span", span.toJson)])
  | .subquery query label span =>
    .tagged "Subquery" (.record [("query", query.toJson),
      ("alias", .ofOption Ident.toJson label), ("span", span.toJson)])
  | .nested relation => .tagged "Nested" relation.toJson

/-- Joins as JSON. -/
def joinsToJson : List Join → List Json
  | [] => []
  | ⟨kind, natural, relation, criterion, span⟩ :: rest =>
    .record [("join_type", .string kind.title), ("natural", .boolean natural),
      ("relation", relation.toJson), ("criteria", criterion?ToJson criterion),
      ("span", span.toJson)] :: joinsToJson rest

/-- The rows that a join keeps as JSON, if that is said. -/
def criterion?ToJson : Option Criterion → Json
  | none => .null
  | some (.condition holds) => .tagged "On" holds.toJson
  | some (.columns names) => .tagged "Using" (.ofList Ident.toJson names)

end

/-! ### Statements -/

/-- An assignment as JSON. -/
def Assignment.toJson (a : Assignment) : Json :=
  .record [("target", a.target.toJson), ("value", a.value.toJson), ("span", a.span.toJson)]

/-- What a clause does as JSON. -/
def Action.toJson : Action → Json
  | .updateAll => .string "UpdateAll"
  | .update assignments => .tagged "Update" (.ofList Assignment.toJson assignments)
  | .delete => .string "Delete"
  | .insertAll => .string "InsertAll"
  | .insert columns values =>
    .tagged "Insert" (.record [("columns", .ofList Ident.toJson columns),
      ("values", .ofList Expression.toJson values)])

/-- A clause of a merge as JSON. -/
def Clause.toJson (c : Clause) : Json :=
  .record [("kind", .string c.rows.title), ("condition", .ofOption Expression.toJson c.condition),
    ("action", c.action.toJson), ("span", c.span.toJson)]

/-- The source of a merge as JSON. -/
def MergeSource.toJson : MergeSource → Json
  | .table name => .tagged "Table" name.toJson
  | .query q => .tagged "Query" q.toJson

/-- A merge as JSON. -/
def Merge.toJson (m : Merge) : Json :=
  .record [("target", m.target.toJson), ("target_alias", .ofOption Ident.toJson m.targetLabel),
    ("source", m.source.toJson), ("source_alias", .ofOption Ident.toJson m.sourceLabel),
    ("condition", m.condition.toJson), ("clauses", .ofList Clause.toJson m.clauses),
    ("span", m.span.toJson)]

/-- A partition column as JSON. -/
def PartitionEntry.toJson (e : PartitionEntry) : Json :=
  .record [("column", e.column.toJson), ("value", .ofOption Constant.toJson e.value),
    ("span", e.span.toJson)]

/-- A partition as JSON. -/
def Partition.toJson (p : Partition) : Json :=
  .record [("entries", .ofList PartitionEntry.toJson p.entries), ("span", p.span.toJson)]

/-- An option as JSON. -/
def OptionEntry.toJson (e : OptionEntry) : Json :=
  .record [("key", .string e.key), ("key_span", e.keySpan.toJson), ("value", e.value.toJson),
    ("span", e.span.toJson)]

/-- Options as JSON. -/
def OptionList.toJson (o : OptionList) : Json :=
  .record [("entries", .ofList OptionEntry.toJson o.entries), ("span", o.span.toJson)]

/-- A load as JSON. -/
def Load.toJson (l : Load) : Json :=
  .record [("path", l.path.toJson), ("local", .boolean l.isLocal),
    ("overwrite", .boolean l.overwrite), ("table", l.table.toJson),
    ("partition", .ofOption Partition.toJson l.partition),
    ("options", .ofOption OptionList.toJson l.options), ("span", l.span.toJson)]

/-- An export as JSON. -/
def Export.toJson (e : Export) : Json :=
  .record [("query", e.query.toJson), ("path", e.path.toJson),
    ("format", .ofOption Ident.toJson e.format),
    ("options", .ofOption OptionList.toJson e.options), ("span", e.span.toJson)]

/-- A statement taken verbatim as JSON. -/
def Verbatim.toJson (v : Verbatim) : Json :=
  .record [("leading", .string v.leading), ("tokens", .ofList Token.toJson v.tokens),
    ("span", v.span.toJson)]

/-- A statement as JSON. -/
def Statement.toJson : Statement → Json
  | .merge m => .tagged "Merge" m.toJson
  | .load l => .tagged "Load" l.toJson
  | .exportRows e => .tagged "Export" e.toJson
  | .query q => .tagged "Query" q.toJson
  | .verbatim v => .tagged "Opaque" v.toJson

/-- A node as JSON. -/
def Node.toJson : Node → Json
  | .statement s => .tagged "Statement" s.toJson
  | .expression e => .tagged "Expression" e.toJson

end SqlFront
