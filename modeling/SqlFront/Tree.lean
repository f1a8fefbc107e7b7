import SqlFront.MergeRows
import SqlFront.Token

/-!
# Syntax trees

What a text says, as a tree.  Every node carries the region of the text from its first to
its last token.  Statements are merges, loads, exports and queries; any other statement is
kept as its tokens, verbatim.
-/

namespace SqlFront

/-! ### Names and constants -/

/-- A name; `quoted` if it is written between back-quotes. -/
structure Ident where
  value : String
  quoted : Bool
  span : Span
deriving DecidableEq, Repr

/-- Names joined by dots. -/
structure QualifiedName where
  parts : List Ident
  span : Span
deriving DecidableEq, Repr

/-- A quantity of an interval: a number, its unit and, in a range of units, the last one. -/
structure IntervalField where
  value : String
  unit : String
  toUnit : Option String
deriving DecidableEq, Repr

/-- A written-out value. -/
inductive Literal where
  | null
  | boolean (value : Bool)
  /-- A text, made of one or more adjacent string literals. -/
  | string (value : String)
  /-- A number as it is written, with its sign and its suffix. -/
  | number (form : NumberForm) (text : String)
  /-- A text marked with the name of its type. -/
  | typed (type : String) (value : String)
  | interval (fields : List IntervalField)
deriving DecidableEq, Repr

/-- A literal with its region. -/
structure Constant where
  value : Literal
  span : Span
deriving DecidableEq, Repr

/-- The type of a cast. -/
inductive DataType where
  | primitive (name : String) (parameters : List Nat)
  | array (element : DataType)
  | map (key value : DataType)
deriving Repr

/-! ### Operators -/

/-- The operators before an operand. -/
inductive UnaryOp where
  | minus | plus | bitNot | not
deriving DecidableEq, Repr

/-- The operators between two operands. -/
inductive BinaryOp where
  | or | and
  | eq | nullSafeEq | notEq | lt | ltEq | gt | gtEq
  | bitOr | bitXor | bitAnd
  | add | subtract | multiply | divide | modulo | intDivide
deriving DecidableEq, Repr

/-- The operators between two queries. -/
inductive SetOp where
  | union | except | intersect
deriving DecidableEq, Repr

/-- Whether equal rows are kept. -/
inductive Quantifier where
  | distinct | all
deriving DecidableEq, Repr

/-- The ways to join two relations. -/
inductive JoinKind where
  | inner | cross | leftOuter | leftSemi | leftAnti | rightOuter | fullOuter
deriving DecidableEq, Repr

/-! ### Expressions, queries and relations -/

mutual

/-- An expression with its region. -/
structure Expression where
  form : Form
  span : Span

/-- What an expression says. -/
inductive Form where
  | literal (value : Literal)
  | column (name : QualifiedName)
  | star (qualifier : Option QualifiedName)
  | unary (op : UnaryOp) (operand : Expression)
  | binary (op : BinaryOp) (left right : Expression)
  | between (subject : Expression) (negated : Bool) (low high : Expression)
  | inList (subject : Expression) (negated : Bool) (items : List Expression)
  | inQuery (subject : Expression) (negated : Bool) (query : Query)
  | like (subject : Expression) (negated regex : Bool) (pattern : Expression)
  | isNull (subject : Expression) (negated : Bool)
  | exist (query : Query)
  | call (function : QualifiedName) (distinct : Bool) (arguments : List Expression)
  | case (operand : Option Expression) (branches : List Branch) (otherwise : Option Expression)
  | cast (subject : Expression) (type : DataType)
  | currentDate
  | currentTimestamp
  | subquery (query : Query)
  | row (items : List Expression)
  | nested (inner : Expression)

/-- A condition of a case and its result. -/
structure Branch where
  condition : Expression
  result : Expression

/-- A query: named queries, a body, an order and a limit. -/
structure Query where
  named : List NamedQuery
  body : Body
  order : List SortItem
  limit : Option Expression
  span : Span

/-- A query that the following ones may use by name. -/
structure NamedQuery where
  name : Ident
  columns : List Ident
  query : Query
  span : Span

/-- The rows of a query. -/
inductive Body where
  | select (select : Select)
  | combination (op : SetOp) (quantifier : Option Quantifier) (left right : Body) (span : Span)
  | table (name : QualifiedName) (span : Span)
  | values (rows : List Expression) (span : Span)
  | nested (query : Query)

/-- A selection of rows from relations. -/
structure Select where
  quantifier : Option Quantifier
  items : List SelectItem
  relations : List Relation
  condition : Option Expression
  grouping : Option GroupBy
  having : Option Expression
  span : Span

/-- A selected expression and the name that it gets. -/
structure SelectItem where
  value : Expression
  label : Option Ident
  span : Span

/-- The expressions that rows are grouped by. -/
structure GroupBy where
  keys : List Expression
  grouping : Grouping
  span : Span

/-- How rows are grouped. -/
inductive Grouping where
  | plain
  | rollup
  | cube
  | sets (sets : List (List Expression))

/-- An expression that rows are ordered by. -/
structure SortItem where
  key : Expression
  ascending : Option Bool
  nullsFirst : Option Bool
  span : Span

/-- A relation with the relations joined to it. -/
structure Relation where
  first : Primary
  joins : List Join
  span : Span

/-- A relation that stands for itself. -/
inductive Primary where
  | table (name : QualifiedName) (label : Option Ident) (span : Span)
  | subquery (query : Query) (label : Option Ident) (span : Span)
  | nested (relation : Relation)

/-- A relation joined to those before it. -/
structure Join where
  kind : JoinKind
  natural : Bool
  relation : Primary
  criterion : Option Criterion
  span : Span

/-- The rows that a join keeps. -/
inductive Criterion where
  | condition (holds : Expression)
  | columns (names : List Ident)

end

/-- The region of a body. -/
def Body.span : Body → Span
  | select s => s.span
  | combination _ _ _ _ span => span
  | table _ span => span
  | values _ span => span
  | nested q => q.span

/-- The region of a relation. -/
def Primary.span : Primary → Span
  | table _ _ span => span
  | subquery _ _ span => span
  | nested r => r.span

/-! ### Statements -/

/-- A column of a merged row and its new value. -/
structure Assignment where
  target : QualifiedName
  value : Expression
  span : Span

/-- What a clause of a merge does with the rows that it concerns. -/
inductive Action where
  | updateAll
  | update (assignments : List Assignment)
  | delete
  | insertAll
  | insert (columns : List Ident) (values : List Expression)

/-- A clause of a merge. -/
structure Clause where
  rows : MergeRows
  condition : Option Expression
  action : Action
  span : Span

/-- What a merge takes its rows from. -/
inductive MergeSource where
  | table (name : QualifiedName)
  | query (query : Query)

/-- A merge: rows of the target change as the clauses say, by the rows of the source that
match them. -/
structure Merge where
  target : QualifiedName
  targetLabel : Option Ident
  source : MergeSource
  sourceLabel : Option Ident
  condition : Expression
  clauses : List Clause
  span : Span

/-- A partition column and, unless the data decide, its value. -/
structure PartitionEntry where
  column : Ident
  value : Option Constant
  span : Span
deriving DecidableEq, Repr

/-- The partition that data are loaded into. -/
structure Partition where
  entries : List PartitionEntry
  span : Span
deriving DecidableEq, Repr

/-- An option: its key, with dots for a dotted name, and its value. -/
structure OptionEntry where
  key : String
  keySpan : Span
  value : Constant
  span : Span
deriving DecidableEq, Repr

/-- The options of a statement. -/
structure OptionList where
  entries : List OptionEntry
  span : Span
deriving DecidableEq, Repr

/-- A load of data from a path into a table. -/
structure Load where
  path : Constant
  isLocal : Bool
  overwrite : Bool
  table : QualifiedName
  partition : Option Partition
  options : Option OptionList
  span : Span
deriving DecidableEq, Repr

/-- An export of the rows of a query to a path. -/
structure Export where
  query : Query
  path : Constant
  format : Option Ident
  options : Option OptionList
  span : Span

/-- A statement of any other kind: its first word in capitals and all of its tokens. -/
structure Verbatim where
  leading : String
  tokens : List Token
  span : Span
deriving DecidableEq, Repr

/-- A statement. -/
inductive Statement where
  | merge (merge : Merge)
  | load (load : Load)
  | exportRows (statement : Export)
  | query (query : Query)
  | verbatim (statement : Verbatim)

/-- The region of a statement. -/
def Statement.span : Statement → Span
  | merge s => s.span
  | load s => s.span
  | exportRows s => s.span
  | query q => q.span
  | verbatim s => s.span

/-- The name of a kind of statement. -/
def Statement.label : Statement → String
  | merge _ => "merge"
  | load _ => "load"
  | exportRows _ => "export"
  | query _ => "query"
  | verbatim _ => "opaque"

/-- What a text may be read as: a statement, or an expression by itself. -/
inductive Node where
  | statement (statement : Statement)
  | expression (expression : Expression)

/-- The region of a node. -/
def Node.span : Node → Span
  | statement s => s.span
  | expression e => e.span

/-- The name of a kind of node. -/
def Node.label : Node → String
  | statement s => s.label
  | expression _ => "expression"

end SqlFront
