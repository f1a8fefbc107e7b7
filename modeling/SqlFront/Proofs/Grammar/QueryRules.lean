import SqlFront.Proofs.Grammar.Rules

/-!
# The rules of queries and statements

The rules for relations, selections, queries and statements, and `Rules.within`, the rules of what
may be nested so many levels deep.
-/

namespace SqlFront.Grammar

/-- Which rows are kept. -/
inductive QuantifierRule : Quantifier → List Token → Prop where
  | distinct {t : Token} (word : t.kind = .keyword .DISTINCT) : QuantifierRule .distinct [t]
  | all {t : Token} (word : t.kind = .keyword .ALL) : QuantifierRule .all [t]

namespace Rules

variable (G : Rules)

/-! ### Relations -/

/-- The rows that a join keeps. -/
inductive CriterionRule : Criterion → List Token → Prop where
  | condition {holds : Expression} {u : List Token}
      (isCondition : After (.keyword .ON) G.expression holds u) :
      CriterionRule (.condition holds) u
  | columns {names : List Ident} {u : List Token}
      (areNames : After (.keyword .USING) IdentsRule names u) : CriterionRule (.columns names) u

/-- A relation by name or between parentheses, where `relation` is the rule for what stands
between parentheses that hold no query. -/
inductive PrimaryWith (relation : Relation → List Token → Prop) :
    Primary → List Token → Prop where
  | table {name : QualifiedName} {label : Option Ident} {u v : List Token}
      (isName : NameRule name u) (isLabel : Possible LabelRule label v) :
      PrimaryWith relation (.table name label (Span.over (u ++ v))) (u ++ v)
  | subquery {query : Query} {label : Option Ident} {u v : List Token}
      (inside : Enclosed G.query query u) (isLabel : Possible LabelRule label v) :
      PrimaryWith relation (.subquery query label (Span.over (u ++ v))) (u ++ v)
  | nested {r : Relation} {opening : Token} {u : List Token} (opens : opening.kind = .leftParen)
      (inside : Closed relation r u) (noQuery : ∀ t ∈ u.head?, ¬ beginsQuery t.kind) :
      PrimaryWith relation (.nested r) (opening :: u)

/-- A join of a relation, for which `primary` is the rule. -/
inductive JoinWith (primary : Primary → List Token → Prop) : Join → List Token → Prop where
  | intro {kind : JoinKind} {natural : Bool} {right : Primary} {criterion : Option Criterion}
      {t : Token} {u v w : List Token} (words : Plain u) (joins : t.kind = .keyword .JOIN)
      (isRight : primary right v) (isCriterion : Possible (CriterionRule G) criterion w) :
      JoinWith primary ⟨kind, natural, right, criterion, Span.over (u ++ t :: v ++ w)⟩
        (u ++ t :: v ++ w)

/-- A relation one level further in and joins of relations, for which `primary` is the rule. -/
inductive RelationWith (primary : Primary → List Token → Prop) :
    Relation → List Token → Prop where
  | intro {first : Primary} {joins : List Join} {u v : List Token} (isFirst : G.primary first u)
      (areJoins : Repeated (JoinWith G primary) joins v) :
      RelationWith primary ⟨first, joins, Span.over (u ++ v)⟩ (u ++ v)

/-- A relation by name or between parentheses, with at most `n` parentheses that open no level. -/
def PrimaryUpTo : Nat → Primary → List Token → Prop
  | 0 => fun _ _ => False
  | n + 1 => PrimaryWith G (RelationWith G (PrimaryUpTo n))

/-- A relation by name or between parentheses. -/
def PrimaryRule (p : Primary) (u : List Token) : Prop := ∃ n, PrimaryUpTo G n p u

/-- A relation with the relations joined to it. -/
def RelationRule (r : Relation) (u : List Token) : Prop := ∃ n, RelationWith G (PrimaryUpTo G n) r u

/-! ### Selections -/

/-- A selected expression. -/
inductive SelectItemRule : SelectItem → List Token → Prop where
  | intro {value : Expression} {label : Option Ident} {u v : List Token}
      (isValue : G.expression value u) (isLabel : Possible LabelRule label v) :
      SelectItemRule ⟨value, label, Span.over (u ++ v)⟩ (u ++ v)

/-- One of several groupings. -/
inductive GroupingSetRule : List Expression → List Token → Prop where
  | empty {opening closing : Token} (opens : opening.kind = .leftParen)
      (closes : closing.kind = .rightParen) : GroupingSetRule [] [opening, closing]
  | row {items : List Expression} {region : Span} {u : List Token}
      (isRow : G.expression ⟨.row items, region⟩ u) : GroupingSetRule items u
  | nested {inner : Expression} {region : Span} {u : List Token}
      (isNested : G.expression ⟨.nested inner, region⟩ u) : GroupingSetRule [inner] u
  | single {e : Expression} {u : List Token} (isSingle : G.expression e u) : GroupingSetRule [e] u

/-- How rows are grouped. -/
inductive GroupingRule : Grouping → List Token → Prop where
  | plain : GroupingRule .plain []
  | rollup {u : List Token} (words : Plain u) : GroupingRule .rollup u
  | cube {u : List Token} (words : Plain u) : GroupingRule .cube u
  | sets {sets : List (List Expression)} {u v : List Token} (words : Plain u)
      (inside : Enclosed (Separated .comma (GroupingSetRule G)) sets v) :
      GroupingRule (.sets sets) (u ++ v)

/-- The expressions that rows are grouped by. -/
inductive GroupByRule : GroupBy → List Token → Prop where
  | intro {keys : List Expression} {grouping : Grouping} {t : Token} {u v : List Token}
      (opens : t.kind = .keyword .GROUP) (areKeys : After (.keyword .BY) G.ExpressionsRule keys u)
      (isGrouping : GroupingRule G grouping v) :
      GroupByRule ⟨keys, grouping, Span.over (t :: u ++ v)⟩ (t :: u ++ v)

/-- A selection. -/
inductive SelectRule : Select → List Token → Prop where
  | intro {quantifier : Option Quantifier} {items : List SelectItem} {relations : List Relation}
      {condition having : Option Expression} {grouping : Option GroupBy} {t : Token}
      {q i r c g h : List Token} (opens : t.kind = .keyword .SELECT)
      (isQuantifier : Possible QuantifierRule quantifier q)
      (areItems : Separated .comma (SelectItemRule G) items i)
      (areRelations : Listed (After (.keyword .FROM) (Separated .comma (RelationRule G)))
        relations r)
      (isCondition : Possible (After (.keyword .WHERE) G.expression) condition c)
      (isGrouping : Possible (GroupByRule G) grouping g)
      (isHaving : Possible (After (.keyword .HAVING) G.expression) having h) :
      SelectRule ⟨quantifier, items, relations, condition, grouping, having,
          Span.over (t :: q ++ i ++ r ++ c ++ g ++ h)⟩
        (t :: q ++ i ++ r ++ c ++ g ++ h)

/-! ### Queries -/

/-- A body without set operators, or one between parentheses. -/
inductive SimpleBodyRule : Body → List Token → Prop where
  | select {s : Select} {u : List Token} (isSelect : SelectRule G s u) :
      SimpleBodyRule (.select s) u
  | table {name : QualifiedName} {u : List Token}
      (isTable : After (.keyword .TABLE) NameRule name u) :
      SimpleBodyRule (.table name (Span.over u)) u
  | values {rows : List Expression} {u : List Token}
      (areValues : After (.keyword .VALUES) G.ExpressionsRule rows u) :
      SimpleBodyRule (.values rows (Span.over u)) u
  | nested {query : Query} {u : List Token} (inside : Enclosed G.query query u) :
      SimpleBodyRule (.nested { query with span := Span.over u }) u

/-- Operands with the set operators between them that `op?` knows. -/
inductive CombinedRule (op? : Kind → Option SetOp) (operand : Body → List Token → Prop) :
    Body → List Token → Prop where
  | one {b : Body} {u : List Token} (only : operand b u) : CombinedRule op? operand b u
  | more {left right : Body} {op : SetOp} {quantifier : Option Quantifier} {t : Token}
      {u v w : List Token} (isLeft : CombinedRule op? operand left u)
      (isOperator : op? t.kind = some op) (isQuantifier : Possible QuantifierRule quantifier v)
      (isRight : operand right w) :
      CombinedRule op? operand
        (.combination op quantifier left right (Span.over (u ++ t :: v ++ w))) (u ++ t :: v ++ w)

/-- The set operator that a token stands for that binds tighter than the others. -/
def intersect? (k : Kind) : Option SetOp := if k = .keyword .INTERSECT then some .intersect else none

/-- The body of a query. -/
def BodyRule : Body → List Token → Prop :=
  CombinedRule SetOp.ofKind? (CombinedRule intersect? (SimpleBodyRule G))

/-- An expression that rows are ordered by. -/
inductive SortItemRule : SortItem → List Token → Prop where
  | intro {key : Expression} {ascending nullsFirst : Option Bool} {u v : List Token}
      (isKey : G.expression key u) (words : Plain v) :
      SortItemRule ⟨key, ascending, nullsFirst, Span.over (u ++ v)⟩ (u ++ v)

/-- A query with a name. -/
inductive NamedQueryRule : NamedQuery → List Token → Prop where
  | intro {name : Ident} {columns : List Ident} {query : Query} {u v w x : List Token}
      (isName : IdentRule name u) (areColumns : Listed IdentsRule columns v) (words : Plain w)
      (inside : Enclosed G.query query x) :
      NamedQueryRule ⟨name, columns, query, Span.over (u ++ v ++ w ++ x)⟩ (u ++ v ++ w ++ x)

/-- A query. -/
inductive QueryRule : Query → List Token → Prop where
  | intro {named : List NamedQuery} {body : Body} {order : List SortItem}
      {limit : Option Expression} {n b o l : List Token}
      (areNamed : Listed (After (.keyword .WITH) (Separated .comma (NamedQueryRule G))) named n)
      (isBody : BodyRule G body b)
      (isOrder : Listed (After (.keyword .ORDER) (After (.keyword .BY)
        (Separated .comma (SortItemRule G)))) order o)
      (isLimit : Possible (After (.keyword .LIMIT) G.expression) limit l) :
      QueryRule ⟨named, body, order, limit, Span.over (n ++ b ++ o ++ l)⟩ (n ++ b ++ o ++ l)

/-! ### Levels -/

/-- The rules of what may be nested `levels` deep. -/
def within : Nat → Rules
  | 0 => ⟨fun _ _ => False, fun _ _ => False, fun _ _ => False, fun _ _ => False,
      fun _ _ => False, fun _ _ => False⟩
  | levels + 1 =>
    let G := within levels
    { expression := ExpressionRule G
      negation := NegationRule G
      signed := SignedRule G
      query := QueryRule G
      primary := PrimaryRule G
      dataType := DataTypeRule G }

/-! ### Statements -/

/-- A column and its new value. -/
inductive AssignmentRule : Assignment → List Token → Prop where
  | intro {target : QualifiedName} {value : Expression} {u v : List Token}
      (isTarget : NameRule target u) (isValue : After .eq G.expression value v) :
      AssignmentRule ⟨target, value, Span.over (u ++ v)⟩ (u ++ v)

/-- What a clause of a merge does. -/
inductive ActionRule : Action → List Token → Prop where
  | delete {u : List Token} (words : Plain u) : ActionRule .delete u
  | updateAll {u : List Token} (words : Plain u) : ActionRule .updateAll u
  | update {assignments : List Assignment} {u v : List Token} (words : Plain u)
      (areAssignments : Separated .comma (AssignmentRule G) assignments v) :
      ActionRule (.update assignments) (u ++ v)
  | insertAll {u : List Token} (words : Plain u) : ActionRule .insertAll u
  | insert {columns : List Ident} {values : List Expression} {t : Token} {u v : List Token}
      (word : t.kind = .keyword .INSERT) (areColumns : Listed IdentsRule columns u)
      (areValues : After (.keyword .VALUES) (Enclosed G.ExpressionsRule) values v) :
      ActionRule (.insert columns values) (t :: u ++ v)

/-- A clause of a merge. -/
inductive ClauseRule : Clause → List Token → Prop where
  | intro {rows : MergeRows} {condition : Option Expression} {action : Action} {t arrow : Token}
      {u v w : List Token} (opens : t.kind = .keyword .WHEN) (words : Plain u)
      (isCondition : Possible (After (.keyword .AND) G.expression) condition v)
      (leads : arrow.kind = .keyword .THEN) (isAction : ActionRule G action w) :
      ClauseRule ⟨rows, condition, action, Span.over (t :: u ++ v ++ arrow :: w)⟩
        (t :: u ++ v ++ arrow :: w)

/-- The source of a merge. -/
inductive MergeSourceRule : MergeSource → List Token → Prop where
  | query {query : Query} {u : List Token} (inside : Enclosed G.query query u) :
      MergeSourceRule (.query query) u
  | table {name : QualifiedName} {u : List Token} (isName : NameRule name u) :
      MergeSourceRule (.table name) u

/-- A merge. -/
inductive MergeRule : Merge → List Token → Prop where
  | intro {target : QualifiedName} {targetLabel sourceLabel : Option Ident} {source : MergeSource}
      {condition : Expression} {clauses : List Clause} {t : Token} {a b c d e f : List Token}
      (opens : t.kind = .keyword .MERGE) (isTarget : After (.keyword .INTO) NameRule target a)
      (isTargetLabel : Possible LabelRule targetLabel b)
      (isSource : After (.keyword .USING) (MergeSourceRule G) source c)
      (isSourceLabel : Possible LabelRule sourceLabel d)
      (isCondition : After (.keyword .ON) G.expression condition e)
      (areClauses : Repeated (ClauseRule G) clauses f) (nonempty : clauses ≠ []) :
      MergeRule ⟨target, targetLabel, source, sourceLabel, condition, clauses,
          Span.over (t :: a ++ b ++ c ++ d ++ e ++ f)⟩
        (t :: a ++ b ++ c ++ d ++ e ++ f)

end Rules

/-- A partition column and its value. -/
inductive PartitionEntryRule : PartitionEntry → List Token → Prop where
  | intro {column : Ident} {value : Option Constant} {u v : List Token}
      (isColumn : IdentRule column u) (isValue : Possible (After .eq ConstantRule) value v) :
      PartitionEntryRule ⟨column, value, Span.over (u ++ v)⟩ (u ++ v)

/-- A partition. -/
inductive PartitionRule : Partition → List Token → Prop where
  | intro {entries : List PartitionEntry} {t : Token} {u : List Token}
      (opens : t.kind = .keyword .PARTITION)
      (areEntries : Enclosed (Separated .comma PartitionEntryRule) entries u) :
      PartitionRule ⟨entries, Span.over (t :: u)⟩ (t :: u)

/-- The key of an option. -/
inductive OptionKeyRule : String → List Token → Prop where
  | string {t : Token} (isString : t.kind = .string) : OptionKeyRule (Text.unescape t.text) [t]
  | name {name : QualifiedName} {u : List Token} (isName : NameRule name u) :
      OptionKeyRule (".".intercalate (name.parts.map (·.value))) u

/-- An option. -/
inductive OptionEntryRule : OptionEntry → List Token → Prop where
  | intro {key : String} {value : Constant} {u v w : List Token} (isKey : OptionKeyRule key u)
      (words : Plain v) (isValue : ConstantRule value w) :
      OptionEntryRule ⟨key, Span.over u, value, Span.over (u ++ v ++ w)⟩ (u ++ v ++ w)

/-- The options behind their word. -/
inductive OptionsRule : OptionList → List Token → Prop where
  | intro {entries : List OptionEntry} {t : Token} {u : List Token}
      (opens : t.kind = .keyword .OPTIONS)
      (areEntries : Enclosed (Separated .comma OptionEntryRule) entries u) :
      OptionsRule ⟨entries, Span.over u⟩ (t :: u)

/-- A load. -/
inductive LoadRule : Load → List Token → Prop where
  | intro {path : Constant} {isLocal overwrite : Bool} {table : QualifiedName}
      {partition : Option Partition} {options : Option OptionList} {t : Token}
      {a b c d e f : List Token} (opens : t.kind = .keyword .LOAD) (words : Plain a)
      (isPath : ConstantRule path b) (moreWords : Plain c) (isTable : NameRule table d)
      (isPartition : Possible PartitionRule partition e)
      (areOptions : Possible OptionsRule options f) :
      LoadRule ⟨path, isLocal, overwrite, table, partition, options,
          Span.over (t :: a ++ b ++ c ++ d ++ e ++ f)⟩
        (t :: a ++ b ++ c ++ d ++ e ++ f)

/-- A statement of no other kind. -/
inductive VerbatimRule : Verbatim → List Token → Prop where
  | intro {t : Token} {ts : List Token} (valid : ∀ u ∈ t :: ts, u.kind ≠ .unrecognized) :
      VerbatimRule ⟨t.text.toUpper, t :: ts, Span.over (t :: ts)⟩ (t :: ts)

namespace Rules

variable (G : Rules)

/-- An export. -/
inductive ExportRule : Export → List Token → Prop where
  | intro {query : Query} {path : Constant} {format : Option Ident} {options : Option OptionList}
      {t : Token} {a b c d : List Token} (opens : t.kind = .keyword .EXPORT)
      (isQuery : G.query query a) (isPath : After (.keyword .TO) ConstantRule path b)
      (isFormat : Possible (After (.keyword .FORMAT) IdentRule) format c)
      (areOptions : Possible OptionsRule options d) :
      ExportRule ⟨query, path, format, options, Span.over (t :: a ++ b ++ c ++ d)⟩
        (t :: a ++ b ++ c ++ d)

/-- A statement. -/
inductive StatementRule : Statement → List Token → Prop where
  | merge {m : Merge} {u : List Token} (isMerge : MergeRule G m u) : StatementRule (.merge m) u
  | load {l : Load} {u : List Token} (isLoad : LoadRule l u) : StatementRule (.load l) u
  | exportRows {e : Export} {u : List Token} (isExport : ExportRule G e u) :
      StatementRule (.exportRows e) u
  | query {q : Query} {u : List Token} (isQuery : G.query q u) : StatementRule (.query q) u
  | verbatim {v : Verbatim} {u : List Token} (isVerbatim : VerbatimRule v u) :
      StatementRule (.verbatim v) u

/-- The statements of a script: each but the last with a semicolon behind it, and there may be
further semicolons. -/
inductive ScriptRule : List Node → List Token → Prop where
  | nil : ScriptRule [] []
  | skip {ns : List Node} {t : Token} {u : List Token} (separator : t.kind = .semicolon)
      (others : ScriptRule ns u) : ScriptRule ns (t :: u)
  | last {s : Statement} {u : List Token} (only : StatementRule G s u) :
      ScriptRule [.statement s] u
  | more {s : Statement} {ns : List Node} {t : Token} {u v : List Token}
      (first : StatementRule G s u) (separator : t.kind = .semicolon)
      (others : ScriptRule ns v) : ScriptRule (.statement s :: ns) (u ++ t :: v)

/-- A statement, with a semicolon behind it or without. -/
inductive SoleRule : Statement → List Token → Prop where
  | bare {s : Statement} {u : List Token} (only : StatementRule G s u) : SoleRule s u
  | ended {s : Statement} {t : Token} {u : List Token} (only : StatementRule G s u)
      (ending : t.kind = .semicolon) : SoleRule s (u ++ [t])

end Rules

end SqlFront.Grammar
