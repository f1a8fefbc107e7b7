import SqlFront.Grammar.Expression

/-!
# Queries

The productions for queries: named queries, the set operators, selections, relations and
their joins, orders and limits.  `INTERSECT` binds tighter than `UNION`, `EXCEPT` and
`MINUS`, and all of them associate to the left.

`Inner.nested` builds the productions of each level of nesting from those one level further
in.  A parenthesised relation at the right of a join opens no level of its own, so relations
have a bound on their parentheses beside the levels.
-/

namespace SqlFront

/-- The loosely binding set operator that a token of some kind stands for. -/
def SetOp.ofKind? : Kind → Option SetOp
  | .keyword .UNION => some .union
  | .keyword .EXCEPT => some .except
  | .keyword .MINUS => some .except
  | _ => none

namespace Grammar

open Production

/-- Which rows are kept, if that is said. -/
def quantifier? : Production (Option Quantifier) := do
  if ← accept (.keyword .DISTINCT) then return some .distinct
  else if ← accept (.keyword .ALL) then return some .all
  else return none

/-! ### Relations -/

/-- A relation between parentheses or by name.  `relation` is the production for what stands
between parentheses, given where that starts. -/
def primaryWith (inner : Inner) (relation : Position → Production Relation) :
    Production Primary := do
  let start ← here
  if ← nextIs .leftParen then
    if beginsQuery (← peekAt .second).kind then
      let _ ← advance
      let q ← queryToParen inner
      let label ← label?
      return .subquery q label (← spanFrom start)
    else
      let _ ← advance
      let r ← relation (← here)
      let _ ← expect .rightParen
      return .nested r
  else
    let name ← qualifiedName inner.bound
    let label ← label?
    return .table name label (← spanFrom start)

/-- How the next relation is joined, if one is: the words before `JOIN`. -/
def joinKind? (natural : Bool) : Production (Option JoinKind) := do
  match (← peek).kind with
  | .keyword .JOIN => return some .inner
  | .keyword .INNER =>
    let _ ← advance
    return some .inner
  | .keyword .CROSS =>
    let _ ← advance
    return some .cross
  | .keyword .LEFT =>
    let _ ← advance
    if ← accept (.keyword .SEMI) then return some .leftSemi
    else if ← accept (.keyword .ANTI) then return some .leftAnti
    else
      let _ ← accept (.keyword .OUTER)
      return some .leftOuter
  | .keyword .RIGHT =>
    let _ ← advance
    let _ ← accept (.keyword .OUTER)
    return some .rightOuter
  | .keyword .FULL =>
    let _ ← advance
    let _ ← accept (.keyword .OUTER)
    return some .fullOuter
  | .keyword .SEMI =>
    let _ ← advance
    return some .leftSemi
  | .keyword .ANTI =>
    let _ ← advance
    return some .leftAnti
  | _ => if natural then expected "'JOIN'" else return none

/-- The rows that a join keeps, if that is said; a natural join does not say it. -/
def criterion? (inner : Inner) (natural : Bool) : Production (Option Criterion) := do
  if natural then return none
  else if ← accept (.keyword .ON) then return some (.condition (← inner.expression))
  else if ← accept (.keyword .USING) then return some (.columns (← identList inner.bound))
  else return none

/-- A join of the relation that `primary` reads, if one follows. -/
def joinWith? (inner : Inner) (primary : Production Primary) : Production (Option Join) := do
  let start ← here
  let natural ← accept (.keyword .NATURAL)
  match ← joinKind? natural with
  | none => return none
  | some kind =>
    let _ ← expect (.keyword .JOIN)
    let relation ← primary
    let criterion ← criterion? inner natural
    return some ⟨kind, natural, relation, criterion, ← spanFrom start⟩

/-- A relation one level further in and the relations joined to it at this level, which
`primary` reads.  The whole starts at `start`. -/
def relationWith (inner : Inner) (primary : Production Primary) (start : Position) :
    Production Relation := do
  let first ← inner.primary
  let joins ← collect (joinWith? inner primary) inner.bound []
  return ⟨first, joins, ← spanFrom start⟩

/-- A relation by name or between parentheses, with at most `n` parentheses that open no
level. -/
def primaryUpTo (inner : Inner) : Nat → Production Primary
  | 0 => fail fun _ => .tooLong
  | n + 1 => primaryWith inner fun start => relationWith inner (primaryUpTo inner n) start

/-- A relation by name or between parentheses. -/
def primary (inner : Inner) : Production Primary := primaryUpTo inner inner.bound

/-- A relation with the relations joined to it. -/
def relation (inner : Inner) : Production Relation := do
  relationWith inner (primary inner) (← here)

/-! ### Selections -/

/-- A selected expression. -/
def selectItem (inner : Inner) : Production SelectItem := do
  let start ← here
  let value ← inner.expression
  let label ← label?
  return ⟨value, label, ← spanFrom start⟩

/-- One of several groupings: expressions between parentheses, or one expression. -/
def groupingSet (inner : Inner) : Production (List Expression) := do
  if ← nextAre .leftParen .rightParen then
    let _ ← advance
    let _ ← advance
    return []
  else
    let e ← inner.expression
    match e.form with
    | .row items => return items
    | .nested single => return [single]
    | _ => return [e]

/-- How rows are grouped, after the expressions that they are grouped by. -/
def groupingKind (inner : Inner) : Production Grouping := do
  if ← accept (.keyword .WITH) then
    if ← accept (.keyword .ROLLUP) then return .rollup
    else if ← accept (.keyword .CUBE) then return .cube
    else expected "'ROLLUP' or 'CUBE'"
  else if ← accept (.keyword .GROUPING) then
    let _ ← expect (.keyword .SETS)
    let _ ← expect .leftParen
    let sets ← commaList inner.bound (groupingSet inner)
    let _ ← expect .rightParen
    return .sets sets
  else return .plain

/-- The expressions that rows are grouped by, if that is said. -/
def groupBy? (inner : Inner) : Production (Option GroupBy) := do
  let start ← here
  afterToken? (.keyword .GROUP) do
    let _ ← expect (.keyword .BY)
    let keys ← commaList inner.bound inner.expression
    let grouping ← groupingKind inner
    return ⟨keys, grouping, ← spanFrom start⟩

/-- The relations that rows are selected from, if that is said. -/
def relations (inner : Inner) : Production (List Relation) := do
  if ← accept (.keyword .FROM) then commaList inner.bound (relation inner) else return []

/-- A selection. -/
def select (inner : Inner) : Production Select := do
  let start ← here
  let _ ← expect (.keyword .SELECT)
  let quantifier ← quantifier?
  let items ← commaList inner.bound (selectItem inner)
  let relations ← relations inner
  let condition ← afterToken? (.keyword .WHERE) inner.expression
  let grouping ← groupBy? inner
  let having ← afterToken? (.keyword .HAVING) inner.expression
  return ⟨quantifier, items, relations, condition, grouping, having, ← spanFrom start⟩

/-! ### Set operators -/

/-- A body without set operators, or one between parentheses. -/
def simpleBody (inner : Inner) : Production Body := do
  let t ← peek
  let start := t.span.start
  match t.kind with
  | .keyword .SELECT => return .select (← select inner)
  | .keyword .TABLE =>
    let _ ← advance
    let name ← qualifiedName inner.bound
    return .table name (← spanFrom start)
  | .keyword .VALUES =>
    let _ ← advance
    let rows ← commaList inner.bound inner.expression
    return .values rows (← spanFrom start)
  | .leftParen =>
    let _ ← advance
    let q ← queryToParen inner
    return .nested { q with span := ← spanFrom start }
  | _ => expected "query"

/-- The body `left`, and as long as a set operator that `op?` knows follows, that operator
and a further operand. -/
def combinations (op? : Kind → Option SetOp) (start : Position) (operand : Production Body) :
    Nat → Body → Production Body
  | 0, _ => fail fun _ => .tooLong
  | n + 1, left => do
    match op? (← peek).kind with
    | some op =>
      let _ ← advance
      let quantifier ← quantifier?
      let right ← operand
      let region ← spanFrom start
      combinations op? start operand n (.combination op quantifier left right region)
    | none => return left

/-- Operands with the set operators that `op?` knows between them. -/
def combined (bound : Nat) (op? : Kind → Option SetOp) (operand : Production Body) :
    Production Body := do
  let start ← here
  combinations op? start operand bound (← operand)

/-- The body of a query. -/
def body (inner : Inner) : Production Body :=
  combined inner.bound SetOp.ofKind? <|
    combined inner.bound (fun k => if k = .keyword .INTERSECT then some .intersect else none)
      (simpleBody inner)

/-! ### Whole queries -/

/-- Whether an order ascends, if that is said. -/
def ascending? : Production (Option Bool) := do
  if ← accept (.keyword .ASC) then return some true
  else if ← accept (.keyword .DESC) then return some false
  else return none

/-- An expression that rows are ordered by. -/
def sortItem (inner : Inner) : Production SortItem := do
  let start ← here
  let key ← inner.expression
  let ascending ← ascending?
  let nullsFirst ← afterToken? (.keyword .NULLS) do
    if ← accept (.keyword .FIRST) then return true
    else if ← accept (.keyword .LAST) then return false
    else expected "'FIRST' or 'LAST'"
  return ⟨key, ascending, nullsFirst, ← spanFrom start⟩

/-- A query with a name for the queries after it. -/
def namedQuery (inner : Inner) : Production NamedQuery := do
  let start ← here
  let name ← ident
  let columns ← columns inner.bound
  let _ ← accept (.keyword .AS)
  let _ ← expect .leftParen
  let q ← queryToParen inner
  return ⟨name, columns, q, ← spanFrom start⟩

/-- The named queries before a body, if there are some. -/
def namedQueries (inner : Inner) : Production (List NamedQuery) := do
  if ← accept (.keyword .WITH) then commaList inner.bound (namedQuery inner) else return []

/-- The expressions that rows are ordered by, if that is said. -/
def order (inner : Inner) : Production (List SortItem) := do
  if ← accept (.keyword .ORDER) then
    let _ ← expect (.keyword .BY)
    commaList inner.bound (sortItem inner)
  else return []

/-- A query. -/
def query (inner : Inner) : Production Query := do
  let start ← here
  let named ← namedQueries inner
  let body ← body inner
  let order ← order inner
  let limit ← afterToken? (.keyword .LIMIT) inner.expression
  return ⟨named, body, order, limit, ← spanFrom start⟩

/-- The productions that may be nested `levels` deep. -/
def Inner.nested (bound : Nat) : Nat → Inner
  | 0 => .tooDeep bound
  | levels + 1 =>
    let inner := Inner.nested bound levels
    { bound := bound
      expression := Grammar.expression inner
      negation := Grammar.negation inner
      signed := Grammar.signed inner
      query := Grammar.query inner
      primary := Grammar.primary inner
      dataType := Grammar.dataType inner }

/-- The productions of the outermost level. -/
def Inner.outermost (bound : Nat) : Inner := .nested bound maxNesting

end Grammar

end SqlFront
