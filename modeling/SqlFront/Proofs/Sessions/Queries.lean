import SqlFront.Proofs.Grammar.QueryObeys
import SqlFront.Proofs.Sessions.Expressions

/-!
# Queries in sessions

The routines for queries, and the calls.  A parenthesised relation at the right of a join opens no
level, so the routine for relations calls itself; it has taken the parenthesis by then.
-/

namespace SqlFront

namespace Routine

open Production Grammar

variable (calls : Calls)

/-! ### Relations -/

/-- A relation between parentheses or by name. -/
def primaryWith (relation : Position → Routine Relation) : Routine Primary := do
  let start ← here
  if ← nextIs .leftParen then
    if beginsQuery (← peekAt .second).kind then
      let _ ← advance
      let q ← queryToParen calls
      let label ← label?
      return .subquery q label (← spanFrom start)
    else
      let _ ← advance
      let r ← relation (← here)
      let _ ← expect .rightParen
      return .nested r
  else
    let name ← qualifiedName
    let label ← label?
    return .table name label (← spanFrom start)

/-- The rows that a join keeps, if that is said; a natural join does not say it. -/
def criterion? (natural : Bool) : Routine (Option Criterion) := do
  if natural then return none
  else if ← accept (.keyword .ON) then return some (.condition (← calls.expression))
  else if ← accept (.keyword .USING) then return some (.columns (← identList))
  else return none

/-- A join of the relation that `primary` reads, if one follows. -/
def joinWith? (primary : Routine Primary) : Routine (Option Join) := do
  let start ← here
  let natural ← accept (.keyword .NATURAL)
  match ← joinKind? natural with
  | none => return none
  | some kind =>
    let _ ← expect (.keyword .JOIN)
    let relation ← primary
    let criterion ← criterion? calls natural
    return some ⟨kind, natural, relation, criterion, ← spanFrom start⟩

/-- A relation one level further in and the relations joined to it at this level, which
`primary` reads. -/
def relationWith (primary : Routine Primary) (start : Position) : Routine Relation := do
  let first ← calls.primary
  let joins ← collect (joinWith? calls primary)
  return ⟨first, joins, ← spanFrom start⟩

/-- A relation by name or between parentheses. -/
def primary : Routine Primary := recur fun again => primaryWith calls (relationWith calls again)

/-- A relation that is joined, if one follows. -/
def join? : Routine (Option Join) := joinWith? calls (primary calls)

/-- A relation with the relations joined to it. -/
def relation : Routine Relation := do
  relationWith calls (primary calls) (← here)

/-! ### Selections -/

/-- A selected expression. -/
def selectItem : Routine SelectItem := do
  let start ← here
  let value ← calls.expression
  let label ← label?
  return ⟨value, label, ← spanFrom start⟩

/-- One of several groupings: expressions between parentheses, or one expression. -/
def groupingSet : Routine (List Expression) := do
  if ← nextAre .leftParen .rightParen then
    let _ ← advance
    let _ ← advance
    return []
  else
    let e ← calls.expression
    match e.form with
    | .row items => return items
    | .nested single => return [single]
    | _ => return [e]

/-- How rows are grouped, after the expressions that they are grouped by. -/
def groupingKind : Routine Grouping := do
  if ← accept (.keyword .WITH) then
    if ← accept (.keyword .ROLLUP) then return .rollup
    else if ← accept (.keyword .CUBE) then return .cube
    else expected (α := Grouping) "'ROLLUP' or 'CUBE'"
  else if ← accept (.keyword .GROUPING) then
    let _ ← expect (.keyword .SETS)
    let _ ← expect .leftParen
    let sets ← commaList (groupingSet calls)
    let _ ← expect .rightParen
    return .sets sets
  else return .plain

/-- The expressions that rows are grouped by, if that is said. -/
def groupBy? : Routine (Option GroupBy) := do
  let start ← here
  afterToken? (.keyword .GROUP) do
    let _ ← expect (.keyword .BY)
    let keys ← commaList calls.expression
    let grouping ← groupingKind calls
    return ⟨keys, grouping, ← spanFrom start⟩

/-- The relations that rows are selected from, if that is said. -/
def relations : Routine (List Relation) := do
  if ← accept (.keyword .FROM) then commaList (relation calls) else return []

/-- A selection. -/
def select : Routine Select := do
  let start ← here
  let _ ← expect (.keyword .SELECT)
  let quantifier ← quantifier?
  let items ← commaList (selectItem calls)
  let relations ← relations calls
  let condition ← afterToken? (.keyword .WHERE) calls.expression
  let grouping ← groupBy? calls
  let having ← afterToken? (.keyword .HAVING) calls.expression
  return ⟨quantifier, items, relations, condition, grouping, having, ← spanFrom start⟩

/-! ### Set operators -/

/-- A body without set operators, or one between parentheses. -/
def simpleBody : Routine Body := do
  let t ← peek
  let start := t.span.start
  match t.kind with
  | .keyword .SELECT => return .select (← select calls)
  | .keyword .TABLE =>
    let _ ← advance
    let name ← qualifiedName
    return .table name (← spanFrom start)
  | .keyword .VALUES =>
    let _ ← advance
    let rows ← commaList calls.expression
    return .values rows (← spanFrom start)
  | .leftParen =>
    let _ ← advance
    let q ← queryToParen calls
    return .nested { q with span := ← spanFrom start }
  | _ => expected (α := Body) "query"

/-- A set operator that `op?` knows and a further operand, if such an operator follows. -/
def combinationRound (op? : Kind → Option SetOp) (start : Position) (operand : Routine Body)
    (left : Body) : Routine (Body ⊕ Body) := do
  match op? (← peek).kind with
  | some op =>
    let _ ← advance
    let quantifier ← quantifier?
    let right ← operand
    let region ← spanFrom start
    return .inl (.combination op quantifier left right region)
  | none => return .inr left

/-- Operands with the set operators that `op?` knows between them. -/
def combined (op? : Kind → Option SetOp) (operand : Routine Body) : Routine Body := do
  let start ← here
  loop (combinationRound op? start operand) (← operand)

/-- Bodies with `INTERSECT` between them. -/
def intersection : Routine Body := combined Rules.intersect? (simpleBody calls)

/-- The body of a query. -/
def body : Routine Body := combined SetOp.ofKind? (intersection calls)

/-! ### Whole queries -/

/-- An expression that rows are ordered by. -/
def sortItem : Routine SortItem := do
  let start ← here
  let key ← calls.expression
  let ascending ← ascending?
  let nullsFirst ← Production.afterToken? (.keyword .NULLS) do
    if ← accept (.keyword .FIRST) then return true
    else if ← accept (.keyword .LAST) then return false
    else expected "'FIRST' or 'LAST'"
  return ⟨key, ascending, nullsFirst, ← spanFrom start⟩

/-- A query with a name for the queries after it. -/
def namedQuery : Routine NamedQuery := do
  let start ← here
  let name ← ident
  let columns ← columns
  let _ ← accept (.keyword .AS)
  let _ ← expect .leftParen
  let q ← queryToParen calls
  return ⟨name, columns, q, ← spanFrom start⟩

/-- The named queries before a body, if there are some. -/
def namedQueries : Routine (List NamedQuery) := do
  if ← accept (.keyword .WITH) then commaList (namedQuery calls) else return []

/-- The expressions that rows are ordered by, if that is said. -/
def order : Routine (List SortItem) := do
  if ← accept (.keyword .ORDER) then
    let _ ← expect (.keyword .BY)
    commaList (sortItem calls)
  else return []

/-- A query. -/
def query : Routine Query := do
  let start ← here
  let named ← namedQueries calls
  let body ← body calls
  let order ← order calls
  let limit ← afterToken? (.keyword .LIMIT) calls.expression
  return ⟨named, body, order, limit, ← spanFrom start⟩

/-! ### Rounds of set operators -/

/-- A round of set operators, as a production. -/
def combinationRoundOf (op? : Kind → Option SetOp) (start : Position) (operand : Production Body)
    (left : Body) : Production (Body ⊕ Body) := do
  match op? (← peek).kind with
  | some op =>
    let _ ← advance
    let quantifier ← quantifier?
    let right ← operand
    let region ← spanFrom start
    return .inl (.combination op quantifier left right region)
  | none => return .inr left

theorem combinations_succ (op? : Kind → Option SetOp) (start : Position)
    (operand : Production Body) (n : Nat) (left : Body) :
  combinations op? start operand (n + 1) left =
    combinationRoundOf op? start operand left >>= Sum.elim (combinations op? start operand n) pure
  := by
  rw [combinations, combinationRoundOf, Production.bind_assoc]
  apply congrArg (peek >>= ·)
  funext t
  cases op? t.kind with
  | none => rfl
  | some op =>
      simp only [Production.bind_assoc]
      rfl

theorem combinationRoundOf_advances {op? : Kind → Option SetOp} (heof : op? .eof = none)
    (start : Position) (operand : Production Body) (left : Body) :
  (combinationRoundOf op? start operand left).Advances
  := by
  intro s a s' hreads
  obtain ⟨t, m, hpeek, hrest⟩ := reads_bind.mp hreads
  obtain ⟨ht, rfl⟩ := reads_peek.mp hpeek
  split at hrest
  · next op hop =>
      apply length_lt_of_advance ht _ hrest
      intro hkind
      rw [hkind, heof] at hop
      contradiction
  · simp at hrest

end Routine

/-! ### Calls -/

namespace Calls

/-- Calls that are not made. -/
def stuck : Calls :=
  ⟨fun _ => none, fun _ => none, fun _ => none, fun _ => none, fun _ => none, fun _ => none⟩

/-- The calls of the level in which those given are made. -/
def around (calls : Calls) : Calls where
  expression := (Routine.expression calls).nested
  negation := (Routine.negation calls).nested
  signed := (Routine.signed calls).nested
  query := (Routine.query calls).nested
  primary := (Routine.primary calls).nested
  dataType := (Routine.dataType calls).nested

/-- Calls that may be made within each other up to `n` times. -/
def upTo : Nat → Calls
  | 0 => stuck
  | n + 1 => around (upTo n)

/-- The calls of the outermost level.  The deepest level is reached before they are used up. -/
def outermost : Calls := upTo (Grammar.maxNesting + 1)

end Calls

/-! ### Productions -/

namespace Routine

open Production

variable {calls : Calls} {depth limit : Nat} {inner : Grammar.Inner} {words : Bool}

theorem combinationRound_performs {op? : Kind → Option SetOp} (start : Position)
    {operand : Routine Body} {operand' : Production Body}
    (h : operand.Performs depth words limit operand') (left : Body) :
  (combinationRound op? start operand left).Performs depth words limit
    (combinationRoundOf op? start operand' left)
  := by
  apply performs_lift_bind
  intro t
  split
  · apply performs_lift_bind
    intro _
    apply performs_lift_bind
    intro quantifier
    apply Performs.bind h
    intro right
    apply performs_lift_bind
    intro region
    apply performs_pure
  · apply performs_pure

theorem combined_performs {op? : Kind → Option SetOp} (heof : op? .eof = none)
    {operand : Routine Body} {operand' : Production Body}
    (h : operand.Performs depth words limit operand') {n : Nat} (hn : limit ≤ n) :
  (combined op? operand).Performs depth words limit (Grammar.combined n op? operand')
  := by
  apply performs_lift_bind
  intro start
  apply Performs.bind h
  intro left
  apply Performs.loop (combinationRound_performs start h)
    (combinationRoundOf_advances heof start operand') (combinations_succ op? start operand') hn

variable (hin : calls.Perform depth limit inner)

include hin

/-! ### Relations -/

/-- What stands between parentheses is read with fewer tokens left. -/
theorem primaryWith_performs {m : Nat} (hm : m < limit) {relation : Position → Routine Relation}
    {relation' : Position → Production Relation}
    (h : ∀ start, (relation start).Performs depth words m (relation' start)) :
  (primaryWith calls relation).Performs depth words (m + 1) (Grammar.primaryWith inner relation')
  := by
  apply performs_lift_bind
  intro start
  apply performs_nextIs_bind_ite
  · apply performs_peekAt_bind
    intro t
    apply performs_ite
    · apply performs_advance_bind (by simp)
      intro _
      apply Performs.bind (queryToParen_performs (hin.mono (Nat.le_of_lt hm)))
      intro q
      apply performs_lift_bind
      intro label
      apply performs_lift_bind
      intro region
      apply performs_pure
    · apply performs_advance_bind (by simp)
      intro _
      apply performs_lift_bind
      intro start
      apply Performs.bind (h start)
      intro r
      apply performs_lift_bind
      intro _
      apply performs_pure
  · apply Performs.bind (qualifiedName_performs (Nat.le_trans hm hin.bound))
    intro name
    apply performs_lift_bind
    intro label
    apply performs_lift_bind
    intro region
    apply performs_pure

theorem criterion?_performs (natural : Bool) :
  (criterion? calls natural).Performs depth words limit (Grammar.criterion? inner natural)
  := by
  apply performs_ite (performs_pure _)
  apply Performs.bind_ite (performs_lift _)
  · apply (hin.expression words).map
  · apply Performs.bind_ite (performs_lift _) _ (performs_pure _)
    apply (identList_performs hin.bound).map

theorem joinWith?_performs {primary : Routine Primary} {primary' : Production Primary}
    (h : primary.Performs depth words limit primary') :
  (joinWith? calls primary).Performs depth words limit (Grammar.joinWith? inner primary')
  := by
  apply performs_lift_bind
  intro start
  apply performs_lift_bind
  intro natural
  apply performs_lift_bind
  intro kind?
  cases kind? with
  | none => apply performs_pure
  | some kind =>
      apply performs_lift_bind
      intro _
      apply Performs.bind h
      intro relation
      apply Performs.bind (criterion?_performs hin natural)
      intro criterion
      apply performs_lift_bind
      intro region
      apply performs_pure

theorem relationWith_performs {primary : Routine Primary} {primary' : Production Primary}
    (h : primary.Performs depth words limit primary') (start : Position) :
  (relationWith calls primary start).Performs depth words limit
    (Grammar.relationWith inner primary' start)
  := by
  apply Performs.bind (hin.primary words)
  intro first
  apply Performs.bind
    (Performs.collect (joinWith?_performs hin h) (Grammar.joinWith?_progresses _ _) hin.bound)
  intro joins
  apply performs_lift_bind
  intro region
  apply performs_pure

/-- The routine calls itself behind a parenthesis that it has taken. -/
theorem primary_performs :
  (primary calls).Performs depth words limit (Grammar.primary inner)
  := by
  rw [Grammar.primary]
  apply Performs.recur _ hin.bound
  intro m n again hm hagain
  apply primaryWith_performs hin hm
  intro start
  apply relationWith_performs (hin.mono (Nat.le_of_lt hm)) hagain

theorem join?_performs :
  (join? calls).Performs depth words limit (Grammar.joinWith? inner (Grammar.primary inner))
  := joinWith?_performs hin (primary_performs hin)

theorem relation_performs :
  (relation calls).Performs depth words limit (Grammar.relation inner)
  := by
  apply performs_lift_bind
  intro start
  apply relationWith_performs hin (primary_performs hin)

/-! ### Selections -/

theorem selectItem_performs :
  (selectItem calls).Performs depth words limit (Grammar.selectItem inner)
  := by
  apply performs_lift_bind
  intro start
  apply Performs.bind (hin.expression words)
  intro value
  apply performs_lift_bind
  intro label
  apply performs_lift_bind
  intro region
  apply performs_pure

theorem groupingSet_performs :
  (groupingSet calls).Performs depth words limit (Grammar.groupingSet inner)
  := by
  apply Performs.bind_ite (performs_lift _)
  · apply performs_lift_bind
    intro _
    apply performs_lift_bind
    intro _
    apply performs_pure
  · apply Performs.bind (hin.expression words)
    intro e
    apply PerformsOn.of_forall_eq
    intro q hq
    split
    all_goals
      simp only [*] at hq
      subst hq
    all_goals apply performs_pure

theorem groupingKind_performs :
  (groupingKind calls).Performs depth words limit (Grammar.groupingKind inner)
  := by
  apply Performs.bind_ite (performs_lift _)
  · apply Performs.bind_ite (performs_lift _) (performs_pure _)
    apply Performs.bind_ite (performs_lift _) (performs_pure _) (performs_lift _)
  · apply Performs.bind_ite (performs_lift _) _ (performs_pure _)
    apply performs_lift_bind
    intro _
    apply performs_lift_bind
    intro _
    apply Performs.bind (Performs.commaList (groupingSet_performs hin) hin.bound)
    intro sets
    apply performs_lift_bind
    intro _
    apply performs_pure

theorem groupBy?_performs :
  (groupBy? calls).Performs depth words limit (Grammar.groupBy? inner)
  := by
  apply performs_lift_bind
  intro start
  apply Performs.afterToken?
  apply performs_lift_bind
  intro _
  apply Performs.bind (Performs.commaList (hin.expression words) hin.bound)
  intro keys
  apply Performs.bind (groupingKind_performs hin)
  intro grouping
  apply performs_lift_bind
  intro region
  apply performs_pure

theorem relations_performs :
  (relations calls).Performs depth words limit (Grammar.relations inner)
  := by
  apply Performs.bind_ite (performs_lift _) _ (performs_pure _)
  apply Performs.commaList (relation_performs hin) hin.bound

theorem select_performs :
  (select calls).Performs depth words limit (Grammar.select inner)
  := by
  apply performs_lift_bind
  intro start
  apply performs_lift_bind
  intro _
  apply performs_lift_bind
  intro quantifier
  apply Performs.bind (Performs.commaList (selectItem_performs hin) hin.bound)
  intro items
  apply Performs.bind (relations_performs hin)
  intro relations
  apply Performs.bind ((hin.expression words).afterToken? _)
  intro condition
  apply Performs.bind (groupBy?_performs hin)
  intro grouping
  apply Performs.bind ((hin.expression words).afterToken? _)
  intro having
  apply performs_lift_bind
  intro region
  apply performs_pure

/-! ### Set operators -/

theorem simpleBody_performs :
  (simpleBody calls).Performs depth words limit (Grammar.simpleBody inner)
  := by
  apply performs_lift_bind
  intro t
  apply PerformsOn.of_forall_eq
  intro q hq
  split
  all_goals
    simp only [*] at hq
    subst hq
  · apply (select_performs hin).map
  · apply performs_lift_bind
    intro _
    apply Performs.bind (qualifiedName_performs hin.bound)
    intro name
    apply performs_lift_bind
    intro region
    apply performs_pure
  · apply performs_lift_bind
    intro _
    apply Performs.bind (Performs.commaList (hin.expression words) hin.bound)
    intro rows
    apply performs_lift_bind
    intro region
    apply performs_pure
  · apply performs_lift_bind
    intro _
    apply Performs.bind (queryToParen_performs hin)
    intro q
    apply performs_lift_bind
    intro region
    apply performs_pure
  · apply performs_lift

theorem intersection_performs :
  (intersection calls).Performs depth words limit
    (Grammar.combined inner.bound Grammar.Rules.intersect? (Grammar.simpleBody inner))
  := combined_performs rfl (simpleBody_performs hin) hin.bound

theorem body_performs :
  (body calls).Performs depth words limit (Grammar.body inner)
  := combined_performs rfl (intersection_performs hin) hin.bound

/-! ### Whole queries -/

theorem sortItem_performs :
  (sortItem calls).Performs depth words limit (Grammar.sortItem inner)
  := by
  apply performs_lift_bind
  intro start
  apply Performs.bind (hin.expression words)
  intro key
  apply performs_lift_bind
  intro ascending
  apply performs_lift_bind
  intro nullsFirst
  apply performs_lift_bind
  intro region
  apply performs_pure

theorem namedQuery_performs :
  (namedQuery calls).Performs depth words limit (Grammar.namedQuery inner)
  := by
  apply performs_lift_bind
  intro start
  apply performs_lift_bind
  intro name
  apply Performs.bind (columns_performs hin.bound)
  intro columns
  apply performs_lift_bind
  intro _
  apply performs_lift_bind
  intro _
  apply Performs.bind (queryToParen_performs hin)
  intro q
  apply performs_lift_bind
  intro region
  apply performs_pure

theorem namedQueries_performs :
  (namedQueries calls).Performs depth words limit (Grammar.namedQueries inner)
  := by
  apply Performs.bind_ite (performs_lift _) _ (performs_pure _)
  apply Performs.commaList (namedQuery_performs hin) hin.bound

theorem order_performs :
  (order calls).Performs depth words limit (Grammar.order inner)
  := by
  apply Performs.bind_ite (performs_lift _) _ (performs_pure _)
  apply performs_lift_bind
  intro _
  apply Performs.commaList (sortItem_performs hin) hin.bound

theorem query_performs :
  (query calls).Performs depth words limit (Grammar.query inner)
  := by
  apply performs_lift_bind
  intro start
  apply Performs.bind (namedQueries_performs hin)
  intro named
  apply Performs.bind (body_performs hin)
  intro body
  apply Performs.bind (order_performs hin)
  intro order
  apply Performs.bind ((hin.expression words).afterToken? _)
  intro limit
  apply performs_lift_bind
  intro region
  apply performs_pure

end Routine

/-! ### Levels -/

namespace Calls

open Grammar

variable {calls : Calls} {depth limit bound : Nat}

/-- Of the levels up to the deepest one, those are left that are not open. -/
theorem around_perform (hbound : limit ≤ bound)
    (h : depth < maxNesting →
      calls.Perform (depth + 1) limit (Inner.nested bound (maxNesting - (depth + 1)))) :
  calls.around.Perform depth limit (Inner.nested bound (maxNesting - depth))
  := by
  rcases Nat.lt_or_ge depth maxNesting with hlt | hge
  · have hinner := h hlt
    have hlevels : maxNesting - depth = maxNesting - (depth + 1) + 1 := by omega
    rw [hlevels]
    exact
      { bound := hbound
        expression words := (Routine.expression_performs hinner).nested hlt
        negation words := (Routine.negation_performs hinner).nested hlt
        signed words := (Routine.signed_performs hinner).nested hlt
        query words := (Routine.query_performs hinner).nested hlt
        primary words := (Routine.primary_performs hinner).nested hlt
        dataType words := (Routine.dataType_performs hinner).nested hlt }
  · rw [Nat.sub_eq_zero_of_le hge]
    exact
      { bound := hbound
        expression words := Routine.performs_nested_tooDeep hge
        negation words := Routine.performs_nested_tooDeep hge
        signed words := Routine.performs_nested_tooDeep hge
        query words := Routine.performs_nested_tooDeep hge
        primary words := Routine.performs_nested_tooDeep hge
        dataType words := Routine.performs_nested_tooDeep hge }

theorem upTo_perform (hbound : limit ≤ bound) {n : Nat} (hn : 0 < n)
    (hdepth : maxNesting < depth + n) :
  (upTo n).Perform depth limit (Inner.nested bound (maxNesting - depth))
  := by
  induction n generalizing depth with
  | zero => contradiction
  | succ n ih =>
      apply around_perform hbound
      intro hlt
      apply ih <;> omega

/-- The calls of the outermost level are not used up, whatever the level. -/
theorem outermost_perform (hbound : limit ≤ bound) (depth : Nat) :
  outermost.Perform depth limit (Inner.nested bound (maxNesting - depth))
  := upTo_perform hbound (Nat.succ_pos _) (by omega)

end Calls

end SqlFront
