import SqlFront.Proofs.Grammar.ExpressionTidy
import SqlFront.Proofs.Sessions.Names

/-!
# Expressions in sessions

The routines for expressions and types.  What is nested one level further in is called and not built
in: a routine gets the calls that it may make.
-/

namespace SqlFront

/-- The routines that go one level further in. -/
structure Calls where
  expression : Routine Expression
  negation : Routine Expression
  signed : Routine Expression
  query : Routine Query
  primary : Routine Primary
  dataType : Routine DataType

namespace Routine

open Production Grammar

variable (calls : Calls)

/-- Expressions with commas between them, up to and with the closing parenthesis. -/
def expressionsToParen : Routine (List Expression) := do
  let items ← commaList calls.expression
  let _ ← expect .rightParen
  return items

/-- A query and the closing parenthesis. -/
def queryToParen : Routine Query := do
  let q ← calls.query
  let _ ← expect .rightParen
  return q

/-! ### Primary expressions -/

/-- The expression that begins with a name. -/
def nameForm : Routine Form := do
  let name ← qualifiedName
  if ← nextAre .dot .asterisk then
    let _ ← advance
    let _ ← advance
    return .star (some name)
  else if ← accept .leftParen then
    let distinct ← accept (.keyword .DISTINCT)
    if !distinct then
      let _ ← accept (.keyword .ALL)
    if ← accept .rightParen then return .call name distinct []
    else return .call name distinct (← expressionsToParen calls)
  else return .column name

/-- The expression that begins with a parenthesis. -/
def parenForm : Routine Form := do
  if beginsQuery (← peekAt .second).kind then
    let _ ← advance
    return .subquery (← queryToParen calls)
  else
    let _ ← advance
    let first ← calls.expression
    if ← accept .rightParen then return .nested first
    else
      let _ ← expect .comma
      return .row (first :: (← expressionsToParen calls))

/-- A condition and its result, if `WHEN` follows. -/
def branch? : Routine (Option Branch) :=
  afterToken? (.keyword .WHEN) do
    let condition ← calls.expression
    let _ ← expect (.keyword .THEN)
    return ⟨condition, ← calls.expression⟩

/-- The operand of a choice between branches, if there is one. -/
def caseOperand? : Routine (Option Expression) := do
  if ← nextIs (.keyword .WHEN) then return none else some <$> calls.expression

/-- The choice between branches, with an operand or without one. -/
def caseForm : Routine Form := do
  let _ ← expect (.keyword .CASE)
  let operand ← caseOperand? calls
  let branches ← collect (branch? calls)
  if branches.isEmpty then expected (α := Form) "'WHEN'"
  else
    let otherwise ← afterToken? (.keyword .ELSE) calls.expression
    let _ ← expect (.keyword .END)
    return .case operand branches otherwise

/-- The conversion of an expression to a type. -/
def castForm (dataType : Routine DataType) : Routine Form := do
  let _ ← expect (.keyword .CAST)
  let _ ← expect .leftParen
  let subject ← calls.expression
  let _ ← expect (.keyword .AS)
  let type ← dataType
  let _ ← expect .rightParen
  return .cast subject type

/-- A type: an array, a map, or a name with parameters or without. -/
def dataType : Routine DataType := do
  let name := (← ident).value.toUpper
  let isArray ← opensAngle name "ARRAY"
  let isMap ← opensAngle name "MAP"
  if isArray then
    let element ← calls.dataType
    let _ ← expect .gt
    return .array element
  else if isMap then
    let key ← calls.dataType
    let _ ← expect .comma
    let value ← calls.dataType
    let _ ← expect .gt
    return .map key value
  else if ← accept .leftParen then
    let parameters ← commaList typeParameter
    let _ ← expect .rightParen
    return .primitive name parameters
  else return .primitive name []

/-- The primary expression that begins with the token `t`, which is the next one. -/
def primaryForm (t : Token) : Routine Form :=
  match t.kind with
  | .keyword .CURRENT_DATE => do
    let _ ← advance
    return .currentDate
  | .keyword .CURRENT_TIMESTAMP => do
    let _ ← advance
    return .currentTimestamp
  | .keyword .CASE => caseForm calls
  | .keyword .CAST => castForm calls (dataType calls)
  | .keyword .NULL => .literal <$> literal
  | .keyword .TRUE => .literal <$> literal
  | .keyword .FALSE => .literal <$> literal
  | .keyword .INTERVAL => .literal <$> literal
  | .string => .literal <$> literal
  | .number _ => .literal <$> literal
  | .asterisk => do
    let _ ← advance
    return .star none
  | .leftParen => parenForm calls
  | .identifier => do
    if (← peekAt .second).kind = .string then .literal <$> literal else nameForm calls
  | k => if k.isName then nameForm calls else expected (α := Form) "expression"

/-- A primary expression. -/
def primaryExpression : Routine Expression := do
  let t ← peek
  let form ← primaryForm calls t
  return ⟨form, ← spanFrom t.span.start⟩

/-! ### Operators -/

/-- A primary expression with signs before it. -/
def signed : Routine Expression := do
  let t ← peek
  match UnaryOp.ofKind? t.kind with
  | some op =>
    let _ ← advance
    let operand ← calls.signed
    return ⟨.unary op operand, ← spanFrom t.span.start⟩
  | none => primaryExpression calls

/-- An operator of the level and a further operand, if such an operator follows. -/
def operationRound (level : Nat) (operand : Routine Expression) (left : Expression) :
    Routine (Expression ⊕ Expression) := do
  match (BinaryOp.ofKind? (← peek).kind).filter (·.level = level) with
  | some op =>
    let _ ← advance
    let right ← operand
    return .inl (.binary op left right)
  | none => return .inr left

/-- Operands with operators of the level between them. -/
def atLevel (level : Nat) (operand : Routine Expression) : Routine Expression := do
  loop (operationRound level operand) (← operand)

/-- Operands with operators of several levels between them, those that bind tightest first. -/
def atLevels (levels : List Nat) (operand : Routine Expression) : Routine Expression :=
  levels.foldl (fun operand level => atLevel level operand) operand

/-- A comparison of operands made of bitwise and arithmetic operators. -/
def comparison : Routine Expression := atLevels [10, 9, 8, 7, 6, 5] (signed calls)

/-- What a predicate says of `subject` after the optional `NOT`, or nothing if no predicate
follows. -/
def predicateForm? (subject : Expression) (negated : Bool) : Routine (Option Form) := do
  match (← peek).kind with
  | .keyword .BETWEEN =>
    let _ ← advance
    let low ← comparison calls
    let _ ← expect (.keyword .AND)
    let high ← comparison calls
    return some (.between subject negated low high)
  | .keyword .IN =>
    let _ ← advance
    let _ ← expect .leftParen
    if beginsQuery (← peek).kind then
      return some (.inQuery subject negated (← queryToParen calls))
    else return some (.inList subject negated (← expressionsToParen calls))
  | .keyword .LIKE =>
    let _ ← advance
    return some (.like subject negated false (← comparison calls))
  | .keyword .RLIKE =>
    let _ ← advance
    return some (.like subject negated true (← comparison calls))
  | .keyword .IS =>
    let _ ← advance
    let negated ← accept (.keyword .NOT)
    let _ ← expect (.keyword .NULL)
    return some (.isNull subject negated)
  | _ => return none

/-- A comparison and at most one predicate on it. -/
def predicate : Routine Expression := do
  let start ← here
  let subject ← comparison calls
  let negated ← negated
  match ← predicateForm? calls subject negated with
  | some form => return ⟨form, ← spanFrom start⟩
  | none => return subject

/-- A predicate with `NOT` before it or without, or a test whether a query has rows. -/
def negation : Routine Expression := do
  let start ← here
  if ← accept (.keyword .NOT) then
    let operand ← calls.negation
    return ⟨.unary .not operand, ← spanFrom start⟩
  else if ← nextAre (.keyword .EXISTS) .leftParen then
    let _ ← advance
    let _ ← advance
    let q ← queryToParen calls
    return ⟨.exist q, ← spanFrom start⟩
  else predicate calls

/-- A conjunction. -/
def conjunction : Routine Expression := atLevel 2 (negation calls)

/-- An expression. -/
def expression : Routine Expression := atLevel 1 (conjunction calls)

/-! ### Rounds of operators -/

/-- A round of operators of a level, as a production. -/
def operationRoundOf (level : Nat) (operand : Production Expression) (left : Expression) :
    Production (Expression ⊕ Expression) := do
  match (BinaryOp.ofKind? (← peek).kind).filter (·.level = level) with
  | some op =>
    let _ ← advance
    let right ← operand
    return .inl (.binary op left right)
  | none => return .inr left

theorem operations_succ (level : Nat) (operand : Production Expression) (n : Nat)
    (left : Expression) :
  operations level operand (n + 1) left =
    operationRoundOf level operand left >>= Sum.elim (operations level operand n) pure
  := by
  rw [operations, operationRoundOf, Production.bind_assoc]
  apply congrArg (peek >>= ·)
  funext t
  cases (BinaryOp.ofKind? t.kind).filter (·.level = level) with
  | none => rfl
  | some op =>
      simp only [Production.bind_assoc]
      rfl

theorem operationRoundOf_advances (level : Nat) (operand : Production Expression)
    (left : Expression) :
  (operationRoundOf level operand left).Advances
  := by
  intro s a s' hreads
  obtain ⟨t, m, hpeek, hrest⟩ := reads_bind.mp hreads
  obtain ⟨ht, rfl⟩ := reads_peek.mp hpeek
  split at hrest
  · next op hop =>
      obtain ⟨hop, -⟩ := Option.filter_eq_some_iff.mp hop
      apply length_lt_of_advance ht (BinaryOp.ne_eof_of_ofKind? hop) hrest
  · simp at hrest

end Routine

/-! ### Productions -/

/-- The calls amount to the productions one level further in. -/
structure Calls.Perform (calls : Calls) (depth limit : Nat) (inner : Grammar.Inner) : Prop where
  bound : limit ≤ inner.bound
  expression (words : Bool) : calls.expression.Performs depth words limit inner.expression
  negation (words : Bool) : calls.negation.Performs depth words limit inner.negation
  signed (words : Bool) : calls.signed.Performs depth words limit inner.signed
  query (words : Bool) : calls.query.Performs depth words limit inner.query
  primary (words : Bool) : calls.primary.Performs depth words limit inner.primary
  dataType (words : Bool) : calls.dataType.Performs depth words limit inner.dataType

theorem Calls.Perform.mono {calls : Calls} {depth limit limit' : Nat} {inner : Grammar.Inner}
    (h : calls.Perform depth limit inner) (hle : limit' ≤ limit) :
  calls.Perform depth limit' inner
  where
  bound := Nat.le_trans hle h.bound
  expression words := (h.expression words).mono hle
  negation words := (h.negation words).mono hle
  signed words := (h.signed words).mono hle
  query words := (h.query words).mono hle
  primary words := (h.primary words).mono hle
  dataType words := (h.dataType words).mono hle

namespace Routine

open Production

variable {calls : Calls} {depth limit : Nat} {inner : Grammar.Inner} {words : Bool}

theorem operationRound_performs {operand : Routine Expression} {operand' : Production Expression}
    (h : operand.Performs depth words limit operand') (level : Nat) (left : Expression) :
  (operationRound level operand left).Performs depth words limit
    (operationRoundOf level operand' left)
  := by
  apply performs_lift_bind
  intro t
  split
  · apply performs_lift_bind
    intro _
    apply Performs.bind h
    intro right
    apply performs_pure
  · apply performs_pure

theorem atLevel_performs {operand : Routine Expression} {operand' : Production Expression}
    (h : operand.Performs depth words limit operand') (level : Nat) {n : Nat} (hn : limit ≤ n) :
  (atLevel level operand).Performs depth words limit (Grammar.atLevel n level operand')
  := by
  apply Performs.bind h
  intro left
  apply Performs.loop (operationRound_performs h level) (operationRoundOf_advances level operand')
    (operations_succ level operand') hn

theorem atLevels_performs {operand : Routine Expression} {operand' : Production Expression}
    (h : operand.Performs depth words limit operand') {n : Nat} (hn : limit ≤ n)
    (levels : List Nat) :
  (atLevels levels operand).Performs depth words limit
    (levels.foldl (fun operand level => Grammar.atLevel n level operand) operand')
  := by
  induction levels generalizing operand operand' with
  | nil => apply h
  | cons level levels ih => apply ih (atLevel_performs h level hn)

variable (hin : calls.Perform depth limit inner)

include hin

theorem expressionsToParen_performs :
  (expressionsToParen calls).Performs depth words limit (Grammar.expressionsToParen inner)
  := by
  apply Performs.bind (Performs.commaList (hin.expression words) hin.bound)
  intro items
  apply performs_lift_bind
  intro closing
  apply performs_pure

theorem queryToParen_performs :
  (queryToParen calls).Performs depth words limit (Grammar.queryToParen inner)
  := by
  apply Performs.bind (hin.query words)
  intro q
  apply performs_lift_bind
  intro closing
  apply performs_pure

/-! ### Primary expressions -/

theorem nameForm_performs :
  (nameForm calls).Performs depth words limit (Grammar.nameForm inner)
  := by
  have harguments : ∀ (name : QualifiedName) (distinct : Bool), Performs (do
      if ← accept .rightParen then return .call name distinct []
      else return .call name distinct (← expressionsToParen calls) : Routine Form)
      depth words limit (do
      if ← accept .rightParen then return .call name distinct []
      else return .call name distinct (← Grammar.expressionsToParen inner) : Production Form) := by
    intro name distinct
    apply Performs.bind_ite (performs_lift _) (performs_pure _)
    apply (expressionsToParen_performs hin).map
  apply Performs.bind (qualifiedName_performs hin.bound)
  intro name
  apply Performs.bind_ite (performs_lift _)
  · apply performs_lift_bind
    intro _
    apply performs_lift_bind
    intro _
    apply performs_pure
  · apply Performs.bind_ite (performs_lift _) _ (performs_pure _)
    apply performs_lift_bind
    intro distinct
    apply performs_ite
    · apply performs_lift_bind
      intro _
      apply harguments
    · apply harguments

theorem parenForm_performs :
  (parenForm calls).Performs depth words limit (Grammar.parenForm inner)
  := by
  apply performs_lift_bind
  intro t
  apply performs_ite
  · apply performs_lift_bind
    intro _
    apply (queryToParen_performs hin).map
  · apply performs_lift_bind
    intro _
    apply Performs.bind (hin.expression words)
    intro first
    apply Performs.bind_ite (performs_lift _) (performs_pure _)
    apply performs_lift_bind
    intro _
    apply (expressionsToParen_performs hin).map

theorem branch?_performs :
  (branch? calls).Performs depth words limit (Grammar.branch? inner)
  := by
  apply Performs.afterToken?
  apply Performs.bind (hin.expression words)
  intro condition
  apply performs_lift_bind
  intro _
  apply (hin.expression words).map

theorem caseOperand?_performs :
  (caseOperand? calls).Performs depth words limit (Grammar.caseOperand? inner)
  := by
  apply Performs.bind_ite (performs_lift _) (performs_pure _)
  apply (hin.expression words).map

theorem caseForm_performs :
  (caseForm calls).Performs depth words limit (Grammar.caseForm inner)
  := by
  have hbranches : (collect (branch? calls)).Performs depth words limit
      (Production.collect (Grammar.branch? inner) inner.bound []) :=
    Performs.collect (branch?_performs hin) (afterToken?_progresses (by simp) _) hin.bound
  apply performs_lift_bind
  intro _
  apply Performs.bind (caseOperand?_performs hin)
  intro operand
  apply Performs.bind hbranches
  intro branches
  apply performs_ite (performs_lift _)
  apply Performs.bind ((hin.expression words).afterToken? _)
  intro otherwise
  apply performs_lift_bind
  intro _
  apply performs_pure

theorem castForm_performs {dataType : Routine DataType} {dataType' : Production DataType}
    (h : dataType.Performs depth words limit dataType') :
  (castForm calls dataType).Performs depth words limit (Grammar.castForm inner dataType')
  := by
  apply performs_lift_bind
  intro _
  apply performs_lift_bind
  intro _
  apply Performs.bind (hin.expression words)
  intro subject
  apply performs_lift_bind
  intro _
  apply Performs.bind h
  intro type
  apply performs_lift_bind
  intro _
  apply performs_pure

theorem dataType_performs :
  (dataType calls).Performs depth words limit (Grammar.dataType inner)
  := by
  apply performs_lift_bind
  intro name
  apply performs_lift_bind
  intro isArray
  apply performs_lift_bind
  intro isMap
  apply performs_ite
  · apply Performs.bind (hin.dataType words)
    intro element
    apply performs_lift_bind
    intro _
    apply performs_pure
  · apply performs_ite
    · apply Performs.bind (hin.dataType words)
      intro key
      apply performs_lift_bind
      intro _
      apply Performs.bind (hin.dataType words)
      intro value
      apply performs_lift_bind
      intro _
      apply performs_pure
    · apply Performs.bind_ite (performs_lift _) _ (performs_pure _)
      apply Performs.bind (Performs.commaList (performs_lift _) hin.bound)
      intro parameters
      apply performs_lift_bind
      intro _
      apply performs_pure

theorem primaryForm_performs (t : Token) :
  (primaryForm calls t).Performs depth words limit (Grammar.primaryForm inner t)
  := by
  have hliteral : Performs (Form.literal <$> literal) depth words limit
      (Form.literal <$> Grammar.literal inner.bound) := (literal_performs hin.bound).map _
  rw [primaryForm, Grammar.primaryForm]
  apply PerformsOn.of_forall_eq
  intro q hq
  split
  all_goals
    simp only [*] at hq
    subst hq
  · apply performs_lift_bind
    intro _
    apply performs_pure
  · apply performs_lift_bind
    intro _
    apply performs_pure
  · apply caseForm_performs hin
  · apply castForm_performs hin (dataType_performs hin)
  · exact hliteral
  · exact hliteral
  · exact hliteral
  · exact hliteral
  · exact hliteral
  · exact hliteral
  · apply performs_lift_bind
    intro _
    apply performs_pure
  · apply parenForm_performs hin
  · apply performs_lift_bind
    intro u
    apply performs_ite hliteral (nameForm_performs hin)
  · apply performs_ite (nameForm_performs hin) (performs_lift _)

theorem primaryExpression_performs :
  (primaryExpression calls).Performs depth words limit (Grammar.primaryExpression inner)
  := by
  apply performs_lift_bind
  intro t
  apply Performs.bind (primaryForm_performs hin t)
  intro form
  apply performs_lift_bind
  intro region
  apply performs_pure

/-! ### Operators -/

theorem signed_performs :
  (signed calls).Performs depth words limit (Grammar.signed inner)
  := by
  apply performs_lift_bind
  intro t
  cases UnaryOp.ofKind? t.kind with
  | none => apply primaryExpression_performs hin
  | some op =>
      apply performs_lift_bind
      intro _
      apply Performs.bind (hin.signed words)
      intro operand
      apply performs_lift_bind
      intro region
      apply performs_pure

theorem comparison_performs :
  (comparison calls).Performs depth words limit (Grammar.comparison inner)
  := atLevels_performs (signed_performs hin) hin.bound _

theorem predicateForm?_performs (subject : Expression) (negated : Bool) :
  (predicateForm? calls subject negated).Performs depth words limit
    (Grammar.predicateForm? inner subject negated)
  := by
  apply performs_lift_bind
  intro t
  apply PerformsOn.of_forall_eq
  intro q hq
  split
  all_goals
    simp only [*] at hq
    subst hq
  · apply performs_lift_bind
    intro _
    apply Performs.bind (comparison_performs hin)
    intro low
    apply performs_lift_bind
    intro _
    apply (comparison_performs hin).map
  · apply performs_lift_bind
    intro _
    apply performs_lift_bind
    intro _
    apply performs_lift_bind
    intro u
    apply performs_ite
    · apply (queryToParen_performs hin).map
    · apply (expressionsToParen_performs hin).map
  · apply performs_lift_bind
    intro _
    apply (comparison_performs hin).map
  · apply performs_lift_bind
    intro _
    apply (comparison_performs hin).map
  · apply performs_lift_bind
    intro _
    apply performs_lift_bind
    intro negated
    apply performs_lift_bind
    intro _
    apply performs_pure
  · apply performs_pure

theorem predicate_performs :
  (predicate calls).Performs depth words limit (Grammar.predicate inner)
  := by
  apply performs_lift_bind
  intro start
  apply Performs.bind (comparison_performs hin)
  intro subject
  apply performs_lift_bind
  intro negated
  apply Performs.bind (predicateForm?_performs hin subject negated)
  intro form?
  cases form? with
  | none => apply performs_pure
  | some form =>
      apply performs_lift_bind
      intro region
      apply performs_pure

theorem negation_performs :
  (negation calls).Performs depth words limit (Grammar.negation inner)
  := by
  apply performs_lift_bind
  intro start
  apply Performs.bind_ite (performs_lift _)
  · apply Performs.bind (hin.negation words)
    intro operand
    apply performs_lift_bind
    intro region
    apply performs_pure
  · apply Performs.bind_ite (performs_lift _) _ (predicate_performs hin)
    apply performs_lift_bind
    intro _
    apply performs_lift_bind
    intro _
    apply Performs.bind (queryToParen_performs hin)
    intro q
    apply performs_lift_bind
    intro region
    apply performs_pure

theorem conjunction_performs :
  (conjunction calls).Performs depth words limit
    (Grammar.atLevel inner.bound 2 (Grammar.negation inner))
  := atLevel_performs (negation_performs hin) 2 hin.bound

theorem expression_performs :
  (expression calls).Performs depth words limit (Grammar.expression inner)
  := atLevel_performs (conjunction_performs hin) 1 hin.bound

end Routine

end SqlFront
