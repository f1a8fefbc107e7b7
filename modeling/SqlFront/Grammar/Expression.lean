import SqlFront.Grammar.Constant
import SqlFront.Grammar.Nesting
import SqlFront.Number.Whole

/-!
# Expressions

The productions for expressions, from the operators that bind loosest to those that bind
tightest: `OR`, `AND`, `NOT` and `EXISTS`, the predicates, the comparisons, the bitwise and
arithmetic operators, the signs, and the primary expressions.  Every operator between two
operands associates to the left.

An operand one level further in comes from `Inner`.
-/

namespace SqlFront

/-- How tightly an operator binds: the higher, the tighter. -/
def BinaryOp.level : BinaryOp → Nat
  | .or => 1
  | .and => 2
  | .eq | .nullSafeEq | .notEq | .lt | .ltEq | .gt | .gtEq => 5
  | .bitOr => 6
  | .bitXor => 7
  | .bitAnd => 8
  | .add | .subtract => 9
  | .multiply | .divide | .modulo | .intDivide => 10

/-- The operator that a token of some kind stands for between two operands. -/
def BinaryOp.ofKind? : Kind → Option BinaryOp
  | .keyword .OR => some .or
  | .keyword .AND => some .and
  | .eq => some .eq
  | .nullSafeEq => some .nullSafeEq
  | .notEq => some .notEq
  | .bangEq => some .notEq
  | .lt => some .lt
  | .ltEq => some .ltEq
  | .gt => some .gt
  | .gtEq => some .gtEq
  | .pipe => some .bitOr
  | .caret => some .bitXor
  | .ampersand => some .bitAnd
  | .plus => some .add
  | .minus => some .subtract
  | .asterisk => some .multiply
  | .slash => some .divide
  | .percent => some .modulo
  | .keyword .DIV => some .intDivide
  | _ => none

/-- The operator that a token of some kind stands for before an operand, `NOT` apart. -/
def UnaryOp.ofKind? : Kind → Option UnaryOp
  | .minus => some .minus
  | .plus => some .plus
  | .tilde => some .bitNot
  | _ => none

/-- Two operands with an operator between them. -/
def Expression.binary (op : BinaryOp) (left right : Expression) : Expression :=
  ⟨.binary op left right, left.span.start, right.span.stop⟩

namespace Grammar

open Production

/-- Expressions with commas between them, up to and with the closing parenthesis. -/
def expressionsToParen (inner : Inner) : Production (List Expression) := do
  let items ← commaList inner.bound inner.expression
  let _ ← expect .rightParen
  return items

/-- Whether a query begins at a token of kind `k`; a parenthesis does not tell. -/
def beginsQuery (k : Kind) : Bool :=
  k = .keyword .SELECT || k = .keyword .WITH || k = .keyword .VALUES || k = .keyword .TABLE

/-- A query and the closing parenthesis. -/
def queryToParen (inner : Inner) : Production Query := do
  let q ← inner.query
  let _ ← expect .rightParen
  return q

/-! ### Primary expressions -/

/-- The expression that begins with a name: a column, all columns of a relation, or a call
of a function. -/
def nameForm (inner : Inner) : Production Form := do
  let name ← qualifiedName inner.bound
  if ← nextAre .dot .asterisk then
    let _ ← advance
    let _ ← advance
    return .star (some name)
  else if ← accept .leftParen then
    let distinct ← accept (.keyword .DISTINCT)
    if !distinct then
      let _ ← accept (.keyword .ALL)
    if ← accept .rightParen then return .call name distinct []
    else return .call name distinct (← expressionsToParen inner)
  else return .column name

/-- The expression that begins with a parenthesis: a query, an expression or a row. -/
def parenForm (inner : Inner) : Production Form := do
  if beginsQuery (← peekAt .second).kind then
    let _ ← advance
    return .subquery (← queryToParen inner)
  else
    let _ ← advance
    let first ← inner.expression
    if ← accept .rightParen then return .nested first
    else
      let _ ← expect .comma
      return .row (first :: (← expressionsToParen inner))

/-- A condition and its result, if `WHEN` follows. -/
def branch? (inner : Inner) : Production (Option Branch) :=
  afterToken? (.keyword .WHEN) do
    let condition ← inner.expression
    let _ ← expect (.keyword .THEN)
    return ⟨condition, ← inner.expression⟩

/-- The operand of a choice between branches, if there is one. -/
def caseOperand? (inner : Inner) : Production (Option Expression) := do
  if ← nextIs (.keyword .WHEN) then return none else some <$> inner.expression

/-- The choice between branches, with an operand or without one. -/
def caseForm (inner : Inner) : Production Form := do
  let _ ← expect (.keyword .CASE)
  let operand ← caseOperand? inner
  let branches ← collect (branch? inner) inner.bound []
  if branches.isEmpty then expected "'WHEN'"
  else
    let otherwise ← afterToken? (.keyword .ELSE) inner.expression
    let _ ← expect (.keyword .END)
    return .case operand branches otherwise

/-- The conversion of an expression to a type. -/
def castForm (inner : Inner) (dataType : Production DataType) : Production Form := do
  let _ ← expect (.keyword .CAST)
  let _ ← expect .leftParen
  let subject ← inner.expression
  let _ ← expect (.keyword .AS)
  let type ← dataType
  let _ ← expect .rightParen
  return .cast subject type

/-- A parameter of a type: a number below 2³². -/
def typeParameter : Production Nat := do
  let t ← expect (.number .integer)
  let n := Number.appendDigits 0 t.text.toList
  if n < Number.wordSize 32 then return n else failLast (.parameterOutOfRange t.text)

/-- Whether the type with the name `name` is one with parameters between angle brackets, as
those named `word` may be; the opening bracket is taken. -/
def opensAngle (name word : String) : Production Bool :=
  if name = word then accept .lt else return false

/-- A type: an array, a map, or a name with parameters or without. -/
def dataType (inner : Inner) : Production DataType := do
  let name := (← ident).value.toUpper
  let isArray ← opensAngle name "ARRAY"
  let isMap ← opensAngle name "MAP"
  if isArray then
    let element ← inner.dataType
    let _ ← expect .gt
    return .array element
  else if isMap then
    let key ← inner.dataType
    let _ ← expect .comma
    let value ← inner.dataType
    let _ ← expect .gt
    return .map key value
  else if ← accept .leftParen then
    let parameters ← commaList inner.bound typeParameter
    let _ ← expect .rightParen
    return .primitive name parameters
  else return .primitive name []

/-- The primary expression that begins with the token `t`, which is the next one. -/
def primaryForm (inner : Inner) (t : Token) : Production Form :=
  match t.kind with
  | .keyword .CURRENT_DATE => do
    let _ ← advance
    return .currentDate
  | .keyword .CURRENT_TIMESTAMP => do
    let _ ← advance
    return .currentTimestamp
  | .keyword .CASE => caseForm inner
  | .keyword .CAST => castForm inner (dataType inner)
  | .keyword .NULL => .literal <$> literal inner.bound
  | .keyword .TRUE => .literal <$> literal inner.bound
  | .keyword .FALSE => .literal <$> literal inner.bound
  | .keyword .INTERVAL => .literal <$> literal inner.bound
  | .string => .literal <$> literal inner.bound
  | .number _ => .literal <$> literal inner.bound
  | .asterisk => do
    let _ ← advance
    return .star none
  | .leftParen => parenForm inner
  | .identifier => do
    if (← peekAt .second).kind = .string then .literal <$> literal inner.bound else nameForm inner
  | k => if k.isName then nameForm inner else expected "expression"

/-- A primary expression. -/
def primaryExpression (inner : Inner) : Production Expression := do
  let t ← peek
  let form ← primaryForm inner t
  return ⟨form, ← spanFrom t.span.start⟩

/-! ### Operators -/

/-- A primary expression with signs before it. -/
def signed (inner : Inner) : Production Expression := do
  let t ← peek
  match UnaryOp.ofKind? t.kind with
  | some op =>
    let _ ← advance
    let operand ← inner.signed
    return ⟨.unary op operand, ← spanFrom t.span.start⟩
  | none => primaryExpression inner

/-- The operand `left`, and as long as an operator of the level follows, that operator and
a further operand. -/
def operations (level : Nat) (operand : Production Expression) :
    Nat → Expression → Production Expression
  | 0, _ => fail fun _ => .tooLong
  | n + 1, left => do
    match (BinaryOp.ofKind? (← peek).kind).filter (·.level = level) with
    | some op =>
      let _ ← advance
      let right ← operand
      operations level operand n (.binary op left right)
    | none => return left

/-- Operands with operators of the level between them. -/
def atLevel (bound level : Nat) (operand : Production Expression) : Production Expression := do
  operations level operand bound (← operand)

/-- A comparison of operands made of bitwise and arithmetic operators: the operators of the
levels 5 to 10. -/
def comparison (inner : Inner) : Production Expression :=
  [10, 9, 8, 7, 6, 5].foldl (fun operand level => atLevel inner.bound level operand)
    (signed inner)

/-- What a predicate says of `subject` after the optional `NOT`, or nothing if no predicate
follows. -/
def predicateForm? (inner : Inner) (subject : Expression) (negated : Bool) :
    Production (Option Form) := do
  match (← peek).kind with
  | .keyword .BETWEEN =>
    let _ ← advance
    let low ← comparison inner
    let _ ← expect (.keyword .AND)
    let high ← comparison inner
    return some (.between subject negated low high)
  | .keyword .IN =>
    let _ ← advance
    let _ ← expect .leftParen
    if beginsQuery (← peek).kind then
      return some (.inQuery subject negated (← queryToParen inner))
    else return some (.inList subject negated (← expressionsToParen inner))
  | .keyword .LIKE =>
    let _ ← advance
    return some (.like subject negated false (← comparison inner))
  | .keyword .RLIKE =>
    let _ ← advance
    return some (.like subject negated true (← comparison inner))
  | .keyword .IS =>
    let _ ← advance
    let negated ← accept (.keyword .NOT)
    let _ ← expect (.keyword .NULL)
    return some (.isNull subject negated)
  | _ => return none

/-- Whether `NOT` before a token of kind `k` belongs to a predicate. -/
def isNegatable (k : Kind) : Bool :=
  k = .keyword .BETWEEN || k = .keyword .IN || k = .keyword .LIKE || k = .keyword .RLIKE

/-- Whether `NOT` stands before a predicate; it is taken then. -/
def negated : Production Bool := do
  if ← nextIs (.keyword .NOT) then
    if isNegatable (← peekAt .second).kind then
      let _ ← advance
      return true
    else return false
  else return false

/-- A comparison and at most one predicate on it. -/
def predicate (inner : Inner) : Production Expression := do
  let start ← here
  let subject ← comparison inner
  let negated ← negated
  match ← predicateForm? inner subject negated with
  | some form => return ⟨form, ← spanFrom start⟩
  | none => return subject

/-- A predicate with `NOT` before it or without, or a test whether a query has rows. -/
def negation (inner : Inner) : Production Expression := do
  let start ← here
  if ← accept (.keyword .NOT) then
    let operand ← inner.negation
    return ⟨.unary .not operand, ← spanFrom start⟩
  else if ← nextAre (.keyword .EXISTS) .leftParen then
    let _ ← advance
    let _ ← advance
    let q ← queryToParen inner
    return ⟨.exist q, ← spanFrom start⟩
  else predicate inner

/-- An expression. -/
def expression (inner : Inner) : Production Expression :=
  atLevel inner.bound 1 (atLevel inner.bound 2 (negation inner))

end Grammar

end SqlFront
