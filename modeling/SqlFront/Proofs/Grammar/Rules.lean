import SqlFront.Proofs.Reading.Reads

/-!
# The rules of the grammar

A rule relates what is read to the tokens that it is read from.  The rules are those of the
productions without their decisions: they say which tokens an expression, a query or a statement
consists of and how its tree and its regions arise from them, but not how a reader finds out.

As with the productions, the rules for what is nested one level further in are given by a
`Rules`, and `Rules.within` builds the rules of each level from those of the level below.
-/

namespace SqlFront

/-- Whether a token of this kind is neither a parenthesis nor the end of a text nor
unrecognized. -/
def Kind.isPlain : Kind → Bool
  | leftParen | rightParen | unrecognized | eof => false
  | _ => true

namespace Grammar

/-- Whether tokens are all plain. -/
def Plain (used : List Token) : Prop := ∀ t ∈ used, t.kind.isPlain

/-! ### Sequences and options -/

section

variable {α : Type} (k : Kind) (R : α → List Token → Prop)

/-- Items that stand one after the other. -/
inductive Repeated : List α → List Token → Prop where
  | nil : Repeated [] []
  | cons {a : α} {as : List α} {u v : List Token} (first : R a u) (others : Repeated as v) :
      Repeated (a :: as) (u ++ v)

/-- Items with a token of kind `k` between them. -/
inductive Separated : List α → List Token → Prop where
  | one {a : α} {u : List Token} (only : R a u) : Separated [a] u
  | more {a : α} {as : List α} {t : Token} {u v : List Token} (first : R a u)
      (separator : t.kind = k) (others : Separated as v) : Separated (a :: as) (u ++ t :: v)

/-- An item or none. -/
inductive Possible : Option α → List Token → Prop where
  | none : Possible none []
  | some {a : α} {u : List Token} (item : R a u) : Possible (some a) u

/-- An item behind a token of kind `k`. -/
inductive After : α → List Token → Prop where
  | intro {a : α} {t : Token} {u : List Token} (opening : t.kind = k) (item : R a u) :
      After a (t :: u)

/-- An item and the closing parenthesis. -/
inductive Closed : α → List Token → Prop where
  | intro {a : α} {t : Token} {u : List Token} (item : R a u) (closing : t.kind = .rightParen) :
      Closed a (u ++ [t])

/-- An item between parentheses. -/
def Enclosed : α → List Token → Prop := After .leftParen (Closed R)

/-- A list of items or, where it is left out, the empty list. -/
inductive Listed (R : List α → List Token → Prop) : List α → List Token → Prop where
  | none : Listed R [] []
  | some {as : List α} {u : List Token} (items : R as u) : Listed R as u

end

/-! ### Names and constants -/

/-- A name. -/
inductive IdentRule : Ident → List Token → Prop where
  | intro {t : Token} (name : t.kind.isName) :
      IdentRule ⟨t.text, t.kind = .quotedIdentifier, t.span⟩ [t]

/-- Names joined by dots. -/
inductive NameRule : QualifiedName → List Token → Prop where
  | intro {parts : List Ident} {u : List Token} (dotted : Separated .dot IdentRule parts u) :
      NameRule ⟨parts, Span.over u⟩ u

/-- A label, with `AS` or without. -/
inductive LabelRule : Ident → List Token → Prop where
  | bare {i : Ident} {u : List Token} (name : IdentRule i u) : LabelRule i u
  | marked {i : Ident} {u : List Token} (name : After (.keyword .AS) IdentRule i u) :
      LabelRule i u

/-- Names with commas between them. -/
abbrev IdentsRule : List Ident → List Token → Prop := Enclosed (Separated .comma IdentRule)

/-- The tokens of a literal. -/
def LiteralRule (_ : Literal) (used : List Token) : Prop := used ≠ [] ∧ Plain used

/-- A literal with its region. -/
inductive ConstantRule : Constant → List Token → Prop where
  | intro {value : Literal} {u : List Token} (literal : LiteralRule value u) :
      ConstantRule ⟨value, Span.over u⟩ u

/-- A parameter of a type. -/
inductive ParameterRule : Nat → List Token → Prop where
  | intro {t : Token} (number : t.kind = .number .integer) :
      ParameterRule (Number.appendDigits 0 t.text.toList) [t]

/-- Operands with operators of the level between them. -/
inductive ChainRule (level : Nat) (operand : Expression → List Token → Prop) :
    Expression → List Token → Prop where
  | one {e : Expression} {u : List Token} (only : operand e u) : ChainRule level operand e u
  | more {left right : Expression} {op : BinaryOp} {t : Token} {u v : List Token}
      (isLeft : ChainRule level operand left u) (isOperator : BinaryOp.ofKind? t.kind = some op)
      (hasLevel : op.level = level) (isRight : operand right v) :
      ChainRule level operand (.binary op left right) (u ++ t :: v)

/-! ### Rules of a level -/

/-- The rules for what is nested one level further in. -/
structure Rules where
  expression : Expression → List Token → Prop
  negation : Expression → List Token → Prop
  signed : Expression → List Token → Prop
  query : Query → List Token → Prop
  primary : Primary → List Token → Prop
  dataType : DataType → List Token → Prop

namespace Rules

variable (G : Rules)

/-- Expressions with commas between them. -/
abbrev ExpressionsRule : List Expression → List Token → Prop := Separated .comma G.expression

/-! ### Expressions -/

/-- A type. -/
inductive DataTypeRule : DataType → List Token → Prop where
  | simple {t : Token} (name : t.kind.isName) :
      DataTypeRule (.primitive t.text.toUpper []) [t]
  | parametrised {t : Token} {ps : List Nat} {u : List Token} (name : t.kind.isName)
      (parameters : Enclosed (Separated .comma ParameterRule) ps u) :
      DataTypeRule (.primitive t.text.toUpper ps) (t :: u)
  | array {t opening closing : Token} {element : DataType} {u : List Token}
      (name : t.kind.isName) (opens : opening.kind = .lt) (inside : G.dataType element u)
      (closes : closing.kind = .gt) :
      DataTypeRule (.array element) (t :: opening :: (u ++ [closing]))
  | map {t opening comma closing : Token} {key value : DataType} {u v : List Token}
      (name : t.kind.isName) (opens : opening.kind = .lt) (first : G.dataType key u)
      (separator : comma.kind = .comma) (second : G.dataType value v)
      (closes : closing.kind = .gt) :
      DataTypeRule (.map key value) (t :: opening :: (u ++ comma :: (v ++ [closing])))

/-- A condition and its result. -/
inductive BranchRule : Branch → List Token → Prop where
  | intro {opening arrow : Token} {condition result : Expression} {u v : List Token}
      (opens : opening.kind = .keyword .WHEN) (isCondition : G.expression condition u)
      (leads : arrow.kind = .keyword .THEN) (isResult : G.expression result v) :
      BranchRule ⟨condition, result⟩ (opening :: (u ++ arrow :: v))

/-- What a primary expression says. -/
inductive FormRule : Form → List Token → Prop where
  | literal {value : Literal} {u : List Token} (literal : LiteralRule value u) :
      FormRule (.literal value) u
  | column {name : QualifiedName} {u : List Token} (isName : NameRule name u) :
      FormRule (.column name) u
  | star {t : Token} (isStar : t.kind = .asterisk) : FormRule (.star none) [t]
  | qualifiedStar {name : QualifiedName} {u : List Token} {dot star : Token}
      (isName : NameRule name u) (isDot : dot.kind = .dot) (isStar : star.kind = .asterisk) :
      FormRule (.star (some name)) (u ++ [dot, star])
  | call {name : QualifiedName} {distinct : Bool} {arguments : List Expression}
      {opening : Token} {u w v : List Token} (isName : NameRule name u)
      (opens : opening.kind = .leftParen) (words : Plain w)
      (inside : Closed (Listed G.ExpressionsRule) arguments v) :
      FormRule (.call name distinct arguments) (u ++ opening :: (w ++ v))
  | case {t closing : Token} {operand otherwise : Option Expression} {branches : List Branch}
      {u v w : List Token} (opens : t.kind = .keyword .CASE)
      (isOperand : Possible G.expression operand u)
      (areBranches : Repeated (BranchRule G) branches v)
      (isOtherwise : Possible (After (.keyword .ELSE) G.expression) otherwise w)
      (closes : closing.kind = .keyword .END) :
      FormRule (.case operand branches otherwise) (t :: (u ++ v ++ w ++ [closing]))
  | cast {t opening marker closing : Token} {subject : Expression} {type : DataType}
      {u v : List Token} (isCast : t.kind = .keyword .CAST) (opens : opening.kind = .leftParen)
      (isSubject : G.expression subject u) (marks : marker.kind = .keyword .AS)
      (isType : DataTypeRule G type v) (closes : closing.kind = .rightParen) :
      FormRule (.cast subject type) (t :: opening :: (u ++ marker :: (v ++ [closing])))
  | currentDate {t : Token} (word : t.kind = .keyword .CURRENT_DATE) : FormRule .currentDate [t]
  | currentTimestamp {t : Token} (word : t.kind = .keyword .CURRENT_TIMESTAMP) :
      FormRule .currentTimestamp [t]
  | subquery {query : Query} {u : List Token} (inside : Enclosed G.query query u) :
      FormRule (.subquery query) u
  | row {items : List Expression} {u : List Token} (inside : Enclosed G.ExpressionsRule items u) :
      FormRule (.row items) u
  | nested {inner : Expression} {u : List Token} (inside : Enclosed G.expression inner u) :
      FormRule (.nested inner) u

/-- A primary expression with signs before it. -/
inductive SignedRule : Expression → List Token → Prop where
  | sign {t : Token} {op : UnaryOp} {operand : Expression} {u : List Token}
      (isSign : UnaryOp.ofKind? t.kind = some op) (isOperand : G.signed operand u) :
      SignedRule ⟨.unary op operand, Span.over (t :: u)⟩ (t :: u)
  | primary {form : Form} {u : List Token} (isForm : FormRule G form u) :
      SignedRule ⟨form, Span.over u⟩ u

/-- Operands made of the operators of the levels 5 to 10. -/
def ComparisonRule : Expression → List Token → Prop :=
  [10, 9, 8, 7, 6, 5].foldl (fun operand level => ChainRule level operand) (SignedRule G)

/-- What a predicate says of `subject`. -/
inductive PredicateFormRule (subject : Expression) (negated : Bool) :
    Form → List Token → Prop where
  | between {t conjunction : Token} {low high : Expression} {u v : List Token}
      (word : t.kind = .keyword .BETWEEN) (isLow : ComparisonRule G low u)
      (conjoins : conjunction.kind = .keyword .AND) (isHigh : ComparisonRule G high v) :
      PredicateFormRule subject negated (.between subject negated low high)
        (t :: (u ++ conjunction :: v))
  | inQuery {t : Token} {query : Query} {u : List Token} (word : t.kind = .keyword .IN)
      (inside : Enclosed G.query query u) :
      PredicateFormRule subject negated (.inQuery subject negated query) (t :: u)
  | inList {t : Token} {items : List Expression} {u : List Token} (word : t.kind = .keyword .IN)
      (inside : Enclosed G.ExpressionsRule items u) :
      PredicateFormRule subject negated (.inList subject negated items) (t :: u)
  | like {t : Token} {regex : Bool} {pattern : Expression} {u : List Token}
      (word : t.kind = .keyword (if regex then .RLIKE else .LIKE))
      (isPattern : ComparisonRule G pattern u) :
      PredicateFormRule subject negated (.like subject negated regex pattern) (t :: u)
  | isNull {t : Token} {isNegated : Bool} {u : List Token} (word : t.kind = .keyword .IS)
      (words : Plain u) :
      PredicateFormRule subject negated (.isNull subject isNegated) (t :: u)

/-- A comparison and at most one predicate on it. -/
inductive PredicateRule : Expression → List Token → Prop where
  | comparison {subject : Expression} {u : List Token} (isSubject : ComparisonRule G subject u) :
      PredicateRule subject u
  | positive {subject : Expression} {form : Form} {u v : List Token}
      (isSubject : ComparisonRule G subject u)
      (isForm : PredicateFormRule G subject false form v) :
      PredicateRule ⟨form, Span.over (u ++ v)⟩ (u ++ v)
  | negative {subject : Expression} {form : Form} {t : Token} {u v : List Token}
      (isSubject : ComparisonRule G subject u) (word : t.kind = .keyword .NOT)
      (isForm : PredicateFormRule G subject true form v) :
      PredicateRule ⟨form, Span.over (u ++ t :: v)⟩ (u ++ t :: v)

/-- A predicate with `NOT` before it or without, or a test whether a query has rows. -/
inductive NegationRule : Expression → List Token → Prop where
  | not {t : Token} {operand : Expression} {u : List Token} (word : t.kind = .keyword .NOT)
      (isOperand : G.negation operand u) :
      NegationRule ⟨.unary .not operand, Span.over (t :: u)⟩ (t :: u)
  | exist {t : Token} {query : Query} {u : List Token} (word : t.kind = .keyword .EXISTS)
      (inside : Enclosed G.query query u) :
      NegationRule ⟨.exist query, Span.over (t :: u)⟩ (t :: u)
  | predicate {e : Expression} {u : List Token} (isPredicate : PredicateRule G e u) :
      NegationRule e u

/-- An expression. -/
def ExpressionRule : Expression → List Token → Prop :=
  ChainRule 1 (ChainRule 2 (NegationRule G))

end Rules

end Grammar

end SqlFront
