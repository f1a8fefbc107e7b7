import SqlFront.Proofs.Grammar.Levels
import SqlFront.Proofs.Printing.Spacing

/-!
# Expressions as words

The words that an expression is written with, in order, and how deep expressions nest in it as the
grammar counts.  Expressions that hold queries are left out: no words are given for them.

`Expression.Writable` holds for the expressions without queries that can be written: the operators
bind as tightly as their places demand, the names, the numbers and the types are single words, and
no list is empty that the grammar wants an entry of.
-/

namespace SqlFront

/-! ### Names and constants -/

/-- A character of a string literal: quotes and backslashes are escaped. -/
def Text.escapeChar (c : Char) : List Char := if c = '\\' ∨ c = '\x27' then ['\\', c] else [c]

/-- The string literal for a text. -/
def Text.quote (text : String) : String :=
  String.ofList ('\x27' :: text.toList.flatMap escapeChar ++ ['\x27'])

/-- The word for a name. -/
def Ident.word (i : Ident) : String := if i.quoted then Text.backQuote i.value else i.value

/-- The words for names joined by dots. -/
def QualifiedName.words (name : QualifiedName) : List String :=
  (name.parts.map Ident.word).intersperse "."

/-- The words for a literal. -/
def Literal.words : Literal → List String
  | .null => [Keyword.NULL.spelling]
  | .boolean value => [(if value then Keyword.TRUE else Keyword.FALSE).spelling]
  | .string value => [Text.quote value]
  | .number _ text => [text]
  | .typed type value => [type, Text.quote value]
  | .interval _ => []

/-- The words for a type. -/
def DataType.words : DataType → List String
  | .primitive name [] => [name]
  | .primitive name parameters =>
    name :: "(" :: (parameters.map Nat.repr).intersperse "," ++ [")"]
  | .array element => Keyword.ARRAY.spelling :: "<" :: element.words ++ [">"]
  | .map key value => Keyword.MAP.spelling :: "<" :: key.words ++ "," :: value.words ++ [">"]

/-- How deep types nest in a type. -/
def DataType.inside : DataType → Nat
  | .primitive .. => 0
  | .array element => element.inside + 1
  | .map key value => max key.inside value.inside + 1

/-! ### Operators -/

/-- The word for an operator before an operand. -/
def UnaryOp.word : UnaryOp → String
  | .minus => "-"
  | .plus => "+"
  | .bitNot => "~"
  | .not => Keyword.NOT.spelling

/-- The word for an operator between two operands. -/
def BinaryOp.word : BinaryOp → String
  | .or => Keyword.OR.spelling
  | .and => Keyword.AND.spelling
  | .eq => "="
  | .nullSafeEq => "<=>"
  | .notEq => "<>"
  | .lt => "<"
  | .ltEq => "<="
  | .gt => ">"
  | .gtEq => ">="
  | .bitOr => "|"
  | .bitXor => "^"
  | .bitAnd => "&"
  | .add => "+"
  | .subtract => "-"
  | .multiply => "*"
  | .divide => "/"
  | .modulo => "%"
  | .intDivide => Keyword.DIV.spelling

/-- The word `NOT`, if something is negated. -/
def notWords (negated : Bool) : List String := if negated then [Keyword.NOT.spelling] else []

/-! ### Expressions -/

mutual

/-- The words for an expression. -/
def Expression.words : Expression → List String
  | ⟨form, _⟩ => form.words

/-- The words for what an expression says. -/
def Form.words : Form → List String
  | .literal value => value.words
  | .column name => name.words
  | .star none => ["*"]
  | .star (some qualifier) => qualifier.words ++ [".", "*"]
  | .unary op operand => op.word :: operand.words
  | .binary op left right => left.words ++ op.word :: right.words
  | .between subject negated low high =>
    subject.words ++ (notWords negated ++ Keyword.BETWEEN.spelling ::
      (low.words ++ Keyword.AND.spelling :: high.words))
  | .inList subject negated items =>
    subject.words ++ (notWords negated ++ Keyword.IN.spelling :: "(" :: (commaWords items ++ [")"]))
  | .like subject negated regex pattern =>
    subject.words ++ (notWords negated ++
      (if regex then Keyword.RLIKE else Keyword.LIKE).spelling :: pattern.words)
  | .isNull subject negated =>
    subject.words ++ Keyword.IS.spelling :: (notWords negated ++ [Keyword.NULL.spelling])
  | .call function distinct arguments =>
    function.words ++ "(" :: ((if distinct then [Keyword.DISTINCT.spelling] else []) ++
      (commaWords arguments ++ [")"]))
  | .case operand branches otherwise =>
    Keyword.CASE.spelling :: (operandWords operand ++ (branchesWords branches ++
      (otherwiseWords otherwise ++ [Keyword.END.spelling])))
  | .cast subject type =>
    Keyword.CAST.spelling :: "(" :: (subject.words ++ Keyword.AS.spelling :: (type.words ++ [")"]))
  | .currentDate => [Keyword.CURRENT_DATE.spelling]
  | .currentTimestamp => [Keyword.CURRENT_TIMESTAMP.spelling]
  | .row items => "(" :: (commaWords items ++ [")"])
  | .nested inner => "(" :: (inner.words ++ [")"])
  | .inQuery .. | .exist _ | .subquery _ => []

/-- The words for expressions with commas between them. -/
def commaWords : List Expression → List String
  | [] => []
  | [e] => e.words
  | e :: rest => e.words ++ "," :: commaWords rest

/-- The words for the operand of a case. -/
def operandWords : Option Expression → List String
  | none => []
  | some e => e.words

/-- The words for the branches of a case. -/
def branchesWords : List Branch → List String
  | [] => []
  | ⟨condition, result⟩ :: rest =>
    Keyword.WHEN.spelling ::
      (condition.words ++ Keyword.THEN.spelling :: (result.words ++ branchesWords rest))

/-- The words for what a case gives otherwise. -/
def otherwiseWords : Option Expression → List String
  | none => []
  | some e => Keyword.ELSE.spelling :: e.words

end

mutual

/-- How deep expressions and types nest in an expression. -/
def Expression.inside : Expression → Nat
  | ⟨form, _⟩ => form.inside

/-- How deep expressions and types nest in what an expression says. -/
def Form.inside : Form → Nat
  | .unary _ operand => operand.inside + 1
  | .binary _ left right => max left.inside right.inside
  | .between subject _ low high => max subject.inside (max low.inside high.inside)
  | .inList subject _ items => max subject.inside (deepest items)
  | .like subject _ _ pattern => max subject.inside pattern.inside
  | .isNull subject _ => subject.inside
  | .call _ _ arguments => deepest arguments
  | .case operand branches otherwise =>
    max (deepest? operand) (max (deepestBranch branches) (deepest? otherwise))
  | .cast subject type => max (subject.inside + 1) type.inside
  | .row items => deepest items
  | .nested inner => inner.inside + 1
  | _ => 0

/-- How deep expressions nest where a list of them stands. -/
def deepest : List Expression → Nat
  | [] => 0
  | e :: rest => max (e.inside + 1) (deepest rest)

/-- How deep expressions nest where one may stand. -/
def deepest? : Option Expression → Nat
  | none => 0
  | some e => e.inside + 1

/-- How deep expressions nest where branches stand. -/
def deepestBranch : List Branch → Nat
  | [] => 0
  | ⟨condition, result⟩ :: rest => max (max condition.inside result.inside + 1) (deepestBranch rest)

end

/-- An operation is written as its operands with the operator between them. -/
theorem Expression.words_binary (op : BinaryOp) (left right : Expression) (span : Span) :
  words ⟨.binary op left right, span⟩ = left.words ++ op.word :: right.words
  := by
  rw [words, Form.words]

/-- Operands are no deeper in an operation than they are alone. -/
theorem Expression.inside_binary (op : BinaryOp) (left right : Expression) (span : Span) :
  inside ⟨.binary op left right, span⟩ = max left.inside right.inside
  := by
  rw [inside, Form.inside]

/-! ### What can be written -/

/-- Whether a name is a single word that stands for a name; between back-quotes any is. -/
def Ident.isWritable (i : Ident) : Bool :=
  i.quoted || (Token.kindOf? i.value).any fun k => k.isName && k ≠ .quotedIdentifier

/-- Whether names joined by dots can be written: there is one, and each can be. -/
def QualifiedName.isWritable (name : QualifiedName) : Bool :=
  !name.parts.isEmpty && name.parts.all Ident.isWritable

/-- Whether a literal can be written: numbers and the names of types are single words.  Intervals
are left out. -/
def Literal.isWritable : Literal → Bool
  | .null | .boolean _ | .string _ => true
  | .number form text => Token.kindOf? text = some (.number form)
  | .typed type _ => Token.kindOf? type = some .identifier && type.toUpper = type
  | .interval _ => false

/-- Whether a type can be written: its names are single words in upper case, and parameters are
below 2³². -/
def DataType.isWritable : DataType → Bool
  | .primitive name parameters =>
    ((Token.kindOf? name).any fun k => k.isName && k ≠ .quotedIdentifier) && name.toUpper = name &&
      parameters.all (· < Number.wordSize 32)
  | .array element => element.isWritable
  | .map key value => key.isWritable && value.isWritable

/-- The expressions without queries that can be written. -/
inductive Expression.Writable : Expression → Prop where
  | literal {value : Literal} {span : Span} (valid : value.isWritable) :
      Writable ⟨.literal value, span⟩
  | column {name : QualifiedName} {span : Span} (valid : name.isWritable) :
      Writable ⟨.column name, span⟩
  | star {span : Span} : Writable ⟨.star none, span⟩
  | qualifiedStar {qualifier : QualifiedName} {span : Span} (valid : qualifier.isWritable) :
      Writable ⟨.star (some qualifier), span⟩
  | sign {op : UnaryOp} {operand : Expression} {span : Span} (isSign : op ≠ .not)
      (isOperand : Writable operand) (tight : 11 ≤ operand.form.level) :
      Writable ⟨.unary op operand, span⟩
  | not {operand : Expression} {span : Span} (isOperand : Writable operand)
      (tight : 3 ≤ operand.form.level) : Writable ⟨.unary .not operand, span⟩
  | binary {op : BinaryOp} {left right : Expression} {span : Span} (isLeft : Writable left)
      (isRight : Writable right) (tight : op.level ≤ left.form.level)
      (tighter : op.level < right.form.level) : Writable ⟨.binary op left right, span⟩
  | between {subject low high : Expression} {negated : Bool} {span : Span}
      (isSubject : Writable subject) (isLow : Writable low) (isHigh : Writable high)
      (tightSubject : 5 ≤ subject.form.level) (tightLow : 5 ≤ low.form.level)
      (tightHigh : 5 ≤ high.form.level) : Writable ⟨.between subject negated low high, span⟩
  | inList {subject : Expression} {negated : Bool} {items : List Expression} {span : Span}
      (isSubject : Writable subject) (areItems : ∀ e ∈ items, Writable e)
      (tight : 5 ≤ subject.form.level) (nonempty : items ≠ []) :
      Writable ⟨.inList subject negated items, span⟩
  | like {subject pattern : Expression} {negated regex : Bool} {span : Span}
      (isSubject : Writable subject) (isPattern : Writable pattern)
      (tightSubject : 5 ≤ subject.form.level) (tightPattern : 5 ≤ pattern.form.level) :
      Writable ⟨.like subject negated regex pattern, span⟩
  | isNull {subject : Expression} {negated : Bool} {span : Span} (isSubject : Writable subject)
      (tight : 5 ≤ subject.form.level) : Writable ⟨.isNull subject negated, span⟩
  | call {function : QualifiedName} {distinct : Bool} {arguments : List Expression} {span : Span}
      (valid : function.isWritable) (areArguments : ∀ e ∈ arguments, Writable e) :
      Writable ⟨.call function distinct arguments, span⟩
  | case {operand otherwise : Option Expression} {branches : List Branch} {span : Span}
      (isOperand : ∀ e ∈ operand, Writable e) (areConditions : ∀ b ∈ branches, Writable b.condition)
      (areResults : ∀ b ∈ branches, Writable b.result) (isOtherwise : ∀ e ∈ otherwise, Writable e)
      (nonempty : branches ≠ []) : Writable ⟨.case operand branches otherwise, span⟩
  | cast {subject : Expression} {type : DataType} {span : Span} (isSubject : Writable subject)
      (valid : type.isWritable) : Writable ⟨.cast subject type, span⟩
  | currentDate {span : Span} : Writable ⟨.currentDate, span⟩
  | currentTimestamp {span : Span} : Writable ⟨.currentTimestamp, span⟩
  | row {items : List Expression} {span : Span} (areItems : ∀ e ∈ items, Writable e)
      (several : 2 ≤ items.length) : Writable ⟨.row items, span⟩
  | nested {inner : Expression} {span : Span} (isInner : Writable inner) :
      Writable ⟨.nested inner, span⟩

end SqlFront
