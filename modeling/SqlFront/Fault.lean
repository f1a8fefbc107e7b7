import SqlFront.MergeRows
import SqlFront.Token

/-!
# Faults

A fault is the reason why a text is refused, with the region it concerns.  Its cause is
data: the kind of the fault and the wording of the message are functions of the cause.
A diagnostic is what is shown of a fault: its kind, its message and its region.
-/

namespace SqlFront

/-- The stage that refuses a text. -/
inductive FaultKind where
  | lexical | grammar | classification
deriving DecidableEq, Repr

/-- How a kind of fault is named in reports. -/
def FaultKind.describe : FaultKind → String
  | .lexical => "lexical error"
  | .grammar => "syntax error"
  | .classification => "classification error"

/-- The range of a written number: the name of its type and its bounds. -/
structure NumberRange where
  type : String
  low : String
  high : String
deriving DecidableEq, Repr

/-- Why a text is refused. -/
inductive Cause where
  /-- A string literal has no closing quote. -/
  | openString
  /-- A comment has no end. -/
  | openComment
  /-- The grammar wants something else than the token it finds. -/
  | expected (wanted : String) (found : Token)
  /-- Expressions, queries, relations or types are nested too deeply. -/
  | tooDeep
  /-- A list has more entries than the text has characters. -/
  | tooLong
  /-- A parameter of a type is too large. -/
  | parameterOutOfRange (text : String)
  /-- A path is the empty text. -/
  | emptyPath
  /-- A path is not a text. -/
  | pathNotText
  /-- A partition column is named a second time. -/
  | repeatedColumn (name : String)
  /-- An option key is given a second time. -/
  | repeatedOption (key : String)
  /-- A merge clause without condition hides a later clause. -/
  | hidingClause (rows : MergeRows)
  /-- An insert names and supplies different numbers of columns. -/
  | insertArity (columns values : Nat)
  /-- A number does not fit its type. -/
  | numberOutOfRange (text : String) (range : NumberRange)
  /-- A byte length has a minus sign. -/
  | negativeByteLength (text : String)
  /-- A byte length has no unit. -/
  | badByteLength (text : String)
  /-- An expression stands where a statement is wanted. -/
  | bareExpression
deriving DecidableEq, Repr

namespace Cause

/-- The stage that finds a cause. -/
def kind : Cause → FaultKind
  | openString | openComment => .lexical
  | bareExpression => .classification
  | _ => .grammar

/-- The message for a cause, without the position. -/
def message : Cause → String
  | openString => "unterminated string literal"
  | openComment => "unterminated bracketed comment"
  | expected wanted found => "expected " ++ wanted ++ ", found " ++ found.phrase
  | tooDeep => "expression nesting too deep"
  | tooLong => "list too long"
  | parameterOutOfRange text => "type parameter " ++ text ++ " is out of range"
  | emptyPath => "path must not be empty"
  | pathNotText => "path must be a string literal"
  | repeatedColumn name => "duplicate partition column '" ++ name ++ "'"
  | repeatedOption key => "duplicate option key '" ++ key ++ "'"
  | hidingClause rows =>
    "only the last WHEN " ++ rows.describe ++ " clause can omit the condition"
  | insertArity columns values =>
    "INSERT names " ++ toString columns ++ " columns but supplies " ++ toString values ++
      " values"
  | numberOutOfRange text range =>
    "numeric literal " ++ text ++ " does not fit in range [" ++ range.low ++ ", " ++
      range.high ++ "] for type " ++ range.type
  | negativeByteLength text => "byte length " ++ text ++ " must not be negative"
  | badByteLength text => "invalid byte length " ++ text
  | bareExpression => "no command mapping for a bare expression"

end Cause

/-- A cause with the region that it concerns. -/
structure Fault where
  cause : Cause
  span : Span
deriving DecidableEq, Repr

/-- What is shown of a fault. -/
structure Diagnostic where
  kind : FaultKind
  message : String
  span : Span
deriving DecidableEq, Repr

/-- What is shown of a fault. -/
def Fault.diagnostic (f : Fault) : Diagnostic := ⟨f.cause.kind, f.cause.message, f.span⟩

end SqlFront
