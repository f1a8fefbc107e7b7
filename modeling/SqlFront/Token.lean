import SqlFront.Keyword
import SqlFront.Position
import SqlFront.Text.Quoted

/-!
# Tokens

A token is a classified piece of a text.  White space and comments are hidden tokens: they
are kept, but the grammar never sees them.  The token `eof` stands, empty, at the end of
every text.

Each kind has a `title`, the word for it in structured output, and a `phrase`, the words
for it in messages about what was expected.
-/

namespace SqlFront

/-- The written forms of a number. -/
inductive NumberForm where
  | bigInt | smallInt | tinyInt | byteLength | integer | decimal | double | bigDecimal
deriving DecidableEq, Repr

/-- The title of a number form in structured output. -/
def NumberForm.title : NumberForm → String
  | .bigInt => "BigInt"
  | .smallInt => "SmallInt"
  | .tinyInt => "TinyInt"
  | .byteLength => "ByteLength"
  | .integer => "Integer"
  | .decimal => "Decimal"
  | .double => "Double"
  | .bigDecimal => "BigDecimal"

/-- How a number form is named where a message says what was expected. -/
def NumberForm.phrase : NumberForm → String
  | .bigInt => "bigint literal"
  | .smallInt => "smallint literal"
  | .tinyInt => "tinyint literal"
  | .byteLength => "byte length literal"
  | .integer => "integer literal"
  | .decimal => "decimal literal"
  | .double => "double literal"
  | .bigDecimal => "bigdecimal literal"

/-- The classes of tokens. -/
inductive Kind where
  | keyword (word : Keyword)
  | string
  | number (form : NumberForm)
  | identifier | jobIdentifier | quotedIdentifier
  | leftParen | rightParen | comma | dot | semicolon
  | eq | nullSafeEq | notEq | bangEq | lt | ltEq | gt | gtEq
  | plus | minus | asterisk | slash | percent | tilde | ampersand | pipe | caret
  | lineComment | emptyComment | blockComment | whitespace
  | unrecognized | eof
deriving DecidableEq, Repr

namespace Kind

/-- Whether the grammar never sees tokens of this kind. -/
def isHidden : Kind → Bool
  | lineComment | emptyComment | blockComment | whitespace => true
  | _ => false

/-- Whether tokens of this kind are comments. -/
def isComment : Kind → Bool
  | lineComment | emptyComment | blockComment => true
  | _ => false

/-- Whether tokens of this kind are numbers. -/
def isNumber : Kind → Bool
  | number _ => true
  | _ => false

/-- Whether tokens of this kind are written-out values. -/
def isLiteral : Kind → Bool
  | string | number _ => true
  | _ => false

/-- Whether tokens of this kind are names and nothing else. -/
def isIdentifier : Kind → Bool
  | identifier | jobIdentifier | quotedIdentifier => true
  | _ => false

/-- Whether a token of this kind may stand for a name. -/
def isName : Kind → Bool
  | keyword word => !word.isReserved
  | kind => kind.isIdentifier

/-- The keyword of a keyword token. -/
def keyword? : Kind → Option Keyword
  | keyword word => some word
  | _ => none

/-- The title of a kind in structured output; all keywords share one. -/
def title : Kind → String
  | keyword _ => "Keyword"
  | string => "String"
  | number form => form.title
  | identifier => "Identifier"
  | jobIdentifier => "JobIdentifier"
  | quotedIdentifier => "BackQuotedIdentifier"
  | leftParen => "LeftParen"
  | rightParen => "RightParen"
  | comma => "Comma"
  | dot => "Dot"
  | semicolon => "Semicolon"
  | eq => "Eq"
  | nullSafeEq => "NullSafeEq"
  | notEq => "NotEq"
  | bangEq => "BangEq"
  | lt => "Lt"
  | ltEq => "LtEq"
  | gt => "Gt"
  | gtEq => "GtEq"
  | plus => "Plus"
  | minus => "Minus"
  | asterisk => "Asterisk"
  | slash => "Slash"
  | percent => "Percent"
  | tilde => "Tilde"
  | ampersand => "Ampersand"
  | pipe => "Pipe"
  | caret => "Caret"
  | lineComment => "SimpleComment"
  | emptyComment => "BracketedEmptyComment"
  | blockComment => "BracketedComment"
  | whitespace => "Whitespace"
  | unrecognized => "Unrecognized"
  | eof => "Eof"

/-- How a kind is listed: the spelling of a keyword, the title of any other kind. -/
def listing : Kind → String
  | keyword word => word.spelling
  | kind => kind.title

/-- How a kind is named where a message says what was expected. -/
def phrase : Kind → String
  | keyword word => "'" ++ word.spelling ++ "'"
  | string => "string literal"
  | number form => form.phrase
  | identifier | jobIdentifier | quotedIdentifier => "identifier"
  | leftParen => "'('"
  | rightParen => "')'"
  | comma => "','"
  | dot => "'.'"
  | semicolon => "';'"
  | eq => "'='"
  | nullSafeEq => "'<=>'"
  | notEq => "'<>'"
  | bangEq => "'!='"
  | lt => "'<'"
  | ltEq => "'<='"
  | gt => "'>'"
  | gtEq => "'>='"
  | plus => "'+'"
  | minus => "'-'"
  | asterisk => "'*'"
  | slash => "'/'"
  | percent => "'%'"
  | tilde => "'~'"
  | ampersand => "'&'"
  | pipe => "'|'"
  | caret => "'^'"
  | lineComment | emptyComment | blockComment => "comment"
  | whitespace => "whitespace"
  | unrecognized => "unrecognized character"
  | eof => "end of input"

end Kind

/-- A classified piece of a text.  The `text` of a back-quoted name is the name itself;
every other token keeps its characters as they were written. -/
structure Token where
  kind : Kind
  text : String
  span : Span
deriving DecidableEq, Repr

namespace Token

/-- The token at the end of a text. -/
def eof (p : Position) : Token := ⟨.eof, "", .point p⟩

instance : Inhabited Token := ⟨eof .start⟩

/-- Whether the token is a plain name that spells `word`, in any case. -/
def isWord (t : Token) (word : String) : Bool :=
  t.kind = .identifier && t.text.toUpper == word.toUpper

/-- How a token is named where a message says what was found. -/
def phrase (t : Token) : String :=
  match t.kind with
  | .eof => "end of input"
  | .quotedIdentifier => "'" ++ Text.backQuote t.text ++ "'"
  | _ => "'" ++ t.text ++ "'"

end Token

end SqlFront
