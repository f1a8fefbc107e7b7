import SqlFront.Fault
import SqlFront.Number.Shortest
import SqlFront.Tree

/-!
# Values

A value is what a constant stands for.  Numbers are checked against the range of their type;
an unmarked integer takes the narrowest type that holds it, and a byte length is a number of
bytes.
-/

namespace SqlFront

/-- What a constant stands for. -/
inductive Value where
  | null
  | boolean (value : Bool)
  | string (value : String)
  | int (value : Int)
  | long (value : Int)
  | short (value : Int)
  | byte (value : Int)
  | double (value : Double)
  /-- A decimal number, kept as a text so that no digit is lost. -/
  | decimal (text : String)
  | byteLength (bytes : Nat)
  | interval (fields : List IntervalField)
  | typed (type : String) (value : String)
deriving DecidableEq, Repr

namespace Value

/-! ### Display -/

/-- A field of an interval as it is displayed. -/
def displayField (f : IntervalField) : String :=
  " " ++ f.value ++ " " ++ f.unit ++ (f.toUnit.elim "" (" TO " ++ ·))

/-- A value as it is displayed. -/
def display : Value → String
  | null => "NULL"
  | boolean b => toString b
  | string s => s
  | int n | long n | short n | byte n => toString n
  | double x => x.toText Double.displayed
  | decimal s => s
  | byteLength n => toString n
  | interval fields => "INTERVAL" ++ String.join (fields.map displayField)
  | typed type value => type ++ " '" ++ value ++ "'"

/-! ### Numbers -/

/-- The range of a signed word, for the message when a number does not fit. -/
def signedRange (type : String) (bits : Nat) : NumberRange :=
  ⟨type, toString (Number.leastSigned bits), toString (Number.greatestSigned bits)⟩

/-- The range of doubles, for the message when a number does not fit. -/
def doubleRange : NumberRange :=
  ⟨"double", "-1.7976931348623157e308", "1.7976931348623157e308"⟩

/-- The range of byte lengths, for the message when a number does not fit. -/
def byteLengthRange : NumberRange := ⟨"byte length", "0", toString (Number.wordSize 64 - 1)⟩

/-- A text without its last `n` bytes. -/
def dropBytes (text : String) (n : Nat) : List Char :=
  match splitBytes (text.utf8ByteSize - n) text.toList with
  | some (front, _) => front
  | none => text.toList.dropLast

/-- The value of an integer without a suffix. -/
def ofPlainInteger (text : String) : Value :=
  match Number.integer? text.toList with
  | some n =>
    if Number.fitsSigned 32 n then .int n
    else if Number.fitsSigned 64 n then .long n
    else .decimal text
  | none => .decimal text

/-- The value of an integer that is marked by a suffix as a signed word of `bits` bits. -/
def ofMarkedInteger (make : Int → Value) (type : String) (bits : Nat) (text : String) :
    Except Cause Value :=
  match Number.integer? (dropBytes text 1) with
  | some n =>
    if Number.fitsSigned bits n then .ok (make n)
    else .error (.numberOutOfRange text (signedRange type bits))
  | none => .error (.numberOutOfRange text (signedRange type bits))

/-- The number of bytes that the unit of a byte length stands for. -/
def byteUnit? : Char → Option Nat
  | 'B' => some 1
  | 'K' => some 1024
  | 'M' => some 1048576
  | 'G' => some 1073741824
  | _ => none

/-- The value of a byte length: a natural number of bytes below 2⁶⁴. -/
def ofByteLength (text : String) : Except Cause Value :=
  if text.toList.head? = some '-' then .error (.negativeByteLength text)
  else
    match text.toList.getLast?.bind fun c => byteUnit? c.toUpper with
    | none => .error (.badByteLength text)
    | some unit =>
      match Number.natural? (dropBytes text 1) with
      | some n =>
        if n * unit < Number.wordSize 64 then .ok (.byteLength (n * unit))
        else .error (.numberOutOfRange text byteLengthRange)
      | none => .error (.numberOutOfRange text byteLengthRange)

/-- The value of a double. -/
def ofDouble (text : String) : Except Cause Value :=
  match Double.ofText? (dropBytes text 1) with
  | some x => .ok (.double x)
  | none => .error (.numberOutOfRange text doubleRange)

/-- The value of a number, by its form. -/
def ofNumber (form : NumberForm) (text : String) : Except Cause Value :=
  match form with
  | .integer => .ok (ofPlainInteger text)
  | .bigInt => ofMarkedInteger .long "bigint" 64 text
  | .smallInt => ofMarkedInteger .short "smallint" 16 text
  | .tinyInt => ofMarkedInteger .byte "tinyint" 8 text
  | .byteLength => ofByteLength text
  | .decimal => .ok (.decimal text)
  | .bigDecimal => .ok (.decimal (String.ofList (dropBytes text 2)))
  | .double => ofDouble text

/-- The value of a literal. -/
def ofLiteral : Literal → Except Cause Value
  | .null => .ok .null
  | .boolean b => .ok (.boolean b)
  | .string s => .ok (.string s)
  | .number form text => ofNumber form text
  | .typed type value => .ok (.typed type value)
  | .interval fields => .ok (.interval fields)

/-- The value of a constant; a number that does not fit is a fault of the constant. -/
def ofConstant (c : Constant) : Except Fault Value :=
  (ofLiteral c.value).mapError (⟨·, c.span⟩)

end Value

end SqlFront
