import SqlFront.Text.Glyph

/-!
# Quoted text

Three written forms of a text.  A string literal stands between two equal quotes and uses
the backslash for escapes; `unescape` gives its value.  A back-quoted name stands between
back-quotes and doubles those inside it; `backQuote` writes it and `unBackQuote` reads it.
A displayed text stands between double quotes, on one line; `display` writes it.
-/

namespace SqlFront.Text

/-! ### String literals -/

/-- The value of a hexadecimal digit. -/
def hexDigit? (c : Char) : Option Nat :=
  if '0' ≤ c ∧ c ≤ '9' then some (c.toNat - '0'.toNat)
  else if 'a' ≤ c ∧ c ≤ 'f' then some (c.toNat - 'a'.toNat + 10)
  else if 'A' ≤ c ∧ c ≤ 'F' then some (c.toNat - 'A'.toNat + 10)
  else none

/-- The number that hexadecimal digits write. -/
def hexNumber? (cs : List Char) : Option Nat :=
  cs.foldl (fun n c => do return (← n) * 16 + (← hexDigit? c)) (some 0)

/-- The character with the given code, if there is one. -/
def scalar? (n : Nat) : Option Char :=
  if n.isValidChar then some (Char.ofNat n) else none

/-- The character that the four characters after a backslash and a `u` stand for: four
hexadecimal digits, or a plus sign and three of them, that name a character. -/
def unicodeEscape? (a b c d : Char) : Option Char :=
  (hexNumber? (if a = '+' then [b, c, d] else [a, b, c, d])).bind scalar?

/-- The character that three octal digits after a backslash stand for. -/
def octalEscape? (a b c : Char) : Option Char :=
  if '0' ≤ a ∧ a ≤ '3' ∧ '0' ≤ b ∧ b ≤ '7' ∧ '0' ≤ c ∧ c ≤ '7' then
    some (Char.ofNat ((a.toNat - 48) * 64 + (b.toNat - 48) * 8 + (c.toNat - 48)))
  else none

/-- What a backslash and one character stand for: a control character for some letters, the
pair itself where a pattern needs its backslash, and otherwise the character alone. -/
def simpleEscape : Char → List Char
  | '0' => ['\x00']
  | 'b' => ['\x08']
  | 'n' => ['\n']
  | 'r' => ['\r']
  | 't' => ['\t']
  | 'Z' => ['\x1a']
  | '%' => ['\\', '%']
  | '_' => ['\\', '_']
  | c => [c]

/-- The value of the characters between the quotes of a string literal. -/
def decode : List Char → List Char
  | '\\' :: 'u' :: a :: b :: c :: d :: rest =>
    match unicodeEscape? a b c d with
    | some x => x :: decode rest
    | none => 'u' :: decode (a :: b :: c :: d :: rest)
  | '\\' :: a :: b :: c :: rest =>
    match octalEscape? a b c with
    | some x => x :: decode rest
    | none => simpleEscape a ++ decode (b :: c :: rest)
  | '\\' :: a :: rest => simpleEscape a ++ decode rest
  | c :: rest => c :: decode rest
  | [] => []

/-- The characters after the first one, without a last one that equals the first. -/
def betweenQuotes : List Char → List Char
  | [] => []
  | quote :: body => if body.getLast? = some quote then body.dropLast else body

/-- The value of a string literal, its quotes included. -/
def unescape (literal : String) : String :=
  String.ofList (decode (betweenQuotes literal.toList))

/-! ### Back-quoted names -/

/-- Each back-quote written twice. -/
def doubleBackQuotes : List Char → List Char
  | [] => []
  | c :: rest =>
    if c = '\x60' then '\x60' :: '\x60' :: doubleBackQuotes rest
    else c :: doubleBackQuotes rest

/-- The name between back-quotes, with its own back-quotes doubled. -/
def backQuote (name : String) : String :=
  String.ofList ('\x60' :: doubleBackQuotes name.toList ++ ['\x60'])

/-- Each pair of back-quotes read as one. -/
def collapseBackQuotes : List Char → List Char
  | '\x60' :: '\x60' :: rest => '\x60' :: collapseBackQuotes rest
  | c :: rest => c :: collapseBackQuotes rest
  | [] => []

/-- The name inside a back-quoted form. -/
def unBackQuote (quoted : List Char) : List Char :=
  collapseBackQuotes (quoted.drop 1).dropLast

/-! ### Displayed texts -/

/-- A character by its code in hexadecimal. -/
def codeEscape (c : Char) : List Char :=
  "\\u\x7b".toList ++ Nat.toDigits 16 c.toNat ++ "\x7d".toList

/-- A character of a displayed text: escapes for quotes, backslashes, line ends, and the code
of what has no glyph. -/
def displayChar (c : Char) : List Char :=
  if c = '"' then ['\\', '"']
  else if c = '\\' then ['\\', '\\']
  else if c = '\n' then ['\\', 'n']
  else if c = '\r' then ['\\', 'r']
  else if c = '\t' then ['\\', 't']
  else if c = '\x00' then ['\\', '0']
  else if hasGlyph c then [c]
  else codeEscape c

/-- A text between double quotes, on one line. -/
def display (text : String) : String :=
  String.ofList ('"' :: text.toList.flatMap displayChar ++ ['"'])

end SqlFront.Text
