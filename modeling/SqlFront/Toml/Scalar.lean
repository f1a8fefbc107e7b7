import SqlFront.Number.Double
import SqlFront.Text.Quoted
import SqlFront.Toml

/-!
# Scalar values

Texts, numbers and truth values as a TOML document writes them.  A text stands in double
quotes, with escapes, or in single quotes, without; between three of them it may go over
several lines.  Underscores may separate digits.
-/

namespace SqlFront.Toml

/-- Whether a character may stand in a text or a comment. -/
def isPlain (c : Char) : Bool := c = '\t' || (32 ≤ c.toNat && c.toNat ≠ 127)

/-! ### Texts -/

/-- The character that a letter after a backslash stands for. -/
def escape? : Char → Option Char
  | 'b' => some '\x08'
  | 't' => some '\t'
  | 'n' => some '\n'
  | 'f' => some '\x0c'
  | 'r' => some '\r'
  | '"' => some '"'
  | '\\' => some '\\'
  | _ => none

/-- The character whose code hexadecimal digits write. -/
def coded? (digits : List Char) : Option Char := (Text.hexNumber? digits).bind Text.scalar?

/-- The characters after spaces and tabs. -/
def skipBlanks (cs : List Char) : List Char := cs.dropWhile fun c => c = ' ' || c = '\t'

/-- Whether nothing but blanks stands before the end of the line. -/
def isRestBlank (cs : List Char) : Bool :=
  match skipBlanks cs with
  | '\n' :: _ | '\r' :: '\n' :: _ => true
  | _ => false

/-- The characters after the end of a line, or all if no line ends there. -/
def skipLineEnd : List Char → List Char
  | '\n' :: rest | '\r' :: '\n' :: rest => rest
  | cs => cs

/-- The end of a text over several lines, after the three quotes that close it: up to two
further quotes belong to the text. -/
def closeLines (quote : Char) : List Char → List Char × List Char
  | a :: b :: rest =>
    if a ≠ quote then ([], a :: b :: rest)
    else if b ≠ quote then ([a], b :: rest)
    else ([a, b], rest)
  | [a] => if a = quote then ([a], []) else ([], [a])
  | [] => ([], [])

/-- The characters up to a double quote, or, of a text over several lines, up to three, and
what follows.  With `joining`, blanks and ends of lines in front are left out; that is so after
a backslash at the end of a line. -/
def escapedText? (lines joining : Bool) : List Char → Option (List Char × List Char)
  | '"' :: rest =>
    if !lines then some ([], rest)
    else
      match rest with
      | '"' :: '"' :: rest => some (closeLines '"' rest)
      | rest => do
        let (text, rest) ← escapedText? lines false rest
        return ('"' :: text, rest)
  | '\\' :: 'u' :: a :: b :: c :: d :: rest => do
    let x ← coded? [a, b, c, d]
    let (text, rest) ← escapedText? lines false rest
    return (x :: text, rest)
  | '\\' :: 'U' :: a :: b :: c :: d :: e :: f :: g :: h :: rest => do
    let x ← coded? [a, b, c, d, e, f, g, h]
    let (text, rest) ← escapedText? lines false rest
    return (x :: text, rest)
  | '\\' :: c :: rest =>
    if lines ∧ isRestBlank (c :: rest) then escapedText? lines true (c :: rest)
    else do
      let x ← escape? c
      let (text, rest) ← escapedText? lines false rest
      return (x :: text, rest)
  | '\r' :: '\n' :: rest =>
    if joining then escapedText? lines true rest
    else if lines then do
      let (text, rest) ← escapedText? lines false rest
      return ('\n' :: text, rest)
    else none
  | c :: rest =>
    if joining ∧ (c = ' ' ∨ c = '\t' ∨ c = '\n') then escapedText? lines true rest
    else if (isPlain c ∧ c ≠ '\\') ∨ (lines ∧ c = '\n') then do
      let (text, rest) ← escapedText? lines false rest
      return (c :: text, rest)
    else none
  | [] => none

/-- The characters up to a single quote, and what follows it. -/
def literalText? (cs : List Char) : Option (List Char × List Char) :=
  let inside (c : Char) : Bool := isPlain c && c ≠ '\''
  match cs.dropWhile inside with
  | '\'' :: rest => some (cs.takeWhile inside, rest)
  | _ => none

/-- The characters of a text over several lines up to three single quotes, and what follows. -/
def literalLines? : List Char → Option (List Char × List Char)
  | '\'' :: '\'' :: '\'' :: rest => some (closeLines '\'' rest)
  | '\r' :: '\n' :: rest => do
    let (text, rest) ← literalLines? rest
    return ('\n' :: text, rest)
  | c :: rest =>
    if isPlain c ∨ c = '\n' then do
      let (text, rest) ← literalLines? rest
      return (c :: text, rest)
    else none
  | [] => none

/-- A text, and what follows it.  A text over several lines stands between three quotes, and an
end of a line right after the first three does not belong to it. -/
def text? (cs : List Char) : Option (String × List Char) :=
  let found := match cs with
    | '"' :: '"' :: '"' :: rest => escapedText? true false (skipLineEnd rest)
    | '"' :: rest => escapedText? false false rest
    | '\'' :: '\'' :: '\'' :: rest => literalLines? (skipLineEnd rest)
    | '\'' :: rest => literalText? rest
    | _ => none
  found.map fun (text, rest) => (String.ofList text, rest)

/-- A text in double quotes, as the document writes it. -/
def quote (text : String) : String :=
  let written (c : Char) : List Char :=
    if c = '"' ∨ c = '\\' then ['\\', c]
    else if isPlain c then [c]
    else '\\' :: 'u' :: '0' :: '0' :: [(c.toNat / 16).digitChar, (c.toNat % 16).digitChar]
  String.ofList ('"' :: text.toList.flatMap written ++ ['"'])

/-! ### Numbers and truth values -/

/-- Digits of a kind, without the underscores that stand alone between two of them. -/
def digits? (isDigit : Char → Bool) : List Char → Option (List Char)
  | [] => none
  | [c] => if isDigit c then some [c] else none
  | c :: '_' :: rest => if isDigit c then (digits? isDigit rest).map (c :: ·) else none
  | c :: rest => if isDigit c then (digits? isDigit rest).map (c :: ·) else none

/-- Whether a character is a digit to a base of at most 16. -/
def isDigitOf (base : Nat) (c : Char) : Bool := (Text.hexDigit? c).any (· < base)

/-- The number that characters write to a base of at most 16. -/
def ofBase? (base : Nat) (cs : List Char) : Option Nat :=
  (digits? (isDigitOf base) cs).map fun digits =>
    digits.foldl (fun n c => n * base + (Text.hexDigit? c).getD 0) 0

/-- A whole number without sign; zero stands in front of no other digit. -/
def whole? (cs : List Char) : Option Nat :=
  if cs.head? = some '0' ∧ cs ≠ ['0'] then none else ofBase? 10 cs

/-- An integer: decimal with an optional sign, or with the mark of another base. -/
def unboundedInteger? : List Char → Option Int
  | '0' :: 'x' :: rest => (ofBase? 16 rest).map Int.ofNat
  | '0' :: 'o' :: rest => (ofBase? 8 rest).map Int.ofNat
  | '0' :: 'b' :: rest => (ofBase? 2 rest).map Int.ofNat
  | '+' :: rest => (whole? rest).map Int.ofNat
  | '-' :: rest => (whole? rest).map fun n => -(n : Int)
  | cs => (whole? cs).map Int.ofNat

/-- An integer of 64 bits. -/
def integer? (cs : List Char) : Option Int :=
  (unboundedInteger? cs).filter (Number.fitsSigned 64)

/-- Whether characters are the exponent of a float, with its mark. -/
def isExponent : List Char → Bool
  | [] => false
  | c :: rest =>
    let digits := match rest with
      | '+' :: ds => ds
      | '-' :: ds => ds
      | ds => ds
    (c = 'e' || c = 'E') && (digits? Char.isDigit digits).isSome

/-- Whether characters are a float without sign: a whole number, and places or an exponent. -/
def isUnsignedFloat (cs : List Char) : Bool :=
  let inNumber (c : Char) : Bool := c.isDigit || c = '_'
  let fits := (whole? (cs.takeWhile inNumber)).isSome
  match cs.dropWhile inNumber with
  | '.' :: rest =>
    let after := rest.dropWhile inNumber
    fits && (digits? Char.isDigit (rest.takeWhile inNumber)).isSome &&
      (after.isEmpty || isExponent after)
  | after => fits && isExponent after

/-- Whether characters are a float; one that is larger than every double is not. -/
def isFloat (cs : List Char) : Bool :=
  let unsigned := match cs with
    | '+' :: rest => rest
    | '-' :: rest => rest
    | rest => rest
  unsigned = "inf".toList || unsigned = "nan".toList ||
    (isUnsignedFloat unsigned &&
      (cs.head? = some '-' || (Double.ofText? (unsigned.filter (· ≠ '_'))).isSome))

/-- The value of characters that are no text. -/
def bare? (cs : List Char) : Option Item :=
  if cs = "true".toList then some (.boolean true)
  else if cs = "false".toList then some (.boolean false)
  else if isFloat cs then some .float
  else (integer? cs).map .integer

end SqlFront.Toml
