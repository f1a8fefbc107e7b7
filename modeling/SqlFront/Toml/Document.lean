import SqlFront.Toml.Moment
import SqlFront.Toml.Scalar

/-!
# Reading TOML documents

Reads the statements of a document, one a line, and the document that they build.  Readers
take characters from the front and return what follows; where values nest, a number bounds how
many more of them are read, and it starts at the length of the text.  Arrays and tables stand
in each other, and keys have parts, only up to a limit.
-/

namespace SqlFront.Toml

/-! ### What separates values -/

/-- The characters after blanks, a comment and the end of the line; none if something else
stands there. -/
def endLine? (cs : List Char) : Option (List Char) :=
  let rest := match skipBlanks cs with
    | '#' :: comment => comment.dropWhile isPlain
    | rest => rest
  match rest with
  | [] => some []
  | '\n' :: rest => some rest
  | '\r' :: '\n' :: rest => some rest
  | _ => none

/-- The characters after blanks, ends of lines and comments; `comment` tells whether the first
of them stand in a comment. -/
def skipLines (comment : Bool) : List Char → List Char
  | [] => []
  | '\r' :: '\n' :: rest => skipLines false rest
  | c :: rest =>
    if c = '\n' then skipLines false rest
    else if comment then if isPlain c then skipLines true rest else c :: rest
    else if c = '#' then skipLines true rest
    else if c = ' ' ∨ c = '\t' then skipLines false rest
    else c :: rest

/-- How many levels of arrays and tables, or parts of a key, are too many. -/
def tooDeep : Nat := 80

/-! ### Keys -/

/-- Whether a character may stand in a key without quotes. -/
def isKeyChar (c : Char) : Bool := c.isAlphanum || c = '_' || c = '-'

/-- A part of a key. -/
def keyPart? (cs : List Char) : Option (String × List Char) :=
  match cs with
  | '"' :: rest => (escapedText? false false rest).map fun (key, rest) => (String.ofList key, rest)
  | '\'' :: rest => (literalText? rest).map fun (key, rest) => (String.ofList key, rest)
  | cs =>
    match cs.takeWhile isKeyChar with
    | [] => none
    | key => some (String.ofList key, cs.dropWhile isKeyChar)

/-- The parts of a key, with dots between them, and what follows it and blanks. -/
def keyParts? (bound : Nat) (cs : List Char) : Option (List String × List Char) :=
  match bound with
  | 0 => none
  | bound + 1 => do
    let (part, rest) ← keyPart? (skipBlanks cs)
    match skipBlanks rest with
    | '.' :: rest =>
      let (path, rest) ← keyParts? bound rest
      return (part :: path, rest)
    | rest => return ([part], rest)

/-- A key that has not too many parts. -/
def key? (bound : Nat) (cs : List Char) : Option (List String × List Char) :=
  (keyParts? bound cs).filter fun (path, _) => path.length < tooDeep

/-! ### Values -/

/-- Whether a character may stand in a value that is no text. -/
def isBareChar (c : Char) : Bool :=
  c.isAlphanum || c = '_' || c = '+' || c = '-' || c = '.'

/-- A value that holds no others. -/
def scalar? (cs : List Char) : Option (Item × List Char) :=
  match cs with
  | '"' :: _ | '\'' :: _ => (text? cs).map fun (text, rest) => (.text text, rest)
  | cs =>
    ((moment? cs).map (.moment, ·)).or
      ((bare? (cs.takeWhile isBareChar)).map (·, cs.dropWhile isBareChar))

mutual

/-- A value inside `depth` arrays and tables. -/
def value? (bound depth : Nat) (cs : List Char) : Option (Item × List Char) :=
  match bound with
  | 0 => none
  | bound + 1 =>
    match cs with
    | '[' :: rest =>
      if depth + 1 < tooDeep then
        (items? bound (depth + 1) rest).map fun (items, rest) => (.array items, rest)
      else none
    | '\x7b' :: rest =>
      if depth + 1 < tooDeep then
        match skipBlanks rest with
        | '\x7d' :: rest => some (.table .inline [], rest)
        | rest => do
          let (entries, rest) ← entries? bound (depth + 1) rest
          return (.table .inline (← Members.ofEntries entries), rest)
      else none
    | cs => scalar? cs

/-- The values of an array, up to its closing bracket. -/
def items? (bound depth : Nat) (cs : List Char) : Option (List Item × List Char) :=
  match bound with
  | 0 => none
  | bound + 1 =>
    match skipLines false cs with
    | ']' :: rest => some ([], rest)
    | cs => do
      let (item, rest) ← value? bound depth cs
      match skipLines false rest with
      | ',' :: rest =>
        let (items, rest) ← items? bound depth rest
        return (item :: items, rest)
      | ']' :: rest => return ([item], rest)
      | _ => none

/-- The entries of a table in braces, up to its closing brace. -/
def entries? (bound depth : Nat) (cs : List Char) :
    Option (List (List String × Item) × List Char) :=
  match bound with
  | 0 => none
  | bound + 1 => do
    let (entry, rest) ← entry? bound depth cs
    match skipBlanks rest with
    | ',' :: rest =>
      let (entries, rest) ← entries? bound depth rest
      return (entry :: entries, rest)
    | '\x7d' :: rest => return ([entry], rest)
    | _ => none

/-- A key and its value. -/
def entry? (bound depth : Nat) (cs : List Char) : Option ((List String × Item) × List Char) :=
  match bound with
  | 0 => none
  | bound + 1 => do
    let (path, rest) ← key? bound cs
    match rest with
    | '=' :: rest =>
      let (value, rest) ← value? bound depth (skipBlanks rest)
      return ((path, value), rest)
    | _ => none

end

/-! ### Statements -/

/-- A statement, without the end of its line. -/
def statement? (bound : Nat) (cs : List Char) : Option (Statement × List Char) := do
  match cs with
  | '[' :: '[' :: rest =>
    match ← key? bound rest with
    | (path, ']' :: ']' :: rest) => return (.arrayHeader path, rest)
    | _ => none
  | '[' :: rest =>
    match ← key? bound rest with
    | (path, ']' :: rest) => return (.header path, rest)
    | _ => none
  | cs =>
    let ((path, value), rest) ← entry? bound 0 cs
    return (.entry path value, rest)

/-- The statements of a text. -/
def statements? (bound : Nat) (cs : List Char) : Option (List Statement) :=
  match bound with
  | 0 => none
  | bound + 1 =>
    match skipLines false cs with
    | [] => some []
    | cs => do
      let (statement, rest) ← statement? bound cs
      return statement :: (← statements? bound (← endLine? rest))

/-- The members of the document that a text holds; its first character may be a byte order
mark. -/
def Members.ofText? (text : String) : Option Members := do
  let cs := if text.toList.head? = some '\ufeff' then text.toList.tail else text.toList
  Members.ofStatements (← statements? (2 * cs.length + 4) cs)

end SqlFront.Toml
