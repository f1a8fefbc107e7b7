/-!
# JSON

JSON values and their two written forms: `compact` on one line, and `pretty` with two spaces
for each level, one member a line, and nothing between the brackets of what is empty.  The
members of an object are in the order of their names, which `Json.record` sees to.
-/

namespace SqlFront

/-- A JSON value; a number is given by its text. -/
inductive Json where
  | null
  | boolean (value : Bool)
  | number (text : String)
  | string (value : String)
  | array (items : List Json)
  | object (members : List (String × Json))

namespace Json

/-- A natural number. -/
def ofNat (n : Nat) : Json := number (toString n)

/-- An integer. -/
def ofInt (n : Int) : Json := number (toString n)

/-- The value of an option; nothing is `null`. -/
def ofOption {α : Type} (encode : α → Json) (value : Option α) : Json := value.elim null encode

/-- The values of a list. -/
def ofList {α : Type} (encode : α → Json) (values : List α) : Json := array (values.map encode)

/-- An object with the given members, in the order of their names. -/
def record (members : List (String × Json)) : Json :=
  object (members.mergeSort fun a b => decide (a.1 ≤ b.1))

/-- An object with one member. -/
def tagged (name : String) (value : Json) : Json := object [(name, value)]

/-! ### Written forms -/

/-- A digit of the number 16 · high + low in hexadecimal. -/
def hexDigits (n : Nat) : List Char :=
  [(n / 16).digitChar, (n % 16).digitChar]

/-- A character between the quotes of a JSON string: quotes, backslashes and control
characters are escaped. -/
def escapeChar (c : Char) : List Char :=
  if c = '"' then ['\\', '"']
  else if c = '\\' then ['\\', '\\']
  else if c = '\n' then ['\\', 'n']
  else if c = '\r' then ['\\', 'r']
  else if c = '\t' then ['\\', 't']
  else if c = '\x08' then ['\\', 'b']
  else if c = '\x0c' then ['\\', 'f']
  else if c.toNat < 32 then '\\' :: 'u' :: '0' :: '0' :: hexDigits c.toNat
  else [c]

/-- A text as a JSON string. -/
def quote (text : String) : String :=
  String.ofList ('"' :: text.toList.flatMap escapeChar ++ ['"'])

/-- A line end and the indentation of a level. -/
def newLine (level : Nat) : String := "\n" ++ String.ofList (List.replicate (2 * level) ' ')

mutual

/-- A value on one line. -/
def compact : Json → String
  | null => "null"
  | boolean b => toString b
  | number text => text
  | string s => quote s
  | array items => "[" ++ compactItems items ++ "]"
  | object members => "\x7b" ++ compactMembers members ++ "\x7d"

/-- Values with commas between them. -/
def compactItems : List Json → String
  | [] => ""
  | [item] => compact item
  | item :: rest => compact item ++ "," ++ compactItems rest

/-- Members with commas between them. -/
def compactMembers : List (String × Json) → String
  | [] => ""
  | [(name, value)] => quote name ++ ":" ++ compact value
  | (name, value) :: rest => quote name ++ ":" ++ compact value ++ "," ++ compactMembers rest

end

mutual

/-- A value over several lines, at a level of indentation. -/
def prettyAt (level : Nat) : Json → String
  | null => "null"
  | boolean b => toString b
  | number text => text
  | string s => quote s
  | array [] => "[]"
  | array items => "[" ++ prettyItems (level + 1) items ++ newLine level ++ "]"
  | object [] => "\x7b\x7d"
  | object members => "\x7b" ++ prettyMembers (level + 1) members ++ newLine level ++ "\x7d"

/-- Values on lines of their own, with commas between them. -/
def prettyItems (level : Nat) : List Json → String
  | [] => ""
  | [item] => newLine level ++ prettyAt level item
  | item :: rest => newLine level ++ prettyAt level item ++ "," ++ prettyItems level rest

/-- Members on lines of their own, with commas between them. -/
def prettyMembers (level : Nat) : List (String × Json) → String
  | [] => ""
  | [(name, value)] => newLine level ++ quote name ++ ": " ++ prettyAt level value
  | (name, value) :: rest =>
    newLine level ++ quote name ++ ": " ++ prettyAt level value ++ "," ++
      prettyMembers level rest

end

/-- A value over several lines. -/
def pretty (j : Json) : String := prettyAt 0 j

end Json

end SqlFront
