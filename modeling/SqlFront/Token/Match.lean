import SqlFront.Token

/-!
# Longest matches

Where a word or a number begins, several rules may match, each up to some length.  The
longest match wins, and of equally long ones the match of the earlier rule: keywords, the
number forms in the order of `NumberForm`, plain names, long names, the dot.

A match is a kind with the number of its characters.  The rules only measure: whatever
wins, its characters are taken from the text afterwards.
-/

namespace SqlFront

/-- A kind of token with the number of its characters. -/
abbrev Match := Kind × Nat

namespace Match

/-- Whether a character belongs to words. -/
def isWordChar (c : Char) : Bool := c.isAlphanum || c = '_'

/-- Whether a character belongs to long names, such as those of scheduled jobs. -/
def isJobChar (c : Char) : Bool := isWordChar c || c = '-'

/-- The number of characters at the front of `cs` that all satisfy `p`. -/
def runLength (p : Char → Bool) (cs : List Char) : Nat := (cs.takeWhile p).length

/-- Whether `cs` begins with the capital letters `suffix`, in either case. -/
def startsWithSuffix (suffix : List Char) (cs : List Char) : Bool :=
  (cs.take suffix.length).map Char.toUpper == suffix

/-- Whether `cs` does not continue a word. -/
def endsWord : List Char → Bool
  | [] => true
  | c :: _ => !isWordChar c

/-! ### Numbers -/

/-- The length of the sign at the front of `cs`, if there is one. -/
def signLength : List Char → Nat
  | '+' :: _ => 1
  | '-' :: _ => 1
  | _ => 0

/-- The length of an exponent at the front of `cs`: the letter, a sign or none, and digits. -/
def exponentLength? : List Char → Option Nat
  | [] => none
  | c :: cs =>
    let sign := signLength cs
    let digits := runLength Char.isDigit (cs.drop sign)
    if c.toUpper = 'E' ∧ 0 < digits then some (1 + sign + digits) else none

/-- Where a number whose digits take `base` characters may end: there and, if an exponent
follows, after it. -/
def withExponent (cs : List Char) (base : Nat) : List Nat :=
  match exponentLength? (cs.drop base) with
  | none => [base]
  | some exponent => [base, base + exponent]

/-- Where digits without a point end. -/
def digitEnds (cs : List Char) : List Nat :=
  let digits := runLength Char.isDigit cs
  if digits = 0 then [] else [digits]

/-- Where digits with a point end: before or after the point there is a digit. -/
def pointEnds (cs : List Char) : List Nat :=
  let digits := runLength Char.isDigit cs
  match cs.drop digits with
  | '.' :: fraction =>
    let places := runLength Char.isDigit fraction
    if digits = 0 ∧ places = 0 then [] else [digits + 1 + places]
  | _ => []

/-- The matches of a form that is marked by a suffix after one of `ends`. -/
def suffixed (form : NumberForm) (suffix : List Char) (cs : List Char) (ends : List Nat) :
    List Match :=
  (ends.filter fun n => startsWithSuffix suffix (cs.drop n)).map fun n =>
    (.number form, n + suffix.length)

/-- The matches of the unmarked form with a point or an exponent. -/
def decimals (ends : List Nat) : List Match := ends.map fun n => (.number .decimal, n)

/-- The matches after which no word continues. -/
def closed (cs : List Char) (found : List Match) : List Match :=
  found.filter fun m => endsWord (cs.drop m.2)

/-- The matches of the number rules.  A number with a point ends only where no word
continues; one without a point ends anywhere. -/
def numberMatches (cs : List Char) : List Match :=
  let digits := digitEnds cs
  let whole := digits.flatMap (withExponent cs)
  let point := (pointEnds cs).flatMap (withExponent cs)
  suffixed .bigInt ['L'] cs digits ++
  suffixed .smallInt ['S'] cs digits ++
  suffixed .tinyInt ['Y'] cs digits ++
  ['B', 'K', 'M', 'G'].flatMap (fun unit => suffixed .byteLength [unit] cs digits) ++
  digits.map (fun n => (.number .integer, n)) ++
  decimals (whole.drop 1) ++ closed cs (decimals point) ++
  suffixed .double ['D'] cs whole ++ closed cs (suffixed .double ['D'] cs point) ++
  suffixed .bigDecimal ['B', 'D'] cs whole ++ closed cs (suffixed .bigDecimal ['B', 'D'] cs point)

/-! ### Words -/

/-- The match of the keyword rule. -/
def keywordMatches (cs : List Char) : List Match :=
  let word := cs.takeWhile isWordChar
  match Keyword.lookup? (String.ofList word) with
  | some k => [(.keyword k, word.length)]
  | none => []

/-- The match of a rule for names made of characters that satisfy `p`, the first of which
belongs to words. -/
def nameMatches (kind : Kind) (p : Char → Bool) (cs : List Char) : List Match :=
  if endsWord cs then [] else [(kind, runLength p cs)]

/-- The match of the rule for the dot. -/
def dotMatches : List Char → List Match
  | '.' :: _ => [(.dot, 1)]
  | _ => []

/-- The matches of all rules, in the order of the rules. -/
def wordMatches (cs : List Char) : List Match :=
  keywordMatches cs ++ numberMatches cs ++ nameMatches .identifier isWordChar cs ++
    nameMatches .jobIdentifier isJobChar cs ++ dotMatches cs

/-- The longest match, and of equally long ones the first. -/
def longest? : List Match → Option Match
  | [] => none
  | found :: others =>
    match longest? others with
    | none => some found
    | some best => some (if found.2 < best.2 then best else found)

end Match

end SqlFront
