/-!
# Dates and times

A TOML document writes a date as `1979-05-27`, a time as `07:32:00`, perhaps with a fraction of
a second, and both together with a `T` or a blank between them, perhaps with the distance to
universal time.  Only whether a moment stands in front of other characters is of interest.
-/

namespace SqlFront.Toml

/-- The number that a count of decimal digits writes, and what follows it. -/
def counted? (count : Nat) (cs : List Char) : Option (Nat × List Char) :=
  let digits := cs.take count
  if digits.length = count ∧ digits.all Char.isDigit then
    some (digits.foldl (fun n c => 10 * n + (c.toNat - '0'.toNat)) 0, cs.drop count)
  else none

/-- A number of two digits within bounds. -/
def pair? (low high : Nat) (cs : List Char) : Option (Nat × List Char) :=
  (counted? 2 cs).filter fun (n, _) => low ≤ n ∧ n ≤ high

/-- What follows a mark. -/
def after? (mark : Char) : List Char → Option (List Char)
  | [] => none
  | c :: rest => if c = mark then some rest else none

/-- How many days a month has. -/
def daysOfMonth (year month : Nat) : Nat :=
  let isLeapYear : Bool := year % 4 = 0 && (year % 100 ≠ 0 || year % 400 = 0)
  match month with
  | 2 => if isLeapYear then 29 else 28
  | 4 | 6 | 9 | 11 => 30
  | _ => 31

/-- What follows a date. -/
def date? (cs : List Char) : Option (List Char) := do
  let (year, rest) ← counted? 4 cs
  let (month, rest) ← pair? 1 12 (← after? '-' rest)
  let (_, rest) ← pair? 1 (daysOfMonth year month) (← after? '-' rest)
  return rest

/-- What follows a time; a second may be a leap second. -/
def time? (cs : List Char) : Option (List Char) := do
  let (_, rest) ← pair? 0 23 cs
  let (_, rest) ← pair? 0 59 (← after? ':' rest)
  let (_, rest) ← pair? 0 60 (← after? ':' rest)
  match rest with
  | '.' :: c :: more => return if c.isDigit then more.dropWhile Char.isDigit else rest
  | rest => return rest

/-- What follows a distance to universal time, or all if there is none. -/
def skipOffset (cs : List Char) : List Char :=
  let distance? (cs : List Char) : Option (List Char) := do
    let (_, rest) ← pair? 0 23 cs
    let (_, rest) ← pair? 0 59 (← after? ':' rest)
    return rest
  match cs with
  | 'Z' :: rest | 'z' :: rest => rest
  | '+' :: rest | '-' :: rest => (distance? rest).getD cs
  | cs => cs

/-- What follows a time after a date, with the mark before it, or all if there is none. -/
def skipTime (cs : List Char) : List Char :=
  match cs with
  | 'T' :: rest | 't' :: rest | ' ' :: rest => ((time? rest).map skipOffset).getD cs
  | cs => cs

/-- What follows a moment. -/
def moment? (cs : List Char) : Option (List Char) :=
  ((date? cs).map skipTime).or (time? cs)

end SqlFront.Toml
