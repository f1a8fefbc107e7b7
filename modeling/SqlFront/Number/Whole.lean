/-!
# Whole numbers

Reads whole numbers written with the digits 0 to 9, and nothing else but a sign in front:
plus or minus for integers, plus for natural numbers.
-/

namespace SqlFront.Number

/-- The number that digits write, after the digits of `n`. -/
def appendDigits (n : Nat) (digits : List Char) : Nat :=
  digits.foldl (fun n c => n * 10 + (c.toNat - '0'.toNat)) n

/-- The number that one or more digits write. -/
def ofDigits? (cs : List Char) : Option Nat :=
  if cs ≠ [] ∧ cs.all Char.isDigit then some (appendDigits 0 cs) else none

/-- A natural number with an optional plus sign. -/
def natural? : List Char → Option Nat
  | '+' :: cs => ofDigits? cs
  | cs => ofDigits? cs

/-- The number of values of a word of `bits` bits. -/
def wordSize (bits : Nat) : Nat := Nat.pow 2 bits

/-- The least number of a signed word of `bits` bits. -/
def leastSigned (bits : Nat) : Int := -(wordSize (bits - 1) : Int)

/-- The greatest number of a signed word of `bits` bits. -/
def greatestSigned (bits : Nat) : Int := (wordSize (bits - 1) : Int) - 1

/-- Whether a number fits a signed word of `bits` bits. -/
def fitsSigned (bits : Nat) (n : Int) : Bool := leastSigned bits ≤ n && n ≤ greatestSigned bits

/-- A natural number of 64 bits, with an optional plus sign. -/
def word? (cs : List Char) : Option Nat := (natural? cs).filter (· < wordSize 64)

/-- An integer with an optional sign. -/
def integer? : List Char → Option Int
  | '+' :: cs => (ofDigits? cs).map Int.ofNat
  | '-' :: cs => (ofDigits? cs).map fun n => -(n : Int)
  | cs => (ofDigits? cs).map Int.ofNat

end SqlFront.Number
