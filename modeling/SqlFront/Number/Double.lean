import SqlFront.Number.Whole

/-!
# Doubles

A double is a finite number of the binary64 format: a sign, and a mantissa below 2⁵³ times a
power of two with an exponent from -1074 to 971.  A decimal text is read as the double
nearest to it, and of two equally near ones as that with the even mantissa.
-/

namespace SqlFront

/-- The number ±mantissa · 2^exponent, where the mantissa is at least 2⁵² unless the
exponent is -1074. -/
structure Double where
  negative : Bool
  mantissa : Nat
  exponent : Int
deriving DecidableEq, Repr

namespace Double

/-- The least exponent. -/
def minExponent : Int := -1074

/-- The greatest exponent. -/
def maxExponent : Int := 971

/-- The least mantissa of a double whose exponent is not the least. -/
def leastNormal : Nat := Nat.pow 2 52

/-- The quotient rounded to the nearest whole number, halves to the even one. -/
def roundDiv (num den : Nat) : Nat :=
  let floor := num / den
  let twice := 2 * (num % den)
  if twice < den then floor
  else if den < twice then floor + 1
  else if floor % 2 = 0 then floor else floor + 1

/-- The double nearest to ±num/den, if it is finite. -/
def ofRatio? (negative : Bool) (num den : Nat) : Option Double :=
  if num = 0 then some ⟨negative, 0, minExponent⟩
  else
    let scale (q : Int) : Nat × Nat := (num * Nat.pow 2 (-q).toNat, den * Nat.pow 2 q.toNat)
    let low := max minExponent ((Nat.log2 num : Int) - Nat.log2 den - 53)
    let (n, d) := scale low
    let q := if n < d * (2 * leastNormal) then low else low + 1
    let (n, d) := scale q
    let m := roundDiv n d
    let (m, q) := if m = 2 * leastNormal then (leastNormal, q + 1) else (m, q)
    if q ≤ maxExponent then some ⟨negative, m, q⟩ else none

/-- The number of decimal digits of a positive number. -/
def digitCount (n : Nat) : Nat := (Nat.toDigits 10 n).length

/-- The double nearest to ±n · 10^e, if it is finite.  A number that is certainly too large,
or so small that zero is nearest, is not computed. -/
def ofDecimal? (negative : Bool) (n : Nat) (e : Int) : Option Double :=
  let magnitude := e + digitCount n
  if n = 0 ∨ magnitude < -330 then some ⟨negative, 0, minExponent⟩
  else if 320 < magnitude then none
  else ofRatio? negative (n * Nat.pow 10 e.toNat) (Nat.pow 10 (-e).toNat)

/-- The exponent of a decimal text: nothing, or the letter E and an integer. -/
def exponent? : List Char → Option Int
  | [] => some 0
  | c :: cs => if c.toUpper = 'E' then Number.integer? cs else none

/-- The double nearest to an unsigned decimal text: digits, with a point or without, of which
there is at least one, and an exponent. -/
def unsigned? (negative : Bool) (cs : List Char) : Option Double :=
  let whole := cs.takeWhile Char.isDigit
  let (places, rest) :=
    match cs.dropWhile Char.isDigit with
    | '.' :: cs => (cs.takeWhile Char.isDigit, cs.dropWhile Char.isDigit)
    | cs => ([], cs)
  if whole = [] ∧ places = [] then none
  else
    (exponent? rest).bind fun e =>
      ofDecimal? negative (Number.appendDigits 0 (whole ++ places)) (e - places.length)

/-- The double nearest to a decimal text, if there is one. -/
def ofText? : List Char → Option Double
  | '-' :: cs => unsigned? true cs
  | '+' :: cs => unsigned? false cs
  | cs => unsigned? false cs

/-- The 64 bits of the interchange format. -/
def bits (x : Double) : Nat :=
  let sign := if x.negative then Nat.pow 2 63 else 0
  if x.mantissa < leastNormal then sign + x.mantissa
  else sign + (x.exponent - minExponent + 1).toNat * leastNormal + (x.mantissa - leastNormal)

end Double

end SqlFront
