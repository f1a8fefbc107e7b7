import SqlFront.Number.Double

/-!
# Shortest decimal texts

A double is written with the fewest decimal digits from which it is read back, and of equally
short decimals with the nearest one.  `shortest` finds these digits in whole numbers only;
an `AmountFormat` says how they are laid out.
-/

namespace SqlFront.Double

/-- A decimal number: digits · 10^exponent. -/
structure Decimal where
  digits : Nat
  exponent : Int
deriving DecidableEq, Repr

/-- Which of two neighbours on the decimal grid is taken when both are equally near. -/
inductive Tie where
  | up | even
deriving DecidableEq, Repr

/-- The numbers that are read as one double: the ends of the interval around its value, all
with the same denominator. -/
structure Interval where
  low : Nat
  value : Nat
  high : Nat
  denominator : Nat
  closed : Bool

/-- The interval of the numbers that are read as `x`: half way to its neighbours, of which
the lower one is nearer below a power of two, ends included if the mantissa is even. -/
def interval (x : Double) : Interval :=
  let unit := Nat.pow 2 x.exponent.toNat
  let below := if x.mantissa = leastNormal ∧ minExponent < x.exponent then 1 else 2
  { low := (4 * x.mantissa - below) * unit
    value := 4 * x.mantissa * unit
    high := (4 * x.mantissa + 2) * unit
    denominator := 4 * Nat.pow 2 (-x.exponent).toNat
    closed := x.mantissa % 2 = 0 }

/-- Whether the number n · 10^k is in the interval. -/
def Interval.contains (i : Interval) (n : Nat) (k : Int) : Bool :=
  let n := n * Nat.pow 10 k.toNat * i.denominator
  let scale := Nat.pow 10 (-k).toNat
  if i.closed then i.low * scale ≤ n && n ≤ i.high * scale
  else i.low * scale < n && n < i.high * scale

/-- The multiple of 10^k in the interval that is nearest to the value, if there is one. -/
def Interval.onGrid? (i : Interval) (tie : Tie) (k : Int) : Option Nat :=
  let num := i.value * Nat.pow 10 (-k).toNat
  let den := i.denominator * Nat.pow 10 k.toNat
  let floor := num / den
  let twice := 2 * (num % den)
  let upFirst :=
    den < twice || (twice = den && (match tie with | .up => true | .even => floor % 2 = 1))
  let (first, second) := if upFirst then (floor + 1, floor) else (floor, floor + 1)
  if i.contains first k then some first
  else if i.contains second k then some second
  else none

/-- The decimal number without trailing zeros among its digits. -/
def Decimal.trim (d : Decimal) : Decimal :=
  let zeros := ((Nat.toDigits 10 d.digits).reverse.takeWhile (· = '0')).length
  if d.digits = 0 then ⟨0, 0⟩ else ⟨d.digits / Nat.pow 10 zeros, d.exponent + zeros⟩

/-- The exponent of the first digit of the value, give or take one. -/
def Interval.magnitude (i : Interval) : Int :=
  (digitCount i.value : Int) - digitCount i.denominator

/-- The first decimal found on a grid from `k` on downwards, among `n` grids. -/
def Interval.search (i : Interval) (tie : Tie) : Nat → Int → Option Decimal
  | 0, _ => none
  | n + 1, k =>
    match i.onGrid? tie k with
    | some d => some (Decimal.trim ⟨d, k⟩)
    | none => i.search tie n (k - 1)

/-- The shortest decimal that is read back as `x`, without its sign. -/
def shortest (x : Double) (tie : Tie) : Decimal :=
  if x.mantissa = 0 then ⟨0, 0⟩
  else
    let i := x.interval
    (i.search tie 20 (i.magnitude + 1)).getD ⟨0, 0⟩

/-! ### Layout -/

/-- How a double is laid out: for which places of the point no exponent is written, what
follows a whole number, what stands before an exponent that is not negative, and which of two
equally near decimals is taken. -/
structure AmountFormat where
  positional : Int → Bool
  wholeMark : String
  exponentSign : String
  tie : Tie

/-- Digits with the point `point` places after the first digit begins. -/
def positionalText (digits : List Char) (point : Int) (wholeMark : String) : String :=
  if point ≤ 0 then
    "0." ++ String.ofList (List.replicate (-point).toNat '0' ++ digits)
  else if digits.length ≤ point.toNat then
    String.ofList (digits ++ List.replicate (point.toNat - digits.length) '0') ++ wholeMark
  else
    String.ofList (digits.take point.toNat) ++ "." ++ String.ofList (digits.drop point.toNat)

/-- Digits with an exponent. -/
def scientificText (digits : List Char) (point : Int) (exponentSign : String) : String :=
  let fraction := digits.drop 1
  String.ofList (digits.take 1 ++ (if fraction = [] then [] else '.' :: fraction)) ++ "e" ++
    (if point ≤ 0 then "" else exponentSign) ++ toString (point - 1)

/-- The text of a double in a format. -/
def toText (f : AmountFormat) (x : Double) : String :=
  let d := x.shortest f.tie
  let digits := Nat.toDigits 10 d.digits
  let point := d.exponent + digits.length
  (if x.negative then "-" else "") ++
    if f.positional point then positionalText digits point f.wholeMark
    else scientificText digits point f.exponentSign

/-- Displayed values never have an exponent, and a half goes up. -/
def displayed : AmountFormat := ⟨fun _ => true, "", "", .up⟩

/-- Structured output has an exponent where the point lies more than 16 digits to the right
or more than 4 zeros to the left, marks whole numbers and positive exponents, and a half goes
to the even digit. -/
def structured : AmountFormat := ⟨fun point => -5 < point && point ≤ 16, ".0", "+", .even⟩

end SqlFront.Double
