import SqlFront.Grammar.Name

/-!
# Constants

The productions for written-out values: `NULL`, truth values, numbers with an optional minus
sign, texts made of adjacent string literals, texts marked with a type, and intervals.
-/

namespace SqlFront.Grammar

open Production

/-! ### Intervals -/

/-- The unit of an interval, in capitals. -/
def unit : Production String := do return (← ident).value.toUpper

/-- The last unit of a range of units, if there is one. -/
def toUnit? : Production (Option String) := do
  if (← peek).kind = .keyword .TO then
    if (← peekAt .second).kind.isName then
      let _ ← advance
      some <$> unit
    else return none
  else return none

/-- Whether a token of this kind is a signed or unsigned quantity of an interval. -/
def isQuantity (k : Kind) : Bool := k = .number .integer || k = .number .decimal

/-- The sign before a quantity, which may be left out: whether it is a minus sign. -/
def quantitySign : Production Bool := do
  if ← accept .minus then return true
  else
    let _ ← accept .plus
    return false

/-- A quantity.  A minus sign before it is kept; a quantity given as a text has none. -/
def quantity (minus : Bool) : Production String := do
  let t ← peek
  if isQuantity t.kind then
    let _ ← advance
    return (if minus then "-" else "") ++ t.text
  else if t.kind = .string ∧ !minus then
    let _ ← advance
    return Text.unescape t.text
  else expected "interval value"

/-- A quantity of an interval and its unit. -/
def intervalField : Production IntervalField := do
  let minus ← quantitySign
  let value ← quantity minus
  let first ← unit
  return ⟨value, first, ← toUnit?⟩

/-- Whether another field of an interval follows: a quantity and a name. -/
def intervalFieldFollows : Production Bool := do
  let t ← peek
  if t.kind = .plus ∨ t.kind = .minus then
    if isQuantity (← peekAt .second).kind then return (← peekAt .third).kind.isName
    else return false
  else if isQuantity t.kind ∨ t.kind = .string then return (← peekAt .second).kind.isName
  else return false

/-- The fields of an interval: one, and further ones as long as they follow. -/
def intervalFields (bound : Nat) : Production (List IntervalField) := do
  let first ← intervalField
  let further ← collect
    (do if ← intervalFieldFollows then some <$> intervalField else return none) bound []
  return first :: further

/-! ### Literals -/

/-- A text: the values of one or more adjacent string literals, joined. -/
def text (bound : Nat) : Production String := do
  let parts ← collect (accept? .string) bound []
  return String.join (parts.map fun t => Text.unescape t.text)

/-- A text that is marked with the name of its type. -/
def typedText (type : String) : Production Literal := do
  let _ ← advance
  return .typed type.toUpper (Text.unescape (← expect .string).text)

/-- The literal at the next token. -/
def literal (bound : Nat) : Production Literal := do
  let t ← peek
  match t.kind with
  | .keyword .NULL =>
    let _ ← advance
    return .null
  | .keyword .TRUE =>
    let _ ← advance
    return .boolean true
  | .keyword .FALSE =>
    let _ ← advance
    return .boolean false
  | .keyword .INTERVAL =>
    let _ ← advance
    return .interval (← intervalFields bound)
  | .string => return .string (← text bound)
  | .minus =>
    match (← peekAt .second).kind with
    | .number form =>
      let _ ← advance
      return .number form ("-" ++ (← advance).text)
    | _ => expected "constant"
  | .identifier =>
    if (← peekAt .second).kind = .string then typedText t.text else expected "constant"
  | .number form =>
    let _ ← advance
    return .number form t.text
  | _ => expected "constant"

/-- A literal with its region. -/
def constant (bound : Nat) : Production Constant := do
  let start ← here
  let value ← literal bound
  return ⟨value, ← spanFrom start⟩

/-- A text with its region. -/
def textConstant (bound : Nat) : Production Constant := do
  if ← nextIs .string then constant bound else expected "string literal"

end SqlFront.Grammar
