import SqlFront.Proofs.Sessions.Routine

/-!
# Names and constants in sessions

The routines for names and constants that hold lists.  They are the productions, with loops that have
no bound.  All else about names and constants is read by productions that have no list.
-/

namespace SqlFront.Routine

open Production Grammar

/-! ### Names -/

/-- Names joined by dots. -/
def qualifiedName : Routine QualifiedName := do
  let start ← here
  let first ← ident
  let further ← collect dottedIdent
  return ⟨first :: further, ← spanFrom start⟩

/-- Names between parentheses. -/
def identList : Routine (List Ident) := do
  let _ ← expect .leftParen
  let names ← commaList ident
  let _ ← expect .rightParen
  return names

/-- The names of columns between parentheses, if there are some. -/
def columns : Routine (List Ident) := do
  if ← nextIs .leftParen then identList else return []

/-! ### Constants -/

/-- A further field of an interval, if one follows. -/
def furtherField : Production (Option IntervalField) := do
  if ← intervalFieldFollows then some <$> intervalField else return none

/-- The fields of an interval: one, and further ones as long as they follow. -/
def intervalFields : Routine (List IntervalField) := do
  let first ← intervalField
  let further ← collect furtherField
  return first :: further

/-- A text: the values of one or more adjacent string literals, joined. -/
def text : Routine String := do
  let parts ← collect (accept? .string)
  return String.join (parts.map fun t => Text.unescape t.text)

/-- The literal at the next token. -/
def literal : Routine Literal := do
  let t ← peek
  match t.kind with
  | .keyword .NULL =>
    let _ ← advance
    return .null
  | .keyword .TRUE =>
    let _ ← advance
    return .boolean true
  | .keyword .FALSE =>
    let _ ← advance
    return .boolean false
  | .keyword .INTERVAL =>
    let _ ← advance
    return .interval (← intervalFields)
  | .string => return .string (← text)
  | .minus =>
    match (← peekAt .second).kind with
    | .number form =>
      let _ ← advance
      return .number form ("-" ++ (← advance).text)
    | _ => expected (α := Literal) "constant"
  | .identifier =>
    if (← peekAt .second).kind = .string then typedText t.text else expected (α := Literal) "constant"
  | .number form =>
    let _ ← advance
    return .number form t.text
  | _ => expected (α := Literal) "constant"

/-- A literal with its region. -/
def constant : Routine Constant := do
  let start ← here
  let value ← literal
  return ⟨value, ← spanFrom start⟩

/-- A text with its region. -/
def textConstant : Routine Constant := do
  if ← nextIs .string then constant else expected (α := Constant) "string literal"

/-! ### Productions -/

variable {depth limit n : Nat} {words : Bool}

theorem qualifiedName_performs (hn : limit ≤ n) :
  qualifiedName.Performs depth words limit (Grammar.qualifiedName n)
  := by
  apply performs_lift_bind
  intro start
  apply performs_lift_bind
  intro first
  apply Performs.bind (Performs.collect (performs_lift dottedIdent) dottedIdent_progresses hn)
  intro further
  apply performs_lift_bind
  intro region
  apply performs_pure

theorem identList_performs (hn : limit ≤ n) :
  identList.Performs depth words limit (Grammar.identList n)
  := by
  apply performs_lift_bind
  intro opening
  apply Performs.bind (Performs.commaList (performs_lift ident) hn)
  intro names
  apply performs_lift_bind
  intro closing
  apply performs_pure

theorem columns_performs (hn : limit ≤ n) :
  columns.Performs depth words limit (Grammar.columns n)
  := by
  apply Performs.bind_ite (performs_lift _) (identList_performs hn)
  apply performs_pure

theorem furtherField_progresses :
  furtherField.Progresses
  := by
  apply progresses_bind
  intro b
  apply progresses_ite intervalField_consumes.some progresses_none

theorem intervalFields_performs (hn : limit ≤ n) :
  intervalFields.Performs depth words limit (Grammar.intervalFields n)
  := by
  apply performs_lift_bind
  intro first
  apply Performs.bind (Performs.collect (performs_lift furtherField) furtherField_progresses hn)
  intro further
  apply performs_pure

theorem text_performs (hn : limit ≤ n) :
  text.Performs depth words limit (Grammar.text n)
  := by
  apply Performs.bind
    (Performs.collect (performs_lift (accept? .string)) (accept?_progresses (by simp)) hn)
  intro parts
  apply performs_pure

theorem literal_performs (hn : limit ≤ n) :
  literal.Performs depth words limit (Grammar.literal n)
  := by
  apply performs_lift_bind
  intro t
  -- Routine and production look at the same kind, each by a match of its own.
  apply PerformsOn.of_forall_eq
  intro q hq
  split
  all_goals
    simp only [*] at hq
    subst hq
  · apply performs_lift_bind
    intro _
    apply performs_pure
  · apply performs_lift_bind
    intro _
    apply performs_pure
  · apply performs_lift_bind
    intro _
    apply performs_pure
  · apply performs_lift_bind
    intro _
    apply (intervalFields_performs hn).map
  · apply (text_performs hn).map
  · apply performs_lift_bind
    intro u
    apply PerformsOn.of_forall_eq
    intro q hq
    split
    all_goals
      simp only [*] at hq
      subst hq
    · apply performs_lift_bind
      intro _
      apply performs_lift_bind
      intro number
      apply performs_pure
    · apply performs_lift
  · apply performs_lift_bind
    intro u
    apply performs_ite
    · apply performs_lift
    · apply performs_lift
  · apply performs_lift_bind
    intro _
    apply performs_pure
  · apply performs_lift

theorem constant_performs (hn : limit ≤ n) :
  constant.Performs depth words limit (Grammar.constant n)
  := by
  apply performs_lift_bind
  intro start
  apply Performs.bind (literal_performs hn)
  intro value
  apply performs_lift_bind
  intro region
  apply performs_pure

theorem textConstant_performs (hn : limit ≤ n) :
  textConstant.Performs depth words limit (Grammar.textConstant n)
  := by
  apply Performs.bind_ite (performs_lift _) (constant_performs hn)
  apply performs_lift

end SqlFront.Routine
