import SqlFront.Text.Blank
import SqlFront.Text.Split

/-!
# Variables in files

A file can give values to variables of the environment, one `NAME=value` a line, with `export`
in front or not.  A value is bare, or stands in single quotes, in which every
character stands for itself, or in double quotes; quoted and bare parts may follow each other,
and quotes may enclose line ends.  Outside single quotes a backslash escapes a character and
`$NAME` or, with braces, any name stands for the value of a variable.  A comment takes up a
line, or follows a blank.  Reading stops at the first line that is not of this form.
-/

namespace SqlFront

/-- A part of a value: a character, or the value of a variable. -/
inductive ValuePart where
  | char (c : Char)
  | reference (name : String)
deriving DecidableEq, Repr

/-- The name of a variable and the parts of its value. -/
structure Variable where
  name : String
  value : List ValuePart
deriving DecidableEq, Repr

namespace Variable

/-! ### Lines

Quotes and backslashes decide where a line ends and where its comment begins. -/

/-- What surrounds a place of a line. -/
inductive Context where
  | bare
  | escaped
  | afterBlank
  | quoted (quote : Char)
  | quotedEscaped (quote : Char)
  | comment
deriving DecidableEq, Repr

/-- The context after a character; a second blank in a row counts as a bare character. -/
def Context.after : Context → Char → Context
  | quoted q, c => if c = '\\' then quotedEscaped q else if c = q then bare else quoted q
  | quotedEscaped q, _ => quoted q
  | escaped, _ => bare
  | comment, _ => comment
  | context, c =>
    if c = '\\' then escaped
    else if c = '"' ∨ c = '\'' then quoted c
    else if context = bare ∧ Text.isBlank c ∧ c ≠ '\n' ∧ c ≠ '\r' then afterBlank
    else bare

/-- The characters before a comment, and the context at their end. -/
def beforeComment (context : Context) : List Char → List Char × Context
  | [] => ([], context)
  | c :: rest =>
    if context = .afterBlank ∧ c = '#' then ([], .comment)
    else
      let (kept, last) := beforeComment (context.after c) rest
      (c :: kept, last)

/-- The lines that written lines make up, without comments, after what has been gathered of a
line; `none` stands for a line that has no end. -/
def lines (context : Context) (gathered : List Char) :
    List (List Char) → List (Option (List Char))
  | [] => if context = .bare then [] else [none]
  | written :: rest =>
    let line := gathered ++ written
    if (Text.trimStart line).head? = some '#' then some [] :: lines .bare [] rest
    else
      match beforeComment context written with
      | (kept, .comment) => some (gathered ++ kept) :: lines .bare [] rest
      | (_, .bare) => some line :: lines .bare [] rest
      | (_, context) => lines context line rest

/-! ### Values -/

/-- What a backslash and a character stand for. -/
def escape? (c : Char) : Option Char :=
  if c = 'n' then some '\n'
  else if c = '\\' ∨ c = '\'' ∨ c = '"' ∨ c = '$' ∨ c = ' ' then some c
  else none

/-- What the characters after a dollar sign begin with, and the characters after that: the name
of a variable, in braces or not; a character after a name without braces stands for itself,
unless it is a dollar sign. -/
def reference? (cs : List Char) : Option (List ValuePart × List Char) :=
  match cs.takeWhile Char.isAlphanum, cs.dropWhile Char.isAlphanum with
  | [], '\x7b' :: rest =>
    match rest.dropWhile (· ≠ '\x7d') with
    | [] => none
    | _ :: after => some ([.reference (String.ofList (rest.takeWhile (· ≠ '\x7d')))], after)
  | name, c :: rest =>
    if c = '$' then some ([.reference (String.ofList name)], c :: rest)
    else some ([.reference (String.ofList name), .char c], rest)
  | name, [] => some ([.reference (String.ofList name)], [])

theorem length_reference? {cs rest : List Char} {parts : List ValuePart}
    (h : reference? cs = some (parts, rest)) :
  rest.length ≤ cs.length
  := by
  have hdrop (p : Char → Bool) (l : List Char) : (l.dropWhile p).length ≤ l.length :=
    (List.dropWhile_sublist p).length_le
  have hname := hdrop Char.isAlphanum cs
  unfold reference? at h
  split at h
  · next braced _ hbraced =>
    split at h
    · cases h
    · next hafter =>
      obtain ⟨-, rfl⟩ := Prod.mk.inj (Option.some.inj h)
      have hbrace := hdrop (fun c => decide (c ≠ '\x7d')) braced
      rw [hbraced, List.length_cons] at hname
      rw [hafter, List.length_cons] at hbrace
      omega
  · next hrest _ =>
    rw [hrest, List.length_cons] at hname
    split at h
    · obtain ⟨-, rfl⟩ := Prod.mk.inj (Option.some.inj h)
      exact hname
    · obtain ⟨-, rfl⟩ := Prod.mk.inj (Option.some.inj h)
      omega
  · obtain ⟨-, rfl⟩ := Prod.mk.inj (Option.some.inj h)
    exact Nat.zero_le _

/-- Whether only blanks and a comment follow a bare value. -/
def endsValue (cs : List Char) : Bool :=
  (cs.dropWhile fun c => c = ' ' || c = '\t').head?.all (· = '#')

/-- The parts of a value whose characters stand in the quotes `quote`, if in any. -/
def parts? (quote : Option Char) (cs : List Char) : Option (List ValuePart) :=
  match cs with
  | [] => if quote = none then some [] else none
  | c :: rest =>
    if quote = some '\'' ∧ c ≠ '\'' then (parts? quote rest).map (.char c :: ·)
    else if quote = some c then parts? none rest
    else if c = '$' then
      match _h : reference? rest with
      | none => none
      | some (found, after) => (parts? quote after).map (found ++ ·)
    else if c = '\\' then
      match rest with
      | [] => parts? quote []
      | d :: more =>
        match escape? d with
        | none => none
        | some e => (parts? quote more).map (.char e :: ·)
    else if quote = none ∧ (c = '"' ∨ c = '\'') then parts? (some c) rest
    else if quote = none ∧ (c = ' ' ∨ c = '\t') then
      if endsValue rest then some [] else none
    else (parts? quote rest).map (.char c :: ·)
termination_by cs.length
decreasing_by
  · simp
  · simp
  · exact Nat.lt_succ_of_le (length_reference? _h)
  · simp
  · exact Nat.lt_succ_of_lt (Nat.lt_succ_self _)
  · simp
  · simp

/-! ### Variables -/

/-- A name at the front of a line, and what follows it and blanks. -/
def name? (cs : List Char) : Option (String × List Char) :=
  match cs with
  | [] => none
  | c :: _ =>
    if c.isAlpha ∨ c = '_' then
      let inName := fun c : Char => c.isAlphanum || c = '_' || c = '.'
      some (String.ofList (cs.takeWhile inName), Text.trimStart (cs.dropWhile inName))
    else none

/-- The variable with a name and the value that follows an equals sign. -/
def ofRest? : String × List Char → Option Variable
  | (name, '=' :: rest) =>
    let value := Text.trimStart rest
    if value.head? = some '#' then some ⟨name, []⟩ else (parts? none value).map (⟨name, ·⟩)
  | _ => none

/-- The variable on a line, or nothing on an empty line; none if the line is malformed. -/
def ofLine? (line : List Char) : Option (Option Variable) :=
  match Text.trim line with
  | [] => some none
  | c :: rest =>
    if c = '#' then some none
    else do
      let (name, after) ← name? (c :: rest)
      if name = "export" ∧ after.head? ≠ some '=' then
        return some (← ofRest? (← name? after))
      else return some (← ofRest? (name, after))

/-- The variables of lines, up to the first that is malformed. -/
def ofLines : List (Option (List Char)) → List Variable
  | [] => []
  | line :: rest =>
    match line.bind ofLine? with
    | none => []
    | some found => found.toList ++ ofLines rest

/-- The variables of a text, whose first character may be a byte order mark. -/
def ofText (text : String) : List Variable :=
  let cs := text.toList
  ofLines (lines .bare [] (Text.linesWithEnds (if cs.head? = some '\ufeff' then cs.tail else cs)))

end Variable

end SqlFront
