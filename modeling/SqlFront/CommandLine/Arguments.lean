/-!
# Arguments

Arguments of a command line are options and words.  An option has a long name and perhaps a
letter, `--name` or `-n`, and may take a value: the next argument, or what follows in the same
one, after an equals sign or, for a letter, at once.  Letters can stand together.  After `--`
all arguments are words, and so is a lone `-`.  An option can be given once, and there are as
many words as places for them.

Arguments are accepted one after the other, and the first refusal counts: a wish for help is
heard only if everything before it is in order.  A word, or a value that is an argument of its
own, is held until the next one has been recognized, and is accepted before that one.
-/

namespace SqlFront

/-- An option of a command line; `value` tells which values are accepted, if it takes any. -/
structure ArgumentOption where
  name : String
  letter : Option Char
  value : Option (String → Bool)

/-- Why arguments are refused: help is wanted, or they are malformed. -/
inductive ArgumentError where
  | help | malformed
deriving DecidableEq, Repr

/-- Arguments that have been accepted: the values of options, with empty texts for those that
take none, and the words. -/
structure Arguments where
  values : List (String × String)
  words : List String
deriving DecidableEq, Repr

/-- What an argument gives: an option with its value, or a word for a place that accepts some
words. -/
inductive Given where
  | option (o : ArgumentOption) (value : String)
  | word (accepts : String → Bool) (text : String)

namespace Arguments

/-- No arguments. -/
def empty : Arguments := ⟨[], []⟩

/-- The value of an option. -/
def get? (a : Arguments) (name : String) : Option String := a.values.lookup name

/-- The arguments with one more, unless it is an option that has been given before, or a value
or a word that is not accepted. -/
def accept (a : Arguments) : Given → Except ArgumentError Arguments
  | .option o value =>
    if (a.get? o.name).isNone && o.value.all (· value) then
      .ok { a with values := (o.name, value) :: a.values }
    else .error .malformed
  | .word accepts text =>
    if accepts text then .ok { a with words := a.words ++ [text] } else .error .malformed

end Arguments

/-! ### Shapes -/

/-- How options are written: by a long name, perhaps with a value, or by letters. -/
inductive OptionShape where
  | name (name : String) (value : Option String)
  | letters (letters : List Char)
deriving DecidableEq, Repr

/-- The shape of an argument; a separator makes words of all arguments after it. -/
inductive ArgumentShape where
  | option (shape : OptionShape)
  | word
  | separator
deriving DecidableEq, Repr

/-- The shape that an argument has; a name ends at the first equals sign. -/
def ArgumentShape.ofString (argument : String) : ArgumentShape :=
  match argument.toList with
  | ['-', '-'] => .separator
  | '-' :: '-' :: rest =>
    let name := String.ofList (rest.takeWhile (· ≠ '='))
    match rest.dropWhile (· ≠ '=') with
    | [] => .option (.name name none)
    | _ :: value => .option (.name name (some (String.ofList value)))
  | '-' :: c :: rest => .option (.letters (c :: rest))
  | _ => .word

/-! ### Reading -/

/-- Arguments that have been read: those that are accepted, the last one if it is still held,
and the places for further words. -/
structure ArgumentReading where
  accepted : Arguments
  held : Option Given
  places : List (String → Bool)

namespace ArgumentReading

/-- The start, with the places for words. -/
def start (places : List (String → Bool)) : ArgumentReading := ⟨.empty, none, places⟩

/-- All arguments that have been read, accepted. -/
def settle (r : ArgumentReading) : Except ArgumentError Arguments :=
  r.held.elim (.ok r.accepted) r.accepted.accept

/-- Holds what an argument gives. -/
def hold (r : ArgumentReading) (g : Given) : Except ArgumentError ArgumentReading := do
  return { r with accepted := ← r.settle, held := some g }

/-- Accepts what an argument gives at once. -/
def give (r : ArgumentReading) (g : Given) : Except ArgumentError ArgumentReading := do
  return { r with accepted := ← (← r.settle).accept g, held := none }

/-- Refuses arguments because of a wish for help. -/
def giveHelp {α : Type} (r : ArgumentReading) : Except ArgumentError α := do
  let _ ← r.settle
  .error .help

/-- Holds a word for the next place. -/
def giveWord (r : ArgumentReading) (text : String) : Except ArgumentError ArgumentReading :=
  match r.places with
  | [] => .error .malformed
  | accepts :: places => { r with places }.hold (.word accepts text)

/-- Gives a long name, perhaps with a value.  The option is returned if its value is to be the
next argument. -/
def giveName (options : List ArgumentOption) (r : ArgumentReading) (name : String)
    (value : Option String) : Except ArgumentError (ArgumentReading × Option ArgumentOption) := do
  match options.find? (·.name = name), value with
  | none, value => if name = "help" ∧ value = none then r.giveHelp else .error .malformed
  | some o, some value =>
    if o.value.isSome then return (← r.give (.option o value), none) else .error .malformed
  | some o, none =>
    if o.value.isSome then return (r, some o) else return (← r.give (.option o ""), none)

/-- Gives letters one by one, the last one perhaps with a value.  The option is returned if its
value is to be the next argument. -/
def giveLetters (options : List ArgumentOption) (r : ArgumentReading) :
    List Char → Except ArgumentError (ArgumentReading × Option ArgumentOption)
  | [] => .ok (r, none)
  | c :: rest =>
    match options.find? (·.letter = some c) with
    | none => if c = 'h' then r.giveHelp else .error .malformed
    | some o =>
      if o.value.isSome then
        match rest with
        | [] => .ok (r, some o)
        | '=' :: value => do return (← r.give (.option o (String.ofList value)), none)
        | value => do return (← r.give (.option o (String.ofList value)), none)
      else do giveLetters options (← r.give (.option o "")) rest

/-- Gives options as they are written. -/
def giveOptions (options : List ArgumentOption) (r : ArgumentReading) :
    OptionShape → Except ArgumentError (ArgumentReading × Option ArgumentOption)
  | .name name value => giveName options r name value
  | .letters letters => giveLetters options r letters

/-- Reads arguments.  With `upToWord`, reading stops at the first word; the rest of the
arguments is returned. -/
def read (options : List ArgumentOption) (upToWord : Bool) (r : ArgumentReading) :
    List String → Except ArgumentError (ArgumentReading × List String)
  | [] => .ok (r, [])
  | argument :: rest =>
    match ArgumentShape.ofString argument with
    | .separator =>
      if upToWord then .error .malformed else do return (← rest.foldlM giveWord r, [])
    | .word =>
      if upToWord then .ok (r, argument :: rest)
      else do read options upToWord (← r.giveWord argument) rest
    | .option shape => do
      match ← giveOptions options r shape, rest with
      | (r, none), rest => read options upToWord r rest
      | (_, some _), [] => .error .malformed
      | (r, some o), value :: rest =>
        if ArgumentShape.ofString value = .word then
          read options upToWord (← r.hold (.option o value)) rest
        else .error .malformed

end ArgumentReading

/-- Reads arguments among which are no commands. -/
def Arguments.read (options : List ArgumentOption) (places : List (String → Bool))
    (arguments : List String) : Except ArgumentError Arguments := do
  let (r, _) ← (ArgumentReading.start places).read options false arguments
  r.settle

end SqlFront
