/-!
# TOML documents

The values of a TOML document and how its statements build it.  A statement is a header, which
opens a table or a further table of an array, or an entry, which puts a value at a key of the
table that the last header opened.  A table can be opened once and a key can have one value;
only tables that stand for a part of a dotted key or header can still be extended.
-/

namespace SqlFront.Toml

/-- How a table came to be. -/
inductive Origin where
  /-- As a part of a header that opens a table inside it. -/
  | implied
  /-- As a part of the key of an entry. -/
  | dotted
  /-- By its own header. -/
  | header
  /-- As a value in braces. -/
  | inline
deriving DecidableEq, Repr

/-- A value of a document.  Of a float or a moment only the presence is kept. -/
inductive Item where
  | integer (value : Int)
  | float
  | moment
  | boolean (value : Bool)
  | text (value : String)
  | array (items : List Item)
  | table (origin : Origin) (members : List (String × Item))
  /-- An array of tables with headers, the last of which is open. -/
  | tables (members : List (List (String × Item)))

/-- The members of a table: keys and values. -/
abbrev Members := List (String × Item)

/-- A line of a document. -/
inductive Statement where
  | header (path : List String)
  | arrayHeader (path : List String)
  | entry (path : List String) (value : Item)

namespace Members

/-- The members with another value for a key. -/
def put (ms : Members) (key : String) (value : Item) : Members :=
  if ms.any (·.1 = key) then ms.map fun m => if m.1 = key then (key, value) else m
  else ms ++ [(key, value)]

/-- Changes the table at a path, of which the origin is known.  Missing tables are made, with
the origin `made`; only tables whose origin satisfies `passes` are gone through. -/
def within (made : Origin) (passes : Origin → Bool)
    (change : Origin → Members → Option Members) (origin : Origin) :
    List String → Members → Option Members
  | [], ms => change origin ms
  | key :: path, ms =>
    match ms.lookup key with
    | none => (within made passes change made path []).map fun inner =>
      ms.put key (.table made inner)
    | some (.table o inner) =>
      if passes o then
        (within made passes change o path inner).map fun inner => ms.put key (.table o inner)
      else none
    | some (.tables all) =>
      (within made passes change .header path (all.getLast?.getD [])).map fun inner =>
        ms.put key (.tables (all.dropLast ++ [inner]))
    | some _ => none

/-- Changes the table that a header path leads to. -/
def underHeader (path : List String) (change : Origin → Members → Option Members)
    (ms : Members) : Option Members :=
  within .implied (· ≠ .inline) change .header path ms

/-- The members with an entry.  Its key must be new, and the tables that its path goes through
must stem from keys; those before the last may also stem from headers below them. -/
def enter (path : List String) (value : Item) (ms : Members) : Option Members :=
  match path.getLast? with
  | none => none
  | some key =>
    let change (origin : Origin) (ms : Members) : Option Members :=
      if path.dropLast ≠ [] ∧ origin ≠ .dotted then none
      else if (ms.lookup key).isSome then none
      else some (ms ++ [(key, value)])
    within .dotted (fun o => o = .implied ∨ o = .dotted) change .header path.dropLast ms

/-- The members with the table that a header opens. -/
def openTable (path : List String) (ms : Members) : Option Members :=
  match path.getLast? with
  | none => none
  | some key =>
    ms.underHeader path.dropLast fun _ ms =>
      match ms.lookup key with
      | none => some (ms.put key (.table .header []))
      | some (.table .implied inner) => some (ms.put key (.table .header inner))
      | some _ => none

/-- The members with a further table of an array. -/
def openArrayTable (path : List String) (ms : Members) : Option Members :=
  match path.getLast? with
  | none => none
  | some key =>
    ms.underHeader path.dropLast fun _ ms =>
      match ms.lookup key with
      | none => some (ms.put key (.tables [[]]))
      | some (.tables all) => some (ms.put key (.tables (all ++ [[]])))
      | some _ => none

/-- The members with a list of entries, none of which extends a value. -/
def ofEntries (entries : List (List String × Item)) : Option Members :=
  entries.foldlM (fun ms entry => ms.enter entry.1 entry.2) []

end Members

/-- The members after a statement, and the path of the open table. -/
def Statement.apply (opened : List String) (ms : Members) :
    Statement → Option (List String × Members)
  | header path => (ms.openTable path).map (path, ·)
  | arrayHeader path => (ms.openArrayTable path).map (path, ·)
  | entry path value => (ms.underHeader opened fun _ ms => ms.enter path value).map (opened, ·)

/-- The members of the document that statements build. -/
def Members.ofStatements (statements : List Statement) : Option Members :=
  (statements.foldlM (fun (state : List String × Members) (s : Statement) =>
    s.apply state.1 state.2) ([], [])).map (·.2)

end SqlFront.Toml
