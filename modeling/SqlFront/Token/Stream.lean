import SqlFront.Token.Next

/-!
# Token streams

A stream gives the visible tokens of a text with lookahead.  Tokens are read from the text
only on demand; hidden tokens met on the way are set aside in order.  At the end of the text
the token `eof` is given again and again, and a fault of the text is met again whenever the
token behind it is demanded.
-/

namespace SqlFront

/-- A text whose visible tokens are read on demand: the tokens `ahead` are read but not yet
taken, `hidden` are the hidden tokens read so far, and `last` is the region of the token
taken last.  That the text has ended is no part of the state: it has where `cursor.rest` is empty,
and `eof` is made at `cursor.position` whenever it is asked for. -/
structure Stream where
  cursor : Cursor
  ahead : List Token
  hidden : Array Token
  last : Span
deriving DecidableEq, Repr

namespace Stream

/-- The stream of a text from its beginning. -/
def ofString (text : String) : Stream := ⟨.ofString text, [], #[], .point .start⟩

/-- A bound on the number of visible tokens that have not been taken. -/
def size (s : Stream) : Nat := s.ahead.length + s.cursor.rest.length

/-- Reads on until `n` tokens are ahead or the text ends; a fault stops the reading. -/
def demand (n : Nat) (s : Stream) : Option Fault × Stream :=
  if n ≤ s.ahead.length then (none, s)
  else if _hc : s.cursor.rest = [] then (none, s)
  else
    match _h : s.cursor.next with
    | .error e => (some e, s)
    | .ok (t, c) =>
      if t.kind.isHidden then demand n { s with cursor := c, hidden := s.hidden.push t }
      else demand n { s with cursor := c, ahead := s.ahead ++ [t] }
termination_by s.cursor.rest.length
decreasing_by all_goals exact Cursor.length_rest_next _h _hc

/-- The visible token `k` places ahead, or `eof` past the end. -/
def peek (k : Nat) (s : Stream) : Except Fault Token × Stream :=
  match s.demand (k + 1) with
  | (some e, s) => (.error e, s)
  | (none, s) => (.ok (s.ahead[k]?.getD (.eof s.cursor.position)), s)

/-- Takes the next visible token; at the end of the text, `eof`. -/
def next (s : Stream) : Except Fault Token × Stream :=
  match s.demand 1 with
  | (some e, s) => (.error e, s)
  | (none, s) =>
    match s.ahead with
    | t :: ahead => (.ok t, { s with ahead := ahead, last := t.span })
    | [] => (.ok (.eof s.cursor.position), { s with last := .point s.cursor.position })

/-- The kind of the visible token `k` places ahead. -/
def peekKind (k : Nat) (s : Stream) : Except Fault Kind × Stream :=
  let (answer, s) := s.peek k
  (answer.map (·.kind), s)

/-- Whether no visible token lies ahead. -/
def isAtEnd (s : Stream) : Except Fault Bool × Stream :=
  let (answer, s) := s.peekKind 0
  (answer.map (· = .eof), s)

end Stream

end SqlFront
