import SqlFront.Token.Next

/-!
# Iterating over tokens

An iterator hands out the tokens of a text one by one, hidden ones included.  It is
exhausted after the token `eof` and after a fault.
-/

namespace SqlFront

/-- A cursor that remembers whether its last token or a fault has been handed out. -/
structure TokenIterator where
  cursor : Cursor
  exhausted : Bool
deriving DecidableEq, Repr

namespace TokenIterator

/-- The iterator at the beginning of a text. -/
def ofString (text : String) : TokenIterator := ⟨.ofString text, false⟩

/-- The next token or the fault that stands in its place, unless the iterator is exhausted;
a fault leaves the cursor where it is. -/
def next? (it : TokenIterator) : Option (Except Fault Token × TokenIterator) :=
  if it.exhausted then none
  else
    match it.cursor.next with
    | .error e => some (.error e, ⟨it.cursor, true⟩)
    | .ok (t, c) => some (.ok t, ⟨c, t.kind = .eof⟩)

/-- The tokens from a cursor on, up to `eof` or the first fault, and the cursor there. -/
def walk (c : Cursor) : List (Except Fault Token) × Cursor :=
  if _hc : c.rest = [] then ([.ok (.eof c.position)], c)
  else
    match _h : c.next with
    | .error e => ([.error e], c)
    | .ok (t, d) =>
      let (found, last) := walk d
      (.ok t :: found, last)
termination_by c.rest.length
decreasing_by exact Cursor.length_rest_next _h _hc

/-- All that the iterator still hands out, in order, and the exhausted iterator. -/
def drain (it : TokenIterator) : List (Except Fault Token) × TokenIterator :=
  if it.exhausted then ([], it)
  else
    let (found, last) := walk it.cursor
    (found, ⟨last, true⟩)

/-- The tokens ahead, or their first fault, also if the iterator is exhausted. -/
def readAll (it : TokenIterator) : Except Fault (List Token) × TokenIterator :=
  let (found, last) := walk it.cursor
  (found.mapM id, { it with cursor := last })

end TokenIterator

end SqlFront
