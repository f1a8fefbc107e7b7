import SqlFront.Proofs.Grammar.StatementTidy
import SqlFront.Proofs.Reading.Lookahead
import SqlFront.Proofs.Tokens.Append

/-!
# What a text can be read as

A text can be read as one statement, as a script or as one expression, and so can what is left of a
text when something has been read from it.  The three entries have in common that they are
productions of the outermost level: what they give does not depend on the bounds on the lengths of
lists, and they locate their faults.
-/

namespace SqlFront

/-- What a text can be read as. -/
inductive Entry where
  | statement | script | expression
deriving DecidableEq, Repr

/-- The nodes that the tokens ahead are read as. -/
def Stream.readAs (s : Stream) : Entry → Except Fault (List Node) × Stream
  | .statement => (s.statement.1.map ([·]), s.statement.2)
  | .script => s.script
  | .expression => (s.expression.1.map ([·]), s.expression.2)

/-- The nodes that a text is read as. -/
def parseAs (entry : Entry) (text : String) : Except Fault (List Node) :=
  ((Stream.ofString text).readAs entry).1

/-- The streams of a text from which any number of things have been read, with or without success. -/
inductive Stream.Reached (text : String) : Stream → Prop where
  | start : Reached text (.ofString text)
  | readAs {s : Stream} (before : Reached text s) (entry : Entry) : Reached text (s.readAs entry).2

theorem parseAs_statement (text : String) :
  parseAs .statement text = (parseStatement text).map ([·])
  := rfl

theorem parseAs_script (text : String) :
  parseAs .script text = parseScript text
  := rfl

/-! ### The productions of entries -/

namespace Entry

open Grammar Production

/-- The production of an entry. -/
def production (inner : Inner) : Entry → Production (List Node)
  | .statement => ([·]) <$> soleStatement inner
  | .script => Grammar.script inner
  | .expression => ([·]) <$> soleExpression inner

theorem production_locates {inner : Inner} (hin : inner.Tidy) (entry : Entry) :
  LocatesAt [] (entry.production inner)
  := by
  cases entry with
  | statement => exact (soleStatement_locates hin).bind fun _ => (tidy_pure _).locates
  | script => exact statements_locates hin inner.bound []
  | expression => exact (soleExpression_locates hin).bind fun _ => (tidy_pure _).locates

theorem production_follows {c : Embedding} (hc : c.total) {limit : Nat} {inner inner' : Inner}
    (hin : inner.Follows c limit inner') (entry : Entry) :
  Follows c limit (entry.production inner) (entry.production inner')
  := by
  cases entry with
  | statement => exact (soleStatement_follows hin hc).map fun _ => rfl
  | script => exact statements_follows hin hc hin.bound []
  | expression => exact (soleExpression_follows hin).map fun _ => rfl

/-- On a moved tape the same is read, moved, whatever the bounds on the lengths of lists. -/
theorem eval_move (entry : Entry) (f : Position → Position) {n m : Nat} {s : Tape}
    (hn : s.tokens.length < n) (hm : s.tokens.length < m) :
  (entry.production (.outermost m)).eval (move f s) =
    (move f ((entry.production (.outermost n)).eval s).1,
      move f ((entry.production (.outermost n)).eval s).2)
  := by
  have hin : (Inner.outermost n).Follows (.moved f fun _ => False) (s.tokens.length + 1)
      (.outermost m) := Inner.nested_natural ⟨hn, hm⟩ maxNesting
  rcases (entry.production_follows trivial hin).eval_move (Nat.lt_succ_self _) with
    h | ⟨e, s', -, hallow⟩
  · exact h
  · contradiction

/-- The bounds on the lengths of lists do not matter. -/
theorem eval_bound (entry : Entry) {n m : Nat} {s : Tape} (hn : s.tokens.length < n)
    (hm : s.tokens.length < m) :
  (entry.production (.outermost m)).eval s = (entry.production (.outermost n)).eval s
  := by
  have hsame := entry.eval_move id hn hn
  have hother := entry.eval_move id hn hm
  rw [Tape.move_id] at hsame hother
  rw [hother, ← hsame]

theorem eval_map_singleton {p : Production Node} {s : Tape} :
  (([·]) <$> p : Production (List Node)).eval s = ((p.eval s).1.map ([·]), (p.eval s).2)
  := by
  change (p >>= fun a => pure [a]).eval s = _
  rw [eval_bind]
  rcases p.eval s with ⟨e | a, s'⟩ <;> rfl

/-- An entry reads from a stream what its production reads on the tape of the stream. -/
theorem readAs_eq (entry : Entry) (s : Stream) :
  ((s.readAs entry).1, (s.readAs entry).2.tape) =
    (entry.production (.outermost (s.size + 1))).eval s.tape
  := by
  cases entry with
  | statement =>
      rw [production, eval_map_singleton, ← run_eq_eval]
      rfl
  | script => apply run_eq_eval
  | expression =>
      rw [production, eval_map_singleton, ← run_eq_eval]
      rfl

end Entry

/-- A text is read on its tape, with any bound that is large enough. -/
theorem parseAs_eq (entry : Entry) {text : String} {n : Nat}
    (hn : (Tape.ofString text).tokens.length < n) :
  parseAs entry text = ((entry.production (.outermost n)).eval (.ofString text)).1
  := by
  have hbound := entry.eval_bound (Stream.ofString text).length_tape_lt hn
  change _ = ((entry.production (.outermost n)).eval (Stream.ofString text).tape).1
  rw [hbound]
  exact congrArg Prod.fst (entry.readAs_eq (.ofString text))

/-- A text is read as a statement on its tape. -/
theorem parseStatement_eq {text : String} {n : Nat} (hn : (Tape.ofString text).tokens.length < n) :
  parseStatement text = ((Grammar.soleStatement (.outermost n)).eval (.ofString text)).1
  := by
  have hmap := parseAs_eq .statement hn
  rw [parseAs_statement, Entry.production, Entry.eval_map_singleton] at hmap
  cases hleft : parseStatement text <;>
    cases hright : ((Grammar.soleStatement (.outermost n)).eval (.ofString text)).1 <;>
    simp_all [Except.map]

/-! ### What is left of a text -/

namespace Stream.Reached

variable {text : String} {s : Stream}

/-- Tokens are only taken from the front of a text, and what stands behind them stays. -/
theorem tape (h : Reached text s) :
  s.tape.tokens <:+ (Tape.ofString text).tokens ∧ s.tape.stop = (Tape.ofString text).stop
  := by
  induction h with
  | start => exact ⟨List.suffix_rfl, rfl⟩
  | @readAs s _ entry ih =>
      have htape := congrArg Prod.snd (entry.readAs_eq s)
      simp only at htape
      rw [htape, Production.stop_eval]
      exact ⟨(Production.tokens_eval_suffix _ _).trans ih.1, ih.2⟩

end Stream.Reached

/-! ### Faults of the text itself -/

/-- A fault behind the tokens of a text is a string or a comment without end. -/
theorem Cursor.kind_of_stop {c : Cursor} {e : Fault} (h : c.visible.2 = .error e) :
  e.cause.kind = .lexical
  := by
  fun_induction Cursor.visible c with
  | case1 => contradiction
  | case2 c hc e' he =>
      obtain rfl : e' = e := by simpa using h
      obtain ⟨_ | ⟨x, cs⟩, p⟩ := c
      · contradiction
      · obtain ⟨cause, hmeasure, rfl⟩ := next_cons_eq_error_iff.mp he
        rcases Token.cause_of_measure hmeasure with rfl | rfl <;> rfl
  | case3 c hc t d hnext ts stop hvisible hhidden ih =>
      rw [hvisible] at ih
      exact ih h
  | case4 c hc t d hnext ts stop hvisible hhidden ih =>
      rw [hvisible] at ih
      exact ih h

/-- It is the fault that the list of the tokens of the text ends with. -/
theorem Token.list_of_stop {text : String} {e : Fault} (h : (Tape.ofString text).stop = .error e) :
  list text = .error e
  := by
  have hstop : (Cursor.ofString text).transcript.stop = .error e := by
    rw [← h]
    exact (congrArg Prod.snd (Cursor.ofString text).visible_eq).symm
  have htokens := (Cursor.ofString text).tokens_eq
  rw [hstop] at htokens
  exact htokens

end SqlFront
