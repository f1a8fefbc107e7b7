import SqlFront.Proofs.Printing.Pieces
import SqlFront.Proofs.Tokens.Cut

/-!
# White space and comments between words

A gap is a text of blanks and comments.  Whatever follows it, a gap spells nothing
(`Cursor.spells_gap`).
-/

namespace SqlFront

open Token

/-! ### Comments and gaps -/

/-- Comments: two dashes and the line to its end, or what is between `/*` and the next `*/`.  A plus
sign behind `/*` marks a hint, which is no comment. -/
inductive Token.Comment : List Char → Prop where
  | line {cs lineEnd : List Char} (isLine : ∀ c ∈ cs, c ≠ '\r' ∧ c ≠ '\n')
      (ends : lineEnd = ['\n'] ∨ lineEnd = ['\r'] ∨ lineEnd = ['\r', '\n']) :
      Comment ('-' :: '-' :: (cs ++ lineEnd))
  | empty : Comment ['/', '*', '*', '/']
  | block {c : Char} {cs : List Char} (noHint : c ≠ '+')
      (notEmpty : ¬ (c = '*' ∧ cs.head? = some '/')) (closes : ¬ ['*', '/'] <:+: cs ++ ['*']) :
      Comment ('/' :: '*' :: c :: (cs ++ ['*', '/']))

/-- Blanks and comments, in any order and number. -/
inductive Token.Gap : List Char → Prop where
  | nil : Gap []
  | blank {c : Char} {cs : List Char} (isBlank : isBlank c) (others : Gap cs) : Gap (c :: cs)
  | comment {xs cs : List Char} (isComment : Comment xs) (others : Gap cs) : Gap (xs ++ cs)

namespace Token

variable {cs lineEnd more : List Char}

/-- A line is measured with the line feed that follows its carriage return. -/
theorem lineLength_line (h : ∀ c ∈ cs, c ≠ '\r' ∧ c ≠ '\n') :
  lineLength (cs ++ more) = cs.length + lineLength more
  := by
  induction cs with
  | nil => simp
  | cons c cs ih =>
      rw [List.forall_mem_cons] at h
      rw [List.cons_append, Cursor.lineLength_cons h.1, ih h.2, List.length_cons]
      omega

/-- An end of a line is measured, and with it a line feed that follows a carriage return. -/
theorem lineLength_lineEnd (h : lineEnd = ['\n'] ∨ lineEnd = ['\r'] ∨ lineEnd = ['\r', '\n'])
    (more : List Char) :
  lineLength (lineEnd ++ more) = lineEnd.length ∨
    lineEnd = ['\r'] ∧ ∃ rest, more = '\n' :: rest ∧ lineLength (lineEnd ++ more) = 2
  := by
  have hrun : ∀ c cs, c = '\r' ∨ c = '\n' →
      Match.runLength (fun c => c != '\r' && c != '\n') (c :: cs) = 0 := by
    rintro c cs (rfl | rfl) <;> rfl
  rcases h with rfl | rfl | rfl
  · exact .inl rfl
  · cases more with
    | nil => exact .inl rfl
    | cons c rest =>
        by_cases hc : c = '\n'
        · subst hc
          exact .inr ⟨rfl, rest, rfl, rfl⟩
        · left
          simp [lineLength, hrun, lineEndLength, hc]
  · exact .inl rfl

/-- A line comment is measured to its end. -/
theorem measure_lineComment (hline : ∀ c ∈ cs, c ≠ '\r' ∧ c ≠ '\n')
    (hend : lineLength (lineEnd ++ more) = lineEnd.length) :
  measure '-' ('-' :: (cs ++ lineEnd) ++ more) =
    .ok (.lineComment, ('-' :: (cs ++ lineEnd)).length)
  := by
  rw [List.cons_append, measure_dashes, List.append_assoc, lineLength_line hline, hend,
    List.length_cons, List.length_append, Nat.add_comm]

/-- A bracketed comment is measured to the first place where it may end. -/
theorem commentLength?_of_closes (h : ¬ ['*', '/'] <:+: cs ++ ['*']) :
  commentLength? (cs ++ ['*', '/']) = some (cs ++ ['*', '/']).length
  := by
  induction cs with
  | nil => rfl
  | cons c cs ih =>
      have htail : ¬ ['*', '/'] <:+: cs ++ ['*'] :=
        fun hwithin => h (hwithin.trans (List.suffix_cons c _).isInfix)
      have hend : ∀ tail, c = '*' → cs ++ ['*', '/'] = '/' :: tail → False := by
        rintro tail rfl htext
        cases cs with
        | nil => simp at htext
        | cons d cs =>
            obtain rfl := (List.cons.inj htext).1
            exact h ⟨[], cs ++ ['*'], by simp⟩
      rw [List.cons_append, commentLength?, ih htail]
      · rfl
      · exact hend

end Token

/-! ### Gaps are not visible -/

namespace Cursor

variable {cs xs : List Char}

theorem spells_comment (h : Comment xs) (more : List Char) :
  Spells (xs ++ more) [] more
  := by
  cases h with
  | @line cs lineEnd isLine ends =>
      rcases lineLength_lineEnd ends more with hend | ⟨rfl, rest, rfl, hend⟩
      · exact spells_of_hidden (measure_lineComment isLine hend) rfl
      · -- the line feed belongs to the comment, and where it does not it is a blank
        intro p
        have hmeasure : measure '-' ('-' :: (cs ++ ['\r', '\n']) ++ rest) =
            .ok (.lineComment, ('-' :: (cs ++ ['\r', '\n'])).length) :=
          measure_lineComment isLine hend
        have htext : '-' :: '-' :: (cs ++ ['\r']) ++ '\n' :: rest =
            '-' :: ('-' :: (cs ++ ['\r', '\n'])) ++ rest := by simp
        have hposition : p.afterAll ('-' :: '-' :: (cs ++ ['\r', '\n'])) =
            (p.afterAll ('-' :: '-' :: (cs ++ ['\r']))).after '\n' := by
          simp [Position.afterAll]
        refine ⟨[], p.afterAll ('-' :: '-' :: (cs ++ ['\r'])), rfl, ?_⟩
        rw [htext, visible_of_next (by simp) (next_of_measure_length p hmeasure),
          visible_cons_blank rfl, ← hposition]
        rfl
  | empty =>
      have hmeasure : measure '/' (['*', '*', '/'] ++ more) = .ok (.emptyComment, 3) := rfl
      exact spells_of_hidden hmeasure rfl
  | @block c cs noHint notEmpty closes =>
      have hlength := commentLength?_append more (commentLength?_of_closes closes)
      have hempty : ¬ (c = '*' ∧ (cs ++ ['*', '/'] ++ more).head? = some '/') := by
        cases cs <;> simp_all
      have hmeasure : measure '/' ('*' :: c :: (cs ++ ['*', '/']) ++ more) =
          .ok (.blockComment, ('*' :: c :: (cs ++ ['*', '/'])).length) := by
        rw [Token.measure, if_neg (by decide), if_neg (by decide), if_neg (by decide),
          if_neg (by simp), if_pos rfl, List.cons_append, List.cons_append,
          measureSlash_comment hempty noHint, hlength]
        rfl
      exact spells_of_hidden hmeasure rfl

theorem spells_gap (h : Gap cs) (more : List Char) :
  Spells (cs ++ more) [] more
  := by
  induction h with
  | nil => exact .refl more
  | blank isBlank _ ih => exact (spells_blank isBlank _).trans ih
  | comment isComment _ ih =>
      rw [List.append_assoc]
      exact (spells_comment isComment _).trans ih

end Cursor

end SqlFront
