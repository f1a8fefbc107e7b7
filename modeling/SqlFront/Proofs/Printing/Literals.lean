import SqlFront.Proofs.Tokens.Blank
import SqlFront.Proofs.Tokens.Words
import SqlFront.Proofs.Text.Escapes

/-!
# String literals

`Text.literal` writes a text between quotes of either sort, with a backslash before each backslash
and each such quote.  Where the lexer looks for the end of the literal, a backslash takes the next
character along; where the value is made, a backslash before a backslash or a quote goes away.  The
two agree: the literal is one token, and its value is the text.
-/

namespace SqlFront

open Token

namespace Text

/-- Whether a character delimits string literals. -/
def isQuote (c : Char) : Bool := c = '\x27' || c = '\x22'

/-- A character of a literal between quotes `q`: backslashes and these quotes are escaped. -/
def escapeFor (q c : Char) : List Char := if c = '\\' ∨ c = q then ['\\', c] else [c]

/-- The string literal for a text, between quotes `q`. -/
def literal (q : Char) (text : String) : String :=
  String.ofList (q :: text.toList.flatMap (escapeFor q) ++ [q])

theorem eq_of_isQuote {q : Char} (hq : isQuote q) :
  q = '\x27' ∨ q = '\x22'
  := by
  simpa [isQuote] using hq

/-! ### The value of a literal -/

/-- A backslash before a backslash or a quote takes away their meaning. -/
theorem decode_escape {c : Char} (hc : c = '\\' ∨ isQuote c) (cs : List Char) :
  decode ('\\' :: c :: cs) = c :: decode cs
  := by
  have hc : c = '\\' ∨ c = '\x27' ∨ c = '\x22' := hc.imp_right eq_of_isQuote
  have hoctal : ∀ a b, octalEscape? c a b = none := by
    intro a b
    rcases hc with rfl | rfl | rfl <;> simp [octalEscape?]
  have hsimple : simpleEscape c = [c] := by
    rcases hc with rfl | rfl | rfl <;> rfl
  have hu : c ≠ 'u' := by
    rcases hc with rfl | rfl | rfl <;> decide
  rw [decode.eq_def]
  split
  · simp_all
  · simp_all
  · simp_all
  · next hother heq =>
      obtain ⟨rfl, rfl⟩ := List.cons.inj heq
      exact (hother _ _ rfl rfl).elim
  · simp_all

theorem decode_escapeFor {q : Char} (hq : isQuote q) (cs : List Char) :
  decode (cs.flatMap (escapeFor q)) = cs
  := by
  induction cs with
  | nil => rfl
  | cons c cs ih =>
      rw [List.flatMap_cons, escapeFor]
      split
      · next hc =>
          have hescaped : c = '\\' ∨ isQuote c := by
            rcases hc with rfl | rfl
            · exact .inl rfl
            · exact .inr hq
          simp [decode_escape hescaped, ih]
      · next hc =>
          rw [not_or] at hc
          simp [decode_plain hc.1, ih]

/-- A string literal has the value that it was made from. -/
theorem unescape_literal {q : Char} (hq : isQuote q) (text : String) :
  unescape (literal q text) = text
  := by
  simp [unescape, literal, betweenQuotes, decode_escapeFor hq]

/-! ### The end of a literal -/

theorem stringLength?_escapeFor {q : Char} (hq : isQuote q) (cs : List Char) :
  stringLength? q (cs.flatMap (escapeFor q) ++ [q]) = some (cs.flatMap (escapeFor q) ++ [q]).length
  := by
  induction cs with
  | nil => rcases eq_of_isQuote hq with rfl | rfl <;> rfl
  | cons c cs ih =>
      rw [List.flatMap_cons, escapeFor]
      split
      · simp only [List.cons_append, List.nil_append, stringLength?, ih]
        rfl
      · next hc =>
          rw [not_or] at hc
          simp only [List.cons_append, List.nil_append, stringLength?_cons hc.1, if_neg hc.2, ih]
          rfl

/-- A string literal is measured to its end, whatever follows. -/
theorem measure_literal {q : Char} (hq : isQuote q) (cs more : List Char) :
  Token.measure q (cs.flatMap (escapeFor q) ++ [q] ++ more) =
    .ok (.string, (cs.flatMap (escapeFor q) ++ [q]).length)
  := by
  have hblank : Token.isBlank q = false := by
    rcases eq_of_isQuote hq with rfl | rfl <;> rfl
  rw [Token.measure, if_neg (by simp [hblank]), if_pos (eq_of_isQuote hq),
    stringLength?_append more (stringLength?_escapeFor hq cs)]

/-- A string literal is one token. -/
theorem kindOf?_literal {q : Char} (hq : isQuote q) (text : String) :
  kindOf? (literal q text) = some .string
  := by
  have hmeasure := measure_literal hq text.toList []
  rw [List.append_nil] at hmeasure
  simp only [kindOf?, literal, String.toList_ofList, List.cons_append, hmeasure]
  simp [Kind.isHidden]

end Text

end SqlFront
