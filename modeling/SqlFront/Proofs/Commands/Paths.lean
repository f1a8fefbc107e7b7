import SqlFront.Proofs.Commands.LoadTexts
import SqlFront.Proofs.Printing.Gaps

/-!
# Paths

Every text that is not empty can be given as a path: written as one string literal with quotes of
either sort, or in pieces, as adjacent literals with any white space and comments between them.
-/

namespace SqlFront

open Cursor Token

namespace Text

/-! ### Texts in pieces -/

/-- A string literal behind another one: what stands between the two, the quotes of the literal and
the text that it is written for. -/
structure Further where
  gap : String
  quote : Char
  text : String

/-- Whether white space and comments, and then a literal, stand behind another literal. -/
def Further.IsValid (f : Further) : Prop := Gap f.gap.toList ∧ isQuote f.quote

/-- A literal and further ones behind it, as they are written. -/
def adjacent (q : Char) (first : String) (further : List Further) : String :=
  literal q first ++ String.join (further.map fun f => f.gap ++ literal f.quote f.text)

/-- The text that adjacent literals are written for. -/
def inPieces (first : String) (further : List Further) : String :=
  first ++ String.join (further.map (·.text))

/-- The literals among adjacent ones. -/
def literals (q : Char) (first : String) (further : List Further) : List String :=
  literal q first :: further.map fun f => literal f.quote f.text

section

variable {q : Char} {further : List Further} (first : String)

/-- Adjacent literals are spelled, whatever follows. -/
theorem spells_adjacent (hq : isQuote q) (hfurther : ∀ f ∈ further, f.IsValid) (more : List Char) :
  Spells ((adjacent q first further).toList ++ more) (literals q first further) more
  := by
  have hothers : Spells
      (further.flatMap (fun f => f.gap.toList ++ (literal f.quote f.text).toList) ++ more)
      (further.map fun f => literal f.quote f.text) more := by
    induction further with
    | nil => apply Spells.refl
    | cons f fs ih =>
        rw [List.forall_mem_cons] at hfurther
        obtain ⟨⟨hgap, hquote⟩, hfs⟩ := hfurther
        rw [List.flatMap_cons, List.append_assoc, List.append_assoc, List.map_cons]
        exact (spells_gap hgap _).trans ((spells_literal hquote _ _).cons (ih hfs))
  have htext : (adjacent q first further).toList ++ more = (literal q first).toList ++
      (further.flatMap (fun f => f.gap.toList ++ (literal f.quote f.text).toList) ++ more) := by
    simp only [adjacent, String.toList_append, String.toList_join, List.flatMap_map,
      List.append_assoc]
  rw [htext]
  exact (spells_literal hq first _).cons hothers

/-- Adjacent literals are texts, and their values are the pieces. -/
theorem kindOf?_literals (hq : isQuote q) (hfurther : ∀ f ∈ further, f.IsValid) :
  ∀ w ∈ literals q first further, kindOf? w = some .string
  := by
  rw [literals, List.forall_mem_cons, List.forall_mem_map]
  exact ⟨kindOf?_literal hq first, fun f hf => kindOf?_literal (hfurther f hf).2 f.text⟩

theorem join_unescape_literals (hq : isQuote q) (hfurther : ∀ f ∈ further, f.IsValid) :
  String.join ((literals q first further).map unescape) = inPieces first further
  := by
  have hothers : further.map (fun f => unescape (literal f.quote f.text)) = further.map (·.text) :=
    List.map_congr_left fun f hf => unescape_literal (hfurther f hf).2 f.text
  rw [literals, List.map_cons, List.map_map, unescape_literal hq, String.join_cons]
  exact congrArg (first ++ String.join ·) hothers

end

/-! ### Literals by themselves -/

/-- A literal by itself is a single token. -/
theorem list_literal {q : Char} (hq : isQuote q) (text : String) :
  ∃ t p, Token.list (literal q text) = .ok [t, .eof p] ∧ t.kind = .string ∧
    t.text = literal q text
  := by
  obtain ⟨c, cs, hword, hmeasure, -⟩ := kindOf?_eq_some (kindOf?_literal hq text)
  have hmeasure' : measure c (cs ++ []) = .ok (.string, cs.length) := by
    rw [List.append_nil, hmeasure]
  have hnext := next_of_measure_length .start hmeasure'
  rw [List.append_nil] at hnext
  refine ⟨⟨.string, textOf .string (c :: cs), .start, Position.start.afterAll (c :: cs)⟩,
    Position.start.afterAll (c :: cs), ?_, rfl, ?_⟩
  · rw [Token.list, Cursor.ofString, Cursor.ofList, hword,
      tokens_of_next (List.cons_ne_nil c cs) hnext, tokens_nil]
    rfl
  · rw [← hword, textOf, if_neg (by decide), String.ofList_toList]

end Text

open Text in
/-- **Every text can be written as a path.**  A text that is not empty, written as a string literal
with quotes of either sort, is a single token; and this literal, as well as any adjacent literals
whose texts are the pieces of the text, gives it as the path of a load. -/
theorem parseCommand_literal {q : Char} (hq : isQuote q) {text : String} (htext : text ≠ "") :
  (∃ t p, Token.list (literal q text) = .ok [t, .eof p] ∧ t.kind = .string ∧
      t.text = literal q text) ∧
    (∃ t : Table, t.parts = [⟨"t", false⟩] ∧
      parseCommand (loadText (literal q text) "t") = .ok (.load (.plain text t))) ∧
    ∀ q' first further, isQuote q' → (∀ f ∈ further, f.IsValid) → inPieces first further = text →
      ∃ t : Table, t.parts = [⟨"t", false⟩] ∧
        parseCommand (loadText (adjacent q' first further) "t") = .ok (.load (.plain text t))
  := by
  have hpieces : ∀ q' first further, isQuote q' → (∀ f ∈ further, Further.IsValid f) →
      inPieces first further = text → ∃ t : Table, t.parts = [⟨"t", false⟩] ∧
        parseCommand (loadText (adjacent q' first further) "t") = .ok (.load (.plain text t)) := by
    intro q' first further hq' hfurther hjoined
    let name : QualifiedName := ⟨[⟨"t", false, default⟩], default⟩
    have hname : name.isWritable := QualifiedName.isWritable_of_identifier kindOf?_table _ _
    have hvalue := join_unescape_literals first hq' hfurther
    rw [hjoined] at hvalue
    rw [← hvalue] at htext ⊢
    exact parseCommand_loadText hname (List.cons_ne_nil _ _) (kindOf?_literals first hq' hfurther)
      (spells_adjacent first hq' hfurther) (spells_last kindOf?_table) htext
  refine ⟨list_literal hq text, ?_, hpieces⟩
  have hone := hpieces q text [] hq (by simp) (by simp [inPieces])
  simpa [adjacent] using hone

/-- Quotes of both sorts and a backslash, in one literal and in two with a comment between them. -/
theorem parseCommand_literal_quotes :
  Text.isQuote '\x22' ∧ "it's \\ \x22u\x22" ≠ "" ∧
    Text.literal '\x22' "it's \\ \x22u\x22" = "\x22it's \\\\ \\\x22u\\\x22\x22" ∧
    (∃ t : Table, t.parts = [⟨"t", false⟩] ∧
      parseCommand (loadText (Text.literal '\x22' "it's \\ \x22u\x22") "t") =
        .ok (.load (.plain "it's \\ \x22u\x22" t))) ∧
    Text.adjacent '\x27' "it's \\" [⟨" /* b */\n", '\x22', " \x22u\x22"⟩] =
      "'it\\'s \\\\' /* b */\n\x22 \\\x22u\\\x22\x22" ∧
    ∃ t : Table, t.parts = [⟨"t", false⟩] ∧
      parseCommand (loadText
          (Text.adjacent '\x27' "it's \\" [⟨" /* b */\n", '\x22', " \x22u\x22"⟩]) "t") =
        .ok (.load (.plain "it's \\ \x22u\x22" t))
  := by
  obtain ⟨-, hone, htwo⟩ := @parseCommand_literal '\x22' rfl "it's \\ \x22u\x22" (by decide)
  have hgap : Gap " /* b */\n".toList := by
    have htext : " /* b */\n".toList =
        ' ' :: ('/' :: '*' :: ' ' :: (['b', ' '] ++ ['*', '/']) ++ ['\n']) := by decide
    have hcomment := @Comment.block ' ' ['b', ' '] (by decide) (by decide) (by decide)
    rw [htext]
    exact .blank rfl (.comment hcomment (.blank rfl .nil))
  have hfurther : ∀ f ∈ [(⟨" /* b */\n", '\x22', " \x22u\x22"⟩ : Text.Further)], f.IsValid := by
    rw [List.forall_mem_singleton]
    exact ⟨hgap, rfl⟩
  have hpieces := htwo '\x27' "it's \\" _ rfl hfurther (by decide +kernel)
  exact ⟨rfl, by decide, by decide +kernel, hone, by decide +kernel, hpieces⟩

end SqlFront
