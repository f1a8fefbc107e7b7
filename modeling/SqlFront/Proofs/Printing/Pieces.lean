import SqlFront.Proofs.Printing.Leaves
import SqlFront.Proofs.Tokens.Append

/-!
# Texts in pieces

`Cursor.Spells cs words more` says that the visible tokens of the text `cs` are those of `words`,
one for each, and then those of `more`, wherever the text stands.  So what a text consists of can be
found out piece by piece, and positions need not be followed.
-/

namespace SqlFront

open Token

/-! ### Pieces -/

namespace Cursor

/-- The visible tokens of `cs` are `words`, and behind them those of `more`. -/
def Spells (cs : List Char) (words : List String) (more : List Char) : Prop :=
  ∀ p, ∃ ts q, forget ts = words.map ofWord ∧
    visible ⟨cs, p⟩ = (ts ++ (visible ⟨more, q⟩).1, (visible ⟨more, q⟩).2)

variable {cs mid more : List Char} {vs ws : List String} {c : Char} {kind : Kind}

theorem Spells.refl (cs : List Char) :
  Spells cs [] cs
  := fun p => ⟨[], p, rfl, rfl⟩

theorem Spells.trans (h : Spells cs vs mid) (h' : Spells mid ws more) :
  Spells cs (vs ++ ws) more
  := by
  intro p
  obtain ⟨ts, q, hts, hvisible⟩ := h p
  obtain ⟨us, r, hus, hvisible'⟩ := h' q
  refine ⟨ts ++ us, r, ?_, ?_⟩
  · rw [List.map_append, ← hts, ← hus]
    apply List.map_append
  · rw [hvisible, hvisible', List.append_assoc]

/-- A word is taken, and more follows. -/
theorem Spells.cons {w : String} (h : Spells cs [w] mid) (h' : Spells mid ws more) :
  Spells cs (w :: ws) more
  := h.trans h'

/-- What is measured at the front of a text is its next token. -/
theorem next_of_measure_length (p : Position) (h : measure c (cs ++ more) = .ok (kind, cs.length)) :
  next ⟨c :: cs ++ more, p⟩ =
    .ok (⟨kind, textOf kind (c :: cs), p, p.afterAll (c :: cs)⟩, ⟨more, p.afterAll (c :: cs)⟩)
  := by
  have htake : (c :: cs ++ more).take (cs.length + 1) = c :: cs :=
    List.take_left' List.length_cons
  have hskip : skip ⟨c :: cs ++ more, p⟩ (cs.length + 1) = ⟨more, p.afterAll (c :: cs)⟩ :=
    skip_length (c :: cs) more p
  rw [List.cons_append, next_of_measure p h, ← List.cons_append, htake, hskip]

/-- A word is spelled where all of it is measured. -/
theorem spells_of_measure {word : String} (hword : word.toList = c :: cs)
    (hkind : kindOf? word = some kind) (h : measure c (cs ++ more) = .ok (kind, cs.length)) :
  Spells (word.toList ++ more) [word] more
  := by
  intro p
  have hnext := next_of_measure_length p h
  obtain ⟨-, -, -, -, hvisible, -⟩ := kindOf?_eq_some hkind
  refine ⟨[⟨kind, textOf kind (c :: cs), p, p.afterAll (c :: cs)⟩], p.afterAll (c :: cs), ?_, ?_⟩
  · rw [List.map_singleton, ofWord, hkind, hword]
    rfl
  · rw [hword, visible_of_next (by simp) hnext, hvisible]
    rfl

/-- A word at the end of the text is spelled. -/
theorem spells_last {word : String} (hkind : kindOf? word = some kind) :
  Spells word.toList [word] []
  := by
  obtain ⟨c, cs, hword, hmeasure, -⟩ := kindOf?_eq_some hkind
  rw [← List.append_nil word.toList]
  apply spells_of_measure hword hkind
  rw [List.append_nil, hmeasure]

/-- A string literal is spelled, whatever follows. -/
theorem spells_literal {q : Char} (hq : Text.isQuote q) (text : String) (more : List Char) :
  Spells ((Text.literal q text).toList ++ more) [Text.literal q text] more
  := by
  have hlist : (Text.literal q text).toList =
      q :: (text.toList.flatMap (Text.escapeFor q) ++ [q]) := by
    rw [Text.literal, String.toList_ofList, List.cons_append]
  exact spells_of_measure hlist (Text.kindOf?_literal hq text) (Text.measure_literal hq _ more)

/-- What is hidden spells nothing. -/
theorem spells_of_hidden (h : measure c (cs ++ more) = .ok (kind, cs.length))
    (hkind : kind.isHidden) :
  Spells (c :: cs ++ more) [] more
  := by
  intro p
  refine ⟨[], p.afterAll (c :: cs), rfl, ?_⟩
  rw [visible_of_next (by simp) (next_of_measure_length p h), if_pos hkind]
  rfl

theorem spells_blank (hc : isBlank c) (cs : List Char) :
  Spells (c :: cs) [] cs
  := fun p => ⟨[], p.after c, rfl, visible_cons_blank hc cs p⟩

/-- A word before a blank is spelled. -/
theorem spells_word {word : String} (hkind : kindOf? word = some kind) (more : List Char) :
  Spells (word.toList ++ ' ' :: more) [word] more
  := by
  have hword : Spells (word.toList ++ ' ' :: more) [word] (' ' :: more) := by
    intro p
    obtain ⟨t, q, hnext, ht, hvisible⟩ := next_word (' ' :: more) p hkind (.inr ⟨more, rfl⟩)
    obtain ⟨c, cs, hw, -⟩ := kindOf?_eq_some hkind
    refine ⟨[t], q, ?_, ?_⟩
    · rw [List.map_singleton, ← ht]
      rfl
    · rw [visible_of_next (by simp [hw]) hnext, hvisible]
      rfl
  exact hword.trans (spells_blank rfl more)

/-- Words with a blank behind each are spelled. -/
theorem spells_words (hwords : AreTokens ws) (more : List Char) :
  Spells (ws.flatMap (fun w => w.toList ++ [' ']) ++ more) ws more
  := by
  induction ws with
  | nil => apply Spells.refl
  | cons w ws ih =>
      rw [areTokens_cons] at hwords
      obtain ⟨kind, hkind⟩ := Option.isSome_iff_exists.mp hwords.1
      rw [List.flatMap_cons, List.append_assoc, List.append_assoc]
      exact (spells_word hkind _).cons (ih hwords.2)

end Cursor

/-! ### The tape of a text in pieces -/

/-- The tape of a text begins with the words that the text spells. -/
theorem Tape.tokens_of_spells {text : String} {words : List String} {more : List Char}
    (h : Cursor.Spells text.toList words more) :
  ∃ ts q, forget ts = words.map ofWord ∧
    (ofString text).tokens = ts ++ (Cursor.visible ⟨more, q⟩).1 ∧
    (ofString text).stop = (Cursor.visible ⟨more, q⟩).2
  := by
  obtain ⟨ts, q, hts, hvisible⟩ := h .start
  have htokens := congrArg Prod.fst hvisible
  have hstop := congrArg Prod.snd hvisible
  exact ⟨ts, q, hts, htokens, hstop⟩

/-- A text that spells nothing but words has no further tokens. -/
theorem Tape.tokens_of_spells_nil {text : String} {words : List String}
    (h : Cursor.Spells text.toList words []) :
  ∃ p, forget (ofString text).tokens = words.map ofWord ∧ (ofString text).stop = .ok p
  := by
  obtain ⟨ts, q, hts, htokens, hstop⟩ := tokens_of_spells h
  rw [Cursor.visible_of_rest_eq_nil rfl] at htokens hstop
  refine ⟨q, ?_, hstop⟩
  rw [htokens, List.append_nil, hts]

end SqlFront
